import LBeacon.Budget
import LBeacon.RoundTrip

/-!
# From the tracked lists to the send queue

`handle_tracked_object_data` with the queue that it hands its message to.
-/

open CText CMemory

namespace LBeacon

/-! ## The call -/

/-- `handle_tracked_object_data`, with `udp_addpkt` and the queue behind it. The return value of
`udp_addpkt` is not looked at. -/
def Uplink.handleTrackedObjectData (c : Codec) (cfg : Config) (gatewayAddr : Str)
    (gatewayPort : Nat) (w : World) (s : Tracker) (q : PktQueue) :
    Watched (ErrorCode × Tracker × PktQueue) :=
  if s.brObjectList = [] ∧ s.bleObjectList = [] then return (.workSuccessfully, s, q)
  else
    match beaconBasicInfo cfg w s with
    | (.workSuccessfully, message, s) => do
      let (brText, s) := consolidateTrackedData s .br (sizeT (wifiMessageLength - message.length))
      let message := message ++ brText
      let (bleText, s) := consolidateTrackedData s .ble (sizeT (wifiMessageLength - message.length))
      let message := message ++ bleText
      let r ← udpAddpkt c q (Ptr.ofBuf gatewayAddr networkAddrLength) gatewayPort
        (Ptr.ofBuf message wifiMessageLength)
      -- `printf` asks for the time once more.
      return (.workSuccessfully, (s.addpkt message).tick, r.2)
    | (_, _, s) => return (.ePrepareResponseBasicInfo, s, q)

theorem Uplink.cases (c : Codec) (cfg : Config) (gatewayAddr : Str) (gatewayPort : Nat) (w : World)
    (s : Tracker) (q : PktQueue) :
    let r := Uplink.handleTrackedObjectData c cfg gatewayAddr gatewayPort w s q
    let sent := udpAddpkt c q (Ptr.ofBuf gatewayAddr networkAddrLength) gatewayPort
      (Ptr.ofBuf (pollMessage cfg w s) wifiMessageLength)
    (s.brObjectList = [] ∧ s.bleObjectList = [] ∧ r.value = (.workSuccessfully, s, q) ∧
      r.faults = []) ∨
    (maxLengthRespBasicInfo < (basicInfo cfg w s).length ∧
      r.value = (.ePrepareResponseBasicInfo, s.tick, q)) ∨
    ((basicInfo cfg w s).length ≤ maxLengthRespBasicInfo ∧
      r.value = (.workSuccessfully, s.polled cfg w, sent.value.2) ∧ r.faults = sent.faults) := by
  intro r sent
  unfold r Uplink.handleTrackedObjectData
  by_cases hempty : s.brObjectList = [] ∧ s.bleObjectList = []
  · rw [if_pos hempty]
    exact Or.inl ⟨hempty.1, hempty.2, rfl, rfl⟩
  rw [if_neg hempty]
  right
  rcases Nat.lt_or_ge maxLengthRespBasicInfo (basicInfo cfg w s).length with hlong | hshort
  · rw [beaconBasicInfo_long hlong]
    exact Or.inl ⟨hlong, rfl⟩
  · rw [beaconBasicInfo_fits hshort]
    right
    simp only [consolidate_eq, value_bind, faults_bind, value_pure, faults_pure, List.append_nil]
    refine ⟨hshort, ?_, rfl⟩
    simp only [Tracker.polled, pollFreed, freeAll_append]
    rfl

/-! ## The message is a string -/

theorem notMem_payloadText {c : Char} (hdigit : ∀ n, n < 16 → decimalToHex n ≠ c)
    (d : ScannedDevice) : c ∉ payloadText d := by
  unfold payloadText
  split
  · rw [List.mem_append, not_or]
    exact ⟨notMem_printable hdigit _, notMem_printable hdigit _⟩
  · exact List.not_mem_nil

theorem nul_notMem_deviceRecord (d : ScannedDevice) : NUL ∉ deviceRecord d := by
  have hpayload : NUL ∉ payloadText d := notMem_payloadText (by decide) d
  have hdelim : NUL ∉ [';'] := by decide
  unfold deviceRecord
  simp only [List.mem_append, not_or]
  simp only [nul_notMem_cstr, nul_notMem_intText, hpayload, hdelim, not_false_eq_true, and_self]

theorem nul_notMem_listHeader (deviceType : DeviceType) (count : Nat) :
    NUL ∉ listHeader deviceType count := by
  have hdelim : NUL ∉ [';'] := by decide
  unfold listHeader
  simp only [List.mem_append, not_or]
  simp only [nul_notMem_intText, hdelim, not_false_eq_true, and_self]

theorem nul_notMem_consolidateText (deviceType : DeviceType) (nodes : List ScannedDevice) (m : Nat) :
    NUL ∉ consolidateText deviceType nodes m := by
  unfold consolidateText
  rw [List.mem_append, not_or]
  refine ⟨nul_notMem_listHeader _ _, fun h => ?_⟩
  obtain ⟨d, -, hd⟩ := List.mem_flatMap.mp h
  exact nul_notMem_deviceRecord d hd

theorem nul_notMem_pollMessage {cfg : Config} (huuid : NUL ∉ cfg.uuid) (haddr : NUL ∉ cfg.localAddr)
    (w : World) (s : Tracker) : NUL ∉ pollMessage cfg w s := by
  have hhead : NUL ∉ "8;4;1.3;".toList := by decide
  have hdelim : NUL ∉ [';'] := by decide
  have htime (n : Int) (k : Nat) : NUL ∉ (intText n).take k :=
    fun h => nul_notMem_intText n (List.mem_of_mem_take h)
  unfold pollMessage basicInfo basicInfoText brText bleText
  simp only [List.mem_append, not_or]
  simp only [hhead, huuid, haddr, hdelim, htime, nul_notMem_consolidateText, not_false_eq_true,
    and_self]

/-! ## What the message says of a node -/

/-- The text about some of a list's slots. -/
def Tracker.report (s : Tracker) (list : TrackedList) (slots : List Slot) : Str :=
  let printed := (slots.map s.dev).filter fun d => !isDiscarded d
  listHeader list.deviceType printed.length ++ printed.flatMap deviceRecord

theorem report_length (s : Tracker) (list : TrackedList) (slots : List Slot) :
    (s.report list slots).length = textLength (slots.map s.dev) := by
  unfold Tracker.report
  rw [List.length_append, records_length, listHeader_length]
  rfl

theorem report_discarded {s : Tracker} {slots : List Slot} (h : ∀ a ∈ slots, isDiscarded (s.dev a))
    (list : TrackedList) : s.report list slots = s.report list [] := by
  have hnone : ((slots.map s.dev).filter fun d => !isDiscarded d) = [] := by
    rw [List.filter_eq_nil_iff]
    intro d hd
    obtain ⟨a, ha, rfl⟩ := List.mem_map.mp hd
    simp [h a ha]
  unfold Tracker.report
  rw [hnone]
  rfl

theorem record_infix_report {s : Tracker} {slots : List Slot} {a : Slot} (ha : a ∈ slots)
    (hkept : isDiscarded (s.dev a) = false) (list : TrackedList) :
    deviceRecord (s.dev a) <:+: s.report list slots := by
  have hprinted : s.dev a ∈ (slots.map s.dev).filter fun d => !isDiscarded d :=
    List.mem_filter.mpr ⟨List.mem_map_of_mem ha, by simp [hkept]⟩
  obtain ⟨before, after, hsplit⟩ := List.append_of_mem hprinted
  unfold Tracker.report
  simp only [hsplit, List.flatMap_append, List.flatMap_cons]
  exact (List.prefix_append _ _).isInfix.trans
    ((List.suffix_append _ _).trans (List.suffix_append _ _)).isInfix

theorem textLength_lt_of_kept {s : Tracker} {a : Slot} (hkept : isDiscarded (s.dev a) = false) :
    textLength ([].map s.dev) < textLength ([a].map s.dev) := by
  have hzero : headerLength 0 = headerLength 1 := by decide
  have hrecord : 7 ≤ recordLength (s.dev a) := Nat.le_add_left 7 _
  unfold textLength printedCount
  simp [hkept, printedLength, hzero]
  omega

theorem brText_eq (cfg : Config) (w : World) (s : Tracker) :
    brText cfg w s = s.report .br (pollMoved cfg w s .br) := by
  unfold brText consolidateText Tracker.report pollMoved
  simp only [List.map_take]
  rfl

theorem pollMessage_eq (cfg : Config) (w : World) (s : Tracker) :
    pollMessage cfg w s = basicInfo cfg w s ++ s.report .br (pollMoved cfg w s .br) ++
      s.report .ble (pollMoved cfg w s .ble) := by
  unfold pollMessage
  rw [brText_eq, bleText_eq]
  rfl

/-! ## What is taken off a list -/

/-- The slots that a poll takes off a list: the first, even when none is selected. -/
def pollTaken (cfg : Config) (w : World) (s : Tracker) (list : TrackedList) : List Slot :=
  (s.tracked list).take (max (pollCount cfg w s list) 1)

theorem pollTaken_append (cfg : Config) (w : World) (s : Tracker) (list : TrackedList) :
    pollTaken cfg w s list ++ pollKept cfg w s list = s.tracked list := List.take_append_drop _ _

theorem pollMoved_subset (cfg : Config) (w : World) (s : Tracker) (list : TrackedList) :
    pollMoved cfg w s list ⊆ pollTaken cfg w s list :=
  List.take_subset_take_left _ (Nat.le_max_left _ _)

theorem pollTaken_eq {cfg : Config} {w : World} {s : Tracker} {list : TrackedList}
    (h : maxLengthRespDeviceInfo < pollBudget cfg w s list) :
    pollTaken cfg w s list = pollMoved cfg w s list := by
  unfold pollTaken pollMoved pollCount Tracker.nodes
  cases s.tracked list with
  | nil => simp only [List.take_nil]
  | cons a rest =>
    rw [List.map_cons, numberToSend, if_pos h, Nat.max_eq_left (Nat.le_add_left 1 _)]

theorem pollCount_eq_zero {cfg : Config} {w : World} {s : Tracker} {list : TrackedList}
    (h : pollBudget cfg w s list ≤ maxLengthRespDeviceInfo) : pollCount cfg w s list = 0 := by
  unfold pollCount
  cases s.nodes list with
  | nil => rfl
  | cons d rest => exact if_neg (Nat.not_lt.mpr h)

theorem pollTaken_eq_head {cfg : Config} {w : World} {s : Tracker} {list : TrackedList}
    (h : pollBudget cfg w s list ≤ maxLengthRespDeviceInfo) :
    pollMoved cfg w s list = [] ∧ pollTaken cfg w s list = (s.tracked list).head?.toList := by
  unfold pollMoved pollTaken
  rw [pollCount_eq_zero h, List.take_zero, Nat.zero_max, List.take_one]
  exact ⟨rfl, rfl⟩

/-! ## No silent loss -/

/-- A success takes off the lists only what is discarded or what a packet of this call reports,
and a failure takes nothing. -/
def Uplink.NoSilentLoss (c : Codec) (cfg : Config) (w : World) (s : Tracker) (pkts : List SPkt)
    (r : Watched (ErrorCode × Tracker × PktQueue)) : Prop :=
  if r.value.1 = .workSuccessfully then
    r.faults = [] ∧ ∃ br ble, s.brObjectList = br ++ r.value.2.1.brObjectList ∧
      s.bleObjectList = ble ++ r.value.2.1.bleObjectList ∧
      ((∀ a ∈ br ++ ble, isDiscarded (s.dev a)) ∨
        ∃ p, r.value.2.2.Holds (pkts ++ [p]) ∧
          p.content = c.sealed (basicInfo cfg w s ++ s.report .br br ++ s.report .ble ble))
  else r.value.2.1.brObjectList = s.brObjectList ∧ r.value.2.1.bleObjectList = s.bleObjectList

/-- A call that loses nothing: the text about the beacon is too long, which is an error; or the
report fits `message`, and every node in it is discarded, or the queue takes it and the BR report
leaves room for the first BLE node. -/
def Uplink.Keeps (cfg : Config) (w : World) (s : Tracker) (q : PktQueue) : Prop :=
  let br := pollMoved cfg w s .br
  let ble := pollMoved cfg w s .ble
  let used := (basicInfo cfg w s).length + textLength (br.map s.dev)
  maxLengthRespBasicInfo < (basicInfo cfg w s).length ∨
    used + textLength (ble.map s.dev) < wifiMessageLength ∧
      ((∀ a ∈ br ++ ble, isDiscarded (s.dev a)) ∨
        q.isFree = false ∧ q.isFull = false ∧
          (used + maxLengthRespDeviceInfo < wifiMessageLength ∨
            ∀ a ∈ s.bleObjectList.head?, isDiscarded (s.dev a)))

theorem Uplink.NoSilentLoss.record {c : Codec} {cfg : Config} {w : World} {s : Tracker}
    {pkts : List SPkt} {r : Watched (ErrorCode × Tracker × PktQueue)}
    (h : Uplink.NoSilentLoss c cfg w s pkts r) {list : TrackedList} {a : Slot}
    (hbefore : a ∈ s.tracked list) (hafter : a ∉ r.value.2.1.tracked list) :
    isDiscarded (s.dev a) ∨
      ∃ pkts', r.value.2.2.Holds pkts' ∧ ∃ p ∈ pkts', deviceRecord (s.dev a) <:+: p.content := by
  unfold Uplink.NoSilentLoss at h
  split at h
  · obtain ⟨-, br, ble, hbr, hble, hkept⟩ := h
    cases hd : isDiscarded (s.dev a) with
    | true => exact Or.inl rfl
    | false =>
      right
      have hmem : a ∈ br ∧ list = .br ∨ a ∈ ble ∧ list = .ble := by
        cases list with
        | br => exact Or.inl ⟨(List.mem_append.mp (hbr ▸ hbefore)).resolve_right hafter, rfl⟩
        | ble => exact Or.inr ⟨(List.mem_append.mp (hble ▸ hbefore)).resolve_right hafter, rfl⟩
      rcases hkept with hnone | ⟨p, hholds, hcontent⟩
      · have := hnone a (List.mem_append.mpr (hmem.imp And.left And.left))
        rw [hd] at this
        exact absurd this Bool.false_ne_true
      · refine ⟨_, hholds, p, by simp, ?_⟩
        have hreport : deviceRecord (s.dev a) <:+:
            basicInfo cfg w s ++ s.report .br br ++ s.report .ble ble := by
          rcases hmem with ⟨ha, -⟩ | ⟨ha, -⟩
          · exact (record_infix_report ha hd .br).trans ⟨_, _, rfl⟩
          · exact (record_infix_report ha hd .ble).trans (List.suffix_append _ _).isInfix
        rw [hcontent]
        unfold Codec.sealed
        exact hreport.trans ((List.suffix_cons _ _).trans (List.suffix_append _ _)).isInfix
  · exfalso
    apply hafter
    cases list with
    | br => simpa only [Tracker.tracked, h.1] using hbefore
    | ble => simpa only [Tracker.tracked, h.2] using hbefore

/-! ## The queue behind the call -/

theorem sealed_inj {c : Codec} (hc : c.Sound) {a b : Str} (h : c.sealed a = c.sealed b) : a = b := by
  have hdelim (content : Str) : ';' ∉ c.token content := hc.token_eq content ▸ hc.noDelimiter content
  have hafter := congrArg (afterField ';') h
  unfold Codec.sealed at hafter
  rwa [afterField_append (hdelim a), afterField_append (hdelim b)] at hafter

theorem udpAddpkt_holds {c : Codec} (hc : c.Sound) {q : PktQueue} {pkts : List SPkt}
    (h : q.Holds pkts) {content : Str} (hsend : Sendable content) (address : Ptr) (port : Nat)
    (hopen : q.isFree = false) (hroom : q.isFull = false) :
    ∃ p, (udpAddpkt c q address port (Ptr.ofBuf content wifiMessageLength)).value.2.Holds
        (pkts ++ [p]) ∧ p.content = c.sealed content := by
  have hlen := hc.sealed_length hsend
  have hsize : (c.sealed content).length ≤ messageLength := hlen.le.trans (by decide)
  have htext : (Ptr.ofBuf content wifiMessageLength).text = content := by
    rw [text_ofBuf hsend.2.le, cstr_eq_self hsend.1]
  have hnul := nul_notMem_sealed c (Ptr.ofBuf content wifiMessageLength)
  rw [htext] at hnul
  have hpkts : pkts.length < maxQueueLength := by
    have := holds_length_le h
    have := (isFull_iff h).not.mp (Bool.not_eq_true _ ▸ hroom)
    omega
  rw [udpAddpkt_value, htext, if_neg (Nat.not_lt.mpr hsize), addpkt_value,
    if_neg (Nat.not_lt.mpr hsize), if_neg (Bool.not_eq_true _ ▸ hopen),
    if_neg (Bool.not_eq_true _ ▸ hroom)]
  refine ⟨_, nextRear_holds h hpkts _, ?_⟩
  unfold packetFor
  rw [text_ofBuf hlen.le, cstr_eq_self hnul, List.take_length]

theorem udpAddpkt_refused {c : Codec} {q : PktQueue} (h : ¬ (q.isFree = false ∧ q.isFull = false))
    (address : Ptr) (port : Nat) (content : Ptr) :
    (udpAddpkt c q address port content).value.2 = q := by
  rw [udpAddpkt_value]
  split
  · rfl
  · simp only [addpkt_value]
    by_cases hopen : q.isFree = false
    · have hfull : q.isFull = true := by
        cases hfull : q.isFull with
        | true => rfl
        | false => exact absurd ⟨hopen, hfull⟩ h
      simp only [hopen, hfull, Bool.false_eq_true, if_false, if_true]
      split <;> rfl
    · rw [Bool.not_eq_false] at hopen
      simp only [hopen, if_true]
      split <;> rfl

theorem udpAddpkt_long {c : Codec} {content : Str} (hnul : NUL ∉ content)
    (hlong : wifiMessageLength ≤ content.length) (q : PktQueue) (address : Ptr) (port : Nat) :
    (udpAddpkt c q address port (Ptr.ofBuf content wifiMessageLength)).faults ≠ [] := by
  have htext : (Ptr.ofBuf content wifiMessageLength).text = content.take wifiMessageLength :=
    cstr_eq_self fun h => hnul (List.mem_of_mem_take h)
  have hread : (Ptr.ofBuf content wifiMessageLength).read.faults ≠ [] := by
    rw [ne_eq, faults_read, Ptr.Terminated, htext, room_ofBuf, List.length_take]
    omega
  unfold udpAddpkt
  rw [faults_bind, ne_eq, List.append_eq_nil_iff, not_and_or]
  exact Or.inl hread

/-! ## When nothing is lost -/

theorem pollMessage_length (cfg : Config) (w : World) (s : Tracker) :
    (pollMessage cfg w s).length = (basicInfo cfg w s).length +
      textLength ((pollMoved cfg w s .br).map s.dev) +
      textLength ((pollMoved cfg w s .ble).map s.dev) := by
  rw [pollMessage_eq, List.length_append, List.length_append, report_length, report_length]

theorem pollTaken_br {cfg : Config} {w : World} {s : Tracker}
    (hshort : (basicInfo cfg w s).length ≤ maxLengthRespBasicInfo) :
    pollTaken cfg w s .br = pollMoved cfg w s .br := by
  apply pollTaken_eq
  unfold pollBudget
  rw [brBudget_eq hshort]
  simp only [wifiMessageLength, maxLengthRespBasicInfo, maxLengthRespDeviceInfo] at *
  omega

theorem bleBudget_of_fits {cfg : Config} {w : World} {s : Tracker}
    (hshort : (basicInfo cfg w s).length ≤ maxLengthRespBasicInfo)
    (hfits : (basicInfo cfg w s).length + textLength ((pollMoved cfg w s .br).map s.dev) <
      wifiMessageLength) :
    pollBudget cfg w s .ble + ((basicInfo cfg w s).length +
      textLength ((pollMoved cfg w s .br).map s.dev)) = wifiMessageLength := by
  have hbr : (brText cfg w s).length = textLength ((pollMoved cfg w s .br).map s.dev) := by
    rw [brText_eq, report_length]
  have hbudget := brBudget_eq hshort
  have hble : pollBudget cfg w s .ble = bleBudget cfg w s := rfl
  rw [hble, bleBudget_eq hshort (by rw [hbr, hbudget]; omega), hbr, hbudget]
  omega

theorem Uplink.NoSilentLoss.of_keeps {c : Codec} (hc : c.Sound) {cfg : Config}
    (huuid : NUL ∉ cfg.uuid) (haddr : NUL ∉ cfg.localAddr) (gatewayAddr : Str) (gatewayPort : Nat)
    {w : World} {s : Tracker} {q : PktQueue} {pkts : List SPkt} (hq : q.Holds pkts)
    (h : Uplink.Keeps cfg w s q) :
    Uplink.NoSilentLoss c cfg w s pkts
      (Uplink.handleTrackedObjectData c cfg gatewayAddr gatewayPort w s q) := by
  have hnul := nul_notMem_pollMessage huuid haddr w s
  unfold Uplink.NoSilentLoss
  rcases Uplink.cases c cfg gatewayAddr gatewayPort w s q with
    ⟨-, -, hvalue, hfaults⟩ | ⟨-, hvalue⟩ | ⟨hshort, hvalue, hfaults⟩
  · rw [hvalue, if_pos rfl]
    exact ⟨hfaults, [], [], rfl, rfl, Or.inl (by simp)⟩
  · rw [hvalue, if_neg ErrorCode.noConfusion]
    exact ⟨rfl, rfl⟩
  rcases h with hlong | ⟨hfits, hkept⟩
  · omega
  have hsend : Sendable (pollMessage cfg w s) := ⟨hnul, by rw [pollMessage_length]; exact hfits⟩
  have hsafe := udpAddpkt_safe hc hsend q (addressBuf_readable gatewayAddr) gatewayPort
  have hbrTaken := pollTaken_br hshort
  have hbudget := bleBudget_of_fits (w := w) (s := s) hshort (by omega)
  rw [hvalue, if_pos rfl]
  refine ⟨hfaults.trans hsafe, pollTaken cfg w s .br, pollTaken cfg w s .ble,
    (pollTaken_append cfg w s .br).symm, (pollTaken_append cfg w s .ble).symm, ?_⟩
  rcases hkept with hnone | ⟨hopen, hroom, hfirst⟩
  · -- The BR text is a mere header, so the BLE list has room.
    left
    have hheader : textLength ((pollMoved cfg w s .br).map s.dev) = textLength ([].map s.dev) := by
      rw [← report_length s .br, ← report_length s .br,
        report_discarded fun a ha => hnone a (List.mem_append_left _ ha)]
    have hfour : textLength [] = 4 := by decide
    rw [List.map_nil] at hheader
    rw [hbrTaken, pollTaken_eq]
    · exact hnone
    · simp only [wifiMessageLength, maxLengthRespBasicInfo, maxLengthRespDeviceInfo] at *
      omega
  · right
    obtain ⟨p, hholds, hcontent⟩ := udpAddpkt_holds hc hq hsend
      (Ptr.ofBuf gatewayAddr networkAddrLength) gatewayPort hopen hroom
    refine ⟨p, hholds, ?_⟩
    rw [hcontent, pollMessage_eq, hbrTaken]
    suffices hble : s.report .ble (pollMoved cfg w s .ble) =
        s.report .ble (pollTaken cfg w s .ble) by rw [hble]
    rcases Nat.lt_or_ge maxLengthRespDeviceInfo (pollBudget cfg w s .ble) with hmore | hless
    · rw [pollTaken_eq hmore]
    · -- The first BLE node is cut off, but it is discarded.
      have hhead : ∀ a ∈ s.bleObjectList.head?, isDiscarded (s.dev a) :=
        hfirst.resolve_left (by omega)
      obtain ⟨hnone, htaken⟩ := pollTaken_eq_head hless
      rw [hnone, htaken]
      exact (report_discarded (fun a ha => hhead a (Option.mem_toList.mp ha)) .ble).symm

theorem keeps_of_empty {cfg : Config} {w : World} {s : Tracker}
    (hshort : (basicInfo cfg w s).length ≤ maxLengthRespBasicInfo) (hbr : s.brObjectList = [])
    (hble : s.bleObjectList = []) :
    (basicInfo cfg w s).length + textLength ((pollMoved cfg w s .br).map s.dev) +
        textLength ((pollMoved cfg w s .ble).map s.dev) < wifiMessageLength ∧
      ∀ a ∈ pollMoved cfg w s .br ++ pollMoved cfg w s .ble, isDiscarded (s.dev a) := by
  have hnone (list : TrackedList) : pollMoved cfg w s list = [] := by
    cases list with
    | br => simp only [pollMoved, Tracker.tracked, hbr, List.take_nil]
    | ble => simp only [pollMoved, Tracker.tracked, hble, List.take_nil]
  have hfour : textLength [] = 4 := by decide
  rw [hnone, hnone, List.map_nil, hfour]
  refine ⟨?_, by simp⟩
  simp only [wifiMessageLength, maxLengthRespBasicInfo] at *
  omega

/-- A first BLE node that is cut off leaves the text as it is only when it is discarded. -/
theorem discarded_of_report_eq {cfg : Config} {w : World} {s : Tracker} {a : Slot}
    (hcut : pollBudget cfg w s .ble ≤ maxLengthRespDeviceInfo)
    (hhead : a ∈ s.bleObjectList.head?)
    (hreport : s.report .ble (pollMoved cfg w s .ble) = s.report .ble (pollTaken cfg w s .ble)) :
    isDiscarded (s.dev a) := by
  obtain ⟨hnone, htaken⟩ := pollTaken_eq_head hcut
  have hone : pollTaken cfg w s .ble = [a] := by
    rw [htaken]
    exact congrArg Option.toList hhead
  have hlength := congrArg List.length hreport
  rw [report_length, report_length, hnone, hone] at hlength
  cases hd : isDiscarded (s.dev a) with
  | true => rfl
  | false => exact absurd hlength (textLength_lt_of_kept hd).ne

theorem Uplink.NoSilentLoss.keeps {c : Codec} (hc : c.Sound) {cfg : Config}
    (huuid : NUL ∉ cfg.uuid) (haddr : NUL ∉ cfg.localAddr) {gatewayAddr : Str} {gatewayPort : Nat}
    {w : World} {s : Tracker} {q : PktQueue} {pkts : List SPkt} (hq : q.Holds pkts)
    (h : Uplink.NoSilentLoss c cfg w s pkts
      (Uplink.handleTrackedObjectData c cfg gatewayAddr gatewayPort w s q)) :
    Uplink.Keeps cfg w s q := by
  have hnul := nul_notMem_pollMessage huuid haddr w s
  rcases Nat.lt_or_ge maxLengthRespBasicInfo (basicInfo cfg w s).length with hlong | hshort
  · exact Or.inl hlong
  right
  unfold Uplink.NoSilentLoss at h
  rcases Uplink.cases c cfg gatewayAddr gatewayPort w s q with
    ⟨hbr, hble, -, -⟩ | ⟨hlong, -⟩ | ⟨-, hvalue, hfaults⟩
  · exact (keeps_of_empty hshort hbr hble).imp_right Or.inl
  · omega
  rw [hvalue, if_pos rfl, hfaults] at h
  obtain ⟨hsafe, br, ble, hbr, hble, hkept⟩ := h
  have hlen : (pollMessage cfg w s).length < wifiMessageLength := by
    by_contra hlong
    exact udpAddpkt_long hnul (Nat.not_lt.mp hlong) _ _ _ hsafe
  have hbr : pollTaken cfg w s .br = br := List.append_cancel_right
    ((pollTaken_append cfg w s .br).trans hbr)
  have hble : pollTaken cfg w s .ble = ble := List.append_cancel_right
    ((pollTaken_append cfg w s .ble).trans hble)
  rw [pollTaken_br hshort] at hbr
  subst hbr
  subst hble
  rw [pollMessage_length] at hlen
  have hbudget := bleBudget_of_fits (w := w) (s := s) hshort (by omega)
  refine ⟨hlen, ?_⟩
  rcases hkept with hnone | ⟨p, hholds, hcontent⟩
  · left
    intro a ha
    apply hnone
    rw [List.mem_append] at ha ⊢
    exact ha.imp_right (pollMoved_subset cfg w s .ble ·)
  right
  have hqueue : q.isFree = false ∧ q.isFull = false := by
    by_contra hrefused
    rw [udpAddpkt_refused hrefused] at hholds
    have := congrArg List.length (holds_unique hq hholds)
    simp at this
  obtain ⟨p', hholds', hcontent'⟩ := udpAddpkt_holds hc hq ⟨hnul, by rw [pollMessage_length]; exact hlen⟩
    (Ptr.ofBuf gatewayAddr networkAddrLength) gatewayPort hqueue.1 hqueue.2
  refine ⟨hqueue.1, hqueue.2, ?_⟩
  rw [or_iff_not_imp_left]
  intro hless a hhead
  -- The packet that was added says nothing of this node.
  have hsame := congrArg SPkt.content (List.singleton_inj.mp
    (List.append_cancel_left (holds_unique hholds hholds')))
  rw [hcontent, hcontent', pollMessage_eq] at hsame
  exact discarded_of_report_eq (by omega) hhead
    (List.append_cancel_left (sealed_inj hc hsame)).symm

/-- A call keeps the nodes, or says that it failed, exactly when the beacon's own text is too
long, or the report fits, reaches an open queue with room and leaves no BLE node out; nodes that
are discarded need neither. -/
theorem no_silent_loss_iff (c : Codec) (hc : c.Sound) (cfg : Config) (huuid : NUL ∉ cfg.uuid)
    (haddr : NUL ∉ cfg.localAddr) (gatewayAddr : Str) (gatewayPort : Nat) (w : World) (s : Tracker)
    (q : PktQueue) (pkts : List SPkt) (hq : q.Holds pkts) :
    Uplink.NoSilentLoss c cfg w s pkts
        (Uplink.handleTrackedObjectData c cfg gatewayAddr gatewayPort w s q) ↔
      Uplink.Keeps cfg w s q :=
  ⟨fun h => h.keeps hc huuid haddr hq,
    fun h => .of_keeps hc huuid haddr gatewayAddr gatewayPort hq h⟩

/-- One BLE node, and nothing else. -/
def oneTracker : Tracker := { fullTracker with bleObjectList := [0] }

theorem one_node_kept :
    Uplink.NoSilentLoss prefixCodec budgetConfig budgetWorld oneTracker []
      (Uplink.handleTrackedObjectData prefixCodec budgetConfig "10.0.0.1".toList 8888 budgetWorld
        oneTracker initPacketQueue) := by
  refine (no_silent_loss_iff prefixCodec prefixCodec_sound budgetConfig (by decide) (by decide)
    "10.0.0.1".toList 8888 budgetWorld oneTracker initPacketQueue [] init_holds).mpr (Or.inr ?_)
  refine ⟨by decide +kernel, Or.inr ⟨rfl, by decide, Or.inl (by decide +kernel)⟩⟩

/-- The queue was freed: the call is a success, the node is gone and no packet is queued. -/
theorem node_lost_to_freed_queue :
    let q := freePacketQueue initPacketQueue
    let r := Uplink.handleTrackedObjectData prefixCodec budgetConfig "10.0.0.1".toList 8888
      budgetWorld oneTracker q
    r.value.1 = .workSuccessfully ∧ 0 ∈ oneTracker.bleObjectList ∧
      0 ∉ r.value.2.1.bleObjectList ∧ isDiscarded (oneTracker.dev 0) = false ∧
      r.value.2.2.Holds [] ∧
      ¬ Uplink.NoSilentLoss prefixCodec budgetConfig budgetWorld oneTracker [] r := by
  intro q r
  have hempty : q.Holds [] := Or.inl ⟨by decide +kernel, by decide +kernel⟩
  have hopen : q.isFree ≠ false := by decide +kernel
  rcases Uplink.cases prefixCodec budgetConfig "10.0.0.1".toList 8888 budgetWorld oneTracker q with
    ⟨-, hble, -⟩ | ⟨hlong, -⟩ | ⟨-, hvalue, -⟩
  · exact absurd hble (List.cons_ne_nil 0 [])
  · exact absurd hlong (by decide)
  have hkept : isDiscarded (oneTracker.dev 0) = false := rfl
  have hbefore : 0 ∈ oneTracker.bleObjectList := List.mem_singleton_self 0
  have hafter : 0 ∉ r.value.2.1.bleObjectList := by
    rw [hvalue]
    exact (by decide +kernel : 0 ∉ (oneTracker.polled budgetConfig budgetWorld).bleObjectList)
  have hsent : r.value.2.2.Holds [] := by
    rw [hvalue, udpAddpkt_refused fun h => hopen h.1]
    exact hempty
  refine ⟨congrArg Prod.fst hvalue, hbefore, hafter, hkept, hsent, fun h => ?_⟩
  have hble : 0 ∈ oneTracker.tracked .ble := hbefore
  rcases h.record hble hafter with hd | ⟨pkts, hpkts, p, hp, -⟩
  · exact absurd hd (by rw [hkept]; exact Bool.false_ne_true)
  · rw [holds_unique hpkts hsent] at hp
    exact absurd hp List.not_mem_nil

end LBeacon
