import LBeacon.Uplink

/-!
# Reading the tracked-data message back

A reader of the messages that `handle_tracked_object_data` hands over, and when it finds the
nodes that left the lists.
-/

open CText CMemory

namespace LBeacon

/-! ## The reader -/

/-- The seven fields of a node. -/
structure NodeGroup where
  mac : Str
  initialScannedTime : Int
  finalScannedTime : Int
  rssi : Int
  isButtonPressed : Int
  batteryVoltage : Int
  payloads : Str
  deriving DecidableEq

structure TrackedMessage where
  basicInfo : List Str
  br : List NodeGroup
  ble : List NodeGroup
  deriving DecidableEq

/-- Exactly `n` groups, and the fields behind them. -/
def readGroups : Nat → List Str → Option (List NodeGroup × List Str)
  | 0, rest => some ([], rest)
  | n + 1, mac :: initial :: final :: rssi :: button :: battery :: payloads :: rest => do
    let (groups, rest) ← readGroups n rest
    return (⟨mac, readInt initial, readInt final, readInt rssi, readInt button, readInt battery,
      payloads⟩ :: groups, rest)
  | _, _ => none

/-- A device type, a count, and as many groups. -/
def readList (deviceType : DeviceType) : List Str → Option (List NodeGroup × List Str)
  | type :: count :: rest =>
    if readInt type = deviceType.number then readGroups (readInt count).toNat rest else none
  | _ => none

/-- Nothing stands behind the last semicolon. -/
def readMessage (message : Str) : Option TrackedMessage := do
  let all := fields ';' message
  let (br, rest) ← readList .brEdr (all.drop 6)
  let (ble, rest) ← readList .ble rest
  if rest = [[]] then some ⟨all.take 6, br, ble⟩ else none

/-! ## What is to be found -/

/-- Both texts are empty when no payload is needed. -/
def groupOf (d : ScannedDevice) : NodeGroup where
  mac := cstr d.scannedMacAddress
  initialScannedTime := d.initialScannedTime.toInt
  finalScannedTime := d.finalScannedTime.toInt
  rssi := d.rssi.toInt
  isButtonPressed := d.isButtonPressed.toInt
  batteryVoltage := d.batteryVoltage.toInt
  payloads :=
    if d.isPayloadNeeded then getPrintableBlePayload d.payload ++ getPrintableBlePayload d.scanRsp
    else []

/-- The nodes of some slots that do not lack a scan response that they need. -/
def Tracker.groups (s : Tracker) (slots : List Slot) : List NodeGroup :=
  ((slots.map s.dev).filter fun d => !isDiscarded d).map groupOf

/-- The poll hands over one message, and it says which nodes left the two lists. -/
structure Decodes (cfg : Config) (w : World) (s : Tracker) (message : Str)
    (removedBr removedBle : List Slot) : Prop where
  sent : (handleTrackedObjectData cfg w s).2.sent = s.sent ++ [message]
  br : s.brObjectList = removedBr ++ (handleTrackedObjectData cfg w s).2.brObjectList
  ble : s.bleObjectList = removedBle ++ (handleTrackedObjectData cfg w s).2.bleObjectList
  read : readMessage message = some
    ⟨["8".toList, "4".toList, "1.3".toList, cfg.uuid,
        (intText (w.clock s.readings).toInt).take (lengthOfEpochTime - 1), cfg.localAddr],
      s.groups removedBr, s.groups removedBle⟩

/-! ## Splitting -/

theorem fields_append {s : Str} (h : ';' ∉ s) (t : Str) :
    fields ';' (s ++ ';' :: t) = s :: fields ';' t :=
  List.splitOn_append_cons_self_of_not_mem h t

theorem semicolon_notMem_intText (n : Int) : ';' ∉ intText n :=
  notMem_intText (by decide) (by decide) n

/-- The fields of a record. -/
def recordFields (d : ScannedDevice) : List Str :=
  [cstr d.scannedMacAddress, intText d.initialScannedTime.toInt, intText d.finalScannedTime.toInt,
    intText d.rssi.toInt, intText d.isButtonPressed.toInt, intText d.batteryVoltage.toInt,
    payloadText d]

theorem fields_deviceRecord {d : ScannedDevice} (hmac : ';' ∉ cstr d.scannedMacAddress) (t : Str) :
    fields ';' (deviceRecord d ++ t) = recordFields d ++ fields ';' t := by
  unfold deviceRecord recordFields
  simp only [List.append_assoc, List.cons_append, List.nil_append]
  rw [fields_append hmac, fields_append (semicolon_notMem_intText _),
    fields_append (semicolon_notMem_intText _), fields_append (semicolon_notMem_intText _),
    fields_append (semicolon_notMem_intText _), fields_append (semicolon_notMem_intText _),
    fields_append (notMem_payloadText (by decide) d)]

theorem fields_records {nodes : List ScannedDevice}
    (hmac : ∀ d ∈ nodes, ';' ∉ cstr d.scannedMacAddress) (t : Str) :
    fields ';' (nodes.flatMap deviceRecord ++ t) = nodes.flatMap recordFields ++ fields ';' t := by
  induction nodes with
  | nil => rfl
  | cons d nodes ih =>
    obtain ⟨hd, hrest⟩ := List.forall_mem_cons.mp hmac
    rw [List.flatMap_cons, List.append_assoc, fields_deviceRecord hd, ih hrest, List.flatMap_cons,
      List.append_assoc]

theorem fields_listHeader (deviceType : DeviceType) (count : Nat) (t : Str) :
    fields ';' (listHeader deviceType count ++ t) =
      intText deviceType.number :: intText count :: fields ';' t := by
  unfold listHeader
  simp only [List.append_assoc, List.cons_append, List.nil_append]
  rw [fields_append (semicolon_notMem_intText _), fields_append (semicolon_notMem_intText _)]

/-! ## Reading -/

theorem readGroups_records (nodes : List ScannedDevice) (rest : List Str) :
    readGroups nodes.length (nodes.flatMap recordFields ++ rest) = some (nodes.map groupOf, rest) := by
  induction nodes with
  | nil => rfl
  | cons d nodes ih =>
    rw [List.length_cons, List.flatMap_cons, List.append_assoc, recordFields]
    simp only [List.cons_append, List.nil_append, readGroups]
    rw [ih]
    simp only [readInt_intText]
    rfl

theorem readList_report {s : Tracker} {slots : List Slot}
    (hmac : ∀ a ∈ slots, ';' ∉ cstr (s.dev a).scannedMacAddress) (list : TrackedList) (t : Str) :
    readList list.deviceType (fields ';' (s.report list slots ++ t)) =
      some (s.groups slots, fields ';' t) := by
  have hnodes : ∀ d ∈ (slots.map s.dev).filter fun d => !isDiscarded d,
      ';' ∉ cstr d.scannedMacAddress := by
    intro d hd
    obtain ⟨a, ha, rfl⟩ := List.mem_map.mp (List.mem_of_mem_filter hd)
    exact hmac a ha
  unfold Tracker.report Tracker.groups
  rw [List.append_assoc, fields_listHeader, fields_records hnodes]
  simp only [readList, readInt_intText, if_true, Int.toNat_natCast]
  exact readGroups_records _ _

/-! ## The message of a poll -/

variable {cfg : Config} {w : World} {s : Tracker}

/-- The addresses of the listed nodes are free of the separator. -/
def PlainMacs (s : Tracker) : Prop :=
  ∀ list, ∀ d ∈ s.nodes list, ';' ∉ cstr d.scannedMacAddress

theorem PlainMacs.moved (h : PlainMacs s) (cfg : Config) (w : World) (list : TrackedList) :
    ∀ a ∈ pollMoved cfg w s list, ';' ∉ cstr (s.dev a).scannedMacAddress :=
  fun _ ha => h list _ (List.mem_map_of_mem (List.mem_of_mem_take ha))

theorem fields_basicInfo (huuid : ';' ∉ cfg.uuid) (hip : ';' ∉ cfg.localAddr) (t : Str) :
    fields ';' (basicInfo cfg w s ++ t) =
      ["8".toList, "4".toList, "1.3".toList, cfg.uuid,
        (intText (w.clock s.readings).toInt).take (lengthOfEpochTime - 1), cfg.localAddr] ++
      fields ';' t := by
  have htime : ';' ∉ (intText (w.clock s.readings).toInt).take (lengthOfEpochTime - 1) :=
    fun h => semicolon_notMem_intText _ (List.mem_of_mem_take h)
  have hversion : "8;4;1.3;".toList =
      "8".toList ++ ';' :: ("4".toList ++ ';' :: ("1.3".toList ++ ';' :: [])) := by decide
  unfold basicInfo basicInfoText
  rw [hversion]
  simp only [List.append_assoc, List.cons_append, List.nil_append]
  rw [fields_append (by decide), fields_append (by decide), fields_append (by decide),
    fields_append huuid, fields_append htime, fields_append hip]

theorem readMessage_poll (huuid : ';' ∉ cfg.uuid) (hip : ';' ∉ cfg.localAddr)
    (hmac : PlainMacs s) :
    readMessage (pollMessage cfg w s) = some
      ⟨["8".toList, "4".toList, "1.3".toList, cfg.uuid,
          (intText (w.clock s.readings).toInt).take (lengthOfEpochTime - 1), cfg.localAddr],
        s.groups (pollMoved cfg w s .br), s.groups (pollMoved cfg w s .ble)⟩ := by
  have hbr := readList_report (hmac.moved cfg w .br) .br
    (s.report .ble (pollMoved cfg w s .ble))
  have hble := readList_report (hmac.moved cfg w .ble) .ble []
  rw [List.append_nil] at hble
  unfold TrackedList.deviceType at hbr hble
  unfold readMessage
  rw [pollMessage_eq, List.append_assoc, fields_basicInfo huuid hip]
  simp only [List.cons_append, List.nil_append, List.drop_succ_cons, List.drop_zero,
    List.take_succ_cons, List.take_zero]
  rw [hbr]
  simp only [Option.bind_eq_bind, Option.bind_some]
  rw [hble]
  rfl

/-! ## The nodes that leave -/

/-- How much of `message` the basic information and the BR_EDR part take: the fields of the
nodes that its budget selects, and the header. -/
def usedByBr (cfg : Config) (w : World) (s : Tracker) : Nat :=
  (basicInfo cfg w s).length + textLength ((pollMoved cfg w s .br).map s.dev)

theorem bleBudget_used (cfg : Config) (w : World) (s : Tracker) :
    pollBudget cfg w s .ble = sizeT (wifiMessageLength - usedByBr cfg w s) := by
  unfold pollBudget bleBudget usedByBr
  rw [List.length_append, brText_eq, report_length]

theorem groups_of_discarded {a : Slot} (h : isDiscarded (s.dev a) = true) : s.groups [a] = [] := by
  unfold Tracker.groups
  simp [h]

theorem groups_of_printed {a : Slot} (h : isDiscarded (s.dev a) = false) : s.groups [a] ≠ [] := by
  unfold Tracker.groups
  simp [h]

/-- A poll that gets as far as the message. -/
structure Sends (cfg : Config) (w : World) (s : Tracker) : Prop where
  listed : ¬ (s.brObjectList = [] ∧ s.bleObjectList = [])
  basicFits : (basicInfo cfg w s).length ≤ maxLengthRespBasicInfo

theorem Sends.polled (h : Sends cfg w s) :
    (handleTrackedObjectData cfg w s).2 = s.polled cfg w := by
  have hfits := h.basicFits
  rcases handle_cases cfg w s with ⟨hbr, hble, -⟩ | ⟨-, hlong, -⟩ | ⟨-, -, heq⟩
  · exact absurd ⟨hbr, hble⟩ h.listed
  · omega
  · rw [heq]

theorem Sends.ble_after (h : Sends cfg w s) :
    (handleTrackedObjectData cfg w s).2.bleObjectList = pollKept cfg w s .ble := by
  rw [h.polled]
  rfl

/-- The text has nothing in it that could be taken for a separator. -/
structure Plain (cfg : Config) (s : Tracker) : Prop where
  uuid : ';' ∉ cfg.uuid
  localAddr : ';' ∉ cfg.localAddr
  macs : PlainMacs s

theorem Decodes.room {message : Str} {removedBr removedBle : List Slot} (hsends : Sends cfg w s)
    (hplain : Plain cfg s) (h : Decodes cfg w s message removedBr removedBle) :
    s.bleObjectList = [] ∨ maxLengthRespDeviceInfo < pollBudget cfg w s .ble ∨
      ∃ a rest, s.bleObjectList = a :: rest ∧ isDiscarded (s.dev a) = true := by
  obtain ⟨hsent, -, hble, hdecoded⟩ := h
  rw [hsends.polled] at hsent hble
  have hmessage : pollMessage cfg w s = message :=
    (List.cons.inj (List.append_cancel_left hsent)).1
  rw [← hmessage, readMessage_poll hplain.uuid hplain.localAddr hplain.macs] at hdecoded
  have hgroups : s.groups (pollMoved cfg w s .ble) = s.groups removedBle :=
    (TrackedMessage.mk.inj (Option.some.inj hdecoded)).2.2
  by_contra hother
  obtain ⟨hfull, hother⟩ := not_or.mp hother
  obtain ⟨htight, hprinted⟩ := not_or.mp hother
  obtain ⟨a, rest, hlist⟩ := List.exists_cons_of_ne_nil hfull
  obtain ⟨hmoved, htaken⟩ := @pollTaken_eq_head _ _ _ .ble (Nat.not_lt.mp htight)
  have hremoved : [a] = removedBle := by
    have hhead : pollTaken cfg w s .ble = [a] := by
      rw [htaken, Tracker.tracked, hlist]
      rfl
    rw [← hhead]
    exact List.append_cancel_right ((pollTaken_append cfg w s .ble).trans hble)
  have hdev : isDiscarded (s.dev a) = false :=
    Bool.eq_false_iff.mpr fun h => hprinted ⟨a, rest, hlist, h⟩
  rw [hmoved, ← hremoved] at hgroups
  exact groups_of_printed hdev hgroups.symm

theorem decodes_of_room (hsends : Sends cfg w s) (hplain : Plain cfg s)
    (hroom : s.bleObjectList = [] ∨ maxLengthRespDeviceInfo < pollBudget cfg w s .ble ∨
      ∃ a rest, s.bleObjectList = a :: rest ∧ isDiscarded (s.dev a) = true) :
    ∃ message removedBr removedBle, Decodes cfg w s message removedBr removedBle := by
  have hread := readMessage_poll (w := w) hplain.uuid hplain.localAddr hplain.macs
  have hsent : (handleTrackedObjectData cfg w s).2.sent = s.sent ++ [pollMessage cfg w s] := by
    rw [hsends.polled]
    rfl
  have hbr : s.brObjectList =
      pollMoved cfg w s .br ++ (handleTrackedObjectData cfg w s).2.brObjectList := by
    rw [hsends.polled, ← pollTaken_br hsends.basicFits]
    exact (pollTaken_append cfg w s .br).symm
  have hble : s.bleObjectList =
      pollTaken cfg w s .ble ++ (handleTrackedObjectData cfg w s).2.bleObjectList := by
    rw [hsends.polled]
    exact (pollTaken_append cfg w s .ble).symm
  suffices hgroups : s.groups (pollMoved cfg w s .ble) = s.groups (pollTaken cfg w s .ble) from
    ⟨_, _, _, hsent, hbr, hble, by rw [hread, hgroups]⟩
  rcases Nat.lt_or_ge maxLengthRespDeviceInfo (pollBudget cfg w s .ble) with hmore | hless
  · rw [pollTaken_eq hmore]
  · -- Nothing is selected, and what leaves would not have been printed.
    obtain ⟨hmoved, htaken⟩ := pollTaken_eq_head hless
    rw [hmoved, htaken]
    rcases hroom with hnil | hmore | ⟨a, rest, hlist, hdiscarded⟩
    · rw [Tracker.tracked, hnil]
      rfl
    · omega
    · rw [Tracker.tracked, hlist]
      exact (groups_of_discarded hdiscarded).symm

theorem message_decodes_iff (hsends : Sends cfg w s) (hplain : Plain cfg s) :
    (∃ message removedBr removedBle, Decodes cfg w s message removedBr removedBle) ↔
      s.bleObjectList = [] ∨
      maxLengthRespDeviceInfo < sizeT (wifiMessageLength - usedByBr cfg w s) ∨
      ∃ a rest, s.bleObjectList = a :: rest ∧ isDiscarded (s.dev a) = true := by
  rw [← bleBudget_used]
  constructor
  · rintro ⟨message, removedBr, removedBle, h⟩
    exact h.room hsends hplain
  · exact decodes_of_room hsends hplain

/-! ## A crowded BR_EDR list -/

def crowdedTracker (n : Nat) : Tracker :=
  { Tracker.init with dev := fun _ => fullNode, brObjectList := List.range n, bleObjectList := [n] }

theorem crowdedTracker_plain (n : Nat) : Plain budgetConfig (crowdedTracker n) := by
  refine ⟨by decide, by decide, ?_⟩
  intro list d hd
  obtain ⟨a, -, rfl⟩ := List.mem_map.mp hd
  change ';' ∉ cstr fullNode.scannedMacAddress
  decide

theorem crowdedTracker_sends (n : Nat) : Sends budgetConfig budgetWorld (crowdedTracker n) :=
  ⟨fun h => List.cons_ne_nil n [] h.2, by
    change (basicInfoText budgetConfig 1600000000).length ≤ maxLengthRespBasicInfo
    decide⟩

theorem message_decodes_one : ∃ message removedBr removedBle,
    Decodes budgetConfig budgetWorld (crowdedTracker 1) message removedBr removedBle :=
  (message_decodes_iff (crowdedTracker_sends 1) (crowdedTracker_plain 1)).mpr
    (Or.inr (Or.inl (by decide +kernel)))

/-- Behind 47 BR_EDR records there are 20 bytes left: the BLE node leaves its list, and the
message says that there is none. -/
theorem crowded_message_loses_node :
    let s := crowdedTracker 47
    Sends budgetConfig budgetWorld s ∧ Plain budgetConfig s ∧ s.bleObjectList = [47] ∧
      (handleTrackedObjectData budgetConfig budgetWorld s).2.bleObjectList = [] ∧
      pollMoved budgetConfig budgetWorld s .ble = [] ∧
      ¬ ∃ message removedBr removedBle,
        Decodes budgetConfig budgetWorld s message removedBr removedBle := by
  intro s
  have htight : ¬ maxLengthRespDeviceInfo < pollBudget budgetConfig budgetWorld s .ble := by
    rw [bleBudget_used]
    decide +kernel
  have hlist : s.bleObjectList = [47] := rfl
  have hsends := crowdedTracker_sends 47
  have hplain := crowdedTracker_plain 47
  obtain ⟨hmoved, htaken⟩ := @pollTaken_eq_head _ _ _ .ble (Nat.not_lt.mp htight)
  refine ⟨hsends, hplain, hlist, ?_, hmoved, ?_⟩
  · have happend := pollTaken_append budgetConfig budgetWorld s .ble
    rw [htaken, Tracker.tracked, hlist] at happend
    rw [hsends.ble_after]
    exact List.append_cancel_left (happend.trans (List.append_nil [47]).symm)
  · rintro ⟨message, removedBr, removedBle, h⟩
    rcases h.room hsends hplain with hnil | hroom | ⟨a, rest, -, hdiscarded⟩
    · exact absurd hnil (List.cons_ne_nil 47 [])
    · exact htight hroom
    · have hprinted : isDiscarded fullNode = false := by decide
      exact absurd (hprinted.symm.trans hdiscarded) Bool.noConfusion

end LBeacon
