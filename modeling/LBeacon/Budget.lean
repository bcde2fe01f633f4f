import LBeacon.Lib.Greedy
import LBeacon.Poll

/-!
# The upload budget

The loop that selects nodes charges an estimate for each. The loop that prints writes the
real record. This file compares the two.
-/

open CText

namespace LBeacon

/-! ## What is charged -/

/-- What the selecting loop takes off `msg_remain_size` for a node. -/
def charge (d : ScannedDevice) : Nat :=
  maxLengthRespDeviceInfo - lengthOfAdvertisement + d.payload.length

theorem chargeNode_eq {m : Nat} {d : ScannedDevice} (hp : d.payload.length ≤ lengthOfAdvertisement)
    (hm : maxLengthRespDeviceInfo < m) (hmax : m < 2 ^ 32) : chargeNode m d = m - charge d := by
  simp only [chargeNode, charge, sizeT, maxLengthRespDeviceInfo, lengthOfAdvertisement] at *
  omega

theorem numberToSend_eq {nodes : List ScannedDevice} {m : Nat}
    (hp : ∀ d ∈ nodes, d.payload.length ≤ lengthOfAdvertisement) (hmax : m < 2 ^ 32) :
    numberToSend nodes m = Greedy.count maxLengthRespDeviceInfo charge nodes m := by
  induction nodes generalizing m with
  | nil => rfl
  | cons d rest ih =>
    unfold numberToSend Greedy.count
    split
    next hm =>
      rw [chargeNode_eq (hp d List.mem_cons_self) hm hmax]
      rw [ih (fun e he => hp e (List.mem_cons_of_mem d he)) (by omega)]
    next => rfl

/-- The nodes that a budget of `m` selects. -/
abbrev Selects (m : Nat) (nodes taken : List ScannedDevice) : Prop :=
  Greedy.Buys maxLengthRespDeviceInfo charge m nodes taken

theorem selects_iff {nodes taken : List ScannedDevice} {m : Nat}
    (hp : ∀ d ∈ nodes, d.payload.length ≤ lengthOfAdvertisement) (hmax : m < 2 ^ 32) :
    Selects m nodes taken ↔ taken = nodes.take (numberToSend nodes m) := by
  rw [Selects, Greedy.buys_iff, numberToSend_eq hp hmax]

/-! ## What is printed -/

/-- Six fields, seven semicolons, and both payloads in hex when they are wanted. -/
def recordLength (d : ScannedDevice) : Nat :=
  strlen d.scannedMacAddress + (intText d.initialScannedTime.toInt).length +
    (intText d.finalScannedTime.toInt).length + (intText d.rssi.toInt).length +
    (intText d.isButtonPressed.toInt).length + (intText d.batteryVoltage.toInt).length +
    (if d.isPayloadNeeded then 2 * (d.payload.length + d.scanRsp.length) else 0) + 7

theorem payloadText_length (d : ScannedDevice) : (payloadText d).length =
    if d.isPayloadNeeded then 2 * (d.payload.length + d.scanRsp.length) else 0 := by
  unfold payloadText
  split
  · rw [List.length_append, getPrintableBlePayload_length, getPrintableBlePayload_length]
    omega
  · rfl

theorem deviceRecord_length (d : ScannedDevice) : (deviceRecord d).length = recordLength d := by
  simp only [deviceRecord, List.length_append, List.length_singleton, payloadText_length,
    recordLength, strlen]
  omega

def printedLength (d : ScannedDevice) : Nat := if isDiscarded d then 0 else recordLength d

def printedCount (nodes : List ScannedDevice) : Nat := (nodes.filter fun d => !isDiscarded d).length

/-- `"%d;%d;"` with a device type of one digit. -/
def headerLength (count : Nat) : Nat := (intText count).length + 3

theorem listHeader_length (list : TrackedList) (count : Nat) :
    (listHeader list.deviceType count).length = headerLength count := by
  have hdigit : (intText list.deviceType.number).length = 1 := by cases list <;> decide
  simp only [listHeader, List.length_append, hdigit, List.length_singleton, headerLength]
  omega

/-- The length of the text for the selected nodes. -/
def textLength (taken : List ScannedDevice) : Nat :=
  headerLength (printedCount taken) + Greedy.total printedLength taken

theorem records_length (nodes : List ScannedDevice) :
    ((nodes.filter fun d => !isDiscarded d).flatMap deviceRecord).length =
      Greedy.total printedLength nodes := by
  induction nodes with
  | nil => rfl
  | cons d nodes ih =>
    rw [Greedy.total_cons, ← ih, printedLength]
    cases hd : isDiscarded d with
    | true => simp [hd]
    | false => simp [hd, deviceRecord_length]

theorem consolidateText_length (list : TrackedList) {nodes taken : List ScannedDevice} {m : Nat}
    (hp : ∀ d ∈ nodes, d.payload.length ≤ lengthOfAdvertisement) (hmax : m < 2 ^ 32)
    (htaken : Selects m nodes taken) :
    (consolidateText list.deviceType nodes m).length = textLength taken := by
  rw [(selects_iff hp hmax).mp htaken, consolidateText, List.length_append, records_length,
    listHeader_length]
  rfl

/-! ## The difference -/

/-- By how much a printed record is longer than its charge. -/
def overrun (d : ScannedDevice) : Int := printedLength d - charge d

/-- What the records of the selected nodes exceed their charges by, and the header, fit in
what the charges left over. -/
def BudgetCovers (m : Nat) (nodes : List ScannedDevice) : Prop :=
  ∀ taken, Selects m nodes taken →
    headerLength (printedCount taken) + (taken.map overrun).sum <
      (m : Int) - Greedy.total charge taken

theorem sum_overrun (taken : List ScannedDevice) : (taken.map overrun).sum =
    (Greedy.total printedLength taken : Int) - Greedy.total charge taken := by
  induction taken with
  | nil => rfl
  | cons d taken ih =>
    rw [List.map_cons, List.sum_cons, ih, Greedy.total_cons, Greedy.total_cons, overrun]
    omega

theorem budgetCovers_iff (m : Nat) (nodes : List ScannedDevice) :
    BudgetCovers m nodes ↔ ∀ taken, Selects m nodes taken → textLength taken < m := by
  unfold BudgetCovers textLength
  refine forall₂_congr fun taken _ => ?_
  rw [sum_overrun]
  omega

theorem consolidate_fits_iff (list : TrackedList) {nodes : List ScannedDevice} {m : Nat}
    (hp : ∀ d ∈ nodes, d.payload.length ≤ lengthOfAdvertisement) (hmax : m < 2 ^ 32) :
    (consolidateText list.deviceType nodes m).length < m ↔ BudgetCovers m nodes := by
  rw [budgetCovers_iff]
  constructor
  · intro hlt taken htaken
    rw [← consolidateText_length list hp hmax htaken]
    exact hlt
  · intro h
    have htaken := (selects_iff hp hmax (m := m)).mpr rfl
    rw [consolidateText_length list hp hmax htaken]
    exact h _ htaken

/-- The header always finds room: sixty-five bytes less the last payload are left over. -/
theorem budgetCovers_of_overrun_nonpos {nodes : List ScannedDevice} {m : Nat}
    (hp : ∀ d ∈ nodes, d.payload.length ≤ 31) (hm : maxLengthRespDeviceInfo < m)
    (hmax : m < 2 ^ 32) (hover : ∀ taken, Selects m nodes taken → ∀ d ∈ taken, overrun d ≤ 0) :
    BudgetCovers m nodes := by
  intro taken htaken
  have hsub := htaken.front.subset
  have hleft := Greedy.total_lt 156 htaken
    (fun d hd => by
      have := hp d hd
      simp only [charge, maxLengthRespDeviceInfo, lengthOfAdvertisement]
      omega) hm
  have hsum : Greedy.total printedLength taken ≤ Greedy.total charge taken := by
    refine Greedy.total_mono fun d hd => ?_
    have := hover taken htaken d hd
    rw [overrun] at this
    omega
  have hcharged : 125 * taken.length ≤ Greedy.total charge taken :=
    Greedy.mul_length_le_total fun d _ => Nat.le_add_right 125 _
  have hcount : printedCount taken ≤ taken.length := List.length_filter_le _ _
  have hheader : (intText (printedCount taken)).length ≤ 10 := by
    refine intText_length_le_of_nonneg _ 10 (by omega) (by omega) ?_
    simp only [maxLengthRespDeviceInfo] at hleft
    omega
  rw [sum_overrun]
  simp only [maxLengthRespDeviceInfo, headerLength] at *
  omega

/-! ## Both buffers of a poll -/

/-- `msg_temp` and `message` hold each text with its terminator. -/
structure BuffersHold (cfg : Config) (w : World) (s : Tracker) : Prop where
  brTemp : (brText cfg w s).length < wifiMessageLength
  brMessage : (basicInfo cfg w s ++ brText cfg w s).length < wifiMessageLength
  bleTemp : (bleText cfg w s).length < wifiMessageLength
  bleMessage : (pollMessage cfg w s).length < wifiMessageLength

theorem brBudget_eq {cfg : Config} {w : World} {s : Tracker}
    (h : (basicInfo cfg w s).length ≤ maxLengthRespBasicInfo) :
    brBudget cfg w s = wifiMessageLength - (basicInfo cfg w s).length := by
  simp only [brBudget, sizeT, wifiMessageLength, maxLengthRespBasicInfo] at *
  omega

theorem bleBudget_eq {cfg : Config} {w : World} {s : Tracker}
    (h : (basicInfo cfg w s).length ≤ maxLengthRespBasicInfo)
    (hbr : (brText cfg w s).length < brBudget cfg w s) :
    bleBudget cfg w s = brBudget cfg w s - (brText cfg w s).length := by
  rw [brBudget_eq h] at hbr ⊢
  simp only [bleBudget, sizeT, List.length_append, wifiMessageLength, maxLengthRespBasicInfo] at *
  omega

theorem buffersHold_iff {cfg : Config} {w : World} {s : Tracker}
    (h : (basicInfo cfg w s).length ≤ maxLengthRespBasicInfo) :
    BuffersHold cfg w s ↔ (brText cfg w s).length < brBudget cfg w s ∧
      (bleText cfg w s).length < brBudget cfg w s - (brText cfg w s).length := by
  have hbudget := brBudget_eq h
  simp only [maxLengthRespBasicInfo, wifiMessageLength] at h hbudget
  constructor
  · rintro ⟨-, h2, -, h4⟩
    simp only [pollMessage, List.length_append, wifiMessageLength] at h2 h4
    omega
  · rintro ⟨h1, h2⟩
    constructor <;> simp only [pollMessage, List.length_append, wifiMessageLength] <;> omega

/-! ## Legacy reports -/

/-- What the scanner can store for a report of the legacy format. -/
structure IsLegacy (d : ScannedDevice) : Prop where
  mac : strlen d.scannedMacAddress = 17
  payload : d.payload.length ≤ 31
  scanRsp : d.scanRsp.length ≤ 31
  rssi : -128 ≤ d.rssi.toInt ∧ d.rssi.toInt ≤ 127
  button : 0 ≤ d.isButtonPressed.toInt ∧ d.isButtonPressed.toInt ≤ 15
  battery : 0 ≤ d.batteryVoltage.toInt ∧ d.batteryVoltage.toInt ≤ 255

theorem IsLegacy.fits {d : ScannedDevice} (h : IsLegacy d) :
    d.payload.length ≤ lengthOfAdvertisement :=
  h.payload.trans (by decide)

theorem IsLegacy.recordLength_le {d : ScannedDevice} (h : IsLegacy d) : recordLength d ≤
    55 + if d.isPayloadNeeded then 2 * (d.payload.length + d.scanRsp.length) else 0 := by
  obtain ⟨hmac, -, -, ⟨hr, hr'⟩, ⟨hb, hb'⟩, hv, hv'⟩ := h
  have h1 := intText_int32_length d.initialScannedTime
  have h2 := intText_int32_length d.finalScannedTime
  have h3 := intText_length_le d.rssi.toInt 3 (by omega) (by omega)
  have h4 := intText_length_le_of_nonneg d.isButtonPressed.toInt 2 (by omega) hb (by omega)
  have h5 := intText_length_le_of_nonneg d.batteryVoltage.toInt 3 (by omega) hv (by omega)
  simp only [recordLength]
  omega

/-- If the node is printed with its payloads, they are short. -/
def ShortPayloads (d : ScannedDevice) : Prop :=
  isDiscarded d = false → d.isPayloadNeeded → d.payload.length + 2 * d.scanRsp.length ≤ 70

theorem IsLegacy.overrun_nonpos {d : ScannedDevice} (h : IsLegacy d)
    (hshort : ShortPayloads d) : overrun d ≤ 0 := by
  have hrecord := h.recordLength_le
  simp only [overrun, printedLength, charge, maxLengthRespDeviceInfo, lengthOfAdvertisement]
  split
  next => omega
  next hkept =>
    split at hrecord
    next hp =>
      have := hshort (Bool.not_eq_true _ ▸ hkept) hp
      omega
    next => omega

theorem short_payloads_covered {nodes : List ScannedDevice} {m : Nat}
    (hlegacy : ∀ d ∈ nodes, IsLegacy d) (hm : maxLengthRespDeviceInfo < m) (hmax : m < 2 ^ 32)
    (hshort : ∀ taken, Selects m nodes taken → ∀ d ∈ taken, ShortPayloads d) :
    BudgetCovers m nodes :=
  budgetCovers_of_overrun_nonpos (fun d hd => (hlegacy d hd).payload) hm hmax
    fun taken htaken d hd =>
      (hlegacy d (htaken.front.subset hd)).overrun_nonpos (hshort taken htaken d hd)

/-- For legacy nodes the text fits its budget exactly when the charges cover the records, and
both buffers of a poll hold exactly when this is so for the two lists in turn. Short payloads are
always covered. -/
theorem upload_fits_iff (cfg : Config) (w : World) (s : Tracker)
    (hbasic : (basicInfo cfg w s).length ≤ maxLengthRespBasicInfo)
    (hbr : ∀ d ∈ s.nodes .br, IsLegacy d) (hble : ∀ d ∈ s.nodes .ble, IsLegacy d) :
    (∀ list m, maxLengthRespDeviceInfo < m → m < 2 ^ 32 →
      ((consolidateText list.deviceType (s.nodes list) m).length < m ↔
        BudgetCovers m (s.nodes list))) ∧
    (BuffersHold cfg w s ↔
      BudgetCovers (wifiMessageLength - (basicInfo cfg w s).length) (s.nodes .br) ∧
      ∀ taken, Selects (wifiMessageLength - (basicInfo cfg w s).length) (s.nodes .br) taken →
        BudgetCovers (wifiMessageLength - (basicInfo cfg w s).length - textLength taken)
          (s.nodes .ble)) ∧
    ∀ list m, maxLengthRespDeviceInfo < m → m < 2 ^ 32 →
      (∀ taken, Selects m (s.nodes list) taken → ∀ d ∈ taken, ShortPayloads d) →
        BudgetCovers m (s.nodes list) := by
  have hnodes : ∀ list, ∀ d ∈ s.nodes list, IsLegacy d := by
    rintro (_ | _)
    · exact hbr
    · exact hble
  have hlegacy : ∀ list, ∀ d ∈ s.nodes list, d.payload.length ≤ lengthOfAdvertisement :=
    fun list d hd => (hnodes list d hd).fits
  refine ⟨fun list m _ hmax => consolidate_fits_iff list (hlegacy list) hmax, ?_,
    fun list m hm hmax => short_payloads_covered (hnodes list) hm hmax⟩
  have hmax : brBudget cfg w s < 2 ^ 32 := by
    rw [brBudget_eq hbasic, wifiMessageLength]
    omega
  rw [← brBudget_eq hbasic, buffersHold_iff hbasic]
  rw [← consolidate_fits_iff .br (hlegacy .br) hmax]
  refine and_congr_right fun hfits => ?_
  have hble := bleBudget_eq hbasic hfits
  have hmax' : bleBudget cfg w s < 2 ^ 32 := by omega
  rw [← hble, bleText, ← TrackedList.deviceType.eq_2,
    consolidate_fits_iff .ble (hlegacy .ble) hmax', hble]
  constructor
  · intro h taken htaken
    rw [← consolidateText_length .br (hlegacy .br) hmax htaken]
    exact h
  · intro h
    have htaken := (selects_iff (hlegacy .br) hmax).mpr rfl
    have := h _ htaken
    rw [← consolidateText_length .br (hlegacy .br) hmax htaken] at this
    exact this

/-! ## Sixty full nodes -/

def budgetConfig : Config := ⟨"0000".toList, "192.168.0.2".toList, -100, [], []⟩

def budgetWorld : World := ⟨fun _ => 1600000000, some, some⟩

/-- Both payloads are wanted and have 31 bytes. The record has 173 characters and is charged 156. -/
def fullNode : ScannedDevice :=
  ⟨"AA:BB:CC:DD:EE:FF".toList, 1600000000, 1600000000, -60, 0, 0, List.replicate 31 0, true, true,
    List.replicate 31 0⟩

def fullTracker : Tracker :=
  { Tracker.init with dev := fun _ => fullNode, bleObjectList := List.range 60 }

theorem fullNode_isLegacy : IsLegacy fullNode := by
  constructor <;> decide

theorem fullTracker_ble : fullTracker.nodes .ble = List.replicate 60 fullNode := by
  decide +kernel

theorem fullTracker_isLegacy (list : TrackedList) : ∀ d ∈ fullTracker.nodes list, IsLegacy d := by
  cases list with
  | br => simp [Tracker.nodes, Tracker.tracked, fullTracker, Tracker.init]
  | ble =>
    rw [fullTracker_ble]
    intro d hd
    rw [List.eq_of_mem_replicate hd]
    exact fullNode_isLegacy

theorem fullTracker_text {m : Nat} (hmax : m < 2 ^ 32)
    (hcount : numberToSend (fullTracker.nodes .ble) m = 52) :
    (consolidateText .ble (fullTracker.nodes .ble) m).length = 9001 := by
  have hfits : ∀ d ∈ fullTracker.nodes .ble, d.payload.length ≤ lengthOfAdvertisement :=
    fun d hd => (fullTracker_isLegacy .ble d hd).fits
  have hlength := consolidateText_length .ble hfits hmax ((selects_iff hfits hmax).mpr rfl)
  rw [hcount, fullTracker_ble] at hlength
  rw [fullTracker_ble]
  exact hlength.trans (by decide +kernel)

/-- A poll of sixty such nodes selects 52 and prints 9001 characters. -/
theorem full_nodes_overflow :
    (∀ d ∈ fullTracker.nodes .ble, IsLegacy d) ∧
      ¬ (consolidateText .ble (fullTracker.nodes .ble) wifiMessageLength).length < wifiMessageLength ∧
      ¬ BuffersHold budgetConfig budgetWorld fullTracker := by
  refine ⟨fullTracker_isLegacy .ble, ?_, fun h => ?_⟩
  · rw [fullTracker_text (by decide) (by decide +kernel)]
    decide
  · have hlong := h.bleTemp
    unfold bleText at hlong
    rw [fullTracker_text (by decide +kernel) (by decide +kernel)] at hlong
    exact absurd hlong (by decide)

theorem upload_fits_full :
    (basicInfo budgetConfig budgetWorld fullTracker).length ≤ maxLengthRespBasicInfo ∧
      (BuffersHold budgetConfig budgetWorld fullTracker ↔
        BudgetCovers (wifiMessageLength - (basicInfo budgetConfig budgetWorld fullTracker).length)
          (fullTracker.nodes .br) ∧
        ∀ taken, Selects (wifiMessageLength -
            (basicInfo budgetConfig budgetWorld fullTracker).length) (fullTracker.nodes .br) taken →
          BudgetCovers (wifiMessageLength -
            (basicInfo budgetConfig budgetWorld fullTracker).length - textLength taken)
            (fullTracker.nodes .ble)) :=
  ⟨by decide, (upload_fits_iff budgetConfig budgetWorld fullTracker (by decide)
    (fullTracker_isLegacy .br) (fullTracker_isLegacy .ble)).2.1⟩

end LBeacon
