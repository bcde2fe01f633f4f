import LBeacon.Reports
import LBeacon.TempPool
import LBeacon.Lib.CMemory

/-!
# Advertising report events

What `start_ble_scanning` takes out of the bytes that `read` returned, against the reports that
the event has.
-/

open CText CMemory

namespace LBeacon

/-! ## The source -/

def hciEventHdrSize : Nat := 2
def evtLeAdvertisingReport : UInt8 := 0x02

/-- Of the packed `le_advertising_info`, up to its data. -/
def leAdvertisingInfoSize : Nat := 9

/-- `ble_buffer` after a `read`. The bytes behind the received ones are left from before. The
filter of the socket lets LE meta events through only. -/
structure BleBuffer where
  bleBuffer : Nat → UInt8
  received : Nat

def HandledType (evtType : UInt8) : Prop :=
  evtType = eventTypeAdvInd ∨ evtType = eventTypeAdvNonconnInd ∨ evtType = eventTypeScanRsp

instance (evtType : UInt8) : Decidable (HandledType evtType) :=
  inferInstanceAs (Decidable (_ ∨ _ ∨ _))

namespace BleBuffer

def byte (e : BleBuffer) (i : Nat) : Watched UInt8 :=
  access (decide (i < e.received)) .readPastEnd (e.bleBuffer i)

/-- `count` bytes from `i` on. -/
def bytes (e : BleBuffer) : Nat → Nat → Watched (List UInt8)
  | _, 0 => pure []
  | i, count + 1 => do
    let b ← e.byte i
    let rest ← e.bytes (i + 1) count
    pure (b :: rest)

/-- `meta`, behind the packet type and the event header. -/
def metaAt : Nat := hciEventHdrSize + 1

/-- `info`. The byte between the subevent and the first report, their number, is skipped. -/
def infoAt : Nat := metaAt + 2

/-- The body of the inner loop. -/
def startBleScanning (ba2str : List UInt8 → Mac) (w : World) (s : Scanner) (e : BleBuffer) :
    Watched Scanner := do
  let subevent ← e.byte metaAt
  if subevent = evtLeAdvertisingReport then
    let evtType ← e.byte infoAt
    if HandledType evtType then
      let bdaddr ← e.bytes (infoAt + 2) 6
      let length ← e.byte (infoAt + 8)
      -- The rssi is in the byte after the data.
      let rssi ← e.byte (infoAt + leAdvertisingInfoSize + length.toNat)
      match mpAlloc w.tempOffer s.tempBleDeviceMempool with
      | (none, pool) => pure { s with tempBleDeviceMempool := pool }
      | (some a, pool) =>
        let data ← e.bytes (infoAt + leAdvertisingInfoSize) length.toNat
        let payload ← access (decide (length.toNat ≤ lengthOfAdvertisement)) .writePastEnd data
        let node : TempBleDevice := ⟨ba2str bdaddr, evtType, payload, rssi.toInt8.toInt32⟩
        pure { s with
          temp := fun x => if x = a then node else s.temp x
          tempBleDeviceList := s.tempBleDeviceList ++ [a]
          tempBleDeviceMempool := pool }
    else pure s
  else pure s

/-- The bytes received. -/
def text (e : BleBuffer) : List UInt8 := (List.range e.received).map e.bleBuffer

/-- The length byte of the first report. -/
def firstLength (e : BleBuffer) : Nat := (e.bleBuffer (infoAt + 8)).toNat

def numReports (e : BleBuffer) : Nat := (e.bleBuffer (metaAt + 1)).toNat

end BleBuffer

/-! ## The reports of an event -/

structure AdvertisingReport where
  evtType : UInt8
  bdaddr : List UInt8
  data : List UInt8
  rssi : UInt8

/-- Up to `count` reports, as far as they lie wholly inside the bytes. -/
def reportsFrom : Nat → List UInt8 → List AdvertisingReport
  | 0, _ => []
  | count + 1, bytes =>
    let length := (bytes.getD 8 0).toNat
    if 9 + length < bytes.length then
      ⟨bytes.getD 0 0, (bytes.drop 2).take 6, (bytes.drop 9).take length, bytes.getD (9 + length) 0⟩ ::
        reportsFrom count (bytes.drop (10 + length))
    else []

/-- Subevent, number of reports, reports. -/
def reportsOf (bytes : List UInt8) : List AdvertisingReport :=
  if bytes.getD 3 0 = evtLeAdvertisingReport then
    reportsFrom (bytes.getD 4 0).toNat (bytes.drop 5)
  else []

def AdvertisingReport.tempNode (ba2str : List UInt8 → Mac) (r : AdvertisingReport) :
    TempBleDevice :=
  ⟨ba2str r.bdaddr, r.evtType, r.data, r.rssi.toInt8.toInt32⟩

def handledReports (reports : List AdvertisingReport) : List AdvertisingReport :=
  reports.filter fun r => HandledType r.evtType

/-- The payload fits its array and, as hex text with a terminator, the buffers of its readers. -/
def FitsBuffers (payload : List UInt8) : Prop :=
  payload.length ≤ lengthOfAdvertisement ∧ 2 * payload.length + 1 ≤ lengthOfAdvertisement

/-- Every handled report is queued, in order and nothing else, and no byte behind those received
is read. -/
structure EnqueuesReports (ba2str : List UInt8 → Mac) (s : Scanner) (e : BleBuffer)
    (run : Watched Scanner) : Prop where
  inside : run.faults = []
  queued : ∃ slots, run.value.tempBleDeviceList = s.tempBleDeviceList ++ slots ∧
    slots.map run.value.temp = (handledReports (reportsOf e.text)).map (·.tempNode ba2str) ∧
    ∀ a ∈ slots, FitsBuffers (run.value.temp a).payload
  kept : ∀ a ∈ s.tempBleDeviceMempool.outstanding, run.value.temp a = s.temp a
  tracker : run.value.tracker = s.tracker

/-- At most one report to queue, the first one, and short enough. -/
inductive SingleReport (e : BleBuffer) : Prop where
  | otherEvent (hreceived : 4 ≤ e.received) (hsubevent : e.bleBuffer 3 ≠ evtLeAdvertisingReport)
  | unhandled (hreceived : 6 ≤ e.received) (hsubevent : e.bleBuffer 3 = evtLeAdvertisingReport)
      (htype : ¬ HandledType (e.bleBuffer 5)) (hnone : ∀ r ∈ reportsOf e.text, ¬ HandledType r.evtType)
  | handled (hsubevent : e.bleBuffer 3 = evtLeAdvertisingReport)
      (htype : HandledType (e.bleBuffer 5)) (hcount : 0 < e.numReports)
      (hinside : 14 + e.firstLength < e.received) (hshort : e.firstLength ≤ 32)
      (hlater : ∀ r ∈ reportsFrom (e.numReports - 1) (e.text.drop (15 + e.firstLength)),
        ¬ HandledType r.evtType)

namespace BleBuffer

variable {e : BleBuffer}

@[simp] theorem value_byte (i : Nat) : (e.byte i).value = e.bleBuffer i := rfl

@[simp] theorem faults_byte (i : Nat) : (e.byte i).faults = [] ↔ i < e.received := by
  simp [byte]

@[simp] theorem value_bytes (i count : Nat) :
    (e.bytes i count).value = (List.range' i count).map e.bleBuffer := by
  induction count generalizing i with
  | zero => rfl
  | succ count ih =>
    rw [bytes]
    simp [ih, List.range'_succ]

theorem faults_bytes (i count : Nat) (h : i + count < e.received) :
    (e.bytes i count).faults = [] := by
  induction count generalizing i with
  | zero => rfl
  | succ count ih =>
    rw [bytes]
    simp only [faults_bind, faults_pure, List.append_eq_nil_iff, faults_byte, and_true]
    exact ⟨by omega, ih (i + 1) (by omega)⟩

/-! ## The bytes received -/

theorem length_text : e.text.length = e.received := by simp [text]

theorem drop_text (k : Nat) : e.text.drop k = (List.range' k (e.received - k)).map e.bleBuffer := by
  unfold text
  rw [← List.map_drop, List.range_eq_range', List.drop_range']
  simp

theorem getD_drop_text {k i : Nat} (h : k + i < e.received) :
    (e.text.drop k).getD i 0 = e.bleBuffer (k + i) := by
  rw [drop_text]
  simp only [List.getD_eq_getElem?_getD, List.getElem?_map]
  rw [List.getElem?_range' (by omega)]
  simp

theorem take_drop_text {k count : Nat} (h : k + count ≤ e.received) :
    (e.text.drop k).take count = (List.range' k count).map e.bleBuffer := by
  rw [drop_text, ← List.map_take, List.take_range'_of_length_ge (by omega)]

theorem reportsFrom_first {count : Nat} (hinside : 14 + e.firstLength < e.received) :
    reportsFrom (count + 1) (e.text.drop 5) =
      ⟨e.bleBuffer 5, (List.range' 7 6).map e.bleBuffer,
        (List.range' 14 e.firstLength).map e.bleBuffer, e.bleBuffer (14 + e.firstLength)⟩ ::
        reportsFrom count (e.text.drop (15 + e.firstLength)) := by
  have hlength : ((e.text.drop 5).getD 8 0).toNat = e.firstLength := by
    rw [getD_drop_text (by omega)]
    rfl
  have hfits : 9 + e.firstLength < (e.text.drop 5).length := by
    rw [List.length_drop, length_text]
    omega
  rw [reportsFrom]
  simp only [hlength, if_pos hfits, List.drop_drop]
  rw [getD_drop_text (by omega), getD_drop_text (by omega), take_drop_text (by omega),
    take_drop_text (by omega)]
  have hrssi : 5 + (9 + e.firstLength) = 14 + e.firstLength := by omega
  have hnext : 5 + (10 + e.firstLength) = 15 + e.firstLength := by omega
  rw [hrssi, hnext]

theorem getD_text {i : Nat} (h : i < e.received) : e.text.getD i 0 = e.bleBuffer i := by
  have hget := getD_drop_text (e := e) (k := 0) (i := i) (by omega)
  rw [Nat.zero_add] at hget
  exact hget

theorem reportsOf_other (h : e.bleBuffer 3 ≠ evtLeAdvertisingReport) : reportsOf e.text = [] := by
  unfold reportsOf
  rcases Nat.lt_or_ge 3 e.received with hlt | hge
  · rw [getD_text hlt, if_neg h]
  · rw [List.getD_eq_default _ _ (by rw [length_text]; omega), if_neg (by decide)]

theorem reportsOf_reports (h : e.bleBuffer 3 = evtLeAdvertisingReport) (hlong : 4 < e.received) :
    reportsOf e.text = reportsFrom e.numReports (e.text.drop 5) := by
  unfold reportsOf
  rw [getD_text (by omega), if_pos h, getD_text hlong]
  rfl

/-! ## The round -/

section Round

variable {ba2str : List UInt8 → Mac} {w : World} {s : Scanner}

theorem startBleScanning_other (ba2str : List UInt8 → Mac) (w : World) (s : Scanner)
    (h : e.bleBuffer 3 ≠ evtLeAdvertisingReport) :
    (e.startBleScanning ba2str w s).value = s ∧
      ((e.startBleScanning ba2str w s).faults = [] ↔ 4 ≤ e.received) := by
  have hmeta : ¬ (e.byte metaAt).value = evtLeAdvertisingReport := h
  unfold startBleScanning
  rw [value_bind, faults_bind, if_neg hmeta]
  simp only [value_pure, faults_pure, List.append_nil, faults_byte, true_and]
  exact Iff.rfl

theorem startBleScanning_unhandled (ba2str : List UInt8 → Mac) (w : World) (s : Scanner)
    (h : e.bleBuffer 3 = evtLeAdvertisingReport) (htype : ¬ HandledType (e.bleBuffer 5)) :
    (e.startBleScanning ba2str w s).value = s ∧
      ((e.startBleScanning ba2str w s).faults = [] ↔ 6 ≤ e.received) := by
  have hmeta : (e.byte metaAt).value = evtLeAdvertisingReport := h
  have hinfo : ¬ HandledType (e.byte infoAt).value := htype
  unfold startBleScanning
  rw [value_bind, faults_bind, if_pos hmeta, value_bind, faults_bind, if_neg hinfo]
  simp only [value_pure, faults_pure, List.append_nil, List.append_eq_nil_iff, faults_byte, true_and,
    metaAt, infoAt, hciEventHdrSize]
  omega

/-- The report at the front of the event, whatever was received of it. -/
def firstNode (ba2str : List UInt8 → Mac) (e : BleBuffer) : TempBleDevice :=
  ⟨ba2str ((List.range' 7 6).map e.bleBuffer), e.bleBuffer 5,
    (List.range' 14 e.firstLength).map e.bleBuffer,
    (e.bleBuffer (14 + e.firstLength)).toInt8.toInt32⟩

theorem startBleScanning_handled (ba2str : List UInt8 → Mac)
    (h : e.bleBuffer 3 = evtLeAdvertisingReport) (htype : HandledType (e.bleBuffer 5))
    {a : Slot} {pool : Pool} (halloc : mpAlloc w.tempOffer s.tempBleDeviceMempool = (some a, pool)) :
    (e.startBleScanning ba2str w s).value = { s with
        temp := fun x => if x = a then e.firstNode ba2str else s.temp x
        tempBleDeviceList := s.tempBleDeviceList ++ [a]
        tempBleDeviceMempool := pool } ∧
      ((e.startBleScanning ba2str w s).faults = [] ↔
        14 + e.firstLength < e.received ∧ e.firstLength ≤ lengthOfAdvertisement) := by
  have hmeta : (e.byte metaAt).value = evtLeAdvertisingReport := h
  have hinfo : HandledType (e.byte infoAt).value := htype
  have hlength : (e.byte (infoAt + 8)).value.toNat = e.firstLength := rfl
  unfold startBleScanning
  rw [value_bind, faults_bind, if_pos hmeta, value_bind, faults_bind, if_pos hinfo]
  simp only [value_bind, faults_bind, hlength, halloc, value_pure, faults_pure, value_bytes,
    value_access, List.append_nil, List.append_eq_nil_iff, faults_byte, faults_access,
    decide_eq_true_eq]
  refine ⟨rfl, ?_⟩
  have hdata : infoAt + leAdvertisingInfoSize = 14 := rfl
  have hbdaddr : infoAt + 2 = 7 := rfl
  have hat : metaAt = 3 ∧ infoAt = 5 := ⟨rfl, rfl⟩
  rw [hdata, hbdaddr, hat.1, hat.2]
  constructor
  · rintro ⟨-, -, -, -, hrssi, -, hfits⟩
    exact ⟨hrssi, hfits⟩
  · rintro ⟨hrssi, hfits⟩
    exact ⟨by omega, by omega, faults_bytes 7 6 (by omega), by omega, hrssi,
      faults_bytes 14 _ (by omega), hfits⟩

theorem startBleScanning_value (ba2str : List UInt8 → Mac) (w : World) (s : Scanner)
    (e : BleBuffer) :
    (e.startBleScanning ba2str w s).value =
      if e.bleBuffer 3 = evtLeAdvertisingReport then
        LBeacon.startBleScanning w s (e.firstNode ba2str)
      else s := by
  by_cases h : e.bleBuffer 3 = evtLeAdvertisingReport
  · rw [if_pos h]
    unfold LBeacon.startBleScanning
    by_cases htype : HandledType (e.bleBuffer 5)
    · have hfirst : (e.firstNode ba2str).evtType = eventTypeAdvInd ∨
          (e.firstNode ba2str).evtType = eventTypeAdvNonconnInd ∨
          (e.firstNode ba2str).evtType = eventTypeScanRsp := htype
      rw [if_pos hfirst]
      rcases halloc : mpAlloc w.tempOffer s.tempBleDeviceMempool with ⟨_ | a, pool⟩
      · have hmeta : (e.byte metaAt).value = evtLeAdvertisingReport := h
        have hinfo : HandledType (e.byte infoAt).value := htype
        unfold startBleScanning
        rw [value_bind, if_pos hmeta, value_bind, if_pos hinfo]
        simp only [value_bind, halloc, value_pure]
      · exact (startBleScanning_handled ba2str h htype halloc).1
    · have hfirst : ¬ ((e.firstNode ba2str).evtType = eventTypeAdvInd ∨
          (e.firstNode ba2str).evtType = eventTypeAdvNonconnInd ∨
          (e.firstNode ba2str).evtType = eventTypeScanRsp) := htype
      rw [if_neg hfirst]
      exact (startBleScanning_unhandled ba2str w s h htype).1
  · rw [if_neg h]
    exact (startBleScanning_other ba2str w s h).1

/-! ## When every report is queued -/

theorem handledReports_eq_nil {reports : List AdvertisingReport} :
    handledReports reports = [] ↔ ∀ r ∈ reports, ¬ HandledType r.evtType := by
  unfold handledReports
  simp

theorem enqueues_none_iff {run : Watched Scanner} (hvalue : run.value = s) :
    EnqueuesReports ba2str s e run ↔ run.faults = [] ∧ handledReports (reportsOf e.text) = [] := by
  constructor
  · rintro ⟨hinside, ⟨slots, hlist, hmap, -⟩, -, -⟩
    rw [hvalue] at hlist
    have hnil : slots = [] := List.append_right_eq_self.mp hlist.symm
    rw [hnil] at hmap
    exact ⟨hinside, List.map_eq_nil_iff.mp hmap.symm⟩
  · rintro ⟨hinside, hnone⟩
    refine ⟨hinside, ⟨[], ?_, ?_, fun a ha => absurd ha List.not_mem_nil⟩, fun a _ => ?_, ?_⟩
    · rw [hvalue, List.append_nil]
    · rw [hnone]
      rfl
    · rw [hvalue]
    · rw [hvalue]

theorem enqueues_first_iff {run : Watched Scanner} {a : Slot} {pool : Pool}
    (hvalue : run.value = { s with
      temp := fun x => if x = a then e.firstNode ba2str else s.temp x
      tempBleDeviceList := s.tempBleDeviceList ++ [a]
      tempBleDeviceMempool := pool })
    (ha : a ∉ s.tempBleDeviceMempool.outstanding) :
    EnqueuesReports ba2str s e run ↔ run.faults = [] ∧ e.firstLength ≤ 32 ∧
      (handledReports (reportsOf e.text)).map (·.tempNode ba2str) = [e.firstNode ba2str] := by
  have hnode : run.value.temp a = e.firstNode ba2str := by
    rw [hvalue]
    exact if_pos rfl
  have hfits : FitsBuffers (e.firstNode ba2str).payload ↔ e.firstLength ≤ 32 := by
    unfold FitsBuffers firstNode lengthOfAdvertisement
    simp only [List.length_map, List.length_range']
    omega
  constructor
  · rintro ⟨hinside, ⟨slots, hlist, hmap, hall⟩, -, -⟩
    rw [hvalue] at hlist
    obtain rfl : [a] = slots := List.append_cancel_left hlist
    have hshort := hall a List.mem_cons_self
    rw [hnode] at hshort
    rw [List.map_cons, List.map_nil, hnode] at hmap
    exact ⟨hinside, hfits.mp hshort, hmap.symm⟩
  · rintro ⟨hinside, hshort, hreports⟩
    refine ⟨hinside, ⟨[a], ?_, ?_, ?_⟩, fun b hb => ?_, ?_⟩
    · rw [hvalue]
    · rw [List.map_cons, List.map_nil, hnode, hreports]
    · intro b hb
      rw [List.mem_singleton.mp hb, hnode]
      exact hfits.mpr hshort
    · have hne : b ≠ a := by
        rintro rfl
        exact ha hb
      rw [hvalue]
      exact if_neg hne
    · rw [hvalue]

theorem reports_first_iff (h : e.bleBuffer 3 = evtLeAdvertisingReport)
    (htype : HandledType (e.bleBuffer 5)) (hinside : 14 + e.firstLength < e.received) :
    (handledReports (reportsOf e.text)).map (·.tempNode ba2str) = [e.firstNode ba2str] ↔
      0 < e.numReports ∧
        ∀ r ∈ reportsFrom (e.numReports - 1) (e.text.drop (15 + e.firstLength)),
          ¬ HandledType r.evtType := by
  rw [reportsOf_reports h (by omega)]
  cases hcount : e.numReports with
  | zero => simp [reportsFrom, handledReports]
  | succ count =>
    rw [reportsFrom_first hinside, ← handledReports_eq_nil]
    unfold handledReports
    rw [List.filter_cons_of_pos (by simpa using htype), List.map_cons]
    have hfirst : AdvertisingReport.tempNode ba2str ⟨e.bleBuffer 5, (List.range' 7 6).map e.bleBuffer,
        (List.range' 14 e.firstLength).map e.bleBuffer, e.bleBuffer (14 + e.firstLength)⟩ =
          e.firstNode ba2str := rfl
    rw [hfirst, List.cons.injEq, List.map_eq_nil_iff]
    simp

end Round

end BleBuffer

/-- The round queues the reports of the event exactly when at most the first one is to be queued
and all that is read of it was received. -/
theorem scan_event_iff (ba2str : List UInt8 → Mac) (w : World) (s : Scanner) (e : BleBuffer)
    (hserved : (mpAlloc w.tempOffer s.tempBleDeviceMempool).1 ≠ none) :
    EnqueuesReports ba2str s e (e.startBleScanning ba2str w s) ↔ SingleReport e := by
  by_cases h : e.bleBuffer 3 = evtLeAdvertisingReport
  · by_cases htype : HandledType (e.bleBuffer 5)
    · rcases mpAlloc_cases w.tempOffer s.tempBleDeviceMempool with
        ⟨pool, halloc, -, -⟩ | ⟨a, pool, halloc, ha, -, -⟩
      · rw [halloc] at hserved
        exact absurd rfl hserved
      obtain ⟨hvalue, hfaults⟩ := BleBuffer.startBleScanning_handled ba2str h htype halloc
      rw [BleBuffer.enqueues_first_iff hvalue ha, hfaults]
      constructor
      · rintro ⟨⟨hinside, -⟩, hshort, hreports⟩
        obtain ⟨hcount, hlater⟩ := (BleBuffer.reports_first_iff h htype hinside).mp hreports
        exact .handled h htype hcount hinside hshort hlater
      · rintro (⟨-, hother⟩ | ⟨-, -, hno, -⟩ | ⟨-, -, hcount, hinside, hshort, hlater⟩)
        · exact absurd h hother
        · exact absurd htype hno
        · have hfits : e.firstLength ≤ lengthOfAdvertisement := by
            unfold lengthOfAdvertisement
            omega
          exact ⟨⟨hinside, hfits⟩, hshort,
            (BleBuffer.reports_first_iff h htype hinside).mpr ⟨hcount, hlater⟩⟩
    · obtain ⟨hvalue, hfaults⟩ := BleBuffer.startBleScanning_unhandled ba2str w s h htype
      rw [BleBuffer.enqueues_none_iff hvalue, hfaults, BleBuffer.handledReports_eq_nil]
      constructor
      · rintro ⟨hreceived, hnone⟩
        exact .unhandled hreceived h htype hnone
      · rintro (⟨-, hother⟩ | ⟨hreceived, -, -, hnone⟩ | ⟨-, hyes, -⟩)
        · exact absurd h hother
        · exact ⟨hreceived, hnone⟩
        · exact absurd hyes htype
  · obtain ⟨hvalue, hfaults⟩ := BleBuffer.startBleScanning_other ba2str w s h
    rw [BleBuffer.enqueues_none_iff hvalue, hfaults, BleBuffer.reportsOf_other h]
    constructor
    · rintro ⟨hreceived, -⟩
      exact .otherEvent hreceived h
    · rintro (⟨hreceived, -⟩ | ⟨-, hyes, -⟩ | ⟨hyes, -⟩)
      · exact ⟨hreceived, rfl⟩
      · exact absurd hyes h
      · exact absurd hyes h

/-- A buffer that held `bytes`, zeros behind them. -/
def bufferOf (bytes : List UInt8) : BleBuffer := ⟨fun i => bytes.getD i 0, bytes.length⟩

def scanWorld : World := ⟨fun _ => 0, some, some⟩

/-- `read` returned an event with one report of an advertisement without data. -/
def oneReportEvent : BleBuffer :=
  bufferOf [0x04, 0x3E, 12, 0x02, 1, 0, 0, 1, 2, 3, 4, 5, 6, 0, 0xC4]

/-- The same with a second one. -/
def twoReportEvent : BleBuffer :=
  bufferOf [0x04, 0x3E, 22, 0x02, 2, 0, 0, 1, 2, 3, 4, 5, 6, 0, 0xC4, 0, 0, 1, 2, 3, 4, 5, 7, 0, 0xC4]

/-- The six bytes from the last one on, in hex, with colons between them. -/
def scanBa2str (bdaddr : List UInt8) : Mac :=
  let text := convertStrToMacAddress (getPrintableBlePayload bdaddr.reverse)
  if h : isCompleteMac text = true then ⟨text, h⟩ else TempBleDevice.blank.scannedMacAddress

theorem scan_event_one :
    EnqueuesReports scanBa2str .init oneReportEvent
      (oneReportEvent.startBleScanning scanBa2str scanWorld .init) ↔
        SingleReport oneReportEvent :=
  scan_event_iff scanBa2str scanWorld .init oneReportEvent (by decide)

/-- The second report is dropped. -/
theorem second_report_dropped :
    (scanBa2str [1, 2, 3, 4, 5, 7]).text = "07:05:04:03:02:01".toList ∧
      ¬ EnqueuesReports scanBa2str .init twoReportEvent
        (twoReportEvent.startBleScanning scanBa2str scanWorld .init) := by
  refine ⟨by decide, ?_⟩
  rintro ⟨-, ⟨slots, hlist, hmap, -⟩, -, -⟩
  have hone := congrArg List.length hlist
  have htwo := congrArg List.length hmap
  have hqueue : (twoReportEvent.startBleScanning scanBa2str scanWorld
      .init).value.tempBleDeviceList.length = 1 := by decide
  have hreports : (handledReports (reportsOf twoReportEvent.text)).length = 2 := by decide
  have hempty : Scanner.init.tempBleDeviceList = [] := rfl
  rw [hempty, List.nil_append, hqueue] at hone
  rw [List.length_map, List.length_map, hreports] at htwo
  omega

end LBeacon
