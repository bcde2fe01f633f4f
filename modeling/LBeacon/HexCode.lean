import LBeacon.Advertising
import LBeacon.Lib.CBuffer
import LBeacon.Matching

/-!
# The hex code of the payloads

The loops that print bytes, with every place that they write, and what the readers of the text
make of it.
-/

open CText CMemory LengthPrefixed

namespace LBeacon

/-! ## The source -/

/-- The loop of both writers, with `count` bytes to go. -/
def printLoop (inBuf : Nat → Watched UInt8) (size : Nat) :
    Nat → Nat → Buffer → Nat → Watched Buffer
  | 0, _, outBuf, index => Buffer.put size outBuf index NUL
  | count + 1, i, outBuf, index => do
    let outBuf ← Buffer.put size outBuf index (decimalToHex ((← inBuf i).toNat / 16))
    let outBuf ← Buffer.put size outBuf (index + 1) (decimalToHex ((← inBuf i).toNat % 16))
    printLoop inBuf size count (i + 1) outBuf (index + 2)

/-- `get_printable_ble_payload` with its buffers. It never looks at `out_buf_len`, which says how
many characters `out_buf` has. -/
def getPrintableBlePayloadInto (inBuf : List UInt8) (inBufLen : Nat) (outBuf : Buffer)
    (outBufLen : Nat) : Watched Buffer :=
  printLoop (fun i => access (decide (i < inBuf.length)) .readPastEnd (inBuf.getD i 0)) outBufLen
    inBufLen 0 outBuf 0

/-- What `eir_parse_specific_data` does to `buf` when it takes the structure at `offset`. -/
def Eir.fillBufInto (e : Eir) (offset : Nat) (buf : Buffer) (bufLen : Nat) : Watched Buffer := do
  let fieldLen := (← e.byte offset).toNat
  printLoop (fun i => e.byte (offset + i)) bufLen (fieldLen + 1) 0 (Buffer.clear bufLen buf) 0

/-- `hex_to_decimal` of the first character of each pair times 16, and of the second. -/
def pairValues : Str → List Int
  | c :: d :: text => (hexToDecimal c * 16 + hexToDecimal d) :: pairValues text
  | _ => []

/-! ## What the readers make of a text -/

structure ReadsAs (text : Str) (bytes : List UInt8) : Prop where
  uuid : uuidStrToData text = some (bytes.map UInt8.toNat)
  pairs : pairValues text = bytes.map fun b => (b.toNat : Int)
  digits : ∀ i < bytes.length,
    hexToDecimal (text.getD (2 * i) NUL) = ((bytes.getD i 0).toNat / 16 : Nat) ∧
      hexToDecimal (text.getD (2 * i + 1) NUL) = ((bytes.getD i 0).toNat % 16 : Nat)
  byteAt : ∀ i < bytes.length,
    hexToDecimal (text.getD (2 * i) NUL) * 16 + hexToDecimal (text.getD (2 * i + 1) NUL) =
      (bytes.getD i 0).toNat

theorem strchr_decimalToHex : ∀ n, n < 16 →
    strchr conversion (decimalToHex n).toUpper = some n := by
  decide

theorem uuidByte_hexByte (b : UInt8) :
    uuidByte (decimalToHex (b.toNat / 16)) (decimalToHex (b.toNat % 16)) = some b.toNat := by
  have hlt := b.toNat_lt
  unfold uuidByte
  rw [strchr_decimalToHex _ (by omega), strchr_decimalToHex _ (by omega)]
  apply congrArg some
  omega

theorem printable_cons (b : UInt8) (bytes : List UInt8) :
    getPrintableBlePayload (b :: bytes) = decimalToHex (b.toNat / 16) ::
      decimalToHex (b.toNat % 16) :: getPrintableBlePayload bytes := rfl

theorem uuidStrToData_printable (bytes : List UInt8) :
    uuidStrToData (getPrintableBlePayload bytes) = some (bytes.map UInt8.toNat) := by
  induction bytes with
  | nil => rfl
  | cons b bytes ih =>
    rw [printable_cons, uuidStrToData, uuidByte_hexByte, ih]
    rfl

theorem pairValues_printable (bytes : List UInt8) :
    pairValues (getPrintableBlePayload bytes) = bytes.map fun b => (b.toNat : Int) := by
  induction bytes with
  | nil => rfl
  | cons b bytes ih =>
    have hlt := b.toNat_lt
    rw [printable_cons, pairValues, ih, hexToDecimal_decimalToHex _ (by omega),
      hexToDecimal_decimalToHex _ (by omega), List.map_cons]
    congr 1
    omega

theorem printable_readsAs (bytes : List UInt8) :
    ReadsAs (getPrintableBlePayload bytes) bytes where
  uuid := uuidStrToData_printable bytes
  pairs := pairValues_printable bytes
  digits _ hi := printable_getD bytes hi
  byteAt i hi := by
    obtain ⟨hhigh, hlow⟩ := printable_getD bytes hi
    rw [hhigh, hlow]
    omega

/-! ## The text in the buffer -/

section PrintLoop

variable {inBuf : Nat → Watched UInt8} {size : Nat}

/-- What the loop has printed when it ends. -/
def printed (inBuf : Nat → Watched UInt8) (i count : Nat) : Str :=
  getPrintableBlePayload ((List.range' i count).map fun k => (inBuf k).value)

theorem printed_succ (inBuf : Nat → Watched UInt8) (i count : Nat) :
    printed inBuf i (count + 1) = decimalToHex ((inBuf i).value.toNat / 16) ::
      decimalToHex ((inBuf i).value.toNat % 16) :: printed inBuf (i + 1) count := by
  unfold printed
  rw [List.range'_succ, List.map_cons, printable_cons]

theorem value_printLoop (count i : Nat) (outBuf : Buffer) (index : Nat) :
    (printLoop inBuf size count i outBuf index).value =
      (Buffer.putAll size outBuf index (printed inBuf i count ++ [NUL])).value := by
  induction count generalizing i outBuf index with
  | zero => rfl
  | succ count ih =>
    rw [printLoop, printed_succ]
    simp only [value_bind, List.cons_append, Buffer.putAll]
    exact ih (i + 1) _ (index + 2)

theorem faults_printLoop (count i : Nat) (outBuf : Buffer) (index : Nat) :
    (printLoop inBuf size count i outBuf index).faults = [] ↔
      (∀ k ∈ List.range' i count, (inBuf k).faults = []) ∧ index + 2 * count < size := by
  induction count generalizing i outBuf index with
  | zero => simp [printLoop]
  | succ count ih =>
    rw [printLoop, List.range'_succ, List.forall_mem_cons]
    simp only [faults_bind, List.append_eq_nil_iff, Buffer.faults_put, ih]
    constructor
    · rintro ⟨hread, -, -, -, hrest, hroom⟩
      exact ⟨⟨hread, hrest⟩, by omega⟩
    · rintro ⟨⟨hread, hrest⟩, hroom⟩
      exact ⟨hread, by omega, hread, by omega, hrest, by omega⟩

theorem holds_printLoop (inBuf : Nat → Watched UInt8) (size count : Nat) (outBuf : Buffer) :
    (printLoop inBuf size count 0 outBuf 0).value.Holds (printed inBuf 0 count) := by
  rw [value_printLoop]
  apply Buffer.holds_putAll

end PrintLoop

theorem map_getD_range' (bytes : List UInt8) :
    (List.range' 0 bytes.length).map (fun i => bytes.getD i 0) = bytes := by
  apply List.ext_getElem (by simp)
  intro i _ hi
  simp [hi]

theorem getPrintableBlePayloadInto_spec (bytes : List UInt8) (outBuf : Buffer) (outBufLen : Nat) :
    let run := getPrintableBlePayloadInto bytes bytes.length outBuf outBufLen
    run.value.Holds (getPrintableBlePayload bytes) ∧
      (run.faults = [] ↔ 2 * bytes.length < outBufLen) := by
  constructor
  · have hholds := holds_printLoop
      (fun i => access (decide (i < bytes.length)) .readPastEnd (bytes.getD i 0)) outBufLen
      bytes.length outBuf
    unfold printed at hholds
    simp only [value_access, map_getD_range'] at hholds
    exact hholds
  · unfold getPrintableBlePayloadInto
    rw [faults_printLoop, Nat.zero_add]
    simp

theorem byteAt_of_holds {buf : Buffer} {bytes : List UInt8}
    (h : buf.Holds (getPrintableBlePayload bytes)) {i : Nat} (hi : i < bytes.length) :
    hexToDecimal (buf (2 * i)) * 16 + hexToDecimal (buf (2 * i + 1)) =
      (bytes.getD i 0).toNat := by
  have hlength := getPrintableBlePayload_length bytes
  rw [h (2 * i) (by omega), h (2 * i + 1) (by omega)]
  exact (printable_readsAs bytes).byteAt i hi

/-! ## The text of a structure -/

namespace Eir

variable {e : Eir} {eirType : UInt8} {bufLen offset place : Nat}

theorem fillBufInto_spec (hpos : 0 < (e.eir offset).toNat) (buf : Buffer) (bufLen : Nat) :
    let run := e.fillBufInto offset buf bufLen
    run.value.Holds (getPrintableBlePayload (e.recordAt offset).bytes) ∧
      (run.faults = [] ↔
        offset + (e.eir offset).toNat < e.eirLen ∧ 2 * ((e.eir offset).toNat + 1) < bufLen) := by
  constructor
  · have hholds := holds_printLoop (fun i => e.byte (offset + i)) bufLen
      ((e.eir offset).toNat + 1) (Buffer.clear bufLen buf)
    unfold printed at hholds
    have hbytes : (List.range' 0 ((e.eir offset).toNat + 1)).map
        (fun i => (e.byte (offset + i)).value) = (e.recordAt offset).bytes := by
      rw [recordAt_bytes hpos, List.range'_eq_map_range (s := offset), List.map_map,
        ← List.range_eq_range']
      rfl
    rw [hbytes] at hholds
    exact hholds
  · unfold fillBufInto
    simp only [faults_bind, List.append_eq_nil_iff, faults_byte, value_byte, faults_printLoop]
    constructor
    · rintro ⟨-, hread, hroom⟩
      have := hread (e.eir offset).toNat (by simp)
      exact ⟨this, by omega⟩
    · rintro ⟨hread, hroom⟩
      refine ⟨by omega, fun k hk => ?_, by omega⟩
      have := List.mem_range'_1.mp hk
      omega

theorem fillBufInto_refines (hpos : 0 < (e.eir offset).toNat) (buf : Buffer) (bufLen : Nat) :
    let run := e.fillBufInto offset buf bufLen
    ∃ text, (e.fillBuf bufLen offset (e.eir offset).toNat).value = some (.workSuccessfully text) ∧
      run.value.Holds text ∧
      (run.faults = [] ↔ (e.fillBuf bufLen offset (e.eir offset).toNat).faults = []) := by
  obtain ⟨hholds, hfaults⟩ := fillBufInto_spec hpos buf bufLen
  rw [recordAt_bytes hpos] at hholds
  exact ⟨_, fillBuf_spec.1, hholds, hfaults.trans fillBuf_spec.2.symm⟩

theorem fillBufInto_byteAt (hpos : 0 < (e.eir offset).toNat) (buf : Buffer) (bufLen : Nat) {i : Nat}
    (hi : i ≤ (e.eir offset).toNat) :
    let run := e.fillBufInto offset buf bufLen
    hexToDecimal (run.value (2 * i)) * 16 + hexToDecimal (run.value (2 * i + 1)) =
      (e.eir (offset + i)).toNat := by
  have hbytes := recordAt_bytes hpos
  have hlt : i < (e.recordAt offset).bytes.length := by
    rw [hbytes, List.length_map, List.length_range']
    omega
  have hbyte : (e.recordAt offset).bytes.getD i 0 = e.eir (offset + i) := by
    rw [hbytes] at hlt ⊢
    simp [List.getElem?_range' (Nat.lt_succ_of_le hi)]
  rw [← hbyte]
  exact byteAt_of_holds (fillBufInto_spec hpos buf bufLen).1 hlt

/-- A structure that the loop does not give up at. -/
def Opens (e : Eir) (offset : Nat) : Prop :=
  0 < (e.eir offset).toNat ∧ offset + (e.eir offset).toNat ≤ e.eirLen

/-- The type of a structure is the one asked for, and there is a case for it. -/
def Wanted (eirType kind : UInt8) : Prop :=
  kind = eirType ∧ (kind = eirNameComplete ∨ kind = eirManufactureSpecificData)

/-- The loop gets from `offset` to `place` over structures of other types. -/
inductive Passes (e : Eir) (eirType : UInt8) : Nat → Nat → Prop
  | here (offset : Nat) : Passes e eirType offset offset
  | next {offset place : Nat} (hopens : e.Opens offset)
    (hother : ¬ Wanted eirType (e.eir (offset + 1)))
    (hrest : Passes e eirType (offset + (e.eir offset).toNat + 1) place) :
    Passes e eirType offset place

/-- The structure at `place` is copied to the buffer. -/
structure TakesAt (e : Eir) (eirType : UInt8) (bufLen place : Nat) : Prop where
  opens : e.Opens place
  wanted : Wanted eirType (e.eir (place + 1))
  length : TakesLength eirType (e.eir place).toNat
  fits : (e.eir place).toNat ≤ bufLen

/-- The walk from `offset` copies the structure at `place`. -/
def FindsAt (e : Eir) (eirType : UInt8) (bufLen offset place : Nat) : Prop :=
  e.Passes eirType offset place ∧ e.TakesAt eirType bufLen place

theorem not_findsAt (h : ¬ e.Opens offset) : ¬ e.FindsAt eirType bufLen offset place := by
  rintro ⟨hpasses, htakes⟩
  cases hpasses with
  | here => exact h htakes.opens
  | next hopens => exact h hopens

theorem findsAt_other_iff (hopens : e.Opens offset)
    (hother : ¬ Wanted eirType (e.eir (offset + 1))) :
    e.FindsAt eirType bufLen offset place ↔
      e.FindsAt eirType bufLen (offset + (e.eir offset).toNat + 1) place := by
  constructor
  · rintro ⟨hpasses, htakes⟩
    cases hpasses with
    | here => exact absurd htakes.wanted hother
    | next _ _ hrest => exact ⟨hrest, htakes⟩
  · rintro ⟨hrest, htakes⟩
    exact ⟨Passes.next hopens hother hrest, htakes⟩

theorem findsAt_wanted_iff (hwanted : Wanted eirType (e.eir (offset + 1))) :
    e.FindsAt eirType bufLen offset place ↔
      place = offset ∧ e.TakesAt eirType bufLen offset := by
  constructor
  · rintro ⟨hpasses, htakes⟩
    cases hpasses with
    | here => exact ⟨rfl, htakes⟩
    | next _ hother => exact absurd hwanted hother
  · rintro ⟨rfl, htakes⟩
    exact ⟨Passes.here _, htakes⟩

section Switch

variable {kind : UInt8} {fieldLen : Nat} {next : Watched (Option EirResult)}

theorem switchKind_unwanted (h : ¬ Wanted eirType kind) :
    e.switchKind eirType bufLen offset fieldLen kind next = next := by
  by_cases hkind : kind = eirType
  · have hname : ¬ kind = eirNameComplete := fun hname => h ⟨hkind, Or.inl hname⟩
    have hmanufacture : ¬ kind = eirManufactureSpecificData :=
      fun hmanufacture => h ⟨hkind, Or.inr hmanufacture⟩
    unfold switchKind
    rw [if_neg hname, if_neg hmanufacture]
  · exact switchKind_other hkind

theorem switchKind_small (h : Wanted eirType kind) (hbuf : bufLen < fieldLen) :
    e.switchKind eirType bufLen offset fieldLen kind next = pure (some .eParseUuid) := by
  obtain ⟨rfl, hknown⟩ := h
  unfold switchKind
  obtain rfl | rfl := hknown
  · simp [hbuf]
  · rw [if_neg (by decide)]
    simp [hbuf]

end Switch

theorem walk_closed (h : ¬ e.Opens offset) (fuel : Nat) :
    (e.walk eirType bufLen (fuel + 1) offset).value = some .eParseUuid := by
  by_cases hpast : e.eirLen ≤ offset
  · rw [walk_past hpast, value_pure]
  · unfold Opens at h
    exact (walk_long eirType bufLen fuel (by omega) (by omega)).1

theorem switchKind_writes_iff (hopens : e.Opens offset)
    (hwanted : Wanted eirType (e.eir (offset + 1))) (next : Watched (Option EirResult))
    (text : Str) :
    (e.switchKind eirType bufLen offset (e.eir offset).toNat (e.eir (offset + 1)) next).value =
        some (.workSuccessfully text) ↔
      e.TakesAt eirType bufLen offset ∧
        text = getPrintableBlePayload (e.recordAt offset).bytes := by
  by_cases hsmall : bufLen < (e.eir offset).toNat
  · rw [switchKind_small hwanted hsmall]
    refine iff_of_false (by simp) ?_
    rintro ⟨htakes, -⟩
    exact absurd htakes.fits (Nat.not_le.mpr hsmall)
  have hbuf : (e.eir offset).toNat ≤ bufLen := Nat.not_lt.mp hsmall
  have htype : eirType = eirNameComplete ∨ eirType = eirManufactureSpecificData :=
    hwanted.1 ▸ hwanted.2
  by_cases hlength : TakesLength eirType (e.eir offset).toNat
  · have htakes : e.TakesAt eirType bufLen offset := ⟨hopens, hwanted, hlength, hbuf⟩
    rw [hwanted.1, switchKind_taken htype hbuf hlength, fillBuf_spec.1, ← recordAt_bytes hopens.1]
    simp [htakes, eq_comm]
  · rw [hwanted.1, switchKind_refused htype hbuf hlength]
    refine iff_of_false (by simp) ?_
    rintro ⟨htakes, -⟩
    exact hlength htakes.length

theorem walk_writes_iff {fuel : Nat} (hfuel : e.eirLen ≤ offset + fuel) (text : Str) :
    (e.walk eirType bufLen (fuel + 1) offset).value = some (.workSuccessfully text) ↔
      ∃ place, e.FindsAt eirType bufLen offset place ∧
        text = getPrintableBlePayload (e.recordAt place).bytes := by
  induction fuel generalizing offset with
  | zero =>
    have hclosed : ¬ e.Opens offset := by
      unfold Opens
      omega
    rw [walk_closed hclosed]
    simp [not_findsAt hclosed]
  | succ fuel ih =>
    by_cases hopens : e.Opens offset
    · obtain ⟨hvalue, -⟩ := walk_switch eirType bufLen (fuel + 1) hopens.1 hopens.2
      rw [hvalue]
      by_cases hwanted : Wanted eirType (e.eir (offset + 1))
      · rw [switchKind_writes_iff hopens hwanted]
        simp only [findsAt_wanted_iff hwanted, and_assoc, exists_eq_left]
      · rw [switchKind_unwanted hwanted, ih (by omega)]
        simp only [findsAt_other_iff hopens hwanted]
    · rw [walk_closed hopens]
      simp [not_findsAt hopens]

theorem parse_writes_iff (e : Eir) (eirType : UInt8) (bufLen : Nat) (text : Str) :
    (e.parseSpecificData eirType bufLen).value = some (.workSuccessfully text) ↔
      ∃ place, e.FindsAt eirType bufLen 0 place ∧
        text = getPrintableBlePayload (e.recordAt place).bytes := by
  unfold parseSpecificData
  apply walk_writes_iff
  omega

end Eir

/-! ## One code -/

theorem hex_codes_agree :
    (∀ (bytes : List UInt8) (outBuf : Buffer), bytes.length ≤ 32 →
      let run := getPrintableBlePayloadInto bytes bytes.length outBuf lengthOfAdvertisement
      run.faults = [] ∧ run.value.Holds (getPrintableBlePayload bytes) ∧
        ReadsAs (run.value.string lengthOfAdvertisement) bytes) ∧
    (∀ bytes : List UInt8, ReadsAs (getPrintableBlePayload bytes) bytes) ∧
    (∀ (e : Eir) (eirType : UInt8) (bufLen : Nat) (text : Str),
      (e.parseSpecificData eirType bufLen).value = some (.workSuccessfully text) ↔
        ∃ place, e.FindsAt eirType bufLen 0 place ∧
          text = getPrintableBlePayload (e.recordAt place).bytes) ∧
    ∀ (e : Eir) (eirType : UInt8) (bufLen place : Nat) (buf : Buffer),
      e.FindsAt eirType bufLen 0 place →
      let run := e.fillBufInto place buf bufLen
      run.value.Holds (getPrintableBlePayload (e.recordAt place).bytes) ∧
        ∀ i ≤ (e.eir place).toNat,
          hexToDecimal (run.value (2 * i)) * 16 + hexToDecimal (run.value (2 * i + 1)) =
            (e.eir (place + i)).toNat := by
  refine ⟨fun bytes outBuf hlen => ?_, printable_readsAs, Eir.parse_writes_iff,
    fun e eirType bufLen place buf hfinds => ?_⟩
  · obtain ⟨hholds, hsafe⟩ := getPrintableBlePayloadInto_spec bytes outBuf lengthOfAdvertisement
    have hfits : (getPrintableBlePayload bytes).length < lengthOfAdvertisement := by
      rw [getPrintableBlePayload_length]
      unfold lengthOfAdvertisement
      omega
    refine ⟨hsafe.mpr (by rwa [getPrintableBlePayload_length] at hfits), hholds, ?_⟩
    rw [hholds.string_eq (notMem_printable (by decide) bytes) hfits.le]
    apply printable_readsAs
  · have hpos := hfinds.2.opens.1
    exact ⟨(Eir.fillBufInto_spec hpos buf bufLen).1,
      fun i hi => Eir.fillBufInto_byteAt hpos buf bufLen hi⟩

theorem hex_codes_agree_name :
    let name : List UInt8 := [3, 0x09, 65, 66]
    let run := getPrintableBlePayloadInto name 4 (fun _ => 'x') lengthOfAdvertisement
    (run.faults = [] ∧ ReadsAs (run.value.string lengthOfAdvertisement) name) ∧
      ((Eir.ofPayload name).parseSpecificData eirNameComplete 65).value =
        some (.workSuccessfully "03094142".toList) := by
  have hfinds : (Eir.ofPayload [3, 0x09, 65, 66]).FindsAt eirNameComplete 65 0 0 :=
    ⟨Eir.Passes.here 0, ⟨by decide, by decide⟩, ⟨rfl, Or.inl rfl⟩,
      fun hmanufacture => absurd hmanufacture (by decide), by decide⟩
  obtain ⟨hsafe, -, hreads⟩ := hex_codes_agree.1 [3, 0x09, 65, 66] (fun _ => 'x') (by decide)
  exact ⟨⟨hsafe, hreads⟩, (hex_codes_agree.2.2.1 _ _ _ _).mpr ⟨0, hfinds, by decide⟩⟩

end LBeacon
