import LBeacon.Payload
import LBeacon.Lib.CMemory
import LBeacon.Lib.LengthPrefixed

/-!
# The walk over the AD structures of a report

`eir_parse_specific_data` with every byte that it reads and writes, against a parser of
length-prefixed records.
-/

open CText CMemory LengthPrefixed

namespace LBeacon

/-- No caller looks at `buf` after a failure. -/
inductive EirResult where
  | workSuccessfully (buf : Str)
  | eParseUuid
  deriving DecidableEq

def EirResult.text? : EirResult → Option Str
  | .workSuccessfully buf => some buf
  | .eParseUuid => none

/-- Memory from the start of a report on. The report owns the first `eirLen` bytes of it. -/
structure Eir where
  eir : Nat → UInt8
  eirLen : Nat

namespace Eir

/-- A payload array is cleared before the report is copied in. -/
def ofPayload (payload : List UInt8) : Eir where
  eir i := payload.getD i 0
  eirLen := payload.length

def byte (e : Eir) (i : Nat) : Watched UInt8 :=
  access (decide (i < e.eirLen)) .readPastEnd (e.eir i)

/-! ## The source -/

/-- The hex loop over `count` bytes from `i` on. -/
def hexText (e : Eir) : Nat → Nat → Watched Str
  | 0, _ => pure []
  | count + 1, i => do
    let b ← e.byte i
    let text ← e.hexText count (i + 1)
    pure (hexByte b ++ text)

/-- The text of a structure and its NUL. `i <= field_len`: the length byte is part of the text. -/
def fillBuf (e : Eir) (bufLen offset fieldLen : Nat) : Watched (Option EirResult) := do
  let text ← e.hexText (fieldLen + 1) offset
  access (decide (2 * (fieldLen + 1) < bufLen)) .writePastEnd ()
  pure (some (.workSuccessfully text))

/-- `switch (eir[1])`. `next` is the rest of the loop, where a `break` leads. -/
def switchKind (e : Eir) (eirType : UInt8) (bufLen offset fieldLen : Nat) (kind : UInt8)
    (next : Watched (Option EirResult)) : Watched (Option EirResult) :=
  if kind = eirNameComplete then
    if kind ≠ eirType then next
    else if fieldLen > bufLen then pure (some .eParseUuid)
    else e.fillBuf bufLen offset fieldLen
  else if kind = eirManufactureSpecificData then
    if kind ≠ eirType then next
    else if fieldLen > bufLen then pure (some .eParseUuid)
    else if fieldLen = blePayloadFormat05C60xffFieldLen.toNat ∨
        fieldLen = blePayloadFormat05C70xffFieldLen.toNat then
      e.fillBuf bufLen offset fieldLen
    else pure (some .eParseUuid)
  else next

/-- The loop with `offset` bytes behind it. The pointer `eir` moves along with `offset`, and a
report is shorter than the address space, so the sum of `offset` and `field_len` does not wrap.
`none` is a loop that has not ended after `fuel` rounds. -/
def walk (e : Eir) (eirType : UInt8) (bufLen : Nat) : Nat → Nat → Watched (Option EirResult)
  | 0, _ => pure none
  | fuel + 1, offset =>
    if offset < e.eirLen then do
      let fieldLen := (← e.byte offset).toNat
      if fieldLen = 0 then pure (some .eParseUuid)
      else if offset + fieldLen > e.eirLen then pure (some .eParseUuid)
      else do
        let kind ← e.byte (offset + 1)
        e.switchKind eirType bufLen offset fieldLen kind
          (e.walk eirType bufLen fuel (offset + fieldLen + 1))
    else pure (some .eParseUuid)

def parseSpecificData (e : Eir) (eirType : UInt8) (bufLen : Nat) : Watched (Option EirResult) :=
  e.walk eirType bufLen (e.eirLen + 1) 0

/-! ## The bytes of a report -/

def bytesFrom (e : Eir) (offset : Nat) : List UInt8 :=
  (List.range' offset (e.eirLen - offset)).map e.eir

/-- The report. -/
def bytes (e : Eir) : List UInt8 := e.bytesFrom 0

end Eir

/-! ## The reference -/

/-- The lengths that are taken for a type: any name, manufacturer data of the two tags only. -/
def TakesLength (eirType : UInt8) (length : Nat) : Prop :=
  eirType = eirManufactureSpecificData → length = 7 ∨ length = 11

def Finds (eirType : UInt8) (bytes : List UInt8) (s : Record) : Prop :=
  Reaches (· ≠ eirType) bytes s ∧ s.kind = eirType ∧ TakesLength eirType s.length

/-- What the reference answers for a report. -/
def Parses (eirType : UInt8) (bytes : List UInt8) : EirResult → Prop
  | .workSuccessfully buf => ∃ s, Finds eirType bytes s ∧ buf = getPrintableBlePayload s.bytes
  | .eParseUuid => ∀ s, ¬ Finds eirType bytes s

/-- A run that ends with the answer of the reference and stays inside the report and the buffer. -/
structure MatchesReference (run : Watched (Option EirResult)) (eirType : UInt8)
    (bytes : List UInt8) : Prop where
  ends : ∃ result, run.value = some result
  inside : run.faults = []
  answer : ∀ result, run.value = some result ↔ Parses eirType bytes result

/-- A structure that the walk reaches ends one byte past the report, and it has only its length
byte there or is one that the walk takes. -/
def EndsShort (eirType : UInt8) (bytes : List UInt8) : Prop :=
  ∃ L rest, Walks (· ≠ eirType) bytes (L :: rest) ∧ L.toNat = rest.length + 1 ∧
    (rest = [] ∨ rest.head? = some eirType ∧ TakesLength eirType L.toNat)

theorem parses_unique {eirType : UInt8} {bytes : List UInt8} {result result' : EirResult}
    (h : Parses eirType bytes result) (h' : Parses eirType bytes result') : result = result' := by
  cases result with
  | eParseUuid =>
    cases result' with
    | eParseUuid => rfl
    | workSuccessfully =>
      obtain ⟨s, hfinds, _⟩ := h'
      exact absurd hfinds (h s)
  | workSuccessfully =>
    obtain ⟨s, hfinds, rfl⟩ := h
    cases result' with
    | eParseUuid => exact absurd hfinds (h' s)
    | workSuccessfully =>
      obtain ⟨s', hfinds', rfl⟩ := h'
      have hs : s = s' :=
        first_unique hfinds.1 hfinds'.1 (not_not.mpr hfinds.2.1) (not_not.mpr hfinds'.2.1)
      rw [hs]

theorem matches_of_value {run : Watched (Option EirResult)} {eirType : UInt8} {bytes : List UInt8}
    {result : EirResult} (hvalue : run.value = some result) (hfaults : run.faults = [])
    (hparses : Parses eirType bytes result) : MatchesReference run eirType bytes where
  ends := ⟨result, hvalue⟩
  inside := hfaults
  answer result' := by
    rw [hvalue, Option.some.injEq]
    constructor
    · rintro rfl
      exact hparses
    · exact parses_unique hparses

/-! ### Passing over a structure of another type -/

section Skip

variable {eirType : UInt8} {s : Record} {rest : List UInt8}

theorem finds_skip_iff (h : s.kind ≠ eirType) (s' : Record) :
    Finds eirType (s.bytes ++ rest) s' ↔ Finds eirType rest s' := by
  unfold Finds
  rw [reaches_record_iff]
  constructor
  · rintro ⟨rfl | ⟨_, hreach⟩, hkind, htakes⟩
    · exact absurd hkind h
    · exact ⟨hreach, hkind, htakes⟩
  · rintro ⟨hreach, hkind, htakes⟩
    exact ⟨Or.inr ⟨h, hreach⟩, hkind, htakes⟩

theorem parses_skip_iff (h : s.kind ≠ eirType) (result : EirResult) :
    Parses eirType (s.bytes ++ rest) result ↔ Parses eirType rest result := by
  cases result <;> simp only [Parses, finds_skip_iff h]

theorem endsShort_record_iff (eirType : UInt8) (s : Record) (rest : List UInt8) :
    EndsShort eirType (s.bytes ++ rest) ↔ s.kind ≠ eirType ∧ EndsShort eirType rest := by
  unfold EndsShort
  constructor
  · rintro ⟨L, tail, hwalk, hlength, hend⟩
    obtain heq | ⟨hskip, hwalk⟩ := walks_record_iff.mp hwalk
    · -- The structure itself fits, so it does not end short.
      have := Record.inside heq
      omega
    · exact ⟨hskip, L, tail, hwalk, hlength, hend⟩
  · rintro ⟨hskip, L, tail, hwalk, hend⟩
    exact ⟨L, tail, Walks.skip hskip hwalk, hend⟩

end Skip

/-! ### Where no structure fits -/

section Stuck

variable {eirType : UInt8} {bytes : List UInt8}

theorem parses_of_stuck (h : Stuck bytes) : Parses eirType bytes .eParseUuid :=
  fun _ hfinds => not_reaches_of_stuck h hfinds.1

theorem endsShort_stuck_iff (h : Stuck bytes) :
    EndsShort eirType bytes ↔ ∃ L rest, bytes = L :: rest ∧ L.toNat = rest.length + 1 ∧
      (rest = [] ∨ rest.head? = some eirType ∧ TakesLength eirType L.toNat) := by
  simp only [EndsShort, walks_stuck_iff h, eq_comm]

end Stuck

/-! ## The bytes that a round sees -/

namespace Eir

variable {e : Eir} {offset fieldLen : Nat}

@[simp] theorem value_byte (i : Nat) : (e.byte i).value = e.eir i := rfl

@[simp] theorem faults_byte (i : Nat) : (e.byte i).faults = [] ↔ i < e.eirLen := by
  simp [byte]

theorem bytesFrom_past (h : e.eirLen ≤ offset) : e.bytesFrom offset = [] := by
  unfold bytesFrom
  rw [Nat.sub_eq_zero_of_le h]
  rfl

theorem bytesFrom_cons (h : offset < e.eirLen) :
    e.bytesFrom offset = e.eir offset :: e.bytesFrom (offset + 1) := by
  unfold bytesFrom
  have hlen : e.eirLen - offset = e.eirLen - (offset + 1) + 1 := by omega
  rw [hlen, List.range'_succ, List.map_cons]

@[simp] theorem length_bytesFrom : (e.bytesFrom offset).length = e.eirLen - offset := by
  simp [bytesFrom]

/-- The structure at `offset`, whether or not it lies inside the report. -/
def recordAt (e : Eir) (offset : Nat) : Record where
  kind := e.eir (offset + 1)
  body := (List.range' (offset + 2) ((e.eir offset).toNat - 1)).map e.eir
  fits := by
    have := (e.eir offset).toNat_lt
    simp
    omega

theorem recordAt_length (hpos : 0 < (e.eir offset).toNat) :
    (e.recordAt offset).length = (e.eir offset).toNat := by
  simp only [Record.length, recordAt, List.length_map, List.length_range']
  omega

theorem recordAt_bytes (hpos : 0 < (e.eir offset).toNat) :
    (e.recordAt offset).bytes =
      (List.range' offset ((e.eir offset).toNat + 1)).map e.eir := by
  obtain ⟨n, hn⟩ := Nat.exists_eq_add_of_lt hpos
  rw [Record.bytes, recordAt_length hpos, UInt8.ofNat_toNat]
  simp only [recordAt, hn, List.range'_succ, List.map_cons, Nat.zero_add, Nat.add_sub_cancel]

theorem bytesFrom_record (hpos : 0 < (e.eir offset).toNat)
    (hfits : offset + (e.eir offset).toNat < e.eirLen) :
    e.bytesFrom offset =
      (e.recordAt offset).bytes ++ e.bytesFrom (offset + (e.eir offset).toNat + 1) := by
  rw [recordAt_bytes hpos, bytesFrom, bytesFrom, ← List.map_append]
  have hlen : e.eirLen - offset = (e.eir offset).toNat + 1 +
      (e.eirLen - (offset + (e.eir offset).toNat + 1)) := by omega
  rw [hlen, ← List.range'_append_1, Nat.add_assoc offset]

/-! ## One round of the loop -/

theorem value_hexText (count i : Nat) :
    (e.hexText count i).value = getPrintableBlePayload ((List.range' i count).map e.eir) := by
  induction count generalizing i with
  | zero => rfl
  | succ count ih =>
    rw [List.range'_succ, List.map_cons, getPrintableBlePayload, List.flatMap_cons,
      ← getPrintableBlePayload, ← ih]
    rfl

theorem faults_hexText (count i : Nat) :
    (e.hexText (count + 1) i).faults = [] ↔ i + count < e.eirLen := by
  induction count generalizing i with
  | zero => simp [hexText]
  | succ count ih =>
    rw [hexText]
    simp only [faults_bind, faults_pure, List.append_eq_nil_iff, faults_byte, ih, and_true]
    omega

variable {eirType kind : UInt8} {bufLen fuel : Nat} {next : Watched (Option EirResult)}

theorem fillBuf_spec :
    (e.fillBuf bufLen offset fieldLen).value = some (.workSuccessfully
      (getPrintableBlePayload ((List.range' offset (fieldLen + 1)).map e.eir))) ∧
    ((e.fillBuf bufLen offset fieldLen).faults = [] ↔
      offset + fieldLen < e.eirLen ∧ 2 * (fieldLen + 1) < bufLen) := by
  unfold fillBuf
  simp [value_hexText, faults_hexText]

theorem switchKind_other (h : kind ≠ eirType) :
    e.switchKind eirType bufLen offset fieldLen kind next = next := by
  unfold switchKind
  simp [h]

theorem takesLength_iff : TakesLength eirManufactureSpecificData fieldLen ↔
    fieldLen = blePayloadFormat05C60xffFieldLen.toNat ∨
      fieldLen = blePayloadFormat05C70xffFieldLen.toNat :=
  ⟨fun h => h rfl, fun h _ => h⟩

section Taken

variable (htype : eirType = eirNameComplete ∨ eirType = eirManufactureSpecificData)
  (hbuf : fieldLen ≤ bufLen)
include htype hbuf

theorem switchKind_taken (h : TakesLength eirType fieldLen) :
    e.switchKind eirType bufLen offset fieldLen eirType next =
      e.fillBuf bufLen offset fieldLen := by
  unfold switchKind
  obtain rfl | rfl := htype
  · simp [Nat.not_lt.mpr hbuf]
  · rw [if_neg (by decide), if_pos rfl, if_neg (not_not.mpr rfl), if_neg (Nat.not_lt.mpr hbuf),
      if_pos (takesLength_iff.mp h)]

theorem switchKind_refused (h : ¬ TakesLength eirType fieldLen) :
    e.switchKind eirType bufLen offset fieldLen eirType next = pure (some .eParseUuid) := by
  unfold switchKind
  obtain rfl | rfl := htype
  · exact absurd (fun hmanufacture => absurd hmanufacture (by decide)) h
  · rw [if_neg (by decide), if_pos rfl, if_neg (not_not.mpr rfl), if_neg (Nat.not_lt.mpr hbuf),
      if_neg (mt takesLength_iff.mpr h)]

end Taken

theorem walk_past (h : e.eirLen ≤ offset) :
    e.walk eirType bufLen (fuel + 1) offset = pure (some .eParseUuid) := by
  rw [walk, if_neg (Nat.not_lt.mpr h)]

theorem walk_long (eirType : UInt8) (bufLen fuel : Nat) (h : offset < e.eirLen)
    (hlong : (e.eir offset).toNat = 0 ∨ e.eirLen < offset + (e.eir offset).toNat) :
    (e.walk eirType bufLen (fuel + 1) offset).value = some .eParseUuid ∧
      (e.walk eirType bufLen (fuel + 1) offset).faults = [] := by
  rw [walk, if_pos h]
  by_cases hzero : (e.byte offset).value.toNat = 0
  · simp only [value_bind, faults_bind, if_pos hzero]
    simp [h]
  · have hlong : offset + (e.byte offset).value.toNat > e.eirLen := by
      rw [value_byte] at hzero ⊢
      omega
    simp only [value_bind, faults_bind, if_neg hzero, if_pos hlong]
    simp [h]

theorem walk_switch (eirType : UInt8) (bufLen fuel : Nat) (hpos : 0 < (e.eir offset).toNat)
    (hle : offset + (e.eir offset).toNat ≤ e.eirLen) :
    let run := e.walk eirType bufLen (fuel + 1) offset
    let rest := e.switchKind eirType bufLen offset (e.eir offset).toNat (e.eir (offset + 1))
      (e.walk eirType bufLen fuel (offset + (e.eir offset).toNat + 1))
    run.value = rest.value ∧ (run.faults = [] ↔ offset + 1 < e.eirLen ∧ rest.faults = []) := by
  have h : offset < e.eirLen := by omega
  rw [walk, if_pos h]
  have hzero : ¬ (e.byte offset).value.toNat = 0 := hpos.ne'
  have hfits : ¬ offset + (e.byte offset).value.toNat > e.eirLen := Nat.not_lt.mpr hle
  simp only [value_bind, faults_bind, if_neg hzero, if_neg hfits]
  simp [h]

/-! ## The loop against the reference -/

theorem stuck_bytesFrom (h : e.eirLen ≤ offset + (e.eir offset).toNat ∨ (e.eir offset).toNat = 0) :
    Stuck (e.bytesFrom offset) := by
  by_cases hpast : e.eirLen ≤ offset
  · rw [bytesFrom_past hpast]
    apply stuck_nil
  · rw [bytesFrom_cons (by omega)]
    apply stuck_cons
    rw [length_bytesFrom]
    omega

theorem past_matches_iff (hpast : e.eirLen ≤ offset) :
    MatchesReference (e.walk eirType bufLen (fuel + 1) offset) eirType (e.bytesFrom offset) ↔
      ¬ EndsShort eirType (e.bytesFrom offset) := by
  rw [walk_past hpast, endsShort_stuck_iff (stuck_bytesFrom (by omega)), bytesFrom_past hpast]
  exact iff_of_true (matches_of_value rfl rfl (parses_of_stuck stuck_nil)) (by simp)

theorem endsShort_bytesFrom_iff (h : offset < e.eirLen)
    (hstuck : Stuck (e.bytesFrom offset)) :
    EndsShort eirType (e.bytesFrom offset) ↔ offset + (e.eir offset).toNat = e.eirLen ∧
      (e.eirLen = offset + 1 ∨
        e.eir (offset + 1) = eirType ∧ TakesLength eirType (e.eir offset).toNat) := by
  rw [endsShort_stuck_iff hstuck, bytesFrom_cons h]
  constructor
  · rintro ⟨L, rest, heq, hlength, hend⟩
    obtain ⟨rfl, rfl⟩ := List.cons.inj heq
    rw [length_bytesFrom] at hlength
    refine ⟨by omega, ?_⟩
    obtain hnil | ⟨hhead, htakes⟩ := hend
    · have := congrArg List.length hnil
      rw [length_bytesFrom, List.length_nil] at this
      omega
    · by_cases hlast : e.eirLen ≤ offset + 1
      · omega
      · rw [bytesFrom_cons (by omega)] at hhead
        exact Or.inr ⟨Option.some.inj hhead, htakes⟩
  · rintro ⟨hlength, hend⟩
    refine ⟨_, _, rfl, by rw [length_bytesFrom]; omega, ?_⟩
    by_cases hlast : e.eirLen ≤ offset + 1
    · exact Or.inl (bytesFrom_past hlast)
    · obtain hone | ⟨hkind, htakes⟩ := hend
      · omega
      · rw [bytesFrom_cons (by omega), List.head?_cons, hkind]
        exact Or.inr ⟨rfl, htakes⟩

theorem long_matches_iff (h : offset < e.eirLen)
    (hlong : (e.eir offset).toNat = 0 ∨ e.eirLen < offset + (e.eir offset).toNat) :
    MatchesReference (e.walk eirType bufLen (fuel + 1) offset) eirType (e.bytesFrom offset) ↔
      ¬ EndsShort eirType (e.bytesFrom offset) := by
  have hstuck : Stuck (e.bytesFrom offset) := stuck_bytesFrom (by omega)
  obtain ⟨hvalue, hfaults⟩ := walk_long eirType bufLen fuel h hlong
  rw [endsShort_bytesFrom_iff h hstuck]
  refine iff_of_true (matches_of_value hvalue hfaults (parses_of_stuck hstuck)) ?_
  omega

section Short

variable (htype : eirType = eirNameComplete ∨ eirType = eirManufactureSpecificData)
  (hbuf : 2 * min e.eirLen 256 + 1 ≤ bufLen) (hpos : 0 < (e.eir offset).toNat)
  (hshort : offset + (e.eir offset).toNat = e.eirLen)
include htype hbuf hpos hshort

theorem short_taken (hkind : e.eir (offset + 1) = eirType)
    (htakes : TakesLength eirType (e.eir offset).toNat) :
    (e.walk eirType bufLen (fuel + 1) offset).faults ≠ [] := by
  have hbyte := (e.eir offset).toNat_lt
  obtain ⟨_, hfaults⟩ := walk_switch eirType bufLen fuel hpos hshort.le
  rw [hkind, switchKind_taken htype (by omega) htakes, fillBuf_spec.2] at hfaults
  intro hclean
  have := (hfaults.mp hclean).2.1
  omega

theorem short_left (fuel : Nat)
    (h : ¬ (e.eir (offset + 1) = eirType ∧ TakesLength eirType (e.eir offset).toNat)) :
    (e.walk eirType bufLen (fuel + 2) offset).value = some .eParseUuid ∧
      ((e.walk eirType bufLen (fuel + 2) offset).faults = [] ↔ offset + 1 < e.eirLen) := by
  have hbyte := (e.eir offset).toNat_lt
  obtain ⟨hvalue, hfaults⟩ := walk_switch eirType bufLen (fuel + 1) hpos hshort.le
  rw [hvalue, hfaults]
  by_cases hkind : e.eir (offset + 1) = eirType
  · rw [hkind, switchKind_refused htype (by omega) fun htakes => h ⟨hkind, htakes⟩]
    simp
  · rw [switchKind_other hkind, walk_past (by omega)]
    simp

theorem short_matches_iff :
    MatchesReference (e.walk eirType bufLen (fuel + 2) offset) eirType (e.bytesFrom offset) ↔
      ¬ EndsShort eirType (e.bytesFrom offset) := by
  have hstuck : Stuck (e.bytesFrom offset) := stuck_bytesFrom (by omega)
  rw [endsShort_bytesFrom_iff (by omega) hstuck]
  by_cases h : e.eir (offset + 1) = eirType ∧ TakesLength eirType (e.eir offset).toNat
  · refine iff_of_false (fun hmatches => ?_) (not_not.mpr ⟨hshort, Or.inr h⟩)
    exact short_taken htype hbuf hpos hshort h.1 h.2 hmatches.inside
  · obtain ⟨hvalue, hfaults⟩ := short_left htype hbuf hpos hshort fuel h
    constructor
    · rintro hmatches ⟨_, hend⟩
      have hinside := hfaults.mp hmatches.inside
      exact h (hend.resolve_left (by omega))
    · intro hend
      have hinside : e.eirLen ≠ offset + 1 := fun hone => hend ⟨hshort, Or.inl hone⟩
      exact matches_of_value hvalue (hfaults.mpr (by omega)) (parses_of_stuck hstuck)

end Short

section Fits

variable (hpos : 0 < (e.eir offset).toNat) (hfits : offset + (e.eir offset).toNat < e.eirLen)
include hpos hfits

theorem skip_matches_iff (hkind : e.eir (offset + 1) ≠ eirType) :
    MatchesReference (e.walk eirType bufLen (fuel + 1) offset) eirType (e.bytesFrom offset) ↔
      MatchesReference (e.walk eirType bufLen fuel (offset + (e.eir offset).toNat + 1)) eirType
        (e.bytesFrom (offset + (e.eir offset).toNat + 1)) := by
  obtain ⟨hvalue, hfaults⟩ := walk_switch eirType bufLen fuel hpos hfits.le
  rw [switchKind_other hkind] at hvalue hfaults
  have hparses (result : EirResult) : Parses eirType (e.bytesFrom offset) result ↔
      Parses eirType (e.bytesFrom (offset + (e.eir offset).toNat + 1)) result := by
    rw [bytesFrom_record hpos hfits]
    exact parses_skip_iff hkind result
  constructor
  · rintro ⟨hends, hinside, hanswer⟩
    exact ⟨hvalue ▸ hends, (hfaults.mp hinside).2, by simpa only [hvalue, hparses] using hanswer⟩
  · rintro ⟨hends, hinside, hanswer⟩
    exact ⟨hvalue ▸ hends, hfaults.mpr ⟨by omega, hinside⟩,
      by simpa only [hvalue, hparses] using hanswer⟩

theorem found_matches
    (htype : eirType = eirNameComplete ∨ eirType = eirManufactureSpecificData)
    (hbuf : 2 * min e.eirLen 256 + 1 ≤ bufLen) (hkind : e.eir (offset + 1) = eirType) :
    MatchesReference (e.walk eirType bufLen (fuel + 1) offset) eirType (e.bytesFrom offset) := by
  have hbyte := (e.eir offset).toNat_lt
  have hfinds (s : Record) : Finds eirType (e.bytesFrom offset) s ↔
      s = e.recordAt offset ∧ TakesLength eirType (e.eir offset).toNat := by
    unfold Finds
    rw [bytesFrom_record hpos hfits, reaches_record_iff, ← recordAt_length hpos]
    constructor
    · rintro ⟨rfl | ⟨hskip, _⟩, _, htakes⟩
      · exact ⟨rfl, htakes⟩
      · exact absurd hkind hskip
    · rintro ⟨rfl, htakes⟩
      exact ⟨Or.inl rfl, hkind, htakes⟩
  obtain ⟨hvalue, hfaults⟩ := walk_switch eirType bufLen fuel hpos hfits.le
  rw [hkind] at hvalue hfaults
  by_cases htakes : TakesLength eirType (e.eir offset).toNat
  · rw [switchKind_taken htype (by omega) htakes] at hvalue hfaults
    rw [fillBuf_spec.1] at hvalue
    refine matches_of_value hvalue (hfaults.mpr ⟨by omega, fillBuf_spec.2.mpr (by omega)⟩) ?_
    exact ⟨_, (hfinds _).mpr ⟨rfl, htakes⟩, by rw [recordAt_bytes hpos]⟩
  · rw [switchKind_refused htype (by omega) htakes] at hvalue hfaults
    refine matches_of_value hvalue (hfaults.mpr ⟨by omega, rfl⟩) fun s hfound => ?_
    exact htakes ((hfinds s).mp hfound).2

end Fits

theorem walk_matches_iff
    (htype : eirType = eirNameComplete ∨ eirType = eirManufactureSpecificData)
    (hbuf : 2 * min e.eirLen 256 + 1 ≤ bufLen) (hfuel : e.eirLen ≤ offset + fuel) :
    MatchesReference (e.walk eirType bufLen (fuel + 1) offset) eirType (e.bytesFrom offset) ↔
      ¬ EndsShort eirType (e.bytesFrom offset) := by
  induction fuel generalizing offset with
  | zero => exact past_matches_iff (by omega)
  | succ fuel ih =>
    by_cases hpast : e.eirLen ≤ offset
    · exact past_matches_iff hpast
    by_cases hlong : (e.eir offset).toNat = 0 ∨ e.eirLen < offset + (e.eir offset).toNat
    · exact long_matches_iff (by omega) hlong
    have hpos : 0 < (e.eir offset).toNat := by omega
    by_cases hshort : offset + (e.eir offset).toNat = e.eirLen
    · exact short_matches_iff htype hbuf hpos hshort
    -- The structure fits: it is the one that is wanted, or the walk goes on behind it.
    have hfits : offset + (e.eir offset).toNat < e.eirLen := by omega
    have hshort_iff := endsShort_record_iff eirType (e.recordAt offset)
      (e.bytesFrom (offset + (e.eir offset).toNat + 1))
    rw [← bytesFrom_record hpos hfits] at hshort_iff
    by_cases hkind : e.eir (offset + 1) = eirType
    · refine iff_of_true (found_matches hpos hfits htype hbuf hkind) fun hend => ?_
      exact (hshort_iff.mp hend).1 hkind
    · rw [skip_matches_iff hpos hfits hkind, ih (by omega), hshort_iff]
      exact not_congr ⟨fun hend => ⟨hkind, hend⟩, And.right⟩

theorem parses_iff (e : Eir) (eirType : UInt8) (bufLen : Nat)
    (htype : eirType = eirNameComplete ∨ eirType = eirManufactureSpecificData)
    (hbuf : 2 * min e.eirLen 256 + 1 ≤ bufLen) :
    MatchesReference (e.parseSpecificData eirType bufLen) eirType e.bytes ↔
      ¬ EndsShort eirType e.bytes := by
  apply walk_matches_iff htype hbuf
  omega

theorem parses_name :
    MatchesReference ((ofPayload [3, 0x09, 65, 66]).parseSpecificData eirNameComplete 65)
      eirNameComplete (ofPayload [3, 0x09, 65, 66]).bytes := by
  refine (parses_iff _ _ _ (Or.inl rfl) (by decide)).mpr fun hend => ?_
  have hbytes : (ofPayload [3, 0x09, 65, 66]).bytes =
      (Record.mk 0x09 [65, 66] (by decide)).bytes ++ [] := by decide
  rw [hbytes, endsShort_record_iff] at hend
  exact hend.1 rfl

/-- A name of one letter in a report that ends before the letter: the walk takes it and reads the
letter from behind the report, where the reference finds no structure that fits. -/
theorem name_behind_report :
    let run := (ofPayload [2, 0x09]).parseSpecificData eirNameComplete 65
    run.value = some (.workSuccessfully ['0', '2', '0', '9', '0', '0']) ∧
      run.faults = [.readPastEnd] ∧
      Parses eirNameComplete (ofPayload [2, 0x09]).bytes .eParseUuid ∧
      ¬ MatchesReference run eirNameComplete (ofPayload [2, 0x09]).bytes := by
  have hfaults : ((ofPayload [2, 0x09]).parseSpecificData eirNameComplete 65).faults =
      [.readPastEnd] := by decide
  refine ⟨by decide, hfaults, ?_, fun hmatches => ?_⟩
  · have hbytes : (ofPayload [2, 0x09]).bytes = [2, 0x09] := by decide
    rw [hbytes]
    exact parses_of_stuck (stuck_cons (Or.inr (by decide)))
  · have := hfaults.symm.trans hmatches.inside
    contradiction

/-! ## The parser that the rest of the model uses -/

theorem drop_getD (payload : List UInt8) (offset i : Nat) :
    (payload.drop offset).getD i 0 = payload.getD (offset + i) 0 := by
  simp only [List.getD_eq_getElem?_getD, List.getElem?_drop]

theorem hexOfField_drop (payload : List UInt8) (offset fieldLen : Nat) :
    hexOfField (payload.drop offset) fieldLen = getPrintableBlePayload
      ((List.range' offset (fieldLen + 1)).map (ofPayload payload).eir) := by
  rw [hexOfField, getPrintableBlePayload, List.range'_eq_map_range, List.map_map, List.flatMap_map]
  simp only [drop_getD]
  rfl

theorem switchKind_text (payload : List UInt8) (eirType kind : UInt8) (bufLen offset fieldLen : Nat)
    {next : Watched (Option EirResult)} {next' : Option Str}
    (hnext : next.value.bind EirResult.text? = next') :
    ((ofPayload payload).switchKind eirType bufLen offset fieldLen kind next).value.bind
        EirResult.text? =
      if kind = eirType ∧ kind = eirNameComplete then
        if fieldLen > bufLen then none else some (hexOfField (payload.drop offset) fieldLen)
      else if kind = eirType ∧ kind = eirManufactureSpecificData then
        if fieldLen > bufLen then none
        else if fieldLen = blePayloadFormat05C60xffFieldLen.toNat ∨
            fieldLen = blePayloadFormat05C70xffFieldLen.toNat then
          some (hexOfField (payload.drop offset) fieldLen)
        else none
      else next' := by
  have hfill : ((ofPayload payload).fillBuf bufLen offset fieldLen).value.bind EirResult.text? =
      some (hexOfField (payload.drop offset) fieldLen) := by
    rw [fillBuf_spec.1, hexOfField_drop]
    rfl
  by_cases hkind : kind = eirType
  · subst hkind
    unfold switchKind
    simp only [ne_eq, not_true_eq_false, if_false, true_and]
    by_cases hname : kind = eirNameComplete
    · simp only [if_pos hname]
      split
      · rfl
      · exact hfill
    simp only [if_neg hname]
    by_cases hmanufacture : kind = eirManufactureSpecificData
    · simp only [if_pos hmanufacture]
      split
      · rfl
      split
      · exact hfill
      · rfl
    · simp only [if_neg hmanufacture]
      exact hnext
  · rw [switchKind_other hkind, if_neg (fun h => hkind h.1), if_neg (fun h => hkind h.1), hnext]

theorem walk_eirLoop (payload : List UInt8) (eirType : UInt8) (bufLen fuel offset : Nat) :
    ((ofPayload payload).walk eirType bufLen fuel offset).value.bind EirResult.text? =
      eirLoop payload.length eirType bufLen fuel (payload.drop offset) offset := by
  induction fuel generalizing offset with
  | zero => rfl
  | succ fuel ih =>
    have hbyte (i : Nat) : ((ofPayload payload).byte i).value = payload.getD i 0 := rfl
    rw [walk, eirLoop]
    simp only [drop_getD, List.drop_drop, Nat.add_zero]
    by_cases hlt : offset < payload.length
    · rw [if_pos hlt, if_pos (show offset < (ofPayload payload).eirLen from hlt)]
      simp only [value_bind, hbyte]
      by_cases hzero : (payload.getD offset 0).toNat = 0
      · rw [if_pos hzero, if_pos hzero]
        rfl
      rw [if_neg hzero, if_neg hzero]
      by_cases hlong : offset + (payload.getD offset 0).toNat > payload.length
      · rw [if_pos hlong, if_pos (show _ > (ofPayload payload).eirLen from hlong)]
        rfl
      rw [if_neg hlong, if_neg (show ¬ _ > (ofPayload payload).eirLen from hlong)]
      simp only [value_bind, hbyte]
      exact switchKind_text payload eirType _ bufLen offset _ (ih _)
    · rw [if_neg hlt, if_neg (show ¬ offset < (ofPayload payload).eirLen from hlt)]
      rfl

theorem parseSpecificData_text (payload : List UInt8) (eirType : UInt8) (bufLen : Nat) :
    ((ofPayload payload).parseSpecificData eirType bufLen).value.bind EirResult.text? =
      eirParseSpecificData payload eirType bufLen :=
  walk_eirLoop payload eirType bufLen (payload.length + 1) 0

end Eir

end LBeacon
