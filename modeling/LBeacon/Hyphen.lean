import LBeacon.Advertising
import LBeacon.Lib.CBuffer

/-!
# Removing the hyphens of a UUID

`remove_uuid_hyphen` copies the decimal digits of its source and nothing else.
-/

open CText CMemory

namespace LBeacon

/-! ## The source -/

inductive HyphenCode where
  | workSuccessfully
  | eInputParameter
  deriving DecidableEq

def IsDecimal (c : Char) : Prop := c ≥ '0' ∧ c ≤ '9'

instance (c : Char) : Decidable (IsDecimal c) := by
  unfold IsDecimal; infer_instance

/-- The loop over the source, and the NUL behind it. -/
def hyphenLoop (bufLen : Nat) : Str → Buffer → Nat → Watched (HyphenCode × Buffer)
  | [], buf, destIndex => do
    -- The loop may have left `dest_index` at `buf_len`.
    let buf ← Buffer.put bufLen buf destIndex NUL
    return (.workSuccessfully, buf)
  | c :: sourceStr, buf, destIndex =>
    if IsDecimal c then
      if bufLen > destIndex then do
        let buf ← Buffer.put bufLen buf destIndex c
        hyphenLoop bufLen sourceStr buf (destIndex + 1)
      else return (.eInputParameter, buf)
    else hyphenLoop bufLen sourceStr buf destIndex

/-- The source and the buffer do not overlap, and the source is shorter than the largest `int`. -/
def removeUuidHyphen (sourceStr : Str) (buf : Buffer) (bufLen : Nat) :
    Watched (HyphenCode × Buffer) :=
  hyphenLoop bufLen (cstr sourceStr) buf 0

/-! ## What the function is for -/

def withoutHyphens (sourceStr : Str) : Str := sourceStr.filter (· ≠ '-')

structure StripsHyphens (sourceStr : Str) (buf : Buffer) (bufLen : Nat) : Prop where
  succeeds : (removeUuidHyphen sourceStr buf bufLen).value.1 = .workSuccessfully ↔
    (withoutHyphens sourceStr).length < bufLen
  holds : (removeUuidHyphen sourceStr buf bufLen).value.1 = .workSuccessfully →
    (removeUuidHyphen sourceStr buf bufLen).value.2.Holds (withoutHyphens sourceStr)
  inside : (removeUuidHyphen sourceStr buf bufLen).faults = []

/-- Hexadecimal digits and hyphens. -/
def UuidText (s : Str) : Prop := ∀ c ∈ s, c ∈ hexDigits ∨ c = '-'

def hexLetters : Str := "ABCDEFabcdef".toList

/-! ## The loop -/

/-- What the loop copies. -/
def decimals (s : Str) : Str := s.filter (fun c => decide (IsDecimal c))

theorem decimals_cons {c : Char} (hc : IsDecimal c) (s : Str) :
    decimals (c :: s) = c :: decimals s := by
  apply List.filter_cons_of_pos
  simpa using hc

theorem decimals_skip {c : Char} (hc : ¬ IsDecimal c) (s : Str) :
    decimals (c :: s) = decimals s := by
  apply List.filter_cons_of_neg
  simpa using hc

section Loop

variable {bufLen destIndex : Nat} {buf : Buffer} {s : Str}

theorem hyphenLoop_fits (h : destIndex + (decimals s).length ≤ bufLen) :
    hyphenLoop bufLen s buf destIndex = (do
      let buf ← Buffer.putAll bufLen buf destIndex (decimals s ++ [NUL])
      return (.workSuccessfully, buf)) := by
  induction s generalizing buf destIndex with
  | nil =>
    ext1
    · rfl
    · simp [hyphenLoop, decimals, Buffer.putAll]
  | cons c s ih =>
    rw [hyphenLoop]
    by_cases hc : IsDecimal c
    · rw [decimals_cons hc, List.length_cons] at h
      rw [if_pos hc, if_pos (by omega), decimals_cons hc, List.cons_append, Buffer.putAll]
      have hrest := @ih (destIndex + 1) (Buffer.put bufLen buf destIndex c).value (by omega)
      ext1
      · simp only [value_bind, hrest]
      · simp only [value_bind, faults_bind, hrest, List.append_assoc]
    · rw [decimals_skip hc] at h ⊢
      rw [if_neg hc, ih h]

theorem hyphenLoop_full (hindex : destIndex ≤ bufLen)
    (h : bufLen < destIndex + (decimals s).length) :
    (hyphenLoop bufLen s buf destIndex).value.1 = .eInputParameter ∧
      (hyphenLoop bufLen s buf destIndex).faults = [] := by
  induction s generalizing buf destIndex with
  | nil => exact absurd h (Nat.not_lt.mpr hindex)
  | cons c s ih =>
    rw [hyphenLoop]
    by_cases hc : IsDecimal c
    · rw [decimals_cons hc, List.length_cons] at h
      rw [if_pos hc]
      by_cases hroom : bufLen > destIndex
      · rw [if_pos hroom, value_bind, faults_bind]
        obtain ⟨hcode, hsafe⟩ := @ih (destIndex + 1) (Buffer.put bufLen buf destIndex c).value
          (by omega) (by omega)
        rw [hsafe, List.append_nil, Buffer.faults_put]
        exact ⟨hcode, hroom⟩
      · rw [if_neg hroom]
        exact ⟨rfl, rfl⟩
    · rw [decimals_skip hc] at h
      rw [if_neg hc]
      exact ih hindex h

end Loop

/-! ## The source against its digits -/

theorem hexDigits_kind : ∀ c ∈ hexDigits, c ≠ '-' ∧ (IsDecimal c ↔ c ∉ hexLetters) := by
  have hall : hexDigits.all (fun c => decide (c ≠ '-' ∧ (IsDecimal c ↔ c ∉ hexLetters))) = true := by
    decide
  exact fun c hc => of_decide_eq_true (List.all_eq_true.mp hall c hc)

theorem IsDecimal.ne_hyphen {c : Char} (hc : IsDecimal c) : c ≠ '-' := by
  rintro rfl
  exact absurd hc (by decide)

variable {sourceStr : Str} {buf : Buffer} {bufLen : Nat}

theorem decimals_withoutHyphens (s : Str) : decimals (withoutHyphens s) = decimals s := by
  unfold decimals withoutHyphens
  rw [List.filter_filter]
  apply List.filter_congr
  intro c _
  by_cases hc : IsDecimal c
  · simp [hc, hc.ne_hyphen]
  · simp [hc]

theorem length_decimals_le (s : Str) : (decimals s).length ≤ (withoutHyphens s).length := by
  rw [← decimals_withoutHyphens]
  apply List.length_filter_le

theorem decimals_eq_iff (hsource : UuidText sourceStr) :
    decimals sourceStr = withoutHyphens sourceStr ↔ ∀ c ∈ sourceStr, c ∉ hexLetters := by
  constructor
  · intro h c hc hletter
    have hhyphen : c ≠ '-' := by
      rintro rfl
      exact absurd hletter (by decide)
    have hmem : c ∈ decimals sourceStr := by
      rw [h]
      exact List.mem_filter.mpr ⟨hc, by simpa using hhyphen⟩
    have hdecimal : IsDecimal c := by simpa using (List.mem_filter.mp hmem).2
    have hdigit := (hsource c hc).resolve_right hhyphen
    exact (hexDigits_kind c hdigit).2.mp hdecimal hletter
  · intro h
    apply List.filter_congr
    intro c hc
    obtain hdigit | rfl := hsource c hc
    · obtain ⟨hhyphen, hkind⟩ := hexDigits_kind c hdigit
      simp [hkind.mpr (h c hc), hhyphen]
    · decide

theorem UuidText.noNul (h : UuidText sourceStr) : NUL ∉ sourceStr := by
  intro hmem
  obtain hdigit | hhyphen := h NUL hmem
  · exact absurd hdigit (by decide)
  · exact absurd hhyphen (by decide)

theorem UuidText.noNul_withoutHyphens (h : UuidText sourceStr) : NUL ∉ withoutHyphens sourceStr :=
  fun hmem => h.noNul (List.mem_of_mem_filter hmem)

/-! ## When the hyphens are stripped -/

theorem removeUuidHyphen_fits (hnul : NUL ∉ sourceStr)
    (h : (decimals sourceStr).length ≤ bufLen) :
    let run := removeUuidHyphen sourceStr buf bufLen
    run.value.1 = .workSuccessfully ∧ run.value.2.Holds (decimals sourceStr) ∧
      (run.faults = [] ↔ (decimals sourceStr).length < bufLen) := by
  unfold removeUuidHyphen
  rw [cstr_eq_self hnul, hyphenLoop_fits (by omega)]
  refine ⟨rfl, Buffer.holds_putAll bufLen buf _, ?_⟩
  rw [faults_bind, faults_pure, List.append_nil]
  apply Buffer.faults_putAll_nul

theorem removeUuidHyphen_full (hnul : NUL ∉ sourceStr)
    (h : bufLen < (decimals sourceStr).length) :
    let run := removeUuidHyphen sourceStr buf bufLen
    run.value.1 = .eInputParameter ∧ run.faults = [] := by
  unfold removeUuidHyphen
  rw [cstr_eq_self hnul]
  exact hyphenLoop_full (Nat.zero_le bufLen) (by omega)

theorem stripsHyphens_iff (hsource : UuidText sourceStr) :
    StripsHyphens sourceStr buf bufLen ↔
      bufLen < (decimals sourceStr).length ∨
        (decimals sourceStr).length < bufLen ∧ ∀ c ∈ sourceStr, c ∉ hexLetters := by
  have hle := length_decimals_le sourceStr
  by_cases hfull : bufLen < (decimals sourceStr).length
  · obtain ⟨hcode, hsafe⟩ := @removeUuidHyphen_full sourceStr buf bufLen hsource.noNul hfull
    refine iff_of_true ⟨?_, ?_, hsafe⟩ (Or.inl hfull)
    · rw [hcode]
      refine iff_of_false (by simp) (by omega)
    · rw [hcode]
      simp
  obtain ⟨hcode, hholds, hsafe⟩ :=
    @removeUuidHyphen_fits sourceStr buf bufLen hsource.noNul (by omega)
  rw [← decimals_eq_iff hsource]
  constructor
  · intro hstrips
    refine Or.inr ⟨hsafe.mp hstrips.inside, ?_⟩
    apply hholds.unique (hstrips.holds hcode) _ hsource.noNul_withoutHyphens
    exact fun hmem => hsource.noNul (List.mem_of_mem_filter hmem)
  · rintro (hmore | ⟨hroom, heq⟩)
    · exact absurd hmore hfull
    · rw [heq] at hholds hroom
      exact ⟨iff_of_true hcode hroom, fun _ => hholds, hsafe.mpr (by rwa [heq])⟩

theorem StripsHyphens.injective {other : Str} {buf' : Buffer}
    (hsource : UuidText sourceStr) (hother : UuidText other)
    (h : StripsHyphens sourceStr buf bufLen) (h' : StripsHyphens other buf' bufLen)
    (hcode : (removeUuidHyphen sourceStr buf bufLen).value.1 = .workSuccessfully)
    (hcode' : (removeUuidHyphen other buf' bufLen).value.1 = .workSuccessfully)
    (hsame : (removeUuidHyphen sourceStr buf bufLen).value.2.string bufLen =
      (removeUuidHyphen other buf' bufLen).value.2.string bufLen) :
    withoutHyphens sourceStr = withoutHyphens other := by
  rw [(h.holds hcode).string_eq hsource.noNul_withoutHyphens (h.succeeds.mp hcode).le,
    (h'.holds hcode').string_eq hother.noNul_withoutHyphens (h'.succeeds.mp hcode').le] at hsame
  exact hsame

theorem removeUuidHyphen_strips_iff (hsource : UuidText sourceStr) (buf : Buffer) (bufLen : Nat) :
    (StripsHyphens sourceStr buf bufLen ↔
      bufLen < (decimals sourceStr).length ∨
        (decimals sourceStr).length < bufLen ∧ ∀ c ∈ sourceStr, c ∉ hexLetters) ∧
    ∀ (other : Str) (buf' : Buffer), UuidText other → StripsHyphens sourceStr buf bufLen →
      StripsHyphens other buf' bufLen →
      (removeUuidHyphen sourceStr buf bufLen).value.1 = .workSuccessfully →
      (removeUuidHyphen other buf' bufLen).value.1 = .workSuccessfully →
      (removeUuidHyphen sourceStr buf bufLen).value.2.string bufLen =
        (removeUuidHyphen other buf' bufLen).value.2.string bufLen →
      withoutHyphens sourceStr = withoutHyphens other := by
  constructor
  · exact stripsHyphens_iff hsource
  · intro other buf' hother hstrips hstrips' hcode hcode' hsame
    exact hstrips.injective hsource hother hstrips' hcode hcode' hsame

theorem uuidText_of_all {s : Str} (h : s.all (fun c => decide (c ∈ hexDigits ∨ c = '-')) = true) :
    UuidText s :=
  fun c hc => of_decide_eq_true (List.all_eq_true.mp h c hc)

theorem removeUuidHyphen_strips_groups :
    StripsHyphens "12-34".toList (fun _ => 'x') 8 ∧
      ¬ StripsHyphens "12-34".toList (fun _ => 'x') 4 := by
  have hsource : UuidText "12-34".toList := uuidText_of_all (by decide)
  have hletters : "12-34".toList.all (fun c => decide (c ∉ hexLetters)) = true := by decide
  constructor
  · refine (removeUuidHyphen_strips_iff hsource _ _).1.mpr (Or.inr ⟨by decide, fun c hc => ?_⟩)
    exact of_decide_eq_true (List.all_eq_true.mp hletters c hc)
  · intro hstrips
    obtain hmore | ⟨hfewer, -⟩ := (removeUuidHyphen_strips_iff hsource _ _).1.mp hstrips
    · exact absurd hmore (by decide)
    · exact absurd hfewer (by decide)

/-- The letter of "a1" is gone, so that "b1" gets the same text. The two digits of "12" fill a
buffer of two characters, and the NUL goes behind its end. -/
theorem removeUuidHyphen_drops_letters :
    let letter := removeUuidHyphen "a1".toList (fun _ => 'x') 8
    let full := removeUuidHyphen "12".toList (fun _ => 'x') 2
    (UuidText "a1".toList ∧ UuidText "b1".toList ∧ UuidText "12".toList) ∧
      (letter.value.1 = .workSuccessfully ∧ letter.value.2.string 8 = ['1'] ∧
        (removeUuidHyphen "b1".toList (fun _ => 'x') 8).value.2.string 8 = ['1']) ∧
      (full.value.1 = .workSuccessfully ∧ full.faults = [.writePastEnd]) ∧
      ¬ StripsHyphens "a1".toList (fun _ => 'x') 8 ∧
      ¬ StripsHyphens "12".toList (fun _ => 'x') 2 := by
  refine ⟨⟨uuidText_of_all (by decide), uuidText_of_all (by decide), uuidText_of_all (by decide)⟩,
    by decide, by decide, fun hstrips => ?_, fun hstrips => ?_⟩
  · have hplace := hstrips.holds (by decide) 0 (by decide)
    exact absurd hplace (by decide)
  · exact absurd hstrips.inside (by decide)

end LBeacon
