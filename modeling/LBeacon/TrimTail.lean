import LBeacon.Lib.CBuffer
import Mathlib.Data.List.DropRight
import Mathlib.Logic.Function.Basic

/-!
# Trimming the end of a string

`trim_string_tail` runs backwards from the last character. What lies in front of the string is
part of the model: the loop stops only at a character that it does not discard.
-/

open CText CMemory

namespace LBeacon

/-! ## trim_string_tail -/

/-- Characters 10, 13 and 32. -/
def isBlank (c : Char) : Bool := c = '\n' ∨ c = '\r' ∨ c = ' '

/-- The memory, by the index from the start of the message, and the indices that were read or
written so far. -/
structure Trim where
  mem : Int → Char
  touched : List Int

/-- The memory around the message that starts at `off` in `buf`. Below the buffer is `below`. -/
def memoryAt (below : Int → Char) (buf : Str) (off : Nat) (i : Int) : Char :=
  if off + i < 0 then below (off + i) else buf.getD (off + i).toNat NUL

def trimLoop : Nat → Int → Trim → Option Trim
  | 0, _, _ => none
  | fuel + 1, idx, t =>
    let t := { t with touched := idx :: t.touched }
    if isBlank (t.mem idx) then
      trimLoop fuel (idx - 1) { t with mem := Function.update t.mem idx NUL }
    else some t

def trimStringTail (fuel : Nat) (below : Int → Char) (buf : Str) (off : Nat) : Option Trim :=
  let message : Trim := ⟨memoryAt below buf off, []⟩
  let length := strlen (buf.drop off)
  if length > 0 then trimLoop fuel (length - 1) message else some message

/-- The string at the start of the message, looked for in `n` characters. -/
def Trim.string (t : Trim) (n : Nat) : Str := cstr ((List.range n).map fun i : Nat => t.mem i)

/-! ## The longest prefix -/

/-- `t` is the longest prefix of `s` that does not end in a blank. -/
structure LongestTrimmed (s t : Str) : Prop where
  isPrefix : t <+: s
  last : ∀ c, t.getLast? = some c → isBlank c = false
  longest : ∀ u, u <+: s → (∀ c, u.getLast? = some c → isBlank c = false) → u.length ≤ t.length

def trimmed (s : Str) : Str := s.rdropWhile isBlank

theorem trimmed_append_blanks (s : Str) :
    ∃ blanks, s = trimmed s ++ blanks ∧ ∀ c ∈ blanks, isBlank c = true :=
  ⟨s.rtakeWhile isBlank, List.rdropWhile_append_rtakeWhile.symm, fun _ hc =>
    List.mem_rtakeWhile_imp hc⟩

theorem trimmed_eq_nil_iff (s : Str) : trimmed s = [] ↔ ∀ c ∈ s, isBlank c = true :=
  List.rdropWhile_eq_nil_iff

theorem trimmed_getLast (s : Str) {c : Char} (hc : (trimmed s).getLast? = some c) :
    isBlank c = false := by
  have hne : trimmed s ≠ [] := by
    intro hnil
    simp [hnil] at hc
  have hlast := List.rdropWhile_last_not isBlank s hne
  rw [List.getLast?_eq_getLast_of_ne_nil hne, Option.some.injEq] at hc
  rw [← hc]
  exact Bool.not_eq_true _ ▸ hlast

theorem longest_trimmed (s : Str) : LongestTrimmed s (trimmed s) := by
  refine ⟨List.rdropWhile_prefix _ _, fun c => trimmed_getLast s, fun u hu hlast => ?_⟩
  obtain ⟨blanks, hs, hblanks⟩ := trimmed_append_blanks s
  by_contra hlt
  -- A longer prefix ends in one of the blanks.
  have hpre : trimmed s <+: u :=
    List.prefix_of_prefix_length_le (List.rdropWhile_prefix _ _) hu (by omega)
  obtain ⟨v, rfl⟩ := hpre
  have hv : v ≠ [] := by
    rintro rfl
    simp at hlt
  have hvb : v <+: blanks := by
    have hu' : trimmed s ++ v <+: trimmed s ++ blanks := by rwa [← hs]
    simpa using hu'
  have hmem : v.getLast hv ∈ blanks := hvb.subset (List.getLast_mem hv)
  have hend := hlast (v.getLast hv)
    (by simp [List.getLast?_append, List.getLast?_eq_getLast_of_ne_nil hv])
  rw [hblanks _ hmem] at hend
  exact Bool.noConfusion hend

/-! ## The loop -/

/-- After `k` blanks from `idx` downwards were overwritten. -/
def Trim.wiped (t : Trim) (idx : Int) : Nat → Trim
  | 0 => t
  | k + 1 => Trim.wiped ⟨Function.update t.mem idx NUL, idx :: t.touched⟩ (idx - 1) k

theorem trimLoop_blanks (k fuel : Nat) : ∀ idx t,
    (∀ i : Nat, i < k → isBlank (t.mem (idx - i)) = true) →
    trimLoop (fuel + k) idx t = trimLoop fuel (idx - k) (t.wiped idx k) := by
  induction k with
  | zero =>
    intro idx t _
    simp [Trim.wiped]
  | succ k ih =>
    intro idx t hblank
    have hfirst : isBlank (t.mem idx) = true := by simpa using hblank 0 (Nat.succ_pos k)
    rw [← Nat.add_assoc, trimLoop]
    simp only [hfirst, if_true]
    rw [ih, Trim.wiped]
    · congr 1
      omega
    · intro i hi
      have hne : idx - 1 - i ≠ idx := by omega
      have hnext := hblank (i + 1) (by omega)
      simp only [Function.update_of_ne hne]
      rwa [show idx - 1 - (i : Int) = idx - ((i + 1 : Nat) : Int) by omega]

theorem trimLoop_stop {fuel : Nat} {idx : Int} {t : Trim} (h : isBlank (t.mem idx) = false) :
    trimLoop (fuel + 1) idx t = some { t with touched := idx :: t.touched } := by
  simp [trimLoop, h]

theorem wiped_mem (k : Nat) : ∀ idx (t : Trim) i,
    (t.wiped idx k).mem i = if idx - k < i ∧ i ≤ idx then NUL else t.mem i := by
  induction k with
  | zero =>
    intro idx t i
    rw [Trim.wiped, if_neg (by omega)]
  | succ k ih =>
    intro idx t i
    rw [Trim.wiped, ih]
    by_cases hi : i = idx
    · subst hi
      rw [if_neg (by omega), if_pos (by omega)]
      exact Function.update_self ..
    · simp only [Function.update_of_ne hi]
      exact if_congr (by omega) rfl rfl

theorem mem_wiped_touched (k : Nat) : ∀ idx (t : Trim) i,
    i ∈ (t.wiped idx k).touched ↔ i ∈ t.touched ∨ idx - k < i ∧ i ≤ idx := by
  induction k with
  | zero =>
    intro idx t i
    rw [Trim.wiped]
    constructor
    · exact Or.inl
    · rintro (h | h)
      · exact h
      · omega
  | succ k ih =>
    intro idx t i
    rw [Trim.wiped, ih, List.mem_cons]
    constructor
    · rintro ((rfl | h) | h)
      · exact Or.inr (by omega)
      · exact Or.inl h
      · exact Or.inr (by omega)
    · rintro (h | h)
      · exact Or.inl (Or.inr h)
      · by_cases hi : i = idx
        · exact Or.inl (Or.inl hi)
        · exact Or.inr (by omega)

theorem touched_of_trimLoop {fuel : Nat} : ∀ {idx : Int} {t t' : Trim},
    trimLoop fuel idx t = some t' → idx ∈ t'.touched ∧ ∀ i ∈ t.touched, i ∈ t'.touched := by
  induction fuel with
  | zero =>
    intro idx t t' h
    cases h
  | succ fuel ih =>
    intro idx t t' h
    rw [trimLoop] at h
    split at h
    · obtain ⟨-, hkept⟩ := ih h
      exact ⟨hkept idx List.mem_cons_self, fun i hi => hkept i (List.mem_cons_of_mem _ hi)⟩
    · obtain rfl := Option.some.inj h
      exact ⟨List.mem_cons_self, fun i => List.mem_cons_of_mem _⟩

/-! ## The string in its memory -/

variable {below : Int → Char} {buf : Str} {off : Nat}

theorem getD_cstr (s : Str) {i : Nat} (hi : i ≤ strlen s) :
    s.getD i NUL = (cstr s).getD i NUL := by
  induction s generalizing i with
  | nil => rfl
  | cons c s ih =>
    unfold strlen at hi ih
    rw [cstr_cons] at hi ⊢
    by_cases hc : c = NUL
    · rw [if_pos hc, List.length_nil] at hi
      simp [hc, Nat.le_zero.mp hi]
    · rw [if_neg hc] at hi ⊢
      cases i with
      | zero => rfl
      | succ i => simpa using ih (by simpa using hi)

theorem memoryAt_eq {i : Nat} (hi : i ≤ strlen (buf.drop off)) :
    memoryAt below buf off i = (cstr (buf.drop off)).getD i NUL := by
  rw [← getD_cstr _ hi, memoryAt, if_neg (by omega)]
  have : (off + i : Int).toNat = off + i := by omega
  simp [this, List.getD_eq_getElem?_getD]

theorem string_eq {t : Trim} {s : Str} {n : Nat} (hn : s.length ≤ n) (hnul : NUL ∉ s)
    (hmem : ∀ i : Nat, i ≤ s.length → t.mem i = s.getD i NUL) : t.string n = s := by
  have hholds : Buffer.Holds (fun i : Nat => t.mem i) s := hmem
  exact hholds.string_eq hnul hn

/-! ## What the function does -/

theorem trimStringTail_run (below : Int → Char) {kept blanks : Str}
    (hs : cstr (buf.drop off) = kept ++ blanks) (hblanks : ∀ c ∈ blanks, isBlank c = true)
    (hne : cstr (buf.drop off) ≠ []) (fuel : Nat) :
    ∃ t, trimStringTail (fuel + blanks.length) below buf off =
        trimLoop fuel (kept.length - 1) t ∧
      (∀ i : Int, i ∈ t.touched ↔ kept.length ≤ i ∧ i < strlen (buf.drop off)) ∧
      ∀ i : Int, t.mem i = if kept.length ≤ i ∧ i < strlen (buf.drop off) then NUL
        else memoryAt below buf off i := by
  have hlen : strlen (buf.drop off) = kept.length + blanks.length := by
    rw [strlen, hs, List.length_append]
  have hpos : strlen (buf.drop off) > 0 := List.length_pos_iff.mpr hne
  refine ⟨Trim.wiped ⟨memoryAt below buf off, []⟩ (strlen (buf.drop off) - 1) blanks.length,
    ?_, ?_, ?_⟩
  · rw [trimStringTail]
    simp only [hpos, if_true]
    rw [trimLoop_blanks]
    · congr 1
      omega
    · intro i hi
      have hidx : (strlen (buf.drop off) : Int) - 1 - i =
          (kept.length + (blanks.length - 1 - i) : Nat) := by omega
      have hlt : blanks.length - 1 - i < blanks.length := by omega
      simp only [hidx]
      rw [memoryAt_eq (by omega), hs, List.getD_eq_getElem?_getD,
        List.getElem?_append_right (by omega)]
      simp only [Nat.add_sub_cancel_left, List.getElem?_eq_getElem hlt, Option.getD_some]
      exact hblanks _ (List.getElem_mem hlt)
  · intro i
    rw [mem_wiped_touched]
    simp only [List.not_mem_nil, false_or]
    omega
  · intro i
    rw [wiped_mem]
    exact if_congr (by omega) rfl rfl

theorem trimStringTail_cut (below : Int → Char) {kept blanks : Str}
    (hs : cstr (buf.drop off) = kept ++ blanks) (hblanks : ∀ c ∈ blanks, isBlank c = true)
    (hne : cstr (buf.drop off) ≠ []) (hbefore : isBlank (memoryAt below buf off (kept.length - 1)) = false)
    {fuel : Nat} (hfuel : strlen (buf.drop off) < fuel) {n : Nat} (hn : kept.length ≤ n) :
    ∃ t, trimStringTail fuel below buf off = some t ∧ t.string n = kept ∧
      ∀ i ∈ t.touched, (kept.length : Int) - 1 ≤ i := by
  have hnul : NUL ∉ kept := fun h =>
    nul_notMem_cstr (buf.drop off) (hs ▸ List.mem_append_left _ h)
  have hlen : strlen (buf.drop off) = kept.length + blanks.length := by
    rw [strlen, hs, List.length_append]
  obtain ⟨t, hrun, htouched, hmem⟩ := trimStringTail_run below hs hblanks hne
    (fuel - blanks.length)
  have hstop : isBlank (t.mem (kept.length - 1)) = false := by
    rw [hmem, if_neg (by omega)]
    exact hbefore
  obtain ⟨fuel', hfuel'⟩ := Nat.exists_eq_succ_of_ne_zero (by omega : fuel - blanks.length ≠ 0)
  rw [hfuel', trimLoop_stop hstop, ← hfuel', Nat.sub_add_cancel (by omega)] at hrun
  refine ⟨_, hrun, string_eq hn hnul fun i hi => ?_, fun i hi => ?_⟩
  · simp only [hmem]
    by_cases hwiped : kept.length ≤ (i : Int) ∧ (i : Int) < strlen (buf.drop off)
    · obtain rfl : i = kept.length := by omega
      rw [if_pos hwiped]
      simp
    · -- Not overwritten: a character that is kept, or the terminator that was there.
      rw [if_neg hwiped, memoryAt_eq (by omega), hs]
      obtain hend | rfl := Nat.lt_or_eq_of_le hi
      · simp [List.getElem?_append_left hend]
      · have hnone : blanks = [] := List.eq_nil_of_length_eq_zero (by omega)
        rw [hnone, List.append_nil]
  · rcases List.mem_cons.mp hi with rfl | hi
    · omega
    · have := (htouched i).mp hi
      omega

theorem notBlank_kept (below : Int → Char) (hkept : trimmed (cstr (buf.drop off)) ≠ []) :
    isBlank (memoryAt below buf off ((trimmed (cstr (buf.drop off))).length - 1)) = false := by
  obtain ⟨blanks, hsplit, -⟩ := trimmed_append_blanks (cstr (buf.drop off))
  have hlast := @trimmed_getLast (cstr (buf.drop off))
  generalize trimmed (cstr (buf.drop off)) = kept at hkept hsplit hlast
  have hpos : 0 < kept.length := List.length_pos_iff.mpr hkept
  have hlen : strlen (buf.drop off) = kept.length + blanks.length := by
    rw [strlen, hsplit, List.length_append]
  have hidx : (kept.length : Int) - 1 = ((kept.length - 1 : Nat) : Int) := by omega
  rw [hidx, memoryAt_eq (by omega), hsplit, List.getD_eq_getElem?_getD,
    List.getElem?_append_left (by omega)]
  apply hlast
  rw [List.getLast?_eq_getElem?, List.getElem?_eq_getElem (by omega)]
  simp

theorem trimStringTail_keeps (below : Int → Char)
    (hs : cstr (buf.drop off) = [] ∨ ∃ c ∈ cstr (buf.drop off), isBlank c = false) {fuel : Nat}
    (hfuel : strlen (buf.drop off) < fuel) {n : Nat} (hn : strlen (buf.drop off) ≤ n) :
    ∃ t, trimStringTail fuel below buf off = some t ∧
      t.string n = trimmed (cstr (buf.drop off)) ∧ ∀ i ∈ t.touched, 0 ≤ i := by
  by_cases hnil : cstr (buf.drop off) = []
  · refine ⟨⟨memoryAt below buf off, []⟩, ?_, ?_, by simp⟩
    · simp [trimStringTail, strlen, hnil]
    · rw [hnil]
      refine string_eq (Nat.zero_le n) (by simp [trimmed]) fun i hi => ?_
      change memoryAt below buf off i = _
      rw [memoryAt_eq (by rw [strlen, hnil]; exact hi), hnil]
      rfl
  have hkept : trimmed (cstr (buf.drop off)) ≠ [] := by
    rw [ne_eq, trimmed_eq_nil_iff]
    intro hall
    obtain ⟨c, hc, hcb⟩ := hs.resolve_left hnil
    rw [hall c hc] at hcb
    exact Bool.noConfusion hcb
  obtain ⟨blanks, hsplit, hblanks⟩ := trimmed_append_blanks (cstr (buf.drop off))
  have hpos := List.length_pos_iff.mpr hkept
  have hle : (trimmed (cstr (buf.drop off))).length ≤ n :=
    ((List.rdropWhile_prefix _ _).length_le).trans hn
  obtain ⟨t, hrun, hstring, htouched⟩ :=
    trimStringTail_cut below hsplit hblanks hnil (notBlank_kept below hkept) hfuel hle
  refine ⟨t, hrun, hstring, fun i hi => ?_⟩
  have := htouched i hi
  omega

theorem trimStringTail_leaves (hne : cstr (buf.drop off) ≠ [])
    (hall : ∀ c ∈ cstr (buf.drop off), isBlank c = true) {fuel : Nat}
    (hfuel : strlen (buf.drop off) ≤ fuel) {t : Trim}
    (ht : trimStringTail fuel below buf off = some t) : -1 ∈ t.touched := by
  have hsplit : cstr (buf.drop off) = [] ++ cstr (buf.drop off) := rfl
  have hlen : (cstr (buf.drop off)).length = strlen (buf.drop off) := rfl
  obtain ⟨t', hrun, -, -⟩ := trimStringTail_run below hsplit hall hne
    (fuel - strlen (buf.drop off))
  rw [hlen, Nat.sub_add_cancel hfuel, ht] at hrun
  exact (touched_of_trimLoop hrun.symm).1

theorem trimStringTail_stops_before (hne : cstr (buf.drop off) ≠ [])
    (hall : ∀ c ∈ cstr (buf.drop off), isBlank c = true)
    (hbefore : isBlank (memoryAt below buf off (-1)) = false) {fuel : Nat}
    (hfuel : strlen (buf.drop off) < fuel) (n : Nat) :
    ∃ t, trimStringTail fuel below buf off = some t ∧ t.string n = [] ∧
      ∀ i ∈ t.touched, -1 ≤ i := by
  have hsplit : cstr (buf.drop off) = [] ++ cstr (buf.drop off) := rfl
  exact trimStringTail_cut below hsplit hall hne hbefore hfuel (Nat.zero_le n)

theorem strlen_drop_le (buf : Str) (off : Nat) : strlen (buf.drop off) ≤ buf.length := by
  have := cstr_length_le (buf.drop off)
  rw [List.length_drop] at this
  unfold strlen
  omega

theorem blank_of_none_kept {s : Str} (h : ¬ ∃ c ∈ s, isBlank c = false) :
    ∀ c ∈ s, isBlank c = true := by
  intro c hc
  by_contra hcb
  exact h ⟨c, hc, Bool.eq_false_iff.mpr hcb⟩

/-- The longest prefix without a blank at its end is left, and nothing in front of the string is
touched, exactly when the string has a character to keep or is empty. -/
theorem trim_string_tail_iff (below : Int → Char) (buf : Str) (off : Nat) {fuel : Nat}
    (hfuel : strlen (buf.drop off) < fuel) :
    (∃ t, trimStringTail fuel below buf off = some t ∧
      LongestTrimmed (cstr (buf.drop off)) (t.string buf.length) ∧ ∀ i ∈ t.touched, 0 ≤ i) ↔
    cstr (buf.drop off) = [] ∨ ∃ c ∈ cstr (buf.drop off), isBlank c = false := by
  constructor
  · rintro ⟨t, ht, -, hin⟩
    by_contra hno
    rw [not_or] at hno
    have hall := blank_of_none_kept hno.2
    have := hin (-1) (trimStringTail_leaves hno.1 hall hfuel.le ht)
    omega
  · intro hs
    obtain ⟨t, hrun, hstring, hin⟩ := trimStringTail_keeps below hs hfuel (strlen_drop_le buf off)
    exact ⟨t, hrun, hstring ▸ longest_trimmed _, hin⟩

theorem trim_string_tail_iff_line :
    ∃ t, trimStringTail 5 (fun _ => 'x') "ok \n".toList 0 = some t ∧
      LongestTrimmed "ok \n".toList (t.string 4) ∧ ∀ i ∈ t.touched, 0 ≤ i :=
  (trim_string_tail_iff (fun _ => 'x') "ok \n".toList 0 (by decide)).mpr
    (Or.inr ⟨'o', by decide, by decide⟩)

/-- A line with nothing but its end. -/
theorem trim_string_tail_blank_line :
    ¬ ∃ t, trimStringTail 3 (fun _ => 'x') "\n".toList 0 = some t ∧
      LongestTrimmed "\n".toList (t.string 1) ∧ ∀ i ∈ t.touched, 0 ≤ i := by
  rintro ⟨t, ht, -, hin⟩
  obtain ⟨t', ht', hout⟩ : ∃ t', trimStringTail 3 (fun _ => 'x') "\n".toList 0 = some t' ∧
      (-1) ∈ t'.touched := ⟨_, rfl, by decide⟩
  obtain rfl : t = t' := Option.some.inj (ht.symm.trans ht')
  have := hin (-1) hout
  omega

/-! ## Called on a buffer -/

/-- The string that the call leaves at `off` in its buffer. A character below the start of the
buffer is not the function's to look at; a loop that runs on has gone there. -/
def trimAt (below : Int → Char) (buf : Str) (off : Nat) : Watched Str :=
  match trimStringTail (buf.length + 2) below buf off with
  | none => ⟨[], [.wildRead]⟩
  | some t => access (t.touched.all fun i => decide (0 ≤ off + i)) .wildRead (t.string buf.length)

theorem trimAt_keeps
    (hs : cstr (buf.drop off) = [] ∨ ∃ c ∈ cstr (buf.drop off), isBlank c = false) :
    trimAt below buf off = pure (trimmed (cstr (buf.drop off))) := by
  have hlen := strlen_drop_le buf off
  obtain ⟨t, hrun, hstring, hin⟩ := trimStringTail_keeps below hs
    (show strlen (buf.drop off) < buf.length + 2 by omega) hlen
  have hall : (t.touched.all fun i => decide (0 ≤ off + i)) = true := by
    rw [List.all_eq_true]
    intro i hi
    have := hin i hi
    simp only [decide_eq_true_eq]
    omega
  simp only [trimAt, hrun, hall, hstring]
  rfl

theorem trimAt_inside (below : Int → Char) (pre rest : Str) {c : Char} (hc : isBlank c = false) :
    trimAt below (pre ++ c :: rest) (pre.length + 1) = pure (trimmed (cstr rest)) := by
  have hdrop : (pre ++ c :: rest).drop (pre.length + 1) = rest := by simp
  by_cases hs : cstr rest = [] ∨ ∃ c ∈ cstr rest, isBlank c = false
  · rw [trimAt_keeps (by rwa [hdrop]), hdrop]
  · rw [not_or] at hs
    have hall := blank_of_none_kept hs.2
    have hlen := strlen_drop_le (pre ++ c :: rest) (pre.length + 1)
    have hbefore : isBlank (memoryAt below (pre ++ c :: rest) (pre.length + 1) (-1)) = false := by
      have hidx : ((pre.length + 1 : Nat) + (-1) : Int).toNat = pre.length := by omega
      rw [memoryAt, if_neg (by omega), hidx]
      simpa using hc
    obtain ⟨t, hrun, hstring, hin⟩ := trimStringTail_stops_before (hdrop.symm ▸ hs.1)
      (hdrop.symm ▸ hall) hbefore
      (show _ < (pre ++ c :: rest).length + 2 by omega) (pre ++ c :: rest).length
    have hin' : (t.touched.all fun i => decide (0 ≤ (pre.length + 1 : Nat) + i)) = true := by
      rw [List.all_eq_true]
      intro i hi
      have := hin i hi
      simp only [decide_eq_true_eq]
      omega
    simp only [trimAt, hrun, hin', hstring, (trimmed_eq_nil_iff _).mpr hall]
    rfl

/-- At the start of a buffer, nothing below is touched exactly when there is something to keep. -/
theorem trimAt_front_iff : (trimAt below buf 0).faults = [] ↔
    cstr buf = [] ∨ ∃ c ∈ cstr buf, isBlank c = false := by
  constructor
  · intro hf
    by_contra hno
    rw [not_or] at hno
    have hall := blank_of_none_kept hno.2
    unfold trimAt at hf
    split at hf
    next => cases hf
    next t ht =>
      rw [faults_access, List.all_eq_true] at hf
      have hlen := strlen_drop_le buf 0
      have hdrop : buf.drop 0 = buf := rfl
      have hout := trimStringTail_leaves (hdrop ▸ hno.1) (hdrop ▸ hall) (by omega) ht
      have := hf (-1) hout
      simp at this
  · intro hs
    have hdrop : buf.drop 0 = buf := rfl
    rw [trimAt_keeps (hdrop ▸ hs)]
    rfl

end LBeacon
