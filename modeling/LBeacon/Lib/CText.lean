import Mathlib.Algebra.Group.Int.Defs
import Mathlib.Algebra.Group.Nat.Defs
import Mathlib.Data.List.TakeWhile
import Mathlib.Data.List.Basic

/-!
# C strings

A `char` buffer is the list of its characters. The string in it ends at the first NUL,
and every place past the end of the list reads as NUL. The functions are those of the C
library, as documented.
-/

namespace CText

abbrev Str := List Char

def NUL : Char := '\x00'

/-- The string that a buffer holds. -/
def cstr (buf : Str) : Str := buf.takeWhile (· ≠ NUL)

def strlen (buf : Str) : Nat := (cstr buf).length

/-- What `strncpy` leaves in a zeroed buffer of `n` characters. -/
def strncpy (src : Str) (n : Nat) : Str := (cstr src).take n

def strncmp : Str → Str → Nat → Int
  | _, _, 0 => 0
  | a, b, n + 1 =>
    if a.headD NUL ≠ b.headD NUL then (a.headD NUL).toNat - (b.headD NUL).toNat
    else if a.headD NUL = NUL then 0
    else strncmp a.tail b.tail n

/-- The text of `%d`. -/
def intText (n : Int) : Str :=
  if n < 0 then '-' :: Nat.toDigits 10 n.natAbs else Nat.toDigits 10 n.natAbs

/-- `isspace` in the C locale. -/
def isSpace (c : Char) : Bool := c == ' ' || ('\t' ≤ c && c ≤ '\r')

/-- What `%d` reads: spaces, a sign, digits. `none` when there is no digit. A number that no
`int` can hold becomes the nearest one, as in `strtol`. -/
def scanInt (s : Str) : Option Int :=
  let s := s.dropWhile isSpace
  let isNegative := s.head? = some '-'
  let s := if isNegative ∨ s.head? = some '+' then s.tail else s
  let digits := s.takeWhile Char.isDigit
  let number : Int := digits.foldl (fun n c => 10 * n + (c.toNat - 48)) 0
  if digits = [] then none
  else if isNegative then some (max (-number) (-2 ^ 31))
  else some (min number (2 ^ 31 - 1))

def atoi (s : Str) : Int := (scanInt s).getD 0

/-! ## Strings without NUL -/

theorem cstr_eq_self {s : Str} (h : NUL ∉ s) : cstr s = s := by
  rw [cstr, List.takeWhile_eq_self_iff]
  intro c hc
  simp only [ne_eq, decide_not, Bool.not_eq_eq_eq_not, Bool.not_true, decide_eq_false_iff_not]
  rintro rfl
  exact h hc

theorem nul_notMem_cstr (s : Str) : NUL ∉ cstr s := by
  intro h
  have := List.mem_takeWhile_imp h
  simp at this

@[simp] theorem cstr_cstr (s : Str) : cstr (cstr s) = cstr s := cstr_eq_self (nul_notMem_cstr s)

theorem cstr_length_le (s : Str) : (cstr s).length ≤ s.length := (List.takeWhile_prefix _).length_le

/-! ## Comparison -/

theorem cstr_cons (c : Char) (s : Str) : cstr (c :: s) = if c = NUL then [] else c :: cstr s := by
  by_cases h : c = NUL <;> simp [cstr, h]

theorem cstr_append {s : Str} (h : NUL ∉ s) (t : Str) : cstr (s ++ t) = s ++ cstr t :=
  List.takeWhile_append_of_pos fun c hc => by simpa using ne_of_mem_of_not_mem hc h

theorem char_toNat_sub_eq_zero (a b : Char) : (a.toNat : Int) - b.toNat = 0 ↔ a = b := by
  constructor
  · intro he
    apply Char.ext
    apply UInt32.toNat_inj.mp
    exact_mod_cast (by omega : (a.toNat : Int) = b.toNat)
  · rintro rfl
    omega

theorem take_succ_cstr (s : Str) (n : Nat) :
    (cstr s ++ [NUL]).take (n + 1) =
      s.headD NUL :: if s.headD NUL = NUL then [] else (cstr s.tail ++ [NUL]).take n := by
  cases s with
  | nil => simp [cstr]
  | cons c s =>
    rw [cstr_cons]
    by_cases h : c = NUL <;> simp [h]

theorem strncmp_eq_zero (a b : Str) (n : Nat) :
    strncmp a b n = 0 ↔ (cstr a ++ [NUL]).take n = (cstr b ++ [NUL]).take n := by
  induction n generalizing a b with
  | zero => simp [strncmp]
  | succ n ih =>
    rw [strncmp, take_succ_cstr, take_succ_cstr]
    by_cases hne : a.headD NUL = b.headD NUL
    · rw [if_neg (not_not_intro hne), ← hne]
      by_cases hnul : a.headD NUL = NUL
      · simp only [if_pos hnul]
      · simp only [if_neg hnul, List.cons.injEq, true_and]
        exact ih a.tail b.tail
    · rw [if_pos hne, char_toNat_sub_eq_zero, List.cons.injEq]
      exact ⟨fun h => absurd h hne, fun h => absurd h.1 hne⟩

theorem strncmp_eq_zero_of_lt {a : Str} {n : Nat} (ha : strlen a < n) (b : Str) :
    strncmp a b n = 0 ↔ cstr a = cstr b := by
  unfold strlen at ha
  have hwhole : (cstr a ++ [NUL]).take n = cstr a ++ [NUL] :=
    List.take_of_length_le (by simp; omega)
  rw [strncmp_eq_zero, hwhole]
  constructor
  · intro h
    rcases Nat.lt_or_ge (cstr b).length n with hlt | hge
    · rwa [List.take_of_length_le (by simp; omega), List.append_left_inj] at h
    · rw [List.take_append_of_le_length hge] at h
      have hmem : NUL ∈ (cstr b).take n := h ▸ by simp
      exact absurd (List.mem_of_mem_take hmem) (nul_notMem_cstr b)
  · intro h
    rw [← h, hwhole]

theorem strncmp_strlen_eq_zero (a b : Str) :
    strncmp b a (strlen a) = 0 ↔ cstr a <+: cstr b := by
  rw [strncmp_eq_zero, strlen, List.take_left, List.prefix_iff_eq_take]
  constructor
  · intro h
    have hlen := congrArg List.length h
    simp only [List.length_take, List.length_append, List.length_singleton] at hlen
    rcases Nat.lt_or_ge (cstr b).length (cstr a).length with hlt | hge
    · rw [List.take_of_length_le (by simp; omega)] at h
      have hmem : NUL ∈ cstr a := h ▸ by simp
      exact absurd hmem (nul_notMem_cstr a)
    · rw [← h, List.take_append_of_le_length hge]
      simp [Nat.min_eq_left hge]
  · intro h
    have hlen := congrArg List.length h
    simp only [List.length_take] at hlen
    rw [List.take_append_of_le_length (by omega)]
    exact h.symm

/-! ## Decimal text -/

theorem intText_length_le (n : Int) (k : Nat) (hk : 0 < k) (h : n.natAbs < 10 ^ k) :
    (intText n).length ≤ k + 1 := by
  have := (Nat.length_toDigits_le_iff (b := 10) (by omega) hk).mpr h
  unfold intText
  split
  · simpa using this
  · omega

theorem intText_length_le_of_nonneg (n : Int) (k : Nat) (hk : 0 < k) (h0 : 0 ≤ n)
    (h : n.natAbs < 10 ^ k) : (intText n).length ≤ k := by
  have := (Nat.length_toDigits_le_iff (b := 10) (by omega) hk).mpr h
  unfold intText
  split
  · omega
  · exact this

theorem notMem_intText {c : Char} (hdash : c ≠ '-') (hdigit : c.isDigit = false) (n : Int) :
    c ∉ intText n := by
  have hdigits : c ∉ Nat.toDigits 10 n.natAbs := by
    intro h
    have := Nat.isDigit_of_mem_toDigits (by decide) (by decide) h
    rw [hdigit] at this
    exact Bool.noConfusion this
  unfold intText
  split
  · rw [List.mem_cons, not_or]
    exact ⟨hdash, hdigits⟩
  · exact hdigits

theorem nul_notMem_intText (n : Int) : NUL ∉ intText n := notMem_intText (by decide) (by decide) n

/-- The number that a decimal text stands for. -/
def readInt (s : Str) : Int :=
  if s.head? = some '-' then -(Nat.ofDigitChars 10 s.tail 0) else Nat.ofDigitChars 10 s 0

theorem readInt_intText (n : Int) : readInt (intText n) = n := by
  unfold readInt intText
  by_cases hneg : n < 0
  · rw [if_pos hneg, List.head?_cons, if_pos rfl, List.tail_cons, Nat.ofDigitChars_ten_toDigits]
    omega
  · have hhead : (Nat.toDigits 10 n.natAbs).head? ≠ some '-' := by
      intro h
      have := Nat.isDigit_of_mem_toDigits (by decide) (by decide) (List.mem_of_head? h)
      exact absurd this (by decide)
    rw [if_neg hneg, if_neg hhead, Nat.ofDigitChars_ten_toDigits]
    omega

theorem intText_int32_length (n : Int32) : (intText n.toInt).length ≤ 11 := by
  refine intText_length_le n.toInt 10 (by omega) ?_
  have := n.toInt_lt
  have := n.le_toInt
  omega

/-! ## Digits that are scanned -/

theorem isSpace_of_isDigit {c : Char} (h : c.isDigit = true) : isSpace c = false := by
  have hlow : 48 ≤ c.toNat := (Char.isDigit_iff_toNat.mp h).1
  have hspace : c ≠ ' ' := by
    rintro rfl
    exact absurd hlow (by decide)
  have hreturn : ¬ c ≤ '\r' := fun hle =>
    absurd (hlow.trans (Char.le_def.mp hle)) (by decide)
  unfold isSpace
  rw [beq_eq_false_iff_ne.mpr hspace, decide_eq_false hreturn, Bool.and_false, Bool.or_false]

theorem foldl_digits {digits : Str} (hdigit : ∀ c ∈ digits, c.isDigit = true) (k : Nat) :
    digits.foldl (fun (n : Int) c => 10 * n + (c.toNat - 48)) k = Nat.ofDigitChars 10 digits k := by
  rw [Nat.ofDigitChars_eq_foldl]
  induction digits generalizing k with
  | nil => rfl
  | cons c digits ih =>
    rw [List.foldl_cons, List.foldl_cons, ← ih fun c hc => hdigit c (List.mem_cons_of_mem _ hc)]
    have hlow : 48 ≤ c.toNat := (Char.isDigit_iff_toNat.mp (hdigit c List.mem_cons_self)).1
    have hzero : '0'.toNat = 48 := rfl
    congr 1
    omega

theorem scanInt_toDigits {n : Nat} (h : n < 2 ^ 31) :
    scanInt (Nat.toDigits 10 n) = some (n : Int) := by
  have hdigit : ∀ c ∈ Nat.toDigits 10 n, c.isDigit = true := fun c hc =>
    Nat.isDigit_of_mem_toDigits (by decide) (by decide) hc
  have hspace : (Nat.toDigits 10 n).dropWhile isSpace = Nat.toDigits 10 n := by
    apply List.dropWhile_eq_self_iff.mpr
    intro hne
    have := isSpace_of_isDigit (hdigit _ (List.getElem_mem hne))
    simp [this]
  have hsign {c : Char} (hc : c.isDigit = false) : (Nat.toDigits 10 n).head? ≠ some c := by
    intro hhead
    have := hdigit c (List.mem_of_head? hhead)
    rw [hc] at this
    exact Bool.noConfusion this
  have htake : (Nat.toDigits 10 n).takeWhile Char.isDigit = Nat.toDigits 10 n :=
    List.takeWhile_eq_self_iff.mpr hdigit
  have hnumber : (Nat.toDigits 10 n).foldl (fun (n : Int) c => 10 * n + (c.toNat - 48)) 0 = n := by
    have hfold := foldl_digits hdigit 0
    rwa [Nat.ofDigitChars_ten_toDigits] at hfold
  unfold scanInt
  simp only [hspace, hsign (c := '-') (by decide), hsign (c := '+') (by decide), or_self,
    if_false, htake, hnumber, Nat.toDigits_ne_nil]
  rw [Int.min_eq_left (by omega)]

end CText
