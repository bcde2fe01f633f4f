import LBeacon.Lib.CText

/-!
# Digits

The text of `%X`, and decimal numbers with a fixed count of digits.
-/

namespace CText

/-- The text of `%X` for a number that is not negative. -/
def hexText (n : Nat) : Str := (Nat.toDigits 16 n).map Char.toUpper

/-- The last `k` decimal digits. -/
def fixedDigits : Nat → Nat → Str
  | 0, _ => []
  | k + 1, n => fixedDigits k (n / 10) ++ [Nat.digitChar (n % 10)]

theorem digitChar_inj {a b : Nat} (ha : a < 16) (hb : b < 16)
    (h : (Nat.digitChar a).toUpper = (Nat.digitChar b).toUpper) : a = b := by
  have hall : ∀ a < 16, ∀ b < 16, (Nat.digitChar a).toUpper = (Nat.digitChar b).toUpper →
      a = b := by decide
  exact hall a ha b hb h

theorem hexText_of_lt {n : Nat} (h : n < 16) : hexText n = [(Nat.digitChar n).toUpper] := by
  rw [hexText, Nat.toDigits_of_lt_base h]
  rfl

theorem hexText_length_eq_one_iff (n : Nat) : (hexText n).length = 1 ↔ n < 16 := by
  have hle := Nat.length_toDigits_le_iff (b := 16) (n := n) (k := 1) (by decide) (by decide)
  have hpos : 0 < (Nat.toDigits 16 n).length := Nat.length_toDigits_pos
  rw [hexText, List.length_map]
  omega

theorem fixedDigits_length (k n : Nat) : (fixedDigits k n).length = k := by
  induction k generalizing n with
  | zero => rfl
  | succ k ih => rw [fixedDigits, List.length_append, ih, List.length_singleton]

theorem exists_of_mem_fixedDigits {k n : Nat} {c : Char} (h : c ∈ fixedDigits k n) :
    ∃ d < 10, c = Nat.digitChar d := by
  induction k generalizing n with
  | zero => exact absurd h List.not_mem_nil
  | succ k ih =>
    rcases List.mem_append.mp h with hfront | hlast
    · exact ih hfront
    · exact ⟨n % 10, Nat.mod_lt _ (by decide), List.mem_singleton.mp hlast⟩

theorem fixedDigits_mod (k n : Nat) : fixedDigits k (n % 10 ^ k) = fixedDigits k n := by
  induction k generalizing n with
  | zero => rfl
  | succ k ih =>
    have hlast : n % 10 ^ (k + 1) % 10 = n % 10 := by
      rw [Nat.pow_succ']
      exact Nat.mod_mul_right_mod n 10 (10 ^ k)
    have hfront : n % 10 ^ (k + 1) / 10 = n / 10 % 10 ^ k := by
      rw [Nat.pow_succ']
      exact Nat.mod_mul_right_div_self n 10 (10 ^ k)
    rw [fixedDigits, fixedDigits, hlast, hfront, ih]

theorem fixedDigits_inj {k a b : Nat} (h : fixedDigits k a = fixedDigits k b) :
    a % 10 ^ k = b % 10 ^ k := by
  induction k generalizing a b with
  | zero => simp [Nat.mod_one]
  | succ k ih =>
    rw [fixedDigits, fixedDigits] at h
    obtain ⟨hfront, hlast⟩ := List.append_inj' h rfl
    have hdigit : a % 10 = b % 10 :=
      digitChar_inj (by omega) (by omega) (congrArg Char.toUpper (List.cons.inj hlast).1)
    have hrest := ih hfront
    rw [Nat.pow_succ', Nat.mod_mul, Nat.mod_mul, hdigit, hrest]

/-- The text of `%.8f` for `n` hundred-millionths. -/
def decimal8 (n : Nat) : Str := Nat.toDigits 10 (n / 10 ^ 8) ++ '.' :: fixedDigits 8 n

theorem digit_of_mem_decimal8 {n : Nat} {c : Char} (h : c ∈ decimal8 n) :
    c.isDigit = true ∨ c = '.' := by
  rcases List.mem_append.mp h with hwhole | hrest
  · exact Or.inl (Nat.isDigit_of_mem_toDigits (by decide) (by decide) hwhole)
  · rcases List.mem_cons.mp hrest with rfl | hfixed
    · exact Or.inr rfl
    · obtain ⟨d, hd, rfl⟩ := exists_of_mem_fixedDigits hfixed
      have hall : ∀ d < 10, (Nat.digitChar d).isDigit = true := by decide
      exact Or.inl (hall d hd)

theorem decimal8_length {n k : Nat} (hk : 0 < k) (h : n / 10 ^ 8 < 10 ^ k) :
    (decimal8 n).length ≤ k + 9 := by
  have hdigits := (Nat.length_toDigits_le_iff (b := 10) (by decide) hk).mpr h
  rw [decimal8, List.length_append, List.length_cons, fixedDigits_length]
  omega

end CText
