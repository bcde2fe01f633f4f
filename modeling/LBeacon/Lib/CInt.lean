import Mathlib.Algebra.Group.Int.Defs

/-!
# C integers

Values of the 32-bit `int` and `size_t`. A result that does not fit wraps around.
-/

namespace CInt

def toInt (n : Int) : Int := (n + 2 ^ 31) % 2 ^ 32 - 2 ^ 31

def toSize (n : Int) : Nat := (n % 2 ^ 32).toNat

theorem toInt_eq {n : Int} (hlow : -2 ^ 31 ≤ n) (hhigh : n < 2 ^ 31) : toInt n = n := by
  unfold toInt
  omega

theorem toSize_eq {n : Int} (hlow : 0 ≤ n) (hhigh : n < 2 ^ 32) : toSize n = n.toNat := by
  unfold toSize
  omega

theorem toInt_sub_toInt (a b : Int) : toInt (toInt a - toInt b) = toInt (a - b) := by
  unfold toInt
  omega

end CInt
