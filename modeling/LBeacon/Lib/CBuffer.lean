import Mathlib.Logic.Function.Basic
import LBeacon.Lib.CMemory

/-!
# Buffers that are written place by place

Memory from the start of a `char` buffer on. The buffer owns the first `size` places of it.
-/

open CText

namespace CMemory

abbrev Buffer := Nat → Char

namespace Buffer

variable {size index k : Nat} {buf : Buffer} {s t : Str}

/-- `buf[index] = c` -/
def put (size : Nat) (buf : Buffer) (index : Nat) (c : Char) : Watched Buffer :=
  access (decide (index < size)) .writePastEnd (Function.update buf index c)

/-- One character after the other, from `index` on. -/
def putAll (size : Nat) : Buffer → Nat → Str → Watched Buffer
  | buf, _, [] => pure buf
  | buf, index, c :: s => do putAll size (← put size buf index c) (index + 1) s

/-- `memset(buf, 0, size)` -/
def clear (size : Nat) (buf : Buffer) : Buffer := fun k => if k < size then NUL else buf k

/-- The text stands at the start, and a NUL ends it. -/
def Holds (buf : Buffer) (s : Str) : Prop := ∀ k ≤ s.length, buf k = s.getD k NUL

instance (buf : Buffer) (s : Str) : Decidable (buf.Holds s) := by
  unfold Holds; infer_instance

/-- The string that a reader finds in the buffer. -/
def string (size : Nat) (buf : Buffer) : Str := cstr ((List.range size).map buf)

/-! ## Writing -/

@[simp] theorem value_put (c : Char) :
    (put size buf index c).value = Function.update buf index c := rfl

@[simp] theorem faults_put (c : Char) : (put size buf index c).faults = [] ↔ index < size := by
  simp [put]

theorem putAll_before (s : Str) (h : k < index) : (putAll size buf index s).value k = buf k := by
  induction s generalizing buf index with
  | nil => rfl
  | cons c s ih =>
    rw [putAll, value_bind, ih (by omega), value_put, Function.update_of_ne (by omega)]

theorem putAll_inside (buf : Buffer) (index : Nat) (h : k < s.length) :
    (putAll size buf index s).value (index + k) = s.getD k NUL := by
  induction s generalizing buf index k with
  | nil => exact absurd h (Nat.not_lt_zero k)
  | cons c s ih =>
    rw [putAll, value_bind]
    cases k with
    | zero =>
      rw [putAll_before s (by omega), value_put]
      apply Function.update_self
    | succ k =>
      rw [← Nat.add_assoc, Nat.add_right_comm, ih _ _ (by simpa using h), List.getD_cons_succ]

theorem faults_putAll (buf : Buffer) (index : Nat) (s : Str) :
    (putAll size buf index s).faults = [] ↔ s = [] ∨ index + s.length ≤ size := by
  induction s generalizing buf index with
  | nil => simp [putAll]
  | cons c s ih =>
    rw [putAll, faults_bind, List.append_eq_nil_iff, faults_put, ih]
    simp only [List.length_cons, reduceCtorEq, false_or]
    constructor
    · rintro ⟨hin, rfl | hrest⟩
      · exact Nat.succ_le_of_lt hin
      · omega
    · intro h
      exact ⟨by omega, Or.inr (by omega)⟩

/-! ## Reading back -/

theorem holds_putAll (size : Nat) (buf : Buffer) (s : Str) :
    Holds (putAll size buf 0 (s ++ [NUL])).value s := by
  intro k hk
  have hlt : k < (s ++ [NUL]).length := by
    rw [List.length_append, List.length_singleton]
    omega
  have hplace := @putAll_inside size k _ buf 0 hlt
  rw [Nat.zero_add] at hplace
  rw [hplace]
  obtain hin | rfl := Nat.lt_or_eq_of_le hk
  · simp [List.getElem?_append_left hin]
  · simp

theorem faults_putAll_nul (buf : Buffer) (s : Str) :
    (putAll size buf 0 (s ++ [NUL])).faults = [] ↔ s.length < size := by
  rw [faults_putAll, List.length_append, List.length_singleton, Nat.zero_add]
  constructor
  · rintro (hnil | hroom)
    · exact absurd hnil (List.append_ne_nil_of_right_ne_nil s (List.cons_ne_nil NUL []))
    · exact hroom
  · exact Or.inr

theorem Holds.map_range (h : Holds buf s) : (List.range s.length).map buf = s := by
  apply List.ext_getElem (by simp)
  intro i _ hi
  have := h i hi.le
  simpa [hi] using this

theorem Holds.string_eq (h : Holds buf s) (hnul : NUL ∉ s) (hsize : s.length ≤ size) :
    string size buf = s := by
  unfold string
  obtain hfits | rfl := Nat.lt_or_eq_of_le hsize
  · obtain ⟨n, rfl⟩ := Nat.exists_eq_add_of_lt hfits
    have hend : buf s.length = NUL := by
      have := h s.length (Nat.le_refl _)
      simpa using this
    rw [Nat.add_assoc, List.range_add, List.map_append, h.map_range, cstr_append hnul,
      List.range_succ_eq_map, List.map_cons, List.map_cons, Nat.add_zero, cstr_cons, if_pos hend,
      List.append_nil]
  · rw [h.map_range, cstr_eq_self hnul]

theorem Holds.unique (hs : Holds buf s) (ht : Holds buf t) (hsNul : NUL ∉ s) (htNul : NUL ∉ t) :
    s = t := by
  rw [← hs.string_eq hsNul (Nat.le_max_left s.length t.length),
    ht.string_eq htNul (Nat.le_max_right s.length t.length)]

end Buffer

end CMemory
