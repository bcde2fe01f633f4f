import Mathlib.Data.List.Range
import Mathlib.Data.Nat.ModEq

/-!
# First in, first out, in a cyclic array

The `count` cells from `front` on, in an array of `capacity` cells that wraps around.
-/

namespace Fifo

def cells (capacity front count : Nat) : List Nat :=
  (List.range count).map fun i => (front + i) % capacity

variable {capacity front count : Nat}

@[simp] theorem length_cells : (cells capacity front count).length = count := by simp [cells]

theorem cells_succ_rear :
    cells capacity front (count + 1) = cells capacity front count ++ [(front + count) % capacity] := by
  simp [cells, List.range_succ]

theorem cells_succ_front :
    cells capacity front (count + 1) =
      front % capacity :: cells capacity ((front + 1) % capacity) count := by
  simp only [cells, List.range_succ_eq_map, List.map_cons, List.map_map, Nat.add_zero,
    List.cons.injEq, true_and]
  apply List.map_congr_left
  intro i _
  simp only [Function.comp_apply, Nat.mod_add_mod]
  congr 1
  omega

theorem mod_add_inj (front : Nat) {a b : Nat} (ha : a < capacity) (hb : b < capacity)
    (h : (front + a) % capacity = (front + b) % capacity) : a = b := by
  have hmod : a % capacity = b % capacity := Nat.ModEq.add_left_cancel' front h
  rwa [Nat.mod_eq_of_lt ha, Nat.mod_eq_of_lt hb] at hmod

theorem rear_notMem_cells (h : count < capacity) :
    (front + count) % capacity ∉ cells capacity front count := by
  simp only [cells, List.mem_map, List.mem_range, not_exists, not_and]
  intro i hi heq
  have := mod_add_inj front (by omega) h heq
  omega

theorem front_notMem_cells (front : Nat) (h : count < capacity) :
    front % capacity ∉ cells capacity ((front + 1) % capacity) count := by
  simp only [cells, List.mem_map, List.mem_range, not_exists, not_and]
  intro i hi heq
  rw [Nat.mod_add_mod, Nat.add_assoc] at heq
  have := mod_add_inj front (a := 1 + i) (b := 0) (by omega) (by omega) heq
  omega

/-! ## The bounded queue -/

structure Bounded (α : Type) (capacity : Nat) where
  items : List α
  bounded : items.length ≤ capacity

variable {α : Type}

def Bounded.empty : Bounded α capacity := ⟨[], Nat.zero_le _⟩

/-- `none` when there is no room. -/
def Bounded.push (q : Bounded α capacity) (a : α) : Option (Bounded α capacity) :=
  if h : q.items.length < capacity then
    some ⟨q.items ++ [a], by rw [List.length_append, List.length_singleton]; exact h⟩
  else none

def Bounded.pop (q : Bounded α capacity) : Bounded α capacity :=
  ⟨q.items.tail, by have := q.bounded; rw [List.length_tail]; omega⟩

theorem Bounded.push_of_lt {q : Bounded α capacity} (h : q.items.length < capacity) (a : α) :
    ∃ q', q.push a = some q' ∧ q'.items = q.items ++ [a] := ⟨_, dif_pos h, rfl⟩

theorem Bounded.push_full {q : Bounded α capacity} (h : q.items.length = capacity) (a : α) :
    q.push a = none := dif_neg (by omega)

theorem Bounded.eq_empty {q : Bounded α capacity} (h : q.items = []) : q = .empty := by
  cases q
  subst h
  rfl

end Fifo
