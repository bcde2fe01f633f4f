import Mathlib.Data.List.Basic
import Mathlib.Algebra.GroupWithZero.Nat
import Mathlib.Algebra.Ring.Int.Defs
import Mathlib.Algebra.Order.Group.Nat
import Mathlib.Algebra.Order.BigOperators.Group.List

/-!
# Taking from a list while a budget lasts

An item is taken while more than `reserve` is left. Each item then costs `cost`.
-/

namespace Greedy

variable {α : Type*} {reserve : Nat} {cost : α → Nat}

/-- How many items are taken from a budget of `m`. -/
def count (reserve : Nat) (cost : α → Nat) : List α → Nat → Nat
  | [], _ => 0
  | a :: rest, m => if reserve < m then count reserve cost rest (m - cost a) + 1 else 0

def total (cost : α → Nat) (xs : List α) : Nat := (xs.map cost).sum

@[simp] theorem total_nil : total cost [] = 0 := rfl

@[simp] theorem total_cons (a : α) (xs : List α) :
    total cost (a :: xs) = cost a + total cost xs := rfl

@[simp] theorem total_append (xs ys : List α) :
    total cost (xs ++ ys) = total cost xs + total cost ys := by
  simp [total]

theorem total_mono {f g : α → Nat} {xs : List α} (h : ∀ a ∈ xs, f a ≤ g a) :
    total f xs ≤ total g xs := List.sum_le_sum h

theorem mul_length_le_total {k : Nat} {xs : List α} (h : ∀ a ∈ xs, k ≤ cost a) :
    k * xs.length ≤ total cost xs := by
  induction xs with
  | nil => exact Nat.le_refl 0
  | cons a xs ih =>
    have hhead := h a List.mem_cons_self
    have htail := ih fun b hb => h b (List.mem_cons_of_mem a hb)
    rw [List.length_cons, total_cons, Nat.mul_succ]
    omega

/-- `taken` is what a budget of `m` buys from the front of `xs`, said without the loop. -/
structure Buys (reserve : Nat) (cost : α → Nat) (m : Nat) (xs taken : List α) : Prop where
  front : taken <+: xs
  funded : ∀ us a vs, taken = us ++ a :: vs → reserve + total cost us < m
  spent : taken = xs ∨ m ≤ reserve + total cost taken

theorem buys_nil_iff (m : Nat) (taken : List α) : Buys reserve cost m [] taken ↔ taken = [] := by
  constructor
  · intro h
    exact List.prefix_nil.mp h.front
  · rintro rfl
    exact ⟨List.prefix_rfl, by simp, Or.inl rfl⟩

theorem buys_cons_iff (a : α) (rest : List α) (m : Nat) (taken : List α) :
    Buys reserve cost m (a :: rest) taken ↔
      if reserve < m then ∃ taken', taken = a :: taken' ∧ Buys reserve cost (m - cost a) rest taken'
      else taken = [] := by
  split
  next hm =>
    constructor
    · intro h
      cases taken with
      | nil => rcases h.spent with hs | hs <;> simp at hs; omega
      | cons b taken' =>
        obtain ⟨rfl, hpre⟩ := List.cons_prefix_cons.mp h.front
        refine ⟨taken', rfl, hpre, ?_, ?_⟩
        · intro us c vs heq
          have := h.funded (b :: us) c vs (by rw [heq, List.cons_append])
          rw [total_cons] at this
          omega
        · rcases h.spent with hs | hs
          · exact Or.inl (List.cons.inj hs).2
          · rw [total_cons] at hs
            exact Or.inr (by omega)
    · rintro ⟨taken', rfl, h⟩
      refine ⟨List.cons_prefix_cons.mpr ⟨rfl, h.front⟩, ?_, ?_⟩
      · rintro (_ | ⟨b, us⟩) c vs heq
        · simpa using hm
        · obtain ⟨rfl, hrest⟩ := List.cons.inj heq
          have := h.funded us c vs hrest
          rw [total_cons]
          omega
      · rcases h.spent with hs | hs
        · exact Or.inl (by rw [hs])
        · rw [total_cons]
          exact Or.inr (by omega)
  next hm =>
    constructor
    · intro h
      cases taken with
      | nil => rfl
      | cons b taken' => exact absurd (h.funded [] b taken' rfl) (by simpa using hm)
    · rintro rfl
      exact ⟨List.nil_prefix, by simp, Or.inr (by simp; omega)⟩

theorem buys_iff (xs : List α) (m : Nat) (taken : List α) :
    Buys reserve cost m xs taken ↔ taken = xs.take (count reserve cost xs m) := by
  induction xs generalizing m taken with
  | nil => rw [buys_nil_iff, List.take_nil]
  | cons a rest ih =>
    rw [buys_cons_iff, count]
    split
    · rw [List.take_succ_cons]
      constructor
      · rintro ⟨taken', rfl, h⟩
        rw [(ih _ _).mp h]
      · rintro rfl
        exact ⟨_, rfl, (ih _ _).mpr rfl⟩
    · rw [List.take_zero]

theorem total_lt (bound : Nat) {m : Nat} {xs taken : List α} (h : Buys reserve cost m xs taken)
    (hcost : ∀ a ∈ xs, cost a ≤ bound) (hm : reserve < m) :
    reserve + total cost taken < m + bound := by
  rcases List.eq_nil_or_concat' taken with rfl | ⟨us, a, rfl⟩
  · simp; omega
  · have hfund := h.funded us a [] rfl
    have := hcost a (h.front.subset (by simp))
    rw [total_append, total_cons, total_nil]
    omega

end Greedy
