import Mathlib.Logic.Function.Basic

/-!
# Maps kept in slots

A table has slots, and in some of them a key with its value. It stands for a map when no key is in
two of them.
-/

namespace SlotMap

variable {σ κ ν : Type} {t : σ → Option (κ × ν)} {r : κ → Option ν}

structure Holds (t : σ → Option (κ × ν)) (r : κ → Option ν) : Prop where
  unique : ∀ {i j k v v'}, t i = some (k, v) → t j = some (k, v') → i = j
  entry : ∀ {k v}, r k = some v ↔ ∃ i, t i = some (k, v)

theorem Holds.eq_none (h : Holds t r) {k : κ} (hfree : ∀ i v, t i ≠ some (k, v)) : r k = none := by
  rw [Option.eq_none_iff_forall_ne_some]
  intro v hv
  obtain ⟨i, hi⟩ := h.entry.mp hv
  exact hfree i v hi

theorem holds_empty : Holds (fun _ : σ => none) (fun _ : κ => (none : Option ν)) :=
  ⟨(fun h => nomatch h), ⟨(fun h => nomatch h), (fun ⟨_, h⟩ => nomatch h)⟩⟩

/-- A key may come into the slot that has it already, or into an empty one when no slot has it. -/
def Fits (t : σ → Option (κ × ν)) (i : σ) (k : κ) : Prop :=
  (∃ v, t i = some (k, v)) ∨ t i = none ∧ ∀ j v, t j ≠ some (k, v)

theorem Holds.put_iff [DecidableEq σ] (h : Holds t r) {i : σ} {k : κ} (hfits : Fits t i k) (v : ν)
    {j : σ} {k' : κ} {v' : ν} :
    Function.update t i (some (k, v)) j = some (k', v') ↔
      j = i ∧ k' = k ∧ v' = v ∨ k' ≠ k ∧ t j = some (k', v') := by
  by_cases hj : j = i
  · have hother : t i = some (k', v') → k' = k := by
      intro hi
      rcases hfits with ⟨w, hw⟩ | ⟨hnone, -⟩
      · rw [hw, Option.some.injEq, Prod.mk.injEq] at hi
        exact hi.1.symm
      · exact absurd (hnone.symm.trans hi) (Option.some_ne_none _).symm
    rw [hj, Function.update_self, Option.some.injEq, Prod.mk.injEq]
    constructor
    · rintro ⟨rfl, rfl⟩
      exact Or.inl ⟨rfl, rfl, rfl⟩
    · rintro (⟨-, rfl, rfl⟩ | ⟨hne, hi⟩)
      · exact ⟨rfl, rfl⟩
      · exact absurd (hother hi) hne
  · have hkey : t j = some (k', v') → k' ≠ k := by
      rintro hi rfl
      rcases hfits with ⟨w, hw⟩ | ⟨-, hfree⟩
      · exact hj (h.unique hi hw)
      · exact hfree j v' hi
    rw [Function.update_of_ne hj]
    constructor
    · exact fun hi => Or.inr ⟨hkey hi, hi⟩
    · rintro (⟨hji, -⟩ | ⟨-, hi⟩)
      · exact absurd hji hj
      · exact hi

theorem Holds.put [DecidableEq σ] [DecidableEq κ] (h : Holds t r) {i : σ} {k : κ}
    (hfits : Fits t i k) (v : ν) :
    Holds (Function.update t i (some (k, v))) (Function.update r k (some v)) := by
  refine ⟨fun {a b k' w w'} ha hb => ?_, fun {k' w} => ?_⟩
  · rcases (h.put_iff hfits v).mp ha with ⟨hai, hk, -⟩ | ⟨hk, ha'⟩
    · rcases (h.put_iff hfits v).mp hb with ⟨hbi, -, -⟩ | ⟨hk', -⟩
      · rw [hai, hbi]
      · exact absurd hk hk'
    · rcases (h.put_iff hfits v).mp hb with ⟨-, hk', -⟩ | ⟨-, hb'⟩
      · exact absurd hk' hk
      · exact h.unique ha' hb'
  · simp only [h.put_iff hfits v]
    by_cases hk : k' = k
    · rw [hk, Function.update_self, Option.some.injEq]
      constructor
      · rintro rfl
        exact ⟨i, Or.inl ⟨rfl, rfl, rfl⟩⟩
      · rintro ⟨j, ⟨-, -, hv⟩ | ⟨hne, -⟩⟩
        · exact hv.symm
        · exact absurd rfl hne
    · rw [Function.update_of_ne hk, h.entry]
      constructor
      · exact fun ⟨j, hj⟩ => ⟨j, Or.inr ⟨hk, hj⟩⟩
      · rintro ⟨j, ⟨-, hk', -⟩ | ⟨-, hj⟩⟩
        · exact absurd hk' hk
        · exact ⟨j, hj⟩

theorem Holds.filter (h : Holds t r) (keep : ν → Bool) :
    Holds (fun i => (t i).filter fun e => keep e.2) (fun k => (r k).filter keep) := by
  refine ⟨fun {i j k v v'} hi hj => ?_, fun {k v} => ?_⟩
  · exact h.unique (Option.filter_eq_some_iff.mp hi).1 (Option.filter_eq_some_iff.mp hj).1
  · simp only [Option.filter_eq_some_iff, h.entry, exists_and_right]

end SlotMap
