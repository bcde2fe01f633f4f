import Mathlib.Data.List.Basic

/-!
# The first match in a list of rules

Which rule a search ends at, and what the rules behind it may be.
-/

namespace FirstMatch

variable {α : Type} {p : α → Bool} {q : α → Prop}

/-- The first rule of the list that the test holds of. -/
def FirstOf (q : α → Prop) (rules : List α) (rule : α) : Prop :=
  ∃ before after, rules = before ++ rule :: after ∧ q rule ∧ ∀ r ∈ before, ¬ q r

/-- The lists differ at most behind a rule that the test holds of. -/
def SameUpTo (q : α → Prop) (rules rules' : List α) : Prop :=
  rules = rules' ∨ ∃ before rule after after', q rule ∧ rules = before ++ rule :: after ∧
    rules' = before ++ rule :: after'

theorem find?_eq_some_iff (hp : ∀ a, p a = true ↔ q a) {rules : List α} {rule : α} :
    rules.find? p = some rule ↔ FirstOf q rules rule := by
  rw [List.find?_eq_some_iff_append]
  unfold FirstOf
  constructor
  · rintro ⟨hrule, before, after, heq, hbefore⟩
    refine ⟨before, after, heq, (hp rule).mp hrule, fun r hr hq => ?_⟩
    have hnot := hbefore r hr
    rw [(hp r).mpr hq] at hnot
    exact Bool.noConfusion hnot
  · rintro ⟨before, after, heq, hrule, hbefore⟩
    refine ⟨(hp rule).mpr hrule, before, after, heq, fun r hr => ?_⟩
    have hnot := mt (hp r).mp (hbefore r hr)
    simpa using hnot

theorem find?_eq_none_iff (hp : ∀ a, p a = true ↔ q a) {rules : List α} :
    rules.find? p = none ↔ ∀ rule, ¬ FirstOf q rules rule := by
  constructor
  · intro h rule hfirst
    rw [(find?_eq_some_iff hp).mpr hfirst] at h
    exact Option.some_ne_none _ h
  · intro h
    cases hfind : rules.find? p with
    | none => rfl
    | some rule => exact absurd ((find?_eq_some_iff hp).mp hfind) (h rule)

theorem find?_of_sameUpTo (hp : ∀ a, p a = true ↔ q a) {rules rules' : List α}
    (h : SameUpTo q rules rules') : rules'.find? p = rules.find? p := by
  rcases h with rfl | ⟨before, rule, after, after', hrule, rfl, rfl⟩
  · rfl
  · simp only [List.find?_append, List.find?_cons, (hp rule).mpr hrule]

end FirstMatch
