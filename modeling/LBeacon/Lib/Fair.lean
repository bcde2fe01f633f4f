import Mathlib.Order.Monotone.Basic

/-!
# Runs that do not end

What a run leads to when certain inputs come again and again.
-/

namespace Fair

variable {σ ι : Type}

/-- The states of a run. -/
def states (step : σ → ι → σ) (s : σ) (inputs : Nat → ι) : Nat → σ
  | 0 => s
  | t + 1 => step (states step s inputs t) (inputs t)

theorem states_succ (step : σ → ι → σ) (s : σ) (inputs : Nat → ι) (t : Nat) :
    states step s inputs (t + 1) = step (states step s inputs t) (inputs t) := rfl

theorem states_invariant {step : σ → ι → σ} {s : σ} {inputs : Nat → ι} {I : σ → Prop} (hinit : I s)
    (hstep : ∀ t, I (states step s inputs t) → I (states step s inputs (t + 1))) (t : Nat) :
    I (states step s inputs t) := by
  induction t with
  | zero => exact hinit
  | succ t ih => exact hstep t ih

/-- Whenever `P` holds, `Q` holds then or later. -/
def LeadsTo (run : Nat → σ) (P Q : σ → Prop) : Prop :=
  ∀ t, P (run t) → ∃ u, t ≤ u ∧ Q (run u)

/-- Inputs of this kind come again and again. -/
def Recurs (inputs : Nat → ι) (kind : ι → Prop) : Prop := ∀ t, ∃ u, t ≤ u ∧ kind (inputs u)

variable {run : Nat → σ} {inputs : Nat → ι} {P Q R : σ → Prop}

theorem LeadsTo.of_imp (h : ∀ t, P (run t) → Q (run t)) : LeadsTo run P Q :=
  fun t hP => ⟨t, Nat.le_refl t, h t hP⟩

theorem LeadsTo.assuming {C : Prop} (hC : ∀ t, P (run t) → C) (h : C → LeadsTo run P Q) :
    LeadsTo run P Q :=
  fun t hP => h (hC t hP) t hP

theorem LeadsTo.trans (h : LeadsTo run P Q) (h' : LeadsTo run Q R) : LeadsTo run P R := by
  intro t hP
  obtain ⟨u, htu, hQ⟩ := h t hP
  obtain ⟨v, huv, hR⟩ := h' u hQ
  exact ⟨v, Nat.le_trans htu huv, hR⟩

theorem LeadsTo.trans_or (h : LeadsTo run P fun s => Q s ∨ R s) (h' : LeadsTo run Q R) :
    LeadsTo run P R := by
  intro t hP
  obtain ⟨u, htu, hQ | hR⟩ := h t hP
  · obtain ⟨v, huv, hR⟩ := h' u hQ
    exact ⟨v, Nat.le_trans htu huv, hR⟩
  · exact ⟨u, htu, hR⟩

theorem LeadsTo.or (h : LeadsTo run P R) (h' : LeadsTo run Q R) :
    LeadsTo run (fun s => P s ∨ Q s) R :=
  fun t hPQ => hPQ.elim (h t) (h' t)

theorem LeadsTo.of_exists {α : Type} {P : α → σ → Prop} (h : ∀ x, LeadsTo run (P x) Q) :
    LeadsTo run (fun s => ∃ x, P x s) Q :=
  fun t ⟨x, hP⟩ => h x t hP

theorem LeadsTo.of_measure (m : σ → Nat)
    (h : ∀ k, LeadsTo run (fun s => P s ∧ m s = k) fun s => (P s ∧ m s < k) ∨ Q s) :
    LeadsTo run P Q := by
  have hbelow : ∀ k t, P (run t) → m (run t) = k → ∃ u, t ≤ u ∧ Q (run u) := by
    intro k
    induction k using Nat.strongRecOn with
    | _ k ih =>
      intro t hP hm
      obtain ⟨u, htu, ⟨hP', hlt⟩ | hQ⟩ := h k t ⟨hP, hm⟩
      · obtain ⟨v, huv, hQ⟩ := ih (m (run u)) hlt u hP' rfl
        exact ⟨v, Nat.le_trans htu huv, hQ⟩
      · exact ⟨u, htu, hQ⟩
  exact fun t hP => hbelow (m (run t)) t hP rfl

/-- What all other inputs keep lasts until one of a kind that recurs comes, or until `Q`. -/
theorem LeadsTo.until {kind : ι → Prop} (hrecurs : Recurs inputs kind)
    (hother : ∀ t, ¬ kind (inputs t) → P (run t) → P (run (t + 1)) ∨ Q (run (t + 1))) {t : Nat}
    (hP : P (run t)) : ∃ u, t ≤ u ∧ (P (run u) ∧ kind (inputs u) ∨ Q (run u)) := by
  obtain ⟨last, htlast, hkind⟩ := hrecurs t
  have hwalk : ∀ d, P (run (t + d)) ∨
      ∃ u, t ≤ u ∧ (P (run u) ∧ kind (inputs u) ∨ Q (run u)) := by
    intro d
    induction d with
    | zero => exact Or.inl hP
    | succ d ih =>
      rcases ih with hP' | hdone
      · by_cases hnow : kind (inputs (t + d))
        · exact Or.inr ⟨t + d, Nat.le_add_right t d, Or.inl ⟨hP', hnow⟩⟩
        · rcases hother (t + d) hnow hP' with hP'' | hQ
          · exact Or.inl hP''
          · exact Or.inr ⟨t + d + 1, by omega, Or.inr hQ⟩
      · exact Or.inr hdone
  rcases hwalk (last - t) with hlast | hdone
  · rw [Nat.add_sub_cancel' htlast] at hlast
    exact ⟨last, htlast, Or.inl ⟨hlast, hkind⟩⟩
  · exact hdone

theorem Recurs.until {kind : ι → Prop} (hrecurs : Recurs inputs kind)
    (hother : ∀ t, ¬ kind (inputs t) → P (run t) → P (run (t + 1))) {t : Nat} (hP : P (run t)) :
    ∃ u, t ≤ u ∧ P (run u) ∧ kind (inputs u) := by
  obtain ⟨u, htu, hdone | hfalse⟩ := LeadsTo.until (Q := fun _ => False) hrecurs
    (fun t hkind hP => Or.inl (hother t hkind hP)) hP
  · exact ⟨u, htu, hdone⟩
  · exact hfalse.elim

/-- The rule for one input: the others keep `P` or reach `Q`, and an input of a kind that recurs takes
`P` to `Q`. -/
theorem LeadsTo.of_input {kind : ι → Prop} (hrecurs : Recurs inputs kind)
    (hother : ∀ t, ¬ kind (inputs t) → P (run t) → P (run (t + 1)) ∨ Q (run (t + 1)))
    (hinput : ∀ t, kind (inputs t) → P (run t) → Q (run (t + 1))) : LeadsTo run P Q := by
  intro t hP
  obtain ⟨u, htu, ⟨hP', hkind⟩ | hQ⟩ := LeadsTo.until hrecurs hother hP
  · exact ⟨u + 1, by omega, hinput u hkind hP'⟩
  · exact ⟨u, htu, hQ⟩

/-- The rule with a measure: the others keep `P` and do not raise it, or reach `Q`, and an input of a
kind that recurs lowers it, or reaches `Q`. -/
theorem LeadsTo.of_inputs {kind : ι → Prop} (hrecurs : Recurs inputs kind) (m : σ → Nat)
    (hother : ∀ t, ¬ kind (inputs t) → P (run t) →
      P (run (t + 1)) ∧ m (run (t + 1)) ≤ m (run t) ∨ Q (run (t + 1)))
    (hinput : ∀ t, kind (inputs t) → P (run t) →
      P (run (t + 1)) ∧ m (run (t + 1)) < m (run t) ∨ Q (run (t + 1))) : LeadsTo run P Q := by
  refine LeadsTo.of_measure m fun k => LeadsTo.of_input hrecurs (fun t hkind ⟨hP, hm⟩ => ?_)
    fun t hkind ⟨hP, hm⟩ => ?_
  · rcases hother t hkind hP with ⟨hP', hle⟩ | hQ
    · rcases Nat.lt_or_eq_of_le hle with hlt | heq
      · exact Or.inr (Or.inl ⟨hP', hm ▸ hlt⟩)
      · exact Or.inl ⟨hP', heq.trans hm⟩
    · exact Or.inr (Or.inr hQ)
  · rcases hinput t hkind hP with ⟨hP', hlt⟩ | hQ
    · exact Or.inl ⟨hP', hm ▸ hlt⟩
    · exact Or.inr hQ

/-- The rule for two counts: one that never falls, and one that grows as long as it is behind. What
the first has reached, the second reaches. -/
theorem LeadsTo.of_counts {done due : σ → Nat} (hdue : ∀ t, due (run t) ≤ due (run (t + 1)))
    (h : ∀ k, LeadsTo run (fun s => done s = k ∧ k < due s) fun s => k < done s) (k : Nat) :
    LeadsTo run (fun s => k < due s) fun s => k < done s := by
  have hgrows : Monotone fun t => due (run t) := monotone_nat_of_le_succ hdue
  induction k with
  | zero =>
    intro t hlt
    rcases Nat.eq_zero_or_pos (done (run t)) with hzero | hpos
    · exact h 0 t ⟨hzero, hlt⟩
    · exact ⟨t, Nat.le_refl t, hpos⟩
  | succ k ih =>
    intro t hlt
    obtain ⟨u, htu, hdone⟩ := ih t (Nat.lt_of_succ_lt hlt)
    rcases Nat.eq_or_lt_of_le (Nat.succ_le_of_lt hdone) with heq | hmore
    · obtain ⟨v, huv, hnext⟩ := h (k + 1) u ⟨heq.symm, Nat.lt_of_lt_of_le hlt (hgrows htu)⟩
      exact ⟨v, Nat.le_trans htu huv, hnext⟩
    · exact ⟨u, htu, hmore⟩

end Fair
