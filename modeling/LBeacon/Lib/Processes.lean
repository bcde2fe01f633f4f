import Mathlib.Data.List.Perm.Basic

/-!
# Processes

A list of processes, of which one moves at a time.
-/

namespace Processes

variable {α β : Type} {ps : List α} {i : Nat} {p : α}

theorem split (h : ps[i]? = some p) :
    ∃ before after, ps = before ++ p :: after ∧ ∀ q, ps.set i q = before ++ q :: after := by
  obtain ⟨hi, rfl⟩ := List.getElem?_eq_some_iff.mp h
  refine ⟨ps.take i, ps.drop (i + 1), ?_, fun q => List.set_eq_take_append_cons_drop.trans ?_⟩
  · rw [List.getElem_cons_drop, List.take_append_drop]
  · rw [if_pos hi]

theorem mem_set (h : ps[i]? = some p) {q r : α} (hr : r ∈ ps.set i q) : r = q ∨ r ∈ ps := by
  obtain ⟨before, after, hps, hset⟩ := split h
  rw [hset, List.mem_append, List.mem_cons] at hr
  rw [hps, List.mem_append, List.mem_cons]
  rcases hr with hr | hr | hr
  · exact Or.inr (Or.inl hr)
  · exact Or.inl hr
  · exact Or.inr (Or.inr (Or.inr hr))

theorem mem_set_self (h : ps[i]? = some p) (q : α) : q ∈ ps.set i q := by
  obtain ⟨before, after, -, hset⟩ := split h
  rw [hset]
  simp

theorem mem_set_of_ne (h : ps[i]? = some p) (q : α) {r : α} (hr : r ∈ ps) (hne : r ≠ p) :
    r ∈ ps.set i q := by
  obtain ⟨before, after, hps, hset⟩ := split h
  rw [hps, List.mem_append, List.mem_cons] at hr
  rw [hset, List.mem_append, List.mem_cons]
  rcases hr with hr | hr | hr
  · exact Or.inl hr
  · exact absurd hr hne
  · exact Or.inr (Or.inr hr)

theorem getElem?_set_self (h : ps[i]? = some p) (q : α) : (ps.set i q)[i]? = some q := by
  obtain ⟨hi, -⟩ := List.getElem?_eq_some_iff.mp h
  exact List.getElem?_set_self hi

/-! ## Weights -/

/-- A weight, summed over all processes. -/
def total (f : α → Nat) : List α → Nat
  | [] => 0
  | p :: ps => f p + total f ps

variable {f : α → Nat}

theorem total_append (f : α → Nat) (ps qs : List α) :
    total f (ps ++ qs) = total f ps + total f qs := by
  induction ps with
  | nil => simp [total]
  | cons p ps ih =>
    simp only [List.cons_append, total, ih]
    omega

theorem total_set (h : ps[i]? = some p) (f : α → Nat) (q : α) :
    total f (ps.set i q) + f p = total f ps + f q := by
  obtain ⟨before, after, hps, hset⟩ := split h
  rw [hset, hps]
  simp only [total_append, total]
  omega

theorem total_eq_zero : total f ps = 0 ↔ ∀ p ∈ ps, f p = 0 := by
  induction ps with
  | nil => simp [total]
  | cons p ps ih => simp [total, ih]

theorem total_le {bound : Nat} (h : ∀ p, f p ≤ bound) (ps : List α) :
    total f ps ≤ bound * ps.length := by
  induction ps with
  | nil => simp [total]
  | cons p ps ih =>
    have := h p
    rw [total, List.length_cons, Nat.mul_succ]
    omega

theorem total_lt {bound : Nat} (h : ∀ p, f p ≤ bound) (hp : p ∈ ps) (hlt : f p < bound) :
    total f ps < bound * ps.length := by
  obtain ⟨before, after, rfl⟩ := List.append_of_mem hp
  have hbefore := total_le h before
  have hafter := total_le h after
  simp only [total_append, total, List.length_append, List.length_cons, Nat.mul_add, Nat.mul_one]
  omega

theorem total_map (f : β → Nat) (g : α → β) (ps : List α) :
    total f (ps.map g) = total (f ∘ g) ps := by
  induction ps with
  | nil => rfl
  | cons p ps ih => simp [total, ih]

theorem total_one (ps : List α) : total (fun _ => 1) ps = ps.length := by
  induction ps with
  | nil => rfl
  | cons p ps ih =>
    rw [total, ih, List.length_cons]
    omega

theorem total_replicate (f : α → Nat) (n : Nat) (p : α) :
    total f (List.replicate n p) = n * f p := by
  induction n with
  | zero => simp [total]
  | succ n ih =>
    rw [List.replicate_succ, total, ih, Nat.succ_mul]
    omega

theorem total_mono {g : α → Nat} (h : ∀ p ∈ ps, f p ≤ g p) : total f ps ≤ total g ps := by
  induction ps with
  | nil => exact Nat.le_refl _
  | cons p ps ih =>
    have hp := h p (List.mem_cons_self ..)
    have hps := ih fun q hq => h q (List.mem_cons_of_mem _ hq)
    exact Nat.add_le_add hp hps

/-- The weight of one of them. -/
def weight (f : α → Nat) (i : Nat) (ps : List α) : Nat := (ps[i]?.map f).getD 0

@[simp] theorem weight_eq (h : ps[i]? = some p) (f : α → Nat) : weight f i ps = f p := by
  simp [weight, h]

/-! ## What the processes hold -/

variable {g : α → Option β} {x : β}

theorem held_same (h : ps[i]? = some p) {q : α} (hsame : g q = g p) :
    (ps.set i q).filterMap g = ps.filterMap g := by
  obtain ⟨before, after, hps, hset⟩ := split h
  rw [hset, hps]
  simp only [List.filterMap_append, List.filterMap_cons, hsame]

theorem length_held_le (h : ∀ p x, g p = some x → 1 ≤ f p) (ps : List α) :
    (ps.filterMap g).length ≤ total f ps := by
  induction ps with
  | nil => exact Nat.le_refl _
  | cons p ps ih =>
    rw [total]
    cases hp : g p with
    | none =>
      rw [List.filterMap_cons_none hp]
      omega
    | some x =>
      have := h p x hp
      rw [List.filterMap_cons_some hp, List.length_cons]
      omega

theorem held_take (h : ps[i]? = some p) {q : α} (hp : g p = none) (hq : g q = some x) :
    ((ps.set i q).filterMap g).Perm (x :: ps.filterMap g) := by
  obtain ⟨before, after, hps, hset⟩ := split h
  rw [hset, hps]
  simp only [List.filterMap_append, List.filterMap_cons, hp, hq]
  exact List.perm_middle

theorem held_drop (h : ps[i]? = some p) {q : α} (hp : g p = some x) (hq : g q = none) :
    (ps.filterMap g).Perm (x :: (ps.set i q).filterMap g) := by
  obtain ⟨before, after, hps, hset⟩ := split h
  rw [hset, hps]
  simp only [List.filterMap_append, List.filterMap_cons, hp, hq]
  exact List.perm_middle

end Processes
