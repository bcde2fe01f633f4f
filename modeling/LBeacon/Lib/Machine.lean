import Mathlib.Data.List.Basic
import Mathlib.Data.List.Induction

/-!
# Machines

A step takes an input to an answer and the next state. A run collects the answers.
-/

namespace Machine

variable {σ τ ι ο : Type}

def run (step : σ → ι → ο × σ) (s : σ) : List ι → List ο × σ
  | [] => ([], s)
  | input :: inputs =>
    let r := step s input
    let rest := run step r.2 inputs
    (r.1 :: rest.1, rest.2)

theorem run_related {f : σ → ι → ο × σ} {g : τ → ι → ο × τ} (R : σ → τ → Prop)
    (hstep : ∀ s t input, R s t →
      (f s input).1 = (g t input).1 ∧ R (f s input).2 (g t input).2)
    (inputs : List ι) {s : σ} {t : τ} (h : R s t) :
    (run f s inputs).1 = (run g t inputs).1 ∧ R (run f s inputs).2 (run g t inputs).2 := by
  induction inputs generalizing s t with
  | nil => exact ⟨rfl, h⟩
  | cons input inputs ih =>
    obtain ⟨hanswer, hnext⟩ := hstep s t input h
    obtain ⟨hanswers, hend⟩ := ih hnext
    exact ⟨by rw [run, run, hanswer, hanswers], hend⟩

/-! ## Runs without answers -/

/-- The rule for a run: what holds at the start, and is kept by each step of the run, holds of the
inputs and the state at its end. -/
theorem foldl_induction {step : σ → ι → σ} {s : σ} {P : List ι → σ → Prop} {inputs : List ι}
    (hinit : P [] s)
    (hstep : ∀ pre input, pre ++ [input] <+: inputs → P pre (pre.foldl step s) →
      P (pre ++ [input]) (step (pre.foldl step s) input)) :
    P inputs (inputs.foldl step s) := by
  induction inputs using List.reverseRecOn with
  | nil => exact hinit
  | append_singleton inputs input ih =>
    rw [List.foldl_append]
    apply hstep inputs input List.prefix_rfl
    apply ih
    intro pre input' hpre
    exact hstep pre input' (hpre.trans (List.prefix_append _ _))

theorem foldl_invariant {step : σ → ι → σ} {s : σ} {P : σ → Prop} {inputs : List ι} (hinit : P s)
    (hstep : ∀ pre input, pre ++ [input] <+: inputs → P (pre.foldl step s) →
      P (step (pre.foldl step s) input)) :
    P (inputs.foldl step s) :=
  foldl_induction (P := fun _ => P) hinit hstep

theorem mem_of_step {pre inputs : List ι} {input : ι} (h : pre ++ [input] <+: inputs) :
    input ∈ inputs :=
  h.subset (by simp)

/-- Each input of a run is fine in the state that it meets. -/
def Along (step : σ → ι → σ) (ok : σ → ι → Prop) : σ → List ι → Prop
  | _, [] => True
  | s, input :: inputs => ok s input ∧ Along step ok (step s input) inputs

theorem along_snoc {step : σ → ι → σ} {ok : σ → ι → Prop} {s : σ} {inputs : List ι} {input : ι} :
    Along step ok s (inputs ++ [input]) ↔
      Along step ok s inputs ∧ ok (inputs.foldl step s) input := by
  induction inputs generalizing s with
  | nil => simp [Along]
  | cons first inputs ih => simp [Along, ih, and_assoc]

theorem Along.invariant {step : σ → ι → σ} {ok : σ → ι → Prop} {P : σ → Prop}
    (hstep : ∀ s input, ok s input → P s → P (step s input)) {s : σ} (h : P s) {inputs : List ι}
    (hrun : Along step ok s inputs) : P (inputs.foldl step s) := by
  induction inputs generalizing s with
  | nil => exact h
  | cons input inputs ih => exact ih (hstep s input hrun.1 h) hrun.2

theorem Along.and_mem {step : σ → ι → σ} {ok : σ → ι → Prop} {p : ι → Prop} {s : σ}
    {inputs : List ι} (hrun : Along step ok s inputs) (h : ∀ input ∈ inputs, p input) :
    Along step (fun s input => ok s input ∧ p input) s inputs := by
  induction inputs generalizing s with
  | nil => trivial
  | cons input inputs ih =>
    rw [List.forall_mem_cons] at h
    exact ⟨⟨hrun.1, h.1⟩, ih hrun.2 h.2⟩

/-- What the inputs of a run cost together. -/
def spent (step : σ → ι → σ) (cost : σ → ι → Nat) : σ → List ι → Nat
  | _, [] => 0
  | s, input :: inputs => cost s input + spent step cost (step s input) inputs

/-- The rule for costs: each fine input is charged at least its cost and what it adds to the
potential, so a run costs at most what the potential was and what it is charged. -/
theorem Along.amortized {step : σ → ι → σ} {ok : σ → ι → Prop} {I : σ → Prop}
    (cost charge : σ → ι → Nat) (potential : σ → Nat)
    (hstep : ∀ s input, ok s input → I s → I (step s input) ∧
      cost s input + potential (step s input) ≤ potential s + charge s input)
    {s : σ} (h : I s) {inputs : List ι} (hrun : Along step ok s inputs) :
    spent step cost s inputs + potential (inputs.foldl step s) ≤
      potential s + spent step charge s inputs := by
  induction inputs generalizing s with
  | nil => simp [spent]
  | cons input inputs ih =>
    obtain ⟨hnext, hle⟩ := hstep s input hrun.1 h
    have hrest := ih hnext hrun.2
    simp only [spent, List.foldl_cons]
    omega

/-- When a step keeps a property exactly for fine inputs, the property holds in every state of a
run exactly when each input is fine. -/
theorem along_iff {step : σ → ι → σ} {ok : σ → ι → Prop} {P : σ → Prop}
    (hstep : ∀ s input, P s → (P (step s input) ↔ ok s input)) {s : σ} (h : P s)
    (inputs : List ι) : (∀ n, P ((inputs.take n).foldl step s)) ↔ Along step ok s inputs := by
  induction inputs generalizing s with
  | nil => exact ⟨fun _ => trivial, fun _ n => by rw [List.take_nil]; exact h⟩
  | cons input inputs ih =>
    constructor
    · intro hall
      have hnext : P (step s input) := hall 1
      exact ⟨(hstep s input h).mp hnext, (ih hnext).mp fun n => hall (n + 1)⟩
    · rintro ⟨hok, hrest⟩ n
      have hnext := (hstep s input h).mpr hok
      cases n with
      | zero => exact h
      | succ n => exact (ih hnext).mpr hrest n

theorem along_iff_of_invariant {step : σ → ι → σ} {valid ok : σ → ι → Prop} {I P : σ → Prop}
    (hstep : ∀ s input, valid s input → I s →
      I (step s input) ∧ (P (step s input) ↔ ok s input))
    {s : σ} (hI : I s) (hP : P s) {inputs : List ι} (hvalid : Along step valid s inputs) :
    (∀ n, P ((inputs.take n).foldl step s)) ↔ Along step ok s inputs := by
  induction inputs generalizing s with
  | nil => exact ⟨fun _ => trivial, fun _ n => by rw [List.take_nil]; exact hP⟩
  | cons input inputs ih =>
    obtain ⟨hnow, hrest⟩ := hvalid
    obtain ⟨hI', hok⟩ := hstep s input hnow hI
    constructor
    · intro hall
      have hnext : P (step s input) := hall 1
      exact ⟨hok.mp hnext, (ih hI' hnext hrest).mp fun n => hall (n + 1)⟩
    · rintro ⟨hfine, hfines⟩ n
      cases n with
      | zero => exact hP
      | succ n => exact (ih hI' (hok.mpr hfine) hrest).mpr hfines n

end Machine
