import LBeacon.Ending

/-!
# The return of thpool_destroy

Each post lets one thread pass, and a thread that passes does not come back.
-/

open Bytes CInt Processes Fair

namespace LBeacon

/-- How far the thread is from its end when `threads_keepalive` is cleared. -/
def Worker.remaining : Worker → Nat
  | .entering => 8
  | .blocked => 8
  | .counting => 7
  | .pulling => 6
  | .running _ _ => 5
  | .freeing _ => 4
  | .uncounting => 3
  | .passed => 3
  | .starting => 3
  | .looping => 2
  | .leaving => 1
  | .gone => 0

namespace ThreadPool

variable {n : Nat} {s : ThreadPool}

/-! ## One turn -/

def remaining (s : ThreadPool) : Nat := total Worker.remaining s.workers

theorem Closing.turn (h : s.Closing) (hkeep : s.threadsKeepalive = false) {turn : Turn}
    (hlegal : turn.Legal s) :
    (∃ i choice, turn = .worker i choice) ∨ (∃ i, turn = .wake i) ∨ turn = .owner := by
  have hserving : s.owner ≠ .serving := fun howner => by
    rw [h.keepalive (Or.inr howner)] at hkeep
    exact Bool.noConfusion hkeep
  cases turn with
  | addWork answer work => exact absurd hlegal.1 hserving
  | push k choice => exact absurd hlegal hserving
  | worker i choice => exact Or.inl ⟨i, choice, rfl⟩
  | wake i => exact Or.inr (Or.inl ⟨i, rfl⟩)
  | owner => exact Or.inr (Or.inr rfl)
  | destroy => exact absurd hlegal.1 hserving

theorem Closing.not_clearing (h : s.Closing) {i : Nat} {w : Worker} (hw : s.workers[i]? = some w)
    (hgone : w ≠ .gone) :
    (∀ threadsTotal, s.owner ≠ .clearing threadsTotal) ∧ s.owner ≠ .returned := by
  have hmem := List.mem_of_getElem? hw
  exact ⟨fun threadsTotal howner =>
      hgone (present_eq_zero (h.cleared (Or.inl ⟨threadsTotal, howner⟩)) w hmem),
    fun howner => hgone (present_eq_zero (h.cleared (Or.inr howner)) w hmem)⟩

/-! ## Runs -/

variable {turns : Nat → Turn}

section

variable (h : FairRun n s turns) (hn : 0 < n) (hmax : n < 209716)
  (hkeep : s.threadsKeepalive = false)
include h hn hmax hkeep

end

end ThreadPool

end LBeacon
