import LBeacon.Wakeups

/-!
# What the threads do

No thread spins while the pool serves: what all of them do together is paid for by the jobs that
are pushed.
-/

open Bytes CInt Processes

namespace LBeacon

/-- How many turns the thread takes until it is blocked, or until it is on its way to the queue for
a posted semaphore; from there on, how many if no other job comes. -/
def Worker.todo : Worker → Nat
  | .starting => 3
  | .looping => 2
  | .entering => 1
  | .blocked => 0
  | .passed => 8
  | .counting => 7
  | .pulling => 6
  | .running _ _ => 5
  | .freeing _ => 4
  | .uncounting => 3
  | .leaving => 1
  | .gone => 0

namespace ThreadPool

variable {n : Nat} {s : ThreadPool}

/-- A posted semaphore lets one thread pass. -/
def passes (v : Int) : Nat := if v = 1 then 8 else 0

@[simp] theorem passes_one : passes 1 = 8 := rfl

@[simp] theorem passes_zero : passes 0 = 0 := rfl

/-- What the threads still do if nothing is added. -/
def potential (s : ThreadPool) : Nat :=
  9 * s.jobqueue.len.toNat + passes s.v + total Worker.todo s.workers

/-- One, for a turn of a thread that is neither blocked nor gone. -/
def effort (s : ThreadPool) : Turn → Nat
  | .worker i _ =>
    match s.workers[i]? with
    | none => 0
    | some .blocked => 0
    | some .gone => 0
    | some _ => 1
  | _ => 0

def Turn.isPush : Turn → Bool
  | .push _ _ => true
  | _ => false

def Turn.isWake : Turn → Bool
  | .wake _ => true
  | _ => false

/-- What is charged for a turn: for a push, the job, the semaphore and a thread that is woken. -/
def charge (_ : ThreadPool) (turn : Turn) : Nat := 18 * turn.isPush.toNat + turn.isWake.toNat

theorem signal_todo (choice : Nat) (workers : List Worker) :
    total Worker.todo (signal choice workers) ≤ total Worker.todo workers + 1 := by
  rcases signal_cases choice workers with ⟨hsame, -⟩ | ⟨i, hi, hset⟩
  · rw [hsame]
    omega
  · have := total_set hi Worker.todo .entering
    rw [hset]
    simp only [Worker.todo] at this
    omega

theorem potential_move {i : Nat} {w w' : Worker} (hw : s.workers[i]? = some w)
    (hlt : w'.todo < w.todo) {s' : ThreadPool} (hworkers : s'.workers = s.workers.set i w')
    (hv : s'.v = s.v) (hqueue : s'.jobqueue = s.jobqueue) : s'.potential < s.potential := by
  have hset := total_set hw Worker.todo w'
  unfold potential
  rw [hworkers, hv, hqueue]
  omega

theorem potential_threadDo {free queue : List Nat} (hsound : s.Sound n free queue)
    (hs : PoolSizes sizeOfSlot (n * slotsForMemPoolPerThread)) {i : Nat} {w : Worker}
    (hw : s.workers[i]? = some w) (hblocked : w ≠ .blocked) (hgone : w ≠ .gone) (choice : Nat) :
    (s.threadDo i choice w).potential < s.potential := by
  cases w with
  | looping =>
    have hlt : (if s.threadsKeepalive then Worker.entering else .leaving).todo < 2 := by
      cases s.threadsKeepalive <;> exact Nat.lt_succ_self 1
    exact potential_move hw hlt rfl rfl rfl
  | entering =>
    unfold threadDo bsemWait
    dsimp only
    by_cases hv : s.v = 1
    · have hset := total_set hw Worker.todo .passed
      rw [if_neg (not_not.mpr hv)]
      unfold potential
      simp only [hv, ThreadPool.move, Worker.todo, passes_one, passes_zero] at hset ⊢
      omega
    · rw [if_pos hv]
      have hlt : Worker.blocked.todo < Worker.entering.todo := Nat.lt_succ_self 0
      exact potential_move hw hlt rfl rfl rfl
  | blocked => exact absurd rfl hblocked
  | passed =>
    have hlt : (if s.threadsKeepalive then Worker.counting else .looping).todo < 8 := by
      cases s.threadsKeepalive <;> simp [Worker.todo]
    exact potential_move hw hlt rfl rfl rfl
  | pulling =>
    have hroom := hsound.1.queue_length hs
    unfold threadDo
    dsimp only
    rcases jobqueuePull_spec hsound.1.links (by omega) choice with
      ⟨-, hpull⟩ | ⟨job, rest, jobqueue, rfl, hne, hlists, hpull⟩
    · rw [hpull, if_pos rfl]
      exact potential_move hw (by simp [Worker.todo]) rfl rfl rfl
    · rw [hpull, if_neg hne]
      have hlen := hlists.len
      have hbefore := hsound.1.links.len
      rw [List.length_cons] at hbefore
      by_cases hrest : rest = []
      · have hset := total_set hw Worker.todo (.running job s.started.length)
        rw [if_pos hrest]
        unfold potential
        simp only [ThreadPool.move, Worker.todo] at hset ⊢
        omega
      · have hset := total_set (signal_other hw hblocked choice) Worker.todo
          (.running job s.started.length)
        have hsignal := signal_todo choice s.workers
        rw [if_neg hrest]
        unfold potential
        simp only [ThreadPool.move, ThreadPool.bsemPost, Worker.todo, passes_one] at hset ⊢
        omega
  | gone => exact absurd rfl hgone
  | _ => exact potential_move hw (by simp [Worker.todo]) rfl rfl rfl

theorem potential_step (hn : 0 < n) (hmax : n < 209716) (h : s.Reachable n)
    (hkeep : s.threadsKeepalive = true) {turn : Turn} (hlegal : turn.Legal s)
    (hstays : turn ≠ .destroy) :
    s.effort turn + (s.step turn).potential ≤ s.potential + s.charge turn := by
  have hs := poolSizes hn hmax
  have hawake := h.awake hn hmax
  obtain ⟨free, queue, hsound⟩ := (h.sound hn hmax).resolve_left (hawake.not_returned hkeep)
  cases turn with
  | addWork answer work =>
    rw [step_addWork]
    unfold thpoolAddWork
    dsimp only
    split <;> exact Nat.le_of_eq (Nat.zero_add _)
  | push k choice =>
    rw [step_push]
    cases he : s.newjobs[k]? with
    | none =>
      rw [push_none he]
      simp [effort, charge]
    | some e =>
      have hlen := (hsound.push hs he choice).1.links.len
      have hbefore := hsound.1.links.len
      have hsignal := signal_todo choice s.workers
      have hworkers : (s.push k choice).workers = signal choice s.workers := by
        unfold ThreadPool.push
        rw [he]
        rfl
      have hv : (s.push k choice).v = 1 := by
        unfold ThreadPool.push
        rw [he]
        rfl
      rw [List.length_append, List.length_singleton] at hlen
      unfold potential
      rw [hworkers, hv]
      simp only [effort, charge, Turn.isPush, Turn.isWake, Bool.toNat_true, Bool.toNat_false, passes_one]
      omega
  | worker i choice =>
    cases hw : s.workers[i]? with
    | none =>
      rw [step_worker_none hw]
      simp [effort, charge, hw]
    | some w =>
      rw [step_worker hw]
      by_cases hblocked : w = .blocked
      · subst hblocked
        simp [effort, charge, hw, threadDo]
      by_cases hgone : w = .gone
      · subst hgone
        simp [effort, charge, hw, threadDo]
      have hlt := potential_threadDo hsound hs hw hblocked hgone choice
      have hone : s.effort (.worker i choice) ≤ 1 := by
        unfold effort
        dsimp only
        split <;> omega
      simp only [charge, Turn.isPush, Turn.isWake]
      omega
  | wake i =>
    rw [step_wake]
    split
    next hw =>
      have hset := total_set hw Worker.todo .entering
      unfold potential
      simp only [effort, charge, Turn.isPush, Turn.isWake, Bool.toNat_true, Bool.toNat_false,
        ThreadPool.move, Worker.todo] at hset ⊢
      omega
    next => simp [effort, charge]
  | owner =>
    rw [step_owner]
    unfold ownerStep
    rcases hawake.ending hkeep with howner | howner
    · rw [howner]
      dsimp only
      split <;> exact Nat.le_of_eq (Nat.zero_add _)
    · rw [howner]
      exact Nat.le_of_eq (Nat.zero_add _)
  | destroy => exact absurd rfl hstays

/-- The turns of a run in which a thread does something. -/
def threadTurns (s : ThreadPool) (turns : List Turn) : Nat := Machine.spent step effort s turns

theorem spent_charge (s : ThreadPool) (turns : List Turn) :
    Machine.spent step charge s turns =
      18 * turns.countP Turn.isPush + turns.countP Turn.isWake := by
  induction turns generalizing s with
  | nil => rfl
  | cons turn turns ih =>
    rw [Machine.spent, ih, List.countP_cons, List.countP_cons]
    unfold charge
    cases turn.isPush <;> cases turn.isWake <;> simp <;> omega

/-- While the pool serves, its threads together take at most 18 turns for each job that is pushed and
one for each time that a thread wakes without a signal, and three each to begin with. -/
theorem no_busy_waiting (hn : 0 < n) (hmax : n < 209716) {mallocs : Nat → Nat} {bytes : Memory}
    (hok : MallocOk (blankPool sizeOfSlot (n * slotsForMemPoolPerThread) bytes) (mallocs 1))
    (hinit : thpoolInit mallocs n bytes = some s) {turns : List Turn} (hlegal : LegalRun s turns)
    (hstays : ∀ turn ∈ turns, turn ≠ .destroy) :
    s.threadTurns turns ≤ 3 * n + 18 * turns.countP Turn.isPush + turns.countP Turn.isWake := by
  have hfresh := fresh_of_init hn hmax hok hinit
  have hpotential : s.potential = 3 * n := by
    obtain ⟨free, hsound⟩ := hfresh.sound
    unfold potential
    rw [hsound.1.links.len, hfresh.v, hfresh.workers, total_replicate]
    simp [Worker.todo, Nat.mul_comm]
  have hreachable : s.Reachable n := ⟨mallocs, bytes, s, [], hok, hinit, trivial, rfl⟩
  have hbound := (hlegal.and_mem hstays).amortized effort charge potential
    (I := fun s => s.Reachable n ∧ s.threadsKeepalive = true)
    (fun s turn ⟨hlegal, hstays⟩ ⟨hreachable, hkeep⟩ =>
      ⟨⟨hreachable.step hlegal, by rw [step_keepalive hstays, hkeep]⟩,
        potential_step hn hmax hreachable hkeep hlegal hstays⟩)
    ⟨hreachable, hfresh.keepalive⟩
  rw [spent_charge, hpotential] at hbound
  unfold threadTurns
  omega

theorem two_jobs_effort : onePool.threadTurns twoJobs ≤ 3 * 1 + 18 * 2 + 0 :=
  no_busy_waiting (by decide) (by decide) (Or.inr ⟨by decide +kernel, by simp [blankPool]⟩)
    (Option.some_get poolOfOne_isSome).symm twoJobs_legal (by simp [twoJobs])

end ThreadPool

end LBeacon
