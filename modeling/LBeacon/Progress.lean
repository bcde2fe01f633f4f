import LBeacon.Wakeups
import LBeacon.Lib.Fair
import Mathlib.Data.List.Infix

/-!
# Progress

Every thread takes its turns again and again, and every function that a job calls returns. Then
each job that is pushed is started and returns.
-/

open Bytes CInt Processes Fair

namespace LBeacon

/-- How many turns a thread on its way to the queue takes to it. -/
def Worker.distance : Worker → Nat
  | .passed => 2
  | .counting => 1
  | _ => 0

/-- How many turns another thread takes to the semaphore. -/
def Worker.approach : Worker → Nat
  | .running _ _ => 4
  | .freeing _ => 3
  | .uncounting => 2
  | .starting => 2
  | .looping => 1
  | _ => 0

theorem Worker.running_of_number {w : Worker} {k : Nat} (h : w.number = some k) :
    ∃ job, w = .running job k := by
  cases w with
  | running job number => exact ⟨job, by rw [Option.some.inj h]⟩
  | _ => simp [Worker.number] at h

namespace ThreadPool

variable {n : Nat} {s : ThreadPool}

/-! ## What one turn does to the others -/

/-- Where a turn takes a thread. -/
inductive Moves (s : ThreadPool) : Worker → Worker → Prop where
  | start : Moves s .starting .looping
  | enter (h : s.threadsKeepalive = true) : Moves s .looping .entering
  | leave (h : s.threadsKeepalive = false) : Moves s .looping .leaving
  | pass (h : s.v = 1) : Moves s .entering .passed
  | block (h : s.v ≠ 1) : Moves s .entering .blocked
  | stay : Moves s .blocked .blocked
  | count (h : s.threadsKeepalive = true) : Moves s .passed .counting
  | again (h : s.threadsKeepalive = false) : Moves s .passed .looping
  | pull : Moves s .counting .pulling
  | run (job number : Nat) : Moves s .pulling (.running job number)
  | miss : Moves s .pulling .uncounting
  | finish (job number : Nat) : Moves s (.running job number) (.freeing job)
  | free (job : Nat) : Moves s (.freeing job) .uncounting
  | uncount : Moves s .uncounting .looping
  | go : Moves s .leaving .gone
  | gone : Moves s .gone .gone

theorem threadDo_moves {i : Nat} {w : Worker} (hw : s.workers[i]? = some w) (choice : Nat) :
    ∃ workers w', (s.threadDo i choice w).workers = workers.set i w' ∧ s.Moves w w' ∧
      (workers = s.workers ∨ workers = signal choice s.workers) := by
  have hsame : s.workers = s.workers.set i w := by
    obtain ⟨hi, rfl⟩ := List.getElem?_eq_some_iff.mp hw
    exact (List.set_getElem_self hi).symm
  have hpulled : (s.jobqueuePull choice).2.workers = s.workers ∨
      (s.jobqueuePull choice).2.workers = signal choice s.workers := by
    unfold jobqueuePull
    dsimp only
    split
    · exact Or.inl rfl
    · exact Or.inr rfl
  cases w with
  | starting => exact ⟨_, _, rfl, .start, Or.inl rfl⟩
  | looping =>
    unfold threadDo
    cases hkeep : s.threadsKeepalive with
    | true => exact ⟨_, _, rfl, .enter hkeep, Or.inl rfl⟩
    | false => exact ⟨_, _, rfl, .leave hkeep, Or.inl rfl⟩
  | entering =>
    unfold threadDo bsemWait
    dsimp only
    split
    next hv => exact ⟨_, _, rfl, .block hv, Or.inl rfl⟩
    next hv => exact ⟨_, _, rfl, .pass (not_not.mp hv), Or.inl rfl⟩
  | blocked => exact ⟨_, _, hsame, .stay, Or.inl rfl⟩
  | passed =>
    unfold threadDo
    cases hkeep : s.threadsKeepalive with
    | true => exact ⟨_, _, rfl, .count hkeep, Or.inl rfl⟩
    | false => exact ⟨_, _, rfl, .again hkeep, Or.inl rfl⟩
  | counting => exact ⟨_, _, rfl, .pull, Or.inl rfl⟩
  | pulling =>
    unfold threadDo
    dsimp only
    split
    · exact ⟨_, _, rfl, .miss, hpulled⟩
    · exact ⟨_, _, rfl, .run _ _, hpulled⟩
  | running job number => exact ⟨_, _, rfl, .finish job number, Or.inl rfl⟩
  | freeing job => exact ⟨_, _, rfl, .free job, Or.inl rfl⟩
  | uncounting => exact ⟨_, _, rfl, .uncount, Or.inl rfl⟩
  | leaving => exact ⟨_, _, rfl, .go, Or.inl rfl⟩
  | gone => exact ⟨_, _, hsame, .gone, Or.inl rfl⟩

theorem step_other {i : Nat} {w : Worker} (hw : s.workers[i]? = some w) (hblocked : w ≠ .blocked)
    (hclearing : ∀ threadsTotal, s.owner ≠ .clearing threadsTotal) {turn : Turn}
    (hother : ∀ choice, turn ≠ .worker i choice) : (s.step turn).workers[i]? = some w := by
  cases turn with
  | addWork answer work =>
    rw [step_addWork]
    unfold thpoolAddWork
    dsimp only
    split <;> exact hw
  | push k choice =>
    rw [step_push]
    unfold ThreadPool.push
    cases s.newjobs[k]? with
    | none => exact hw
    | some e => exact signal_other hw hblocked choice
  | worker j choice =>
    have hij : j ≠ i := fun heq => hother choice (heq ▸ rfl)
    cases hj : s.workers[j]? with
    | none =>
      rw [step_worker_none hj]
      exact hw
    | some w₀ =>
      obtain ⟨workers, w', hset, -, hworkers⟩ := threadDo_moves hj choice
      rw [step_worker hj, hset, List.getElem?_set_ne hij]
      rcases hworkers with rfl | rfl
      · exact hw
      · exact signal_other hw hblocked choice
  | wake j =>
    rw [step_wake]
    split
    next hj =>
      have hij : j ≠ i := fun heq => by
        rw [heq, hw] at hj
        exact hblocked (Option.some.inj hj)
      exact (List.getElem?_set_ne hij).trans hw
    next => exact hw
  | owner =>
    rw [step_owner]
    unfold ownerStep
    cases howner : s.owner with
    | initializing =>
      dsimp only
      split <;> exact hw
    | posting threadsTotal =>
      show (broadcast s.workers)[i]? = some w
      unfold broadcast
      rw [List.getElem?_map, hw, Option.map_some, if_neg hblocked]
    | clearing threadsTotal => exact absurd howner (hclearing threadsTotal)
    | _ => exact hw
  | destroy => exact hw

theorem step_history (s : ThreadPool) (turn : Turn) :
    s.started <+: (s.step turn).started ∧ s.finished <+: (s.step turn).finished := by
  have hsame {s' : ThreadPool} (hkeeps : s.Keeps s') :
      s.started <+: s'.started ∧ s.finished <+: s'.finished := by
    rw [hkeeps.started, hkeeps.finished]
    exact ⟨List.prefix_rfl, List.prefix_rfl⟩
  cases turn with
  | addWork answer work => exact hsame (addWork_keeps s answer work)
  | push k choice => exact hsame (push_keeps s k choice)
  | worker i choice =>
    cases hw : s.workers[i]? with
    | none =>
      rw [step_worker_none hw]
      exact hsame (Keeps.refl s)
    | some w =>
      rw [step_worker hw]
      cases w with
      | entering =>
        unfold threadDo bsemWait
        dsimp only
        split <;> exact ⟨List.prefix_rfl, List.prefix_rfl⟩
      | pulling =>
        have hkeeps := hsame (jobqueuePull_keeps s choice)
        unfold threadDo
        dsimp only
        split
        · exact hkeeps
        · exact ⟨List.prefix_append _ _, hkeeps.2⟩
      | running job number => exact ⟨List.prefix_rfl, List.prefix_append _ _⟩
      | _ => exact ⟨List.prefix_rfl, List.prefix_rfl⟩
  | wake i =>
    rw [step_wake]
    split <;> exact ⟨List.prefix_rfl, List.prefix_rfl⟩
  | owner =>
    rw [step_owner]
    unfold ownerStep
    cases s.owner with
    | initializing =>
      dsimp only
      split <;> exact ⟨List.prefix_rfl, List.prefix_rfl⟩
    | clearing threadsTotal =>
      obtain ⟨s', hkeeps, -, heq⟩ := dealloc_keeps s threadsTotal
      dsimp only
      rw [heq]
      exact ⟨(hsame hkeeps).1, (hsame hkeeps).2⟩
    | _ => exact ⟨List.prefix_rfl, List.prefix_rfl⟩
  | destroy => exact ⟨List.prefix_rfl, List.prefix_rfl⟩

theorem step_pushed (hclearing : ∀ threadsTotal, s.owner ≠ .clearing threadsTotal) (turn : Turn) :
    s.pushed <+: (s.step turn).pushed := by
  cases turn with
  | addWork answer work =>
    rw [step_addWork]
    unfold thpoolAddWork
    dsimp only
    split <;> exact List.prefix_rfl
  | push k choice =>
    rw [step_push]
    unfold ThreadPool.push
    cases s.newjobs[k]? with
    | none => exact List.prefix_rfl
    | some e => exact List.prefix_append _ _
  | worker i choice =>
    cases hw : s.workers[i]? with
    | none =>
      rw [step_worker_none hw]
    | some w =>
      rw [step_worker hw, (threadDo_fields ..).2.2.2.1]
  | wake i =>
    rw [step_wake]
    split <;> exact List.prefix_rfl
  | owner =>
    rw [step_owner]
    unfold ownerStep
    cases howner : s.owner with
    | initializing =>
      dsimp only
      split <;> exact List.prefix_rfl
    | clearing threadsTotal => exact absurd howner (hclearing threadsTotal)
    | _ => exact List.prefix_rfl
  | destroy => exact List.prefix_rfl

theorem step_posted (hv : s.v = 1) (hclearing : ∀ threadsTotal, s.owner ≠ .clearing threadsTotal)
    (turn : Turn) : (s.step turn).v = 1 ∨ ∃ i : Nat, s.workers[i]? = some Worker.entering ∧
      (s.step turn).workers = s.workers.set i .passed := by
  cases turn with
  | addWork answer work =>
    left
    rw [step_addWork]
    unfold thpoolAddWork
    dsimp only
    split <;> exact hv
  | push k choice =>
    left
    rw [step_push]
    unfold ThreadPool.push
    cases s.newjobs[k]? with
    | none => exact hv
    | some e => rfl
  | worker i choice =>
    cases hw : s.workers[i]? with
    | none =>
      rw [step_worker_none hw]
      exact Or.inl hv
    | some w =>
      rw [step_worker hw]
      cases w with
      | entering =>
        unfold threadDo bsemWait
        dsimp only
        rw [if_neg (not_not.mpr hv)]
        exact Or.inr ⟨i, hw, rfl⟩
      | pulling =>
        left
        unfold threadDo jobqueuePull
        dsimp only
        split <;> split <;> first | exact hv | rfl
      | _ => exact Or.inl hv
  | wake i =>
    left
    rw [step_wake]
    split <;> exact hv
  | owner =>
    left
    rw [step_owner]
    unfold ownerStep
    cases howner : s.owner with
    | initializing =>
      dsimp only
      split <;> exact hv
    | posting threadsTotal => rfl
    | clearing threadsTotal => exact absurd howner (hclearing threadsTotal)
    | _ => exact hv
  | destroy => exact Or.inl hv

/-! ## Fair runs -/

/-- All threads take their turns again and again, the one that calls `thpool_init` and
`thpool_destroy` too. -/
structure FairRun (n : Nat) (s : ThreadPool) (turns : Nat → Turn) : Prop where
  reachable : s.Reachable n
  legal : ∀ t, (turns t).Legal (states ThreadPool.step s turns t)
  workers : ∀ i < n, Recurs turns fun turn => ∃ choice, turn = .worker i choice
  owner : Recurs turns fun turn => turn = .owner

variable {turns : Nat → Turn}

theorem FairRun.reachable_at (h : FairRun n s turns) (t : Nat) :
    (states ThreadPool.step s turns t).Reachable n :=
  states_invariant h.reachable (fun t ht => ht.step (h.legal t)) t

theorem FairRun.lt_of_some (h : FairRun n s turns) (hn : 0 < n) (hmax : n < 209716) {t i : Nat}
    {w : Worker} (hw : (states ThreadPool.step s turns t).workers[i]? = some w) : i < n := by
  have hlength := ((h.reachable_at t).counted hn hmax).workers
  have hi := (List.getElem?_eq_some_iff.mp hw).1
  omega

/-- The pool serves, and is never destroyed. -/
structure Serves (s : ThreadPool) (turns : Nat → Turn) : Prop where
  keepalive : s.threadsKeepalive = true
  stays : ∀ t, turns t ≠ .destroy

theorem Serves.keepalive_at (h : Serves s turns) (t : Nat) :
    (states ThreadPool.step s turns t).threadsKeepalive = true := by
  refine states_invariant (I := fun s : ThreadPool => s.threadsKeepalive = true) h.keepalive
    (fun t ht => ?_) t
  show (ThreadPool.step _ (turns t)).threadsKeepalive = true
  rw [step_keepalive (h.stays t)]
  exact ht

/-! ## Every job runs -/

/-- The job `k` is the next one to start. -/
def Waiting (k : Nat) (s : ThreadPool) : Prop := s.started.length = k ∧ k < s.pushed.length

variable {k : Nat}

theorem Waiting.step (h : s.Waiting k)
    (hclearing : ∀ threadsTotal, s.owner ≠ .clearing threadsTotal) (turn : Turn) :
    (s.step turn).Waiting k ∨ k < (s.step turn).started.length := by
  have hstarted := (step_history s turn).1.length_le
  have hpushed := (step_pushed hclearing turn).length_le
  obtain ⟨heq, hlt⟩ := h
  rcases Nat.eq_or_lt_of_le hstarted with hsame | hmore
  · exact Or.inl ⟨by omega, by omega⟩
  · exact Or.inr (by omega)

theorem Waiting.pull (h : s.Waiting k) {free queue : List Nat} (hsound : s.Sound n free queue)
    (hs : PoolSizes sizeOfSlot (n * slotsForMemPoolPerThread)) (i choice : Nat) :
    k < (s.threadDo i choice .pulling).started.length := by
  have hroom := hsound.1.queue_length hs
  have hpushed := congrArg List.length hsound.2.pushed
  rw [List.length_append, List.length_map] at hpushed
  obtain ⟨heq, hlt⟩ := h
  unfold threadDo
  dsimp only
  rcases jobqueuePull_spec hsound.1.links (by omega) choice with
    ⟨rfl, -⟩ | ⟨job, rest, jobqueue, rfl, hne, hlists, hpull⟩
  · rw [List.length_nil] at hpushed
    omega
  · rw [hpull, if_neg hne]
    dsimp only
    rw [List.length_append, List.length_singleton]
    omega

/-- The thread `i` is on its way to the queue, and a job waits. -/
def Fetching (k i : Nat) (s : ThreadPool) : Prop :=
  s.Waiting k ∧ ∃ w, s.workers[i]? = some w ∧ w.coming = true

theorem Fetching.other {i : Nat} (h : s.Fetching k i)
    (hclearing : ∀ threadsTotal, s.owner ≠ .clearing threadsTotal) {turn : Turn}
    (hother : ∀ choice, turn ≠ .worker i choice) :
    (s.step turn).Fetching k i ∧
        weight Worker.distance i (s.step turn).workers ≤ weight Worker.distance i s.workers ∨
      k < (s.step turn).started.length := by
  obtain ⟨hwaiting, w, hw, hcoming⟩ := h
  have hblocked : w ≠ .blocked := fun heq => by
    rw [heq] at hcoming
    exact Bool.noConfusion hcoming
  have hstays := step_other hw hblocked hclearing hother
  rcases hwaiting.step hclearing turn with hwaits | hstarted
  · rw [weight_eq hw, weight_eq hstays]
    exact Or.inl ⟨⟨hwaits, w, hstays, hcoming⟩, Nat.le_refl _⟩
  · exact Or.inr hstarted

theorem Fetching.turn {i : Nat} (h : s.Fetching k i) (hkeep : s.threadsKeepalive = true)
    {free queue : List Nat} (hsound : s.Sound n free queue)
    (hs : PoolSizes sizeOfSlot (n * slotsForMemPoolPerThread)) (choice : Nat) :
    (s.step (.worker i choice)).Fetching k i ∧
        weight Worker.distance i (s.step (.worker i choice)).workers <
          weight Worker.distance i s.workers ∨
      k < (s.step (.worker i choice)).started.length := by
  obtain ⟨hwaiting, w, hw, hcoming⟩ := h
  rw [step_worker hw, weight_eq hw]
  have hmoved (w' : Worker) := getElem?_set_self hw w'
  cases w with
  | passed =>
    have hnext : (s.threadDo i choice .passed).workers = s.workers.set i .counting := by
      unfold threadDo ThreadPool.move
      rw [hkeep]
      rfl
    unfold Fetching
    rw [hnext, weight_eq (hmoved .counting)]
    exact Or.inl ⟨⟨hwaiting, .counting, hmoved _, rfl⟩, Nat.lt_succ_self 1⟩
  | counting =>
    have hnext : (s.threadDo i choice .counting).workers = s.workers.set i .pulling := rfl
    unfold Fetching
    rw [hnext, weight_eq (hmoved .pulling)]
    exact Or.inl ⟨⟨hwaiting, .pulling, hmoved _, rfl⟩, Nat.lt_succ_self 0⟩
  | pulling => exact Or.inr (hwaiting.pull hsound hs i choice)
  | _ => exact Bool.noConfusion hcoming

/-- A thread goes to the semaphore while it is posted, and a job waits. -/
def Approaching (k i : Nat) (s : ThreadPool) : Prop :=
  s.Waiting k ∧ s.v = 1 ∧ ∃ w, s.workers[i]? = some w ∧ w ≠ .blocked ∧ w.coming = false

theorem Approaching.other {i : Nat} (h : s.Approaching k i)
    (hclearing : ∀ threadsTotal, s.owner ≠ .clearing threadsTotal) {turn : Turn}
    (hother : ∀ choice, turn ≠ .worker i choice) :
    (s.step turn).Approaching k i ∧
        weight Worker.approach i (s.step turn).workers ≤ weight Worker.approach i s.workers ∨
      (∃ j, (s.step turn).Fetching k j) ∨ k < (s.step turn).started.length := by
  obtain ⟨hwaiting, hv, w, hw, hblocked, hcoming⟩ := h
  have hstays := step_other hw hblocked hclearing hother
  rcases hwaiting.step hclearing turn with hwaits | hstarted
  · rcases step_posted hv hclearing turn with hposted | ⟨j, hj, hpassed⟩
    · rw [weight_eq hw, weight_eq hstays]
      exact Or.inl ⟨⟨hwaits, hposted, w, hstays, hblocked, hcoming⟩, Nat.le_refl _⟩
    · exact Or.inr (Or.inl ⟨j, hwaits, .passed, by rw [hpassed, getElem?_set_self hj], rfl⟩)
  · exact Or.inr (Or.inr hstarted)

theorem Approaching.turn {i : Nat} (h : s.Approaching k i) (hkeep : s.threadsKeepalive = true)
    (hawake : s.Awake) (choice : Nat) :
    (s.step (.worker i choice)).Approaching k i ∧
        weight Worker.approach i (s.step (.worker i choice)).workers <
          weight Worker.approach i s.workers ∨
      (∃ j, (s.step (.worker i choice)).Fetching k j) ∨
        k < (s.step (.worker i choice)).started.length := by
  obtain ⟨hwaiting, hv, w, hw, hblocked, hcoming⟩ := h
  rw [step_worker hw, weight_eq hw]
  have hmoved (w' : Worker) := getElem?_set_self hw w'
  have hnear {s' : ThreadPool} {w' : Worker} (hworkers : s'.workers = s.workers.set i w')
      (hwaits : s'.Waiting k) (hposted : s'.v = 1) (hnot : w' ≠ .blocked)
      (hcoming' : w'.coming = false) (hlt : w'.approach < w.approach) :
      s'.Approaching k i ∧ weight Worker.approach i s'.workers < w.approach := by
    unfold Approaching
    rw [hworkers, weight_eq (hmoved w')]
    exact ⟨⟨hwaits, hposted, w', hmoved w', hnot, hcoming'⟩, hlt⟩
  cases w with
  | starting => exact Or.inl (hnear rfl hwaiting hv Worker.noConfusion rfl (by decide))
  | looping =>
    have hnext : (s.threadDo i choice .looping).workers = s.workers.set i .entering := by
      unfold threadDo ThreadPool.move
      rw [hkeep]
      rfl
    exact Or.inl (hnear hnext hwaiting hv Worker.noConfusion rfl (by decide))
  | entering =>
    have hnext : s.threadDo i choice .entering = { s.move i .passed with v := 0 } := by
      unfold threadDo bsemWait
      dsimp only
      rw [if_neg (not_not.mpr hv)]
    rw [hnext]
    exact Or.inr (Or.inl ⟨i, hwaiting, .passed, hmoved _, rfl⟩)
  | blocked => exact absurd rfl hblocked
  | running job number =>
    exact Or.inl (hnear rfl hwaiting hv Worker.noConfusion rfl (Nat.lt_succ_self 3))
  | freeing job =>
    exact Or.inl (hnear rfl hwaiting hv Worker.noConfusion rfl (Nat.lt_succ_self 2))
  | uncounting => exact Or.inl (hnear rfl hwaiting hv Worker.noConfusion rfl (by decide))
  | leaving => exact absurd rfl (hawake.staying hkeep _ (List.mem_of_getElem? hw)).1
  | gone => exact absurd rfl (hawake.staying hkeep _ (List.mem_of_getElem? hw)).2
  | _ => exact Bool.noConfusion hcoming

/-! ## Runs -/

section

variable (h : FairRun n s turns) (hn : 0 < n) (hmax : n < 209716) (hserves : Serves s turns)
include h hn hmax hserves

theorem fetching_leadsTo (i : Nat) :
    LeadsTo (states ThreadPool.step s turns) (Fetching k i) fun s => k < s.started.length := by
  have hclearing (t : Nat) := ((h.reachable_at t).awake hn hmax).not_clearing (hserves.keepalive_at t)
  refine LeadsTo.assuming (fun t ⟨_, w, hw, _⟩ => h.lt_of_some hn hmax hw) fun hi => ?_
  refine LeadsTo.of_inputs (h.workers i hi)
    (fun s : ThreadPool => weight Worker.distance i s.workers) (fun t hother hfetching => ?_)
    fun t ⟨choice, hturn⟩ hfetching => ?_
  · exact hfetching.other (hclearing t) fun choice heq => hother ⟨choice, heq⟩
  · obtain ⟨free, queue, hsound⟩ := ((h.reachable_at t).sound hn hmax).resolve_left
      (((h.reachable_at t).awake hn hmax).not_returned (hserves.keepalive_at t))
    rw [states_succ, hturn]
    exact hfetching.turn (hserves.keepalive_at t) hsound (poolSizes hn hmax) choice

theorem approaching_leadsTo (i : Nat) :
    LeadsTo (states ThreadPool.step s turns) (Approaching k i) fun s =>
      (∃ j, s.Fetching k j) ∨ k < s.started.length := by
  have hclearing (t : Nat) := ((h.reachable_at t).awake hn hmax).not_clearing (hserves.keepalive_at t)
  refine LeadsTo.assuming (fun t ⟨_, _, w, hw, _⟩ => h.lt_of_some hn hmax hw) fun hi => ?_
  refine LeadsTo.of_inputs (h.workers i hi)
    (fun s : ThreadPool => weight Worker.approach i s.workers) (fun t hother happroaching => ?_)
    fun t ⟨choice, hturn⟩ happroaching => ?_
  · exact happroaching.other (hclearing t) fun choice heq => hother ⟨choice, heq⟩
  · rw [states_succ, hturn]
    exact happroaching.turn (hserves.keepalive_at t) ((h.reachable_at t).awake hn hmax) choice

theorem waiting_leadsTo :
    LeadsTo (states ThreadPool.step s turns) (Waiting k) fun s => k < s.started.length := by
  have hready : LeadsTo (states ThreadPool.step s turns) (Waiting k) fun s =>
      (∃ i, s.Approaching k i) ∨ (∃ i, s.Fetching k i) := by
    refine LeadsTo.of_imp fun t hwaiting => ?_
    have hkeep := hserves.keepalive_at t
    have hawake := (h.reachable_at t).awake hn hmax
    have hworkers := ((h.reachable_at t).counted hn hmax).workers
    obtain ⟨free, queue, howns, haccounts⟩ :=
      ((h.reachable_at t).sound hn hmax).resolve_left (hawake.not_returned hkeep)
    generalize states ThreadPool.step s turns t = s at *
    have hcoming {w : Worker} (hw : w ∈ s.workers) (hcoming : w.coming = true) :
        ∃ i, s.Fetching k i := by
      obtain ⟨i, hi⟩ := List.mem_iff_getElem?.mp hw
      exact ⟨i, hwaiting, w, hi, hcoming⟩
    have hlen : s.jobqueue.len ≠ 0 := fun hzero => by
      have hpushed := congrArg List.length haccounts.pushed
      rw [howns.links.len_eq_zero.mp hzero, List.map_nil, List.append_nil] at hpushed
      have := hwaiting.1
      have := hwaiting.2
      omega
    rcases hawake.queued hkeep hlen with hv | ⟨w, hw, hon⟩
    · -- A thread that is not blocked.
      have hawakeOne : ∃ w ∈ s.workers, w ≠ .blocked := by
        obtain ⟨w, hw⟩ := List.exists_mem_of_length_pos (l := s.workers) (by omega)
        by_cases hblocked : w = .blocked
        · exact ⟨.entering, hawake.posted hv (hblocked ▸ hw), Worker.noConfusion⟩
        · exact ⟨w, hw, hblocked⟩
      obtain ⟨w, hw, hblocked⟩ := hawakeOne
      cases hon : w.coming with
      | true => exact Or.inr (hcoming hw hon)
      | false =>
        obtain ⟨i, hi⟩ := List.mem_iff_getElem?.mp hw
        exact Or.inl ⟨i, hwaiting, hv, w, hi, hblocked, hon⟩
    · exact Or.inr (hcoming hw hon)
  have hfetched : LeadsTo (states ThreadPool.step s turns) (fun s => ∃ i, s.Fetching k i)
      fun s => k < s.started.length :=
    LeadsTo.of_exists fun i => fetching_leadsTo h hn hmax hserves i
  have happroached : LeadsTo (states ThreadPool.step s turns) (fun s => ∃ i, s.Approaching k i)
      fun s => k < s.started.length :=
    LeadsTo.of_exists fun i => (approaching_leadsTo h hn hmax hserves i).trans_or hfetched
  exact hready.trans (happroached.or hfetched)

theorem pushed_leadsTo_started (k : Nat) :
    LeadsTo (states ThreadPool.step s turns) (fun s => k < s.pushed.length)
      fun s => k < s.started.length := by
  refine LeadsTo.of_counts (fun t => ?_) (fun k => waiting_leadsTo h hn hmax hserves) k
  have hclearing := ((h.reachable_at t).awake hn hmax).not_clearing (hserves.keepalive_at t)
  exact (step_pushed hclearing (turns t)).length_le

omit hserves in
theorem running_leadsTo_finished (k i : Nat)
    (hclearing : ∀ t threadsTotal, (states ThreadPool.step s turns t).owner ≠ .clearing threadsTotal) :
    LeadsTo (states ThreadPool.step s turns)
      (fun s => ∃ job, s.workers[i]? = some (Worker.running job k)) fun s => k ∈ s.finished := by
  refine LeadsTo.assuming (fun t ⟨job, hw⟩ => h.lt_of_some hn hmax hw) fun hi => ?_
  refine LeadsTo.of_input (h.workers i hi) (fun t hother ⟨job, hw⟩ => ?_)
    fun t ⟨choice, hturn⟩ ⟨job, hw⟩ => ?_
  · exact Or.inl ⟨job, step_other hw Worker.noConfusion (hclearing t) fun choice heq =>
      hother ⟨choice, heq⟩⟩
  · rw [states_succ, hturn, step_worker hw]
    exact List.mem_append_right _ (List.mem_singleton_self k)

/-- While the pool serves, every job that was pushed returns sooner or later, if the threads take
their turns and what runs before it returns. -/
theorem every_job_returns (k : Nat) :
    LeadsTo (states ThreadPool.step s turns) (fun s => k < s.pushed.length)
      fun s => k ∈ s.finished := by
  have hclearing (t : Nat) := ((h.reachable_at t).awake hn hmax).not_clearing (hserves.keepalive_at t)
  have hruns : LeadsTo (states ThreadPool.step s turns) (fun s => k < s.started.length) fun s =>
      (∃ (i job : Nat), s.workers[i]? = some (Worker.running job k)) ∨ k ∈ s.finished := by
    refine LeadsTo.of_imp fun t hstarted => ?_
    obtain ⟨free, queue, -, haccounts⟩ := ((h.reachable_at t).sound hn hmax).resolve_left
      (((h.reachable_at t).awake hn hmax).not_returned (hserves.keepalive_at t))
    generalize states ThreadPool.step s turns t = s at *
    have hmem := haccounts.numbers.mem_iff.mpr (List.mem_range.mpr hstarted)
    rcases List.mem_append.mp hmem with hruns | hfinished
    · obtain ⟨w, hw, hnumber⟩ := List.mem_filterMap.mp hruns
      obtain ⟨i, hi⟩ := List.mem_iff_getElem?.mp hw
      obtain ⟨job, rfl⟩ := Worker.running_of_number hnumber
      exact Or.inl ⟨i, job, hi⟩
    · exact Or.inr hfinished
  refine ((pushed_leadsTo_started h hn hmax hserves k).trans hruns).trans_or ?_
  exact LeadsTo.of_exists fun i => running_leadsTo_finished h hn hmax k i hclearing

end

/-- The two threads of a pool of one take turns. -/
def takingTurns (t : Nat) : Turn := if t % 2 = 0 then .worker 0 0 else .owner

theorem takingTurns_fair (hreachable : s.Reachable 1) : FairRun 1 s takingTurns where
  reachable := hreachable
  legal t := by
    unfold takingTurns
    split <;> trivial
  workers i hi t := by
    obtain rfl : i = 0 := by omega
    exact ⟨2 * t, by omega, 0, if_pos (Nat.mul_mod_right 2 t)⟩
  owner t := ⟨2 * t + 1, by omega, if_neg (by omega)⟩

theorem second_job_returns :
    ∃ u, 1 ∈ (states ThreadPool.step (onePool.run twoJobs) takingTurns u).finished := by
  have hserves : Serves (onePool.run twoJobs) takingTurns := by
    refine ⟨by decide +kernel, fun t => ?_⟩
    unfold takingTurns
    split <;> exact Turn.noConfusion
  have hpushed : 1 < (states ThreadPool.step (onePool.run twoJobs) takingTurns 0).pushed.length := by
    decide +kernel
  obtain ⟨u, -, hfinished⟩ := every_job_returns (takingTurns_fair (onePool_reachable twoJobs_legal))
    (by decide) (by decide) hserves 1 0 hpushed
  exact ⟨u, hfinished⟩

end ThreadPool

end LBeacon
