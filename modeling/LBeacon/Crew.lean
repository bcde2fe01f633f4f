import LBeacon.JobRuns

/-!
# The counters of the thread pool

`num_threads_alive`, `num_threads_working`, and what fits into the pool.
-/

open Bytes CInt Processes

namespace LBeacon

/-- Between the two places where the thread changes `num_threads_alive`. -/
def Worker.alive : Worker → Nat
  | .starting => 0
  | .gone => 0
  | _ => 1

/-- Between the two places where the thread changes `num_threads_working`. -/
def Worker.working : Worker → Nat
  | .pulling => 1
  | .running _ _ => 1
  | .freeing _ => 1
  | .uncounting => 1
  | _ => 0

namespace ThreadPool

variable {n : Nat} {s : ThreadPool}

/-- `thpool_num_threads_working` -/
def thpoolNumThreadsWorking (s : ThreadPool) : Int := s.numThreadsWorking

structure Counted (n : Nat) (s : ThreadPool) : Prop where
  threads : s.threads.length = n
  workers : s.workers.length = n
  alive : s.numThreadsAlive = total Worker.alive s.workers
  working : s.numThreadsWorking = total Worker.working s.workers

theorem alive_le_one (w : Worker) : w.alive ≤ 1 := by
  cases w <;> simp [Worker.alive]

theorem alive_le (workers : List Worker) : total Worker.alive workers ≤ workers.length := by
  have := total_le alive_le_one workers
  omega

theorem working_le_alive (workers : List Worker) :
    total Worker.working workers ≤ total Worker.alive workers := by
  apply total_mono
  intro w _
  cases w <;> simp [Worker.working, Worker.alive]

theorem Counted.of_keeps (h : s.Counted n) {s' : ThreadPool} (hkeeps : s.Keeps s') :
    s'.Counted n where
  threads := by rw [hkeeps.threads, h.threads]
  workers := by rw [← total_one, hkeeps.total _ rfl, total_one, h.workers]
  alive := by rw [hkeeps.alive, h.alive, hkeeps.total _ rfl]
  working := by rw [hkeeps.working, h.working, hkeeps.total _ rfl]

theorem Counted.set (h : s.Counted n) (hmax : n < 209716) {s' : ThreadPool} {i : Nat} {w w' : Worker}
    {workers : List Worker} (hw : workers[i]? = some w) (hthreads : s'.threads = s.threads)
    (htotal : ∀ f : Worker → Nat, f .blocked = f .entering → total f workers = total f s.workers)
    (hworkers : s'.workers = workers.set i w')
    (halive : s'.numThreadsAlive = s.numThreadsAlive + w'.alive - w.alive ∨
      s'.numThreadsAlive = toInt (s.numThreadsAlive + w'.alive - w.alive))
    (hworking : s'.numThreadsWorking = s.numThreadsWorking + w'.working - w.working ∨
      s'.numThreadsWorking = toInt (s.numThreadsWorking + w'.working - w.working)) :
    s'.Counted n := by
  have hlen : workers.length = n := by rw [← total_one, htotal _ rfl, total_one, h.workers]
  have hset (f : Worker → Nat) (hf : f .blocked = f .entering) :
      total f s'.workers + f w = total f s.workers + f w' := by
    rw [hworkers, total_set hw f w', htotal f hf]
  have hbound := alive_le (workers.set i w')
  have hbound' := working_le_alive (workers.set i w')
  rw [List.length_set, hlen] at hbound
  rw [← hworkers] at hbound hbound'
  have hset' := hset Worker.alive rfl
  have hset'' := hset Worker.working rfl
  refine ⟨by rw [hthreads, h.threads], by rw [hworkers, List.length_set, hlen], ?_, ?_⟩
  · have hcount := h.alive
    rcases halive with halive | halive
    · omega
    · rw [halive, hcount, toInt_eq (by omega) (by omega)]
      omega
  · have hcount := h.working
    rcases hworking with hworking | hworking
    · omega
    · rw [hworking, hcount, toInt_eq (by omega) (by omega)]
      omega

theorem Counted.move (h : s.Counted n) (hmax : n < 209716) {s' : ThreadPool} {i : Nat}
    {w w' : Worker} {workers : List Worker} (hw : workers[i]? = some w)
    (hthreads : s'.threads = s.threads)
    (htotal : ∀ f : Worker → Nat, f .blocked = f .entering → total f workers = total f s.workers)
    (hworkers : s'.workers = workers.set i w') (hsame : w'.alive = w.alive ∧ w'.working = w.working)
    (halive : s'.numThreadsAlive = s.numThreadsAlive)
    (hworking : s'.numThreadsWorking = s.numThreadsWorking) : s'.Counted n :=
  h.set hmax hw hthreads htotal hworkers (Or.inl (by omega)) (Or.inl (by omega))

theorem Counted.threadDo (h : s.Counted n) (hmax : n < 209716) {i : Nat} {w : Worker}
    (hw : s.workers[i]? = some w) (choice : Nat) : (s.threadDo i choice w).Counted n := by
  have hsame : ∀ f : Worker → Nat, f .blocked = f .entering →
      total f s.workers = total f s.workers := fun _ _ => rfl
  cases w with
  | starting =>
    exact h.set hmax hw rfl hsame rfl (Or.inr (by simp [ThreadPool.threadDo, Worker.alive]))
      (Or.inl (by simp [ThreadPool.threadDo, ThreadPool.move, Worker.working]))
  | looping =>
    refine h.move hmax hw rfl hsame rfl ?_ rfl rfl
    cases s.threadsKeepalive <;> exact ⟨rfl, rfl⟩
  | entering =>
    unfold ThreadPool.threadDo bsemWait
    dsimp only
    split
    · exact h.move hmax hw rfl hsame rfl ⟨rfl, rfl⟩ rfl rfl
    · exact h.move hmax hw rfl hsame rfl ⟨rfl, rfl⟩ rfl rfl
  | blocked => exact h
  | passed =>
    refine h.move hmax hw rfl hsame rfl ?_ rfl rfl
    cases s.threadsKeepalive <;> exact ⟨rfl, rfl⟩
  | counting =>
    exact h.set hmax hw rfl hsame rfl
      (Or.inl (by simp [ThreadPool.threadDo, ThreadPool.move, Worker.alive]))
      (Or.inr (by simp [ThreadPool.threadDo, Worker.working]))
  | pulling =>
    have hkeeps := jobqueuePull_keeps s choice
    have hpulled : (s.jobqueuePull choice).2.workers[i]? = some .pulling := by
      unfold jobqueuePull
      dsimp only
      split
      · exact hw
      · exact signal_other hw (by decide) choice
    unfold ThreadPool.threadDo
    dsimp only
    split
    · exact h.move hmax hpulled hkeeps.threads hkeeps.total rfl ⟨rfl, rfl⟩ hkeeps.alive hkeeps.working
    · exact h.move hmax hpulled hkeeps.threads hkeeps.total rfl ⟨rfl, rfl⟩ hkeeps.alive hkeeps.working
  | running job number => exact h.move hmax hw rfl hsame rfl ⟨rfl, rfl⟩ rfl rfl
  | freeing job => exact h.move hmax hw rfl hsame rfl ⟨rfl, rfl⟩ rfl rfl
  | uncounting =>
    exact h.set hmax hw rfl hsame rfl
      (Or.inl (by simp [ThreadPool.threadDo, ThreadPool.move, Worker.alive]))
      (Or.inr (by simp [ThreadPool.threadDo, Worker.working]))
  | leaving =>
    exact h.set hmax hw rfl hsame rfl (Or.inr (by simp [ThreadPool.threadDo, Worker.alive]))
      (Or.inl (by simp [ThreadPool.threadDo, ThreadPool.move, Worker.working]))
  | gone => exact h

theorem Counted.step (h : s.Counted n) (hmax : n < 209716) (turn : Turn) :
    (s.step turn).Counted n := by
  cases turn with
  | addWork answer work => exact h.of_keeps (addWork_keeps s answer work)
  | push k choice => exact h.of_keeps (push_keeps s k choice)
  | worker i choice =>
    cases hw : s.workers[i]? with
    | none =>
      rw [step_worker_none hw]
      exact h
    | some w =>
      rw [step_worker hw]
      exact h.threadDo hmax hw choice
  | wake i =>
    rw [step_wake]
    split
    next hw => exact h.move hmax hw rfl (fun _ _ => rfl) rfl ⟨rfl, rfl⟩ rfl rfl
    next => exact h
  | owner =>
    rw [step_owner]
    unfold ownerStep
    cases howner : s.owner with
    | initializing =>
      dsimp only
      split
      · exact ⟨h.threads, h.workers, h.alive, h.working⟩
      · exact h
    | serving => exact h
    | testing threadsTotal => exact ⟨h.threads, h.workers, h.alive, h.working⟩
    | posting threadsTotal =>
      have hposted := h.of_keeps (bsemPostAll_keeps s)
      exact ⟨hposted.threads, hposted.workers, hposted.alive, hposted.working⟩
    | clearing threadsTotal =>
      obtain ⟨s', hkeeps, -, heq⟩ := dealloc_keeps s threadsTotal
      have hcleared := h.of_keeps hkeeps
      dsimp only
      rw [heq]
      exact ⟨hcleared.threads, hcleared.workers, hcleared.alive, hcleared.working⟩
    | returned => exact h
  | destroy => exact ⟨h.threads, h.workers, h.alive, h.working⟩

theorem Fresh.counted (h : s.Fresh n) : s.Counted n where
  threads := h.threads
  workers := by rw [h.workers, List.length_replicate]
  alive := by rw [h.alive, h.workers, total_replicate]; rfl
  working := by rw [h.working, h.workers, total_replicate]; rfl

theorem Reachable.counted (hn : 0 < n) (hmax : n < 209716) (h : s.Reachable n) : s.Counted n :=
  h.rule hn hmax (P := Counted n) (fun _ hfresh => hfresh.counted) fun _ turn _ _ hs =>
    hs.step hmax turn

/-- At all times `num_threads_alive` is the number of threads between its two changes, and
`num_threads_working` of those that look for a job or have one. -/
theorem counters_exact (hn : 0 < n) (hmax : n < 209716) (h : s.Reachable n) :
    s.numThreadsAlive = total Worker.alive s.workers ∧
      s.thpoolNumThreadsWorking = total Worker.working s.workers ∧
      s.thpoolNumThreadsWorking ≤ s.numThreadsAlive ∧ s.numThreadsAlive ≤ n ∧
      (s.workers.filterMap Worker.number).length ≤ s.thpoolNumThreadsWorking := by
  have hcounted := h.counted hn hmax
  have hle := alive_le s.workers
  have hle' := working_le_alive s.workers
  have hrunning : (s.workers.filterMap Worker.number).length ≤ total Worker.working s.workers := by
    apply length_held_le
    intro w number hw
    cases w <;> simp [Worker.number, Worker.working] at hw ⊢
  rw [hcounted.workers] at hle
  have halive := hcounted.alive
  have hworking : s.thpoolNumThreadsWorking = total Worker.working s.workers := hcounted.working
  exact ⟨halive, hworking, by omega, by omega, by omega⟩

theorem one_job_counted :
    let s := onePool.run twoJobs
    s.numThreadsAlive = total Worker.alive s.workers ∧
      s.thpoolNumThreadsWorking = total Worker.working s.workers ∧
      s.thpoolNumThreadsWorking ≤ s.numThreadsAlive ∧ s.numThreadsAlive ≤ (1 : Nat) ∧
      (s.workers.filterMap Worker.number).length ≤ s.thpoolNumThreadsWorking :=
  counters_exact (by decide) (by decide) (onePool_reachable twoJobs_legal)

/-! ## Room -/

/-- The jobs that hold a slot: those about to be pushed, those in the queue and those in hand. -/
def backlog (s : ThreadPool) (queue : List Nat) : Nat :=
  s.newjobs.length + queue.length + (s.workers.filterMap Worker.slot).length

theorem Sound.held_length {free queue : List Nat} (h : s.Sound n free queue) :
    free.length + (s.threads.length + 1 + s.backlog queue + s.unfreed.length) =
      s.mempool.memory.length * (n * slotsForMemPoolPerThread) := by
  have hcounts := h.1.pool.counts
  unfold held at hcounts
  unfold backlog
  simp only [List.length_append, List.length_cons, List.length_map] at hcounts
  omega

theorem Sound.unfreed_length {free queue : List Nat} (h : s.Sound n free queue)
    (hs : PoolSizes sizeOfSlot (n * slotsForMemPoolPerThread)) :
    s.unfreed.length ≤ s.mempool.memory.length := by
  have hnodup := h.1.nodup hs
  unfold held at hnodup
  have hrest := (List.nodup_cons.mp (List.nodup_append.mp hnodup).2.1).2
  have hunfreed := (List.nodup_append.mp (List.nodup_append.mp
    (List.nodup_append.mp hrest).2.1).2.1).2.1
  exact (List.subperm_of_subset hunfreed h.1.heads).length_le

/-- `thpool_add_work` fails exactly when the pool cannot grow and all its slots are held: by the
threads, the semaphore and jobs, and by at most one slot of a chunk that `mp_free` did not take. -/
theorem add_work_fails_iff (hn : 0 < n) (hmax : n < 209716) (h : s.Reachable n)
    (hlive : s.owner ≠ .returned) {answer : Nat} (hok : MallocOk s.mempool answer) (work : Work) :
    ∃ queue, s.jobqueue.Lists s.mempool.bytes queue ∧ s.unfreed.length ≤ s.mempool.memory.length ∧
      ((s.thpoolAddWork answer work).1 = -1 ↔
        (s.mempool.memory.length = maxExpTime ∨ answer = 0) ∧
          n + 1 + s.backlog queue + s.unfreed.length =
            s.mempool.memory.length * (n * slotsForMemPoolPerThread)) := by
  obtain ⟨free, queue, hsound⟩ := (h.sound hn hmax).resolve_left hlive
  have hs := poolSizes hn hmax
  have hlength := hsound.held_length
  rw [(h.counted hn hmax).threads] at hlength
  refine ⟨queue, hsound.1.links, hsound.unfreed_length hs, ?_⟩
  have hreturn : (s.thpoolAddWork answer work).1 = -1 ↔ (s.mempool.mpAlloc answer).1 = 0 := by
    unfold thpoolAddWork
    dsimp only
    split
    next hnull => exact iff_of_true rfl hnull
    next hsome => exact iff_of_false (fun hzero : (0 : Int) = -1 => absurd hzero (by decide)) hsome
  have hfree : free = [] ↔ n + 1 + s.backlog queue + s.unfreed.length =
      s.mempool.memory.length * (n * slotsForMemPoolPerThread) := by
    rw [← List.length_eq_zero_iff]
    omega
  rw [hreturn, mpAlloc_null_iff hs hsound.1.pool hok, hfree, and_comm]

theorem one_more_fits :
    let s := onePool.run twoJobs
    ∃ queue, s.jobqueue.Lists s.mempool.bytes queue ∧ s.unfreed.length ≤ s.mempool.memory.length ∧
      ((s.thpoolAddWork 0 ⟨7, 8, 9⟩).1 = -1 ↔
        (s.mempool.memory.length = maxExpTime ∨ 0 = 0) ∧
          1 + 1 + s.backlog queue + s.unfreed.length =
            s.mempool.memory.length * (1 * slotsForMemPoolPerThread)) :=
  add_work_fails_iff (by decide) (by decide) (onePool_reachable twoJobs_legal) (by decide +kernel)
    (Or.inl rfl) _

end ThreadPool

end LBeacon
