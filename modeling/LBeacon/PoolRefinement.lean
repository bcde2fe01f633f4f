import LBeacon.CommUnit
import LBeacon.JobRuns
import Mathlib.Logic.Relation

/-!
# The pool that the communication unit sees

`CommUnit_routine` is modelled over a pool whose jobs are taken, and end, in one step each. The pool
of thpool.c does nothing that this one cannot do.
-/

open Bytes CInt Processes

namespace LBeacon

variable {F : Type}

/-! ## The pool of the model of the routine -/

/-- One step of the pool. A call of `thpool_add_work` gets any slot, or none. -/
inductive PoolStep (w : CommWorld F) (u : CommUnit F) : CommUnit F → Prop
  | add (offer : Nat → Option Slot) (function : F) (arg : BufferNode) (priority : Int) :
      PoolStep w u (u.thpoolAddWork { w with offer } function arg priority)
  | pull : PoolStep w u u.pull
  | finish (n : Nat) : PoolStep w u (u.finish n)

/-- What a work record stands for. -/
structure Meaning (F : Type) where
  function : Work → F
  arg : Work → BufferNode
  priority : Work → Int

def Meaning.job (meaning : Meaning F) (slot : Slot) (work : Work) : Job F :=
  ⟨slot, meaning.function work, meaning.arg work, meaning.priority work⟩

def Meaning.call (meaning : Meaning F) (work : Work) : F × BufferNode :=
  (meaning.function work, meaning.arg work)

namespace ThreadPool

variable {n : Nat} {s s' : ThreadPool} {free queue queue' : List Nat} {w : CommWorld F}
  {u : CommUnit F} {meaning : Meaning F}

/-- `u` shows the pool: the jobs in the queue, those in the hands of the threads, the calls that
became jobs, and the slots in use. `base` are the slots of the semaphore and of the threads. -/
structure Shows (meaning : Meaning F) (base : List Nat) (s : ThreadPool) (queue : List Nat)
    (u : CommUnit F) : Prop where
  jobQueue : u.jobQueue = List.zipWith meaning.job queue (s.pushed.drop s.started.length)
  slots : (u.running.map Job.slot).Perm (s.workers.filterMap Worker.slot)
  running : ∀ job number, Worker.running job number ∈ s.workers →
    ∃ work, s.started[number]? = some work ∧ meaning.job job work ∈ u.running
  queued : u.queued = s.pushed.map meaning.call
  outstanding : u.jobPool.outstanding.Perm (base ++ (queue ++ s.workers.filterMap Worker.slot))

theorem Accounts.waiting (h : s.Accounts queue) :
    s.pushed.drop s.started.length = queue.map (Work.load s.mempool.bytes) := by
  rw [h.pushed, List.drop_left]

theorem Accounts.started_le (h : s.Accounts queue) : s.started.length ≤ s.pushed.length := by
  rw [h.pushed, List.length_append]
  exact Nat.le_add_right _ _

theorem Owns.newjob_fresh (h : s.Owns n free queue)
    (hs : PoolSizes sizeOfSlot (n * slotsForMemPoolPerThread)) {e : Nat × Work}
    (he : e ∈ s.newjobs) :
    e.1 ∉ s.hasJobs :: s.threads ∧ e.1 ∉ queue ++ s.workers.filterMap Worker.slot := by
  have hle := List.nodup_iff_count_le_one.mp (h.nodup hs) e.1
  have hpos : 0 < (s.newjobs.map Prod.fst).count e.1 :=
    List.count_pos_iff.mpr (List.mem_map_of_mem he)
  unfold held at hle
  simp only [List.count_append, List.count_cons] at hle
  refine ⟨List.count_eq_zero.mp ?_, List.count_eq_zero.mp ?_⟩
  · rw [List.count_cons]
    omega
  · rw [List.count_append]
    omega

theorem Shows.push {base : List Nat} (h : Shows meaning base s queue u)
    (hsound : s.Sound n free queue) (hs : PoolSizes sizeOfSlot (n * slotsForMemPoolPerThread))
    (hbase : base ⊆ s.hasJobs :: s.threads) {e : Nat × Work} (he : e ∈ s.newjobs)
    (hpushed : s'.pushed = s.pushed ++ [e.2]) (hstarted : s'.started = s.started)
    (hslots : s'.workers.filterMap Worker.slot = s.workers.filterMap Worker.slot)
    (hrunning : ∀ job number, Worker.running job number ∈ s'.workers →
      Worker.running job number ∈ s.workers) :
    Shows meaning base s' (queue ++ [e.1]) (u.thpoolAddWork { w with offer := fun _ => some e.1 }
      (meaning.function e.2) (meaning.arg e.2) (meaning.priority e.2)) := by
  obtain ⟨hnotBase, hnotUsed⟩ := hsound.1.newjob_fresh hs he
  have hfresh : e.1 ∉ u.jobPool.outstanding := fun hmem => by
    rcases List.mem_append.mp (h.outstanding.subset hmem) with hmem | hmem
    · exact hnotBase (hbase hmem)
    · exact hnotUsed hmem
  have hlength : queue.length = (s.pushed.drop s.started.length).length := by
    rw [hsound.2.waiting, List.length_map]
  unfold CommUnit.thpoolAddWork mpAlloc
  simp only [hfresh, dif_neg, not_false_eq_true]
  refine ⟨?_, ?_, ?_, ?_, ?_⟩
  · rw [hpushed, hstarted, List.drop_append_of_le_length hsound.2.started_le,
      List.zipWith_append hlength, ← h.jobQueue]
    rfl
  · rw [hslots]
    exact h.slots
  · rw [hstarted]
    exact fun job number hmem => h.running job number (hrunning job number hmem)
  · rw [hpushed, List.map_append, ← h.queued]
    rfl
  · rw [hslots]
    refine (h.outstanding.cons e.1).trans (List.perm_iff_count.mpr fun b => ?_)
    simp only [List.count_append, List.count_cons, List.count_nil]
    omega

theorem Shows.start {base : List Nat} {job : Nat} {rest : List Nat}
    (h : Shows meaning base s (job :: rest) u) (hsound : s.Sound n free (job :: rest))
    (hpushed : s'.pushed = s.pushed)
    (hstarted : s'.started = s.started ++ [Work.load s.mempool.bytes job])
    (hslots : (s'.workers.filterMap Worker.slot).Perm (job :: s.workers.filterMap Worker.slot))
    (hrunning : ∀ job' number, Worker.running job' number ∈ s'.workers →
      job' = job ∧ number = s.started.length ∨ Worker.running job' number ∈ s.workers) :
    Shows meaning base s' rest u.pull := by
  have hqueue := h.jobQueue
  rw [hsound.2.waiting, List.map_cons, List.zipWith_cons_cons] at hqueue
  have hrest : s.pushed.drop (s.started.length + 1) = rest.map (Work.load s.mempool.bytes) := by
    rw [← List.drop_drop, hsound.2.waiting]
    rfl
  unfold CommUnit.pull
  rw [hqueue]
  refine ⟨?_, ?_, ?_, ?_, ?_⟩
  · rw [hpushed, hstarted, List.length_append, List.length_singleton, hrest]
  · rw [List.map_append]
    exact ((h.slots.append_right _).trans (List.perm_append_singleton _ _)).trans hslots.symm
  · intro job' number hmem
    rw [hstarted]
    rcases hrunning job' number hmem with ⟨rfl, rfl⟩ | hmem
    · exact ⟨_, List.getElem?_concat_length .., List.mem_append_right _ (List.mem_singleton_self _)⟩
    · obtain ⟨work, hwork, hin⟩ := h.running job' number hmem
      refine ⟨work, ?_, List.mem_append_left _ hin⟩
      rw [List.getElem?_append_left (List.getElem?_eq_some_iff.mp hwork).1]
      exact hwork
  · rw [hpushed]
    exact h.queued
  · refine h.outstanding.trans (List.perm_iff_count.mpr fun b => ?_)
    have := hslots.count_eq b
    simp only [List.count_append, List.count_cons] at this ⊢
    omega

theorem Shows.giveBack {base : List Nat} (h : Shows meaning base s queue u)
    (hsound : s.Sound n free queue) (hs : PoolSizes sizeOfSlot (n * slotsForMemPoolPerThread))
    {job : Nat} (hpushed : s'.pushed = s.pushed) (hstarted : s'.started = s.started)
    (hslots : (s.workers.filterMap Worker.slot).Perm (job :: s'.workers.filterMap Worker.slot))
    (hrunning : ∀ job' number, Worker.running job' number ∈ s'.workers →
      Worker.running job' number ∈ s.workers) :
    ∃ k, Shows meaning base s' queue (u.finish k) := by
  have hmem : job ∈ u.running.map Job.slot :=
    (h.slots.trans hslots).symm.subset (List.mem_cons_self ..)
  obtain ⟨ended, hended, rfl⟩ := List.mem_map.mp hmem
  obtain ⟨k, hk, hat⟩ := List.mem_iff_getElem.mp hended
  have hsome : u.running[k]? = some ended := by rw [List.getElem?_eq_getElem hk, hat]
  have herase : (ended :: u.running.eraseIdx k).Perm u.running :=
    hat ▸ List.getElem_cons_eraseIdx_perm hk
  have hrest : ((u.running.eraseIdx k).map Job.slot).Perm (s'.workers.filterMap Worker.slot) :=
    ((herase.map Job.slot).trans (h.slots.trans hslots)).cons_inv
  -- The slot is in the hands of no other thread.
  have hgone : ended.slot ∉ s'.workers.filterMap Worker.slot := by
    have hle := List.nodup_iff_count_le_one.mp (hsound.1.nodup hs) ended.slot
    have := hslots.count_eq ended.slot
    unfold held at hle
    simp only [List.count_append, List.count_cons, beq_self_eq_true, if_true] at hle this
    exact List.count_eq_zero.mp (by omega)
  refine ⟨k, ?_⟩
  unfold CommUnit.finish
  rw [hsome]
  refine ⟨?_, hrest, ?_, ?_, ?_⟩
  · rw [hpushed, hstarted]
    exact h.jobQueue
  · intro job' number hworker
    obtain ⟨work, hwork, hin⟩ := h.running job' number (hrunning job' number hworker)
    rw [hstarted]
    refine ⟨work, hwork, ((List.mem_cons.mp (herase.symm.subset hin))).resolve_left fun heq => ?_⟩
    have hslot : job' = ended.slot := congrArg Job.slot heq
    exact hgone (hslot ▸ List.mem_filterMap.mpr ⟨_, hworker, rfl⟩)
  · rw [hpushed]
    exact h.queued
  · have hperm : u.jobPool.outstanding.Perm
        (ended.slot :: (base ++ (queue ++ s'.workers.filterMap Worker.slot))) := by
      refine h.outstanding.trans (List.perm_iff_count.mpr fun b => ?_)
      have := hslots.count_eq b
      simp only [List.count_append, List.count_cons] at this ⊢
      omega
    have := hperm.erase ended.slot
    rwa [List.erase_cons_head] at this

theorem Shows.step {base : List Nat} (h : Shows meaning base s queue u)
    (hsound : s.Sound n free queue) (hs : PoolSizes sizeOfSlot (n * slotsForMemPoolPerThread))
    (hbase : base ⊆ s.hasJobs :: s.threads) (hmove : JobsMove s s' queue queue') :
    ∃ u', (u' = u ∨ PoolStep w u u') ∧ Shows meaning base s' queue' u' := by
  cases hmove with
  | stay hpushed hstarted hslots hrunning =>
    refine ⟨u, Or.inl rfl, ?_, ?_, ?_, ?_, ?_⟩
    · rw [hpushed, hstarted]
      exact h.jobQueue
    · rw [hslots]
      exact h.slots
    · rw [hstarted]
      exact fun job number hmem => h.running job number (hrunning job number hmem)
    · rw [hpushed]
      exact h.queued
    · rw [hslots]
      exact h.outstanding
  | push e he hpushed hstarted hslots hrunning =>
    exact ⟨_, Or.inr (.add _ _ _ _), h.push hsound hs hbase he hpushed hstarted hslots hrunning⟩
  | start job rest hqueue hpushed hstarted hslots hrunning =>
    subst hqueue
    exact ⟨_, Or.inr .pull, h.start hsound hpushed hstarted hslots hrunning⟩
  | free job hpushed hstarted hslots hrunning =>
    obtain ⟨k, hshows⟩ := h.giveBack hsound hs hpushed hstarted hslots hrunning
    exact ⟨_, Or.inr (.finish k), hshows⟩

theorem Fresh.shows (h : s.Fresh n) (hs : PoolSizes sizeOfSlot (n * slotsForMemPoolPerThread))
    (w : CommWorld F) (meaning : Meaning F) :
    ∃ jobPool : Pool, jobPool.outstanding = s.hasJobs :: s.threads ∧
      Shows meaning (s.hasJobs :: s.threads) s [] (CommUnit.init w jobPool) := by
  obtain ⟨free, hsound⟩ := h.sound
  have hnodup : (s.hasJobs :: s.threads).Nodup := by
    refine List.nodup_iff_count_le_one.mpr fun b => ?_
    have hle := List.nodup_iff_count_le_one.mp (hsound.1.nodup hs) b
    unfold held at hle
    simp only [List.count_append, List.count_cons] at hle ⊢
    omega
  have hstarted : s.started = [] := by
    have := hsound.2.started_le
    rw [h.pushed] at this
    exact List.eq_nil_of_length_eq_zero (Nat.le_zero.mp this)
  have hslots : s.workers.filterMap Worker.slot = [] := by
    rw [h.workers]
    exact List.filterMap_replicate_of_none rfl
  refine ⟨⟨s.hasJobs :: s.threads, 0, [], hnodup⟩, rfl, ?_, ?_, ?_, ?_, ?_⟩
  · rw [h.pushed, hstarted]
    rfl
  · rw [hslots]
    exact List.Perm.refl _
  · intro job number hmem
    rw [h.workers] at hmem
    cases List.eq_of_mem_replicate hmem
  · rw [h.pushed]
    rfl
  · rw [hslots, List.append_nil, List.append_nil]
    exact List.Perm.refl _

/-- Whatever thpool.c does, until it is freed, the pool of the model of the routine can do: to the same
calls it has the same jobs in the queue, in order, the same jobs in the hands of its threads, and the
same slots in use. -/
theorem pool_refines (hn : 0 < n) (hmax : n < 209716) (h : s.Reachable n)
    (hlive : s.owner ≠ .returned) (w : CommWorld F) (meaning : Meaning F) :
    ∃ jobPool u queue, jobPool.outstanding = s.hasJobs :: s.threads ∧
      Relation.ReflTransGen (PoolStep w) (CommUnit.init w jobPool) u ∧
      s.jobqueue.Lists s.mempool.bytes queue ∧
      Shows meaning (s.hasJobs :: s.threads) s queue u := by
  have hs := poolSizes hn hmax
  have hrun := h.rule hn hmax (P := fun s => s.owner = .returned ∨
      ∃ jobPool : Pool, ∃ u : CommUnit F, ∃ free queue,
        jobPool.outstanding = s.hasJobs :: s.threads ∧
        Relation.ReflTransGen (PoolStep w) (CommUnit.init w jobPool) u ∧ s.Sound n free queue ∧
        Shows meaning (s.hasJobs :: s.threads) s queue u)
    (fun s hfresh => ?_) fun s turn _ hlegal hshows => ?_
  · obtain ⟨jobPool, u, free, queue, hpool, hsteps, hsound, hshows⟩ := hrun.resolve_left hlive
    exact ⟨jobPool, u, queue, hpool, hsteps, hsound.1.links, hshows⟩
  · obtain ⟨free, hsound⟩ := hfresh.sound
    obtain ⟨jobPool, hpool, hshows⟩ := hfresh.shows hs w meaning
    exact Or.inr ⟨jobPool, _, free, [], hpool, .refl, hsound, hshows⟩
  · by_cases hreturned : (s.step turn).owner = .returned
    · exact Or.inl hreturned
    · obtain ⟨jobPool, u, free, queue, hpool, hsteps, hsound, hshows⟩ := hshows.resolve_left
        fun howner => hreturned (returned_step howner hlegal)
      obtain ⟨free', queue', hsound', hmove⟩ := hsound.step hs hlegal hreturned
      obtain ⟨u', hstep, hshows'⟩ := hshows.step (w := w) hsound hs (fun _ hmem => hmem) hmove
      rw [(step_slots s turn).1, (step_slots s turn).2]
      refine Or.inr ⟨jobPool, u', free', queue', hpool, ?_, hsound', hshows'⟩
      rcases hstep with rfl | hstep
      · exact hsteps
      · exact hsteps.tail hstep

/-- What the pointers of two work records mean. -/
def plainMeaning : Meaning UInt32 :=
  ⟨Work.function, fun work => ⟨work.arg.toNat, 0⟩, fun work => work.priority.toInt⟩

theorem two_jobs_refine :
    let s := onePool.run twoJobs
    let w : CommWorld UInt32 := ⟨⟨30, 20⟩, [], fun _ => 0, fun _ => none⟩
    ∃ jobPool u queue, jobPool.outstanding = s.hasJobs :: s.threads ∧
      Relation.ReflTransGen (PoolStep w) (CommUnit.init w jobPool) u ∧
      s.jobqueue.Lists s.mempool.bytes queue ∧
      Shows plainMeaning (s.hasJobs :: s.threads) s queue u :=
  pool_refines (by decide) (by decide) (onePool_reachable twoJobs_legal) (by decide +kernel) _ _

end ThreadPool

end LBeacon
