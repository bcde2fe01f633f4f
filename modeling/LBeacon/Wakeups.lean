import LBeacon.Crew

/-!
# Wake-ups

Where there is a job in the queue, the semaphore is posted or a thread is on its way to the queue;
and where the semaphore is posted, not all threads are blocked.
-/

open Bytes CInt Processes

namespace LBeacon

/-- Between `bsem_wait` and `jobqueue_pull`. -/
def Worker.coming : Worker → Bool
  | .passed => true
  | .counting => true
  | .pulling => true
  | _ => false

namespace ThreadPool

variable {n : Nat} {s : ThreadPool}

structure Awake (s : ThreadPool) : Prop where
  posted : s.v = 1 → .blocked ∈ s.workers → .entering ∈ s.workers
  queued : s.threadsKeepalive = true → s.jobqueue.len ≠ 0 →
    s.v = 1 ∨ ∃ w ∈ s.workers, w.coming = true
  staying : s.threadsKeepalive = true → ∀ w ∈ s.workers, w ≠ .leaving ∧ w ≠ .gone
  ending : s.threadsKeepalive = true → s.owner = .initializing ∨ s.owner = .serving

/-! ## One step -/

theorem Awake.move (h : s.Awake) {i : Nat} {w w' : Worker} (hw : s.workers[i]? = some w)
    (hentering : w ≠ .entering) (hblocked : w' ≠ .blocked)
    (hstaying : s.threadsKeepalive = true → w' ≠ .leaving ∧ w' ≠ .gone) {s' : ThreadPool}
    (hworkers : s'.workers = s.workers.set i w') (hv : s'.v = s.v)
    (hkeepalive : s'.threadsKeepalive = s.threadsKeepalive) (howner : s'.owner = s.owner)
    (hqueued : s.threadsKeepalive = true → s'.jobqueue.len ≠ 0 →
      s'.v = 1 ∨ ∃ w ∈ s'.workers, w.coming = true) : s'.Awake where
  posted hposted hmem := by
    rw [hworkers] at hmem ⊢
    have hold := (mem_set hw hmem).resolve_left hblocked.symm
    exact mem_set_of_ne hw w' (h.posted (hv ▸ hposted) hold) hentering.symm
  queued hkeep := hqueued (hkeepalive ▸ hkeep)
  staying hkeep w₀ hmem := by
    rw [hkeepalive] at hkeep
    rw [hworkers] at hmem
    rcases mem_set hw hmem with rfl | hold
    · exact hstaying hkeep
    · exact h.staying hkeep w₀ hold
  ending hkeep := by
    rw [howner]
    exact h.ending (hkeepalive ▸ hkeep)

theorem Awake.move_on (h : s.Awake) {i : Nat} {w w' : Worker} (hw : s.workers[i]? = some w)
    (hentering : w ≠ .entering) (hblocked : w' ≠ .blocked)
    (hstaying : s.threadsKeepalive = true → w' ≠ .leaving ∧ w' ≠ .gone)
    (hcoming : s.threadsKeepalive = true → w.coming = true → w'.coming = true) {s' : ThreadPool}
    (hworkers : s'.workers = s.workers.set i w') (hv : s'.v = s.v)
    (hkeepalive : s'.threadsKeepalive = s.threadsKeepalive) (howner : s'.owner = s.owner)
    (hqueue : s'.jobqueue = s.jobqueue) : s'.Awake := by
  refine h.move hw hentering hblocked hstaying hworkers hv hkeepalive howner fun hkeep hlen => ?_
  rw [hqueue] at hlen
  rw [hv, hworkers]
  rcases h.queued hkeep hlen with hposted | ⟨w₀, hmem, hw₀⟩
  · exact Or.inl hposted
  · right
    by_cases heq : w₀ = w
    · exact ⟨w', mem_set_self hw w', hcoming hkeep (heq ▸ hw₀)⟩
    · exact ⟨w₀, mem_set_of_ne hw w' hmem heq, hw₀⟩

theorem mem_signal {choice : Nat} {workers : List Worker} {w : Worker}
    (h : w ∈ signal choice workers) : w = .entering ∨ w ∈ workers := by
  rcases signal_cases choice workers with ⟨hsame, -⟩ | ⟨i, hi, hset⟩
  · rw [hsame] at h
    exact Or.inr h
  · rw [hset] at h
    exact mem_set hi h

theorem Awake.post (h : s.Awake) (choice : Nat) {s' : ThreadPool}
    (hworkers : s'.workers = signal choice s.workers) (hv : s'.v = 1)
    (hkeepalive : s'.threadsKeepalive = s.threadsKeepalive) (howner : s'.owner = s.owner) :
    s'.Awake where
  posted _ hmem := by
    rw [hworkers] at hmem ⊢
    rcases signal_cases choice s.workers with ⟨hsame, hnone⟩ | ⟨i, hi, hset⟩
    · rw [hsame] at hmem
      exact absurd hmem hnone
    · rw [hset]
      exact mem_set_self hi _
  queued _ _ := Or.inl hv
  staying hkeep w hmem := by
    rw [hworkers] at hmem
    rcases mem_signal hmem with rfl | hold
    · exact ⟨Worker.noConfusion, Worker.noConfusion⟩
    · exact h.staying (hkeepalive ▸ hkeep) w hold
  ending hkeep := by
    rw [howner]
    exact h.ending (hkeepalive ▸ hkeep)

theorem Awake.bsemWait (h : s.Awake) {i : Nat} (hw : s.workers[i]? = some .entering) :
    (s.bsemWait i).Awake := by
  have hmem {w w' : Worker} (hin : w ∈ s.workers.set i w') : w = w' ∨ w ∈ s.workers :=
    mem_set hw hin
  unfold ThreadPool.bsemWait
  by_cases hv : s.v = 1
  · rw [if_neg (not_not.mpr hv)]
    refine ⟨fun hposted : (0 : Int) = 1 => absurd hposted (by decide), fun _ _ => Or.inr ?_,
      fun hkeep w hin => ?_, h.ending⟩
    · exact ⟨.passed, mem_set_self hw _, rfl⟩
    · rcases hmem hin with rfl | hold
      · exact ⟨Worker.noConfusion, Worker.noConfusion⟩
      · exact h.staying hkeep w hold
  · rw [if_pos hv]
    refine ⟨fun hposted => absurd hposted hv, fun hkeep hlen => ?_, fun hkeep w hin => ?_, h.ending⟩
    · obtain ⟨w, hin, hcoming⟩ := (h.queued hkeep hlen).resolve_left hv
      refine Or.inr ⟨w, mem_set_of_ne hw _ hin fun heq => ?_, hcoming⟩
      rw [heq] at hcoming
      exact Bool.noConfusion hcoming
    · rcases hmem hin with rfl | hold
      · exact ⟨Worker.noConfusion, Worker.noConfusion⟩
      · exact h.staying hkeep w hold

theorem Awake.pull (h : s.Awake) {i : Nat} (hw : s.workers[i]? = some .pulling) (choice : Nat) :
    (s.threadDo i choice .pulling).Awake := by
  have hpulled : ∀ w' : Worker, w' ≠ .blocked → w' ≠ .leaving → w' ≠ .gone → ∀ s' : ThreadPool,
      s'.workers = (s.jobqueuePull choice).2.workers.set i w' →
      s'.v = (s.jobqueuePull choice).2.v → s'.threadsKeepalive = s.threadsKeepalive →
      s'.owner = s.owner → s'.jobqueue = (s.jobqueuePull choice).2.jobqueue → s'.Awake := by
    intro w' hblocked hleaving hgone s' hworkers hv hkeepalive howner hqueue
    unfold jobqueuePull at hworkers hv hqueue
    dsimp only at hworkers hv hqueue
    by_cases hlen : s.jobqueue.len = 0 ∨ s.jobqueue.len = 1
    · rw [if_pos hlen] at hworkers hv hqueue
      refine h.move hw Worker.noConfusion hblocked (fun _ => ⟨hleaving, hgone⟩) hworkers hv
        hkeepalive howner fun _ hne => ?_
      rw [hqueue] at hne
      refine absurd ?_ hne
      unfold JobQueue.unlink
      rcases hlen with hlen | hlen <;> simp [hlen]
    · rw [if_neg hlen] at hworkers hv hqueue
      have hposted : (s.bsemPost choice).Awake := h.post choice rfl rfl rfl rfl
      exact hposted.move (signal_other hw Worker.noConfusion choice) Worker.noConfusion hblocked
        (fun _ => ⟨hleaving, hgone⟩) hworkers hv hkeepalive howner fun _ _ => Or.inl hv
  have howner : (s.jobqueuePull choice).2.owner = s.owner := by
    unfold jobqueuePull
    dsimp only
    split <;> rfl
  have hkeepalive := (jobqueuePull_keeps s choice).keepalive
  unfold ThreadPool.threadDo
  dsimp only
  split
  · exact hpulled .uncounting Worker.noConfusion Worker.noConfusion Worker.noConfusion _ rfl rfl
      hkeepalive howner rfl
  · exact hpulled (.running _ _) Worker.noConfusion Worker.noConfusion Worker.noConfusion _ rfl rfl
      hkeepalive howner rfl

theorem Awake.threadDo (h : s.Awake) {i : Nat} {w : Worker} (hw : s.workers[i]? = some w)
    (choice : Nat) : (s.threadDo i choice w).Awake := by
  have hstay {w' : Worker} (hleaving : w' ≠ .leaving) (hgone : w' ≠ .gone) :
      s.threadsKeepalive = true → w' ≠ .leaving ∧ w' ≠ .gone := fun _ => ⟨hleaving, hgone⟩
  have hnever {w' : Worker} (hnot : w.coming = false) :
      s.threadsKeepalive = true → w.coming = true → w'.coming = true := by
    intro _ hcoming
    rw [hnot] at hcoming
    exact Bool.noConfusion hcoming
  cases w with
  | starting =>
    exact h.move_on hw Worker.noConfusion Worker.noConfusion
      (hstay Worker.noConfusion Worker.noConfusion) (hnever rfl) rfl rfl rfl rfl rfl
  | looping =>
    refine h.move_on hw Worker.noConfusion ?_ (fun hkeep => ?_) (hnever rfl) rfl rfl rfl rfl rfl
    · cases s.threadsKeepalive <;> exact Worker.noConfusion
    · rw [if_pos hkeep]
      exact ⟨Worker.noConfusion, Worker.noConfusion⟩
  | entering => exact h.bsemWait hw
  | blocked => exact h
  | passed =>
    refine h.move_on hw Worker.noConfusion ?_ (fun hkeep => ?_) (fun hkeep _ => ?_) rfl rfl rfl rfl
      rfl
    · cases s.threadsKeepalive <;> exact Worker.noConfusion
    · rw [if_pos hkeep]
      exact ⟨Worker.noConfusion, Worker.noConfusion⟩
    · rw [if_pos hkeep]
      rfl
  | counting =>
    exact h.move_on hw Worker.noConfusion Worker.noConfusion
      (hstay Worker.noConfusion Worker.noConfusion) (fun _ _ => rfl) rfl rfl rfl rfl rfl
  | pulling => exact h.pull hw choice
  | running job number =>
    exact h.move_on hw Worker.noConfusion Worker.noConfusion
      (hstay Worker.noConfusion Worker.noConfusion) (hnever rfl) rfl rfl rfl rfl rfl
  | freeing job =>
    exact h.move_on hw Worker.noConfusion Worker.noConfusion
      (hstay Worker.noConfusion Worker.noConfusion) (hnever rfl) rfl rfl rfl rfl rfl
  | uncounting =>
    exact h.move_on hw Worker.noConfusion Worker.noConfusion
      (hstay Worker.noConfusion Worker.noConfusion) (hnever rfl) rfl rfl rfl rfl rfl
  | leaving =>
    refine h.move_on hw Worker.noConfusion Worker.noConfusion (fun hkeep => ?_) (hnever rfl) rfl rfl
      rfl rfl rfl
    exact absurd rfl (h.staying hkeep _ (List.mem_of_getElem? hw)).1
  | gone => exact h

theorem Awake.step (h : s.Awake) {turn : Turn} (hlegal : turn.Legal s) : (s.step turn).Awake := by
  cases turn with
  | addWork answer work =>
    rw [step_addWork]
    unfold thpoolAddWork
    dsimp only
    split <;> exact ⟨h.posted, h.queued, h.staying, h.ending⟩
  | push k choice =>
    rw [step_push]
    unfold ThreadPool.push
    cases s.newjobs[k]? with
    | none => exact h
    | some e => exact h.post choice rfl rfl rfl rfl
  | worker i choice =>
    cases hw : s.workers[i]? with
    | none =>
      rw [step_worker_none hw]
      exact h
    | some w =>
      rw [step_worker hw]
      exact h.threadDo hw choice
  | wake i =>
    rw [step_wake]
    split
    next hw =>
      refine h.move_on hw Worker.noConfusion Worker.noConfusion
        (fun _ => ⟨Worker.noConfusion, Worker.noConfusion⟩) (fun _ hcoming => ?_) rfl rfl rfl rfl rfl
      exact Bool.noConfusion hcoming
    next => exact h
  | owner =>
    rw [step_owner]
    unfold ownerStep
    have hended (hone : s.owner ≠ .initializing) (htwo : s.owner ≠ .serving) :
        s.threadsKeepalive ≠ true := fun hkeep => (h.ending hkeep).elim hone htwo
    cases howner : s.owner with
    | initializing =>
      dsimp only
      split
      · exact ⟨h.posted, h.queued, h.staying, fun _ => Or.inr rfl⟩
      · exact h
    | serving => exact h
    | testing total =>
      rw [howner] at hended
      exact ⟨h.posted, h.queued, h.staying, fun hkeep =>
        absurd hkeep (hended Owner.noConfusion Owner.noConfusion)⟩
    | posting total =>
      rw [howner] at hended
      have hnot := hended Owner.noConfusion Owner.noConfusion
      refine ⟨fun _ hmem => ?_, fun hkeep => absurd hkeep hnot, fun hkeep => absurd hkeep hnot,
        fun hkeep => absurd hkeep hnot⟩
      obtain ⟨w, -, heq⟩ := List.mem_map.mp hmem
      split at heq
      · exact Worker.noConfusion heq
      next hne => exact absurd heq hne
    | clearing total =>
      rw [howner] at hended
      have hnot := hended Owner.noConfusion Owner.noConfusion
      obtain ⟨s', hkeeps, hv, heq⟩ := dealloc_keeps s total
      rw [← hkeeps.keepalive] at hnot
      dsimp only
      rw [heq]
      refine ⟨fun hposted => ?_, fun hkeep => absurd hkeep hnot, fun hkeep => absurd hkeep hnot,
        fun hkeep => absurd hkeep hnot⟩
      rw [show s'.v = 1 from hposted] at hv
      exact absurd hv (by decide)
    | returned => exact h
  | destroy =>
    have hnot : ¬ false = true := Bool.noConfusion
    exact ⟨h.posted, fun hkeep => absurd hkeep hnot, fun hkeep => absurd hkeep hnot,
      fun hkeep => absurd hkeep hnot⟩

theorem Fresh.awake (h : s.Fresh n) : s.Awake := by
  obtain ⟨free, hsound⟩ := h.sound
  refine ⟨fun hv => ?_, fun _ hlen => absurd hsound.1.links.len hlen, fun _ w hw => ?_,
    fun _ => Or.inl h.owner⟩
  · rw [h.v] at hv
    exact absurd hv (by decide)
  · rw [h.workers] at hw
    rw [List.eq_of_mem_replicate hw]
    exact ⟨Worker.noConfusion, Worker.noConfusion⟩

theorem Reachable.awake (hn : 0 < n) (hmax : n < 209716) (h : s.Reachable n) : s.Awake :=
  h.rule hn hmax (P := Awake) (fun _ hfresh => hfresh.awake) fun _ _ _ hlegal hs => hs.step hlegal

theorem Awake.not_returned (h : s.Awake) (hkeep : s.threadsKeepalive = true) :
    s.owner ≠ .returned := by
  rcases h.ending hkeep with howner | howner <;> rw [howner] <;> exact Owner.noConfusion

theorem Awake.not_clearing (h : s.Awake) (hkeep : s.threadsKeepalive = true) (threadsTotal : Int) :
    s.owner ≠ .clearing threadsTotal := by
  rcases h.ending hkeep with howner | howner <;> rw [howner] <;> exact Owner.noConfusion

/-! ## No lost wake-up -/

/-- No thread can go on by itself. -/
def Idle (s : ThreadPool) : Prop := ∀ w ∈ s.workers, w = .blocked ∨ w = .gone

/-- While the pool serves and no thread can go on, there is nothing to do: every job that was
pushed has run. -/
theorem idle_means_done (hn : 0 < n) (hmax : n < 209716) (h : s.Reachable n)
    (hkeep : s.threadsKeepalive = true) (hidle : s.Idle) :
    s.jobqueue.len = 0 ∧ s.started = s.pushed ∧
      s.finished.Perm (List.range s.pushed.length) := by
  have hawake := h.awake hn hmax
  obtain ⟨free, queue, howns, haccounts⟩ :=
    (h.sound hn hmax).resolve_left (hawake.not_returned hkeep)
  have hblocked : ∀ w ∈ s.workers, w = .blocked := fun w hw =>
    (hidle w hw).resolve_right (hawake.staying hkeep w hw).2
  have hsome : .blocked ∈ s.workers := by
    have hlen := (h.counted hn hmax).workers
    obtain ⟨w, hw⟩ := List.exists_mem_of_length_pos (l := s.workers) (by omega)
    exact hblocked w hw ▸ hw
  have hv : s.v ≠ 1 := fun hposted =>
    Worker.noConfusion (hblocked _ (hawake.posted hposted hsome))
  have hlen : s.jobqueue.len = 0 := by
    by_contra hne
    obtain ⟨w, hw, hcoming⟩ := (hawake.queued hkeep hne).resolve_left hv
    rw [hblocked w hw] at hcoming
    exact Bool.noConfusion hcoming
  have hqueue : queue = [] := howns.links.len_eq_zero.mp hlen
  have hpushed := haccounts.pushed
  rw [hqueue, List.map_nil, List.append_nil] at hpushed
  have hnone : s.workers.filterMap Worker.number = [] := by
    rw [List.filterMap_eq_nil_iff]
    intro w hw
    rw [hblocked w hw]
    rfl
  have hnumbers := haccounts.numbers
  rw [hnone, List.nil_append, ← hpushed] at hnumbers
  exact ⟨hlen, hpushed.symm, hnumbers⟩

theorem Reachable.run (h : s.Reachable n) {turns : List Turn} (hlegal : LegalRun s turns) :
    (s.run turns).Reachable n := by
  unfold LegalRun at hlegal
  unfold ThreadPool.run
  exact hlegal.invariant (fun _ _ hlegal hs => hs.step hlegal) h

/-- The thread runs both jobs and looks for a third one. -/
def bothJobs : ThreadPool := (onePool.run twoJobs).run (List.replicate 13 (.worker 0 0))

theorem bothJobs_reachable : bothJobs.Reachable 1 := by
  refine (onePool_reachable twoJobs_legal).run ?_
  unfold LegalRun
  simp only [List.replicate, Machine.Along, Turn.Legal, and_self]

theorem both_jobs_done : bothJobs.jobqueue.len = 0 ∧ bothJobs.started = bothJobs.pushed ∧
    bothJobs.finished.Perm (List.range bothJobs.pushed.length) :=
  idle_means_done (by decide) (by decide) bothJobs_reachable (by decide +kernel)
    (by unfold Idle; decide +kernel)

end ThreadPool

end LBeacon
