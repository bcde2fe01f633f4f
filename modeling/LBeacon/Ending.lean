import LBeacon.Progress

/-!
# The end of the thread pool

`thpool_destroy` waits until every thread is gone. Then nobody touches what it frees, and every job
that was started has returned. What is in the queue is dropped.
-/

open Bytes CInt Processes Fair

namespace LBeacon

/-- One, for a thread that is not gone. -/
def Worker.present : Worker → Nat
  | .gone => 0
  | _ => 1

namespace ThreadPool

variable {n : Nat} {s : ThreadPool}

theorem clearJobs_jobs (rounds : Nat) (s : ThreadPool) :
    (clearJobs rounds s).newjobs = s.newjobs ∧ (clearJobs rounds s).pushed = s.pushed := by
  induction rounds generalizing s with
  | zero => exact ⟨rfl, rfl⟩
  | succ rounds ih =>
    have hpull : (s.jobqueuePull 0).2.newjobs = s.newjobs ∧
        (s.jobqueuePull 0).2.pushed = s.pushed := by
      unfold jobqueuePull
      dsimp only
      split <;> exact ⟨rfl, rfl⟩
    unfold clearJobs
    split
    · exact ⟨rfl, rfl⟩
    · obtain ⟨hnewjobs, hpushed⟩ := ih ((s.jobqueuePull 0).2.mpFree (s.jobqueuePull 0).1)
      exact ⟨hnewjobs.trans hpull.1, hpushed.trans hpull.2⟩

theorem dealloc_jobs (s : ThreadPool) (threadsTotal : Int) :
    (s.dealloc threadsTotal).newjobs = s.newjobs ∧
      (s.dealloc threadsTotal).pushed = s.pushed := by
  obtain ⟨mempool, unfreed, heq⟩ :=
    foldl_mpFree_eq (s.jobqueueDestroy.threads.take threadsTotal.toNat) s.jobqueueDestroy
  unfold dealloc
  dsimp only
  rw [heq]
  exact clearJobs_jobs s.jobqueue.len.toNat s

/-- What holds before, while and after `thpool_destroy` waits. -/
structure Closing (s : ThreadPool) : Prop where
  keepalive : s.owner = .initializing ∨ s.owner = .serving → s.threadsKeepalive = true
  started : s.owner ≠ .initializing → .starting ∉ s.workers
  newjobs : s.threadsKeepalive = false → s.newjobs = []
  cleared : (∃ threadsTotal, s.owner = .clearing threadsTotal) ∨ s.owner = .returned →
    total Worker.present s.workers = 0
  heapFrees : s.heapFrees = if s.owner = .returned then [.threads, .threads, .thpool] else []

theorem present_eq_zero {workers : List Worker} (h : total Worker.present workers = 0) :
    ∀ w ∈ workers, w = .gone := by
  intro w hw
  have hzero := total_eq_zero.mp h w hw
  cases w <;> simp [Worker.present] at hzero ⊢

theorem Closing.of_workers (h : s.Closing) {s' : ThreadPool} (howner : s'.owner = s.owner)
    (hkeepalive : s'.threadsKeepalive = s.threadsKeepalive) (hnewjobs : s'.newjobs = s.newjobs)
    (hheapFrees : s'.heapFrees = s.heapFrees)
    (hstarting : .starting ∉ s.workers → .starting ∉ s'.workers)
    (hpresent : total Worker.present s'.workers ≤ total Worker.present s.workers) : s'.Closing where
  keepalive := by rw [howner, hkeepalive]; exact h.keepalive
  started := by rw [howner]; exact fun hne => hstarting (h.started hne)
  newjobs := by rw [hkeepalive, hnewjobs]; exact h.newjobs
  cleared := by
    rw [howner]
    intro hend
    have := h.cleared hend
    omega
  heapFrees := by rw [howner, hheapFrees]; exact h.heapFrees

theorem not_mem_set {workers : List Worker} {i : Nat} {w w' r : Worker}
    (hw : workers[i]? = some w) (hne : r ≠ w') (h : r ∉ workers) : r ∉ workers.set i w' :=
  fun hmem => (mem_set hw hmem).elim hne h

theorem present_le_one (w : Worker) : w.present ≤ 1 := by
  cases w <;> simp [Worker.present]

theorem Closing.move (h : s.Closing) {i : Nat} {w w' : Worker} {workers : List Worker}
    (hw : workers[i]? = some w) (hgone : w ≠ .gone) (hstarting : w' ≠ .starting) {s' : ThreadPool}
    (howner : s'.owner = s.owner) (hkeepalive : s'.threadsKeepalive = s.threadsKeepalive)
    (hnewjobs : s'.newjobs = s.newjobs) (hheapFrees : s'.heapFrees = s.heapFrees)
    (hworkers : s'.workers = workers.set i w')
    (hwoken : workers = s.workers ∨ ∃ choice, workers = signal choice s.workers) : s'.Closing := by
  have hset := total_set hw Worker.present w'
  have hone : w.present = 1 := by cases w <;> first | rfl | exact absurd rfl hgone
  have hle := present_le_one w'
  have htotal : total Worker.present workers = total Worker.present s.workers := by
    rcases hwoken with rfl | ⟨choice, rfl⟩
    · rfl
    · exact signal_total rfl choice s.workers
  refine h.of_workers howner hkeepalive hnewjobs hheapFrees (fun hnot => ?_) ?_
  · rw [hworkers]
    refine not_mem_set hw hstarting.symm ?_
    rcases hwoken with rfl | ⟨choice, rfl⟩
    · exact hnot
    · exact fun hmem => (mem_signal hmem).elim Worker.noConfusion hnot
  · rw [hworkers]
    omega

theorem Closing.threadDo (h : s.Closing) {i : Nat} {w : Worker} (hw : s.workers[i]? = some w)
    (choice : Nat) : (s.threadDo i choice w).Closing := by
  by_cases hgone : w = .gone
  · subst hgone
    exact h
  obtain ⟨howner, hkeepalive, -, -, hnewjobs, hheapFrees, -⟩ := threadDo_fields s i choice w
  obtain ⟨workers, w', hset, hmoves, hworkers⟩ := threadDo_moves hw choice
  have hstarting : w' ≠ .starting := by cases hmoves <;> exact Worker.noConfusion
  rcases hworkers with rfl | rfl
  · exact h.move hw hgone hstarting howner hkeepalive hnewjobs hheapFrees hset (Or.inl rfl)
  · by_cases hblocked : w = .blocked
    · subst hblocked
      exact h
    · exact h.move (signal_other hw hblocked choice) hgone hstarting howner hkeepalive hnewjobs
        hheapFrees hset (Or.inr ⟨choice, rfl⟩)

theorem Closing.step (hn : 0 < n) (hmax : n < 209716) (hreachable : s.Reachable n) (h : s.Closing)
    {turn : Turn} (hlegal : turn.Legal s) : (s.step turn).Closing := by
  cases turn with
  | addWork answer work =>
    have hkeep := h.keepalive (Or.inr hlegal.1)
    have hnot : s.threadsKeepalive ≠ false := by rw [hkeep]; exact Bool.noConfusion
    rw [step_addWork]
    unfold thpoolAddWork
    dsimp only
    split <;> exact ⟨h.keepalive, h.started, fun heq => absurd heq hnot, h.cleared, h.heapFrees⟩
  | push k choice =>
    have hkeep := h.keepalive (Or.inr hlegal)
    have hnot : s.threadsKeepalive ≠ false := by rw [hkeep]; exact Bool.noConfusion
    rw [step_push]
    unfold ThreadPool.push
    cases s.newjobs[k]? with
    | none => exact h
    | some e =>
      refine ⟨h.keepalive, fun hne hmem => ?_, fun heq => absurd heq hnot, fun hend => ?_,
        h.heapFrees⟩
      · exact (mem_signal hmem).elim Worker.noConfusion (h.started hne)
      · exact (signal_total rfl choice s.workers).trans (h.cleared hend)
  | worker i choice =>
    cases hw : s.workers[i]? with
    | none =>
      rw [step_worker_none hw]
      exact h
    | some w =>
      rw [step_worker hw]
      exact h.threadDo hw choice
  | wake i =>
    rw [step_wake]
    split
    next hw =>
      exact h.move hw Worker.noConfusion Worker.noConfusion rfl rfl rfl rfl rfl (Or.inl rfl)
    next => exact h
  | owner =>
    have hcounted := hreachable.counted hn hmax
    rw [step_owner]
    unfold ownerStep
    cases howner : s.owner with
    | initializing =>
      dsimp only
      split
      next hall =>
        have hkeep := h.keepalive (Or.inl howner)
        have hfrees := h.heapFrees
        rw [howner] at hfrees
        refine ⟨fun _ => hkeep, fun _ hmem => ?_, h.newjobs, fun hend => ?_, hfrees⟩
        · have hmem : .starting ∈ s.workers := hmem
          have hlt := total_lt alive_le_one hmem Nat.one_pos
          have := hcounted.alive
          have := hcounted.threads
          have := hcounted.workers
          omega
        · obtain ⟨threadsTotal, hend⟩ | hend := hend <;> exact Owner.noConfusion hend
      next => exact h
    | serving => exact h
    | testing threadsTotal =>
      have hfrees := h.heapFrees
      have hstarted := h.started (by rw [howner]; exact Owner.noConfusion)
      rw [howner] at hfrees
      dsimp only
      split
      · refine ⟨fun hserves => ?_, fun _ => hstarted, h.newjobs, fun hend => ?_, hfrees⟩
        · obtain hserves | hserves := hserves <;> exact Owner.noConfusion hserves
        · obtain ⟨threadsTotal, hend⟩ | hend := hend <;> exact Owner.noConfusion hend
      next halive =>
        refine ⟨fun hserves => ?_, fun _ => hstarted, h.newjobs, fun _ => ?_, hfrees⟩
        · obtain hserves | hserves := hserves <;> exact Owner.noConfusion hserves
        · -- Who is not counted as alive has not started yet, or is gone.
          have hle : total Worker.present s.workers ≤ total Worker.alive s.workers := by
            refine total_mono fun w hw => ?_
            cases w <;> first | exact Nat.le_refl _ | exact absurd hw hstarted
          have := hcounted.alive
          exact Nat.le_zero.mp (hle.trans (by omega))
    | posting threadsTotal =>
      have hfrees := h.heapFrees
      have hstarted := h.started (by rw [howner]; exact Owner.noConfusion)
      rw [howner] at hfrees
      refine ⟨fun hserves => ?_, fun _ hmem => ?_, h.newjobs, fun hend => ?_, hfrees⟩
      · obtain hserves | hserves := hserves <;> exact Owner.noConfusion hserves
      · obtain ⟨w, hw, heq⟩ := List.mem_map.mp hmem
        split at heq
        · exact Worker.noConfusion heq
        · exact hstarted (heq ▸ hw)
      · obtain ⟨threadsTotal, hend⟩ | hend := hend <;> exact Owner.noConfusion hend
    | clearing threadsTotal =>
      have hfrees := h.heapFrees
      have hpresent := h.cleared (Or.inl ⟨threadsTotal, howner⟩)
      obtain ⟨s', hkeeps, -, heq⟩ := dealloc_keeps s threadsTotal
      have htotal := hkeeps.total Worker.present rfl
      have hnewjobs := (dealloc_jobs s threadsTotal).1
      rw [howner, if_neg Owner.noConfusion] at hfrees
      dsimp only
      rw [heq] at hnewjobs ⊢
      rw [hfrees]
      refine ⟨fun hserves => ?_, fun _ hmem => ?_, fun hkeep => ?_, fun _ => ?_, rfl⟩
      · obtain hserves | hserves := hserves <;> exact Owner.noConfusion hserves
      · exact Worker.noConfusion (present_eq_zero (htotal.trans hpresent) _ hmem)
      · rw [hkeeps.keepalive] at hkeep
        exact hnewjobs.trans (h.newjobs hkeep)
      · exact htotal.trans hpresent
    | returned => exact h
  | destroy =>
    obtain ⟨hserving, hnewjobs⟩ := hlegal
    have hfrees := h.heapFrees
    rw [hserving] at hfrees
    refine ⟨fun hserves => ?_, fun _ => h.started (by rw [hserving]; exact Owner.noConfusion),
      fun _ => hnewjobs, fun hend => ?_, hfrees⟩
    · obtain hserves | hserves := hserves <;> exact Owner.noConfusion hserves
    · obtain ⟨threadsTotal, hend⟩ | hend := hend <;> exact Owner.noConfusion hend

theorem Fresh.closing (h : s.Fresh n) : s.Closing where
  keepalive _ := h.keepalive
  started hne := absurd h.owner hne
  newjobs hkeep := by
    rw [h.keepalive] at hkeep
    exact Bool.noConfusion hkeep
  cleared hend := by
    rw [h.owner] at hend
    obtain ⟨threadsTotal, hend⟩ | hend := hend <;> exact Owner.noConfusion hend
  heapFrees := by
    rw [h.heapFrees, h.owner]
    rfl

theorem Reachable.closing (hn : 0 < n) (hmax : n < 209716) (h : s.Reachable n) : s.Closing :=
  h.rule hn hmax (P := Closing) (fun _ hfresh => hfresh.closing) fun _ _ hreachable hlegal hs =>
    hs.step hn hmax hreachable hlegal

/-! ## What is left -/

/-- The jobs that started are the first ones that were pushed, and each one returned once. -/
def Settled (s : ThreadPool) : Prop :=
  s.started <+: s.pushed ∧ s.finished.Perm (List.range s.started.length)

end ThreadPool

end LBeacon
