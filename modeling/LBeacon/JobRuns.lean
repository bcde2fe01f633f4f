import LBeacon.ThreadPool

/-!
# Jobs through the pool

The queue is threaded through slots of the pool that the free slots are threaded through, too.
-/

open Bytes CInt Processes

namespace LBeacon

/-- The slot of the job in hand. -/
def Worker.slot : Worker → Option Nat
  | .running job _ => some job
  | .freeing job => some job
  | _ => none

/-- The number of the job whose function runs. -/
def Worker.number : Worker → Option Nat
  | .running _ number => some number
  | _ => none

namespace ThreadPool

/-- The slots that were handed out, where `queue` are those in the queue. -/
def held (s : ThreadPool) (queue : List Nat) : List Nat :=
  s.threads ++ (s.hasJobs :: (s.newjobs.map Prod.fst ++
    (queue ++ (s.workers.filterMap Worker.slot ++ s.unfreed))))

/-- The pool of `n` threads: `queue` are the slots of the jobs in the queue, in order. What `mp_free`
did not take are heads of chunks. -/
structure Owns (n : Nat) (s : ThreadPool) (free queue : List Nat) : Prop where
  pool : PoolInv sizeOfSlot (n * slotsForMemPoolPerThread) s.mempool free (s.held queue)
  links : s.jobqueue.Lists s.mempool.bytes queue
  heads : s.unfreed ⊆ s.mempool.memory

/-- Every job that was pushed has started or lies in the queue, in order, and each one that has
started either runs on one thread or has returned, once. -/
structure Accounts (s : ThreadPool) (queue : List Nat) : Prop where
  newjobs : ∀ e ∈ s.newjobs, Work.load s.mempool.bytes e.1 = e.2
  pushed : s.pushed = s.started ++ queue.map (Work.load s.mempool.bytes)
  numbers : (s.workers.filterMap Worker.number ++ s.finished).Perm (List.range s.started.length)

def Sound (n : Nat) (s : ThreadPool) (free queue : List Nat) : Prop :=
  s.Owns n free queue ∧ s.Accounts queue

/-- What a turn does to the jobs: `queue` are the slots in the queue before it. -/
inductive JobsMove (s s' : ThreadPool) (queue : List Nat) : List Nat → Prop
  | stay (hpushed : s'.pushed = s.pushed) (hstarted : s'.started = s.started)
      (hslots : s'.workers.filterMap Worker.slot = s.workers.filterMap Worker.slot)
      (hrunning : ∀ job number, Worker.running job number ∈ s'.workers →
        Worker.running job number ∈ s.workers) : JobsMove s s' queue queue
  | push (e : Nat × Work) (he : e ∈ s.newjobs) (hpushed : s'.pushed = s.pushed ++ [e.2])
      (hstarted : s'.started = s.started)
      (hslots : s'.workers.filterMap Worker.slot = s.workers.filterMap Worker.slot)
      (hrunning : ∀ job number, Worker.running job number ∈ s'.workers →
        Worker.running job number ∈ s.workers) : JobsMove s s' queue (queue ++ [e.1])
  | start (job : Nat) (rest : List Nat) (hqueue : queue = job :: rest)
      (hpushed : s'.pushed = s.pushed)
      (hstarted : s'.started = s.started ++ [Work.load s.mempool.bytes job])
      (hslots : (s'.workers.filterMap Worker.slot).Perm (job :: s.workers.filterMap Worker.slot))
      (hrunning : ∀ job' number, Worker.running job' number ∈ s'.workers →
        job' = job ∧ number = s.started.length ∨ Worker.running job' number ∈ s.workers) :
      JobsMove s s' queue rest
  | free (job : Nat) (hpushed : s'.pushed = s.pushed) (hstarted : s'.started = s.started)
      (hslots : (s.workers.filterMap Worker.slot).Perm (job :: s'.workers.filterMap Worker.slot))
      (hrunning : ∀ job' number, Worker.running job' number ∈ s'.workers →
        Worker.running job' number ∈ s.workers) : JobsMove s s' queue queue

theorem poolSizes {n : Nat} (hn : 0 < n) (hmax : n < 209716) :
    PoolSizes sizeOfSlot (n * slotsForMemPoolPerThread) where
  pointer := by decide
  slots_pos := Nat.mul_pos hn (by decide)
  fits := by
    unfold sizeOfSlot slotsForMemPoolPerThread
    omega

variable {n : Nat} {s : ThreadPool} {free queue : List Nat}

/-! ## Slots in use -/

theorem mem_held {a : Nat} : a ∈ s.held queue ↔ a ∈ s.threads ∨ a = s.hasJobs ∨
    (∃ work, (a, work) ∈ s.newjobs) ∨ a ∈ queue ∨ a ∈ s.workers.filterMap Worker.slot ∨
      a ∈ s.unfreed := by
  unfold held
  simp only [List.mem_append, List.mem_cons, List.mem_map, Prod.exists, exists_and_right,
    exists_eq_right]

theorem newjob_mem_held {e : Nat × Work} (h : e ∈ s.newjobs) : e.1 ∈ s.held queue :=
  mem_held.mpr (Or.inr (Or.inr (Or.inl ⟨e.2, h⟩)))

theorem queue_mem_held {a : Nat} (h : a ∈ queue) : a ∈ s.held queue :=
  mem_held.mpr (Or.inr (Or.inr (Or.inr (Or.inl h))))

namespace Owns

theorem nodup (h : s.Owns n free queue) (hs : PoolSizes sizeOfSlot (n * slotsForMemPoolPerThread)) :
    (s.held queue).Nodup := h.pool.nodup_outstanding hs

theorem apart (h : s.Owns n free queue) {a b : Nat} (ha : a ∈ s.held queue)
    (hb : b ∈ s.held queue) (hne : a ≠ b) : Apart sizeOfSlot a b :=
  h.pool.apart (List.mem_append_right _ ha) (List.mem_append_right _ hb) hne

theorem queue_length (h : s.Owns n free queue)
    (hs : PoolSizes sizeOfSlot (n * slotsForMemPoolPerThread)) : queue.length + 1 < 2 ^ 31 := by
  have hle := h.pool.counts_le hs
  unfold held at hle
  simp only [List.length_append, List.length_cons] at hle
  omega

theorem newjob_apart (h : s.Owns n free queue)
    (hs : PoolSizes sizeOfSlot (n * slotsForMemPoolPerThread)) {e : Nat × Work}
    (he : e ∈ s.newjobs) : e.1 ∉ queue ∧ (e.1 :: queue).Pairwise (Apart sizeOfSlot) := by
  have hnodup := h.nodup hs
  unfold held at hnodup
  have hrest := (List.nodup_cons.mp (List.nodup_append.mp hnodup).2.1).2
  obtain ⟨-, hqueue, hdisjoint⟩ := List.nodup_append.mp hrest
  have hfirst : e.1 ∈ s.newjobs.map Prod.fst := List.mem_map_of_mem he
  have hnotin : e.1 ∉ queue := fun hin =>
    hdisjoint e.1 hfirst e.1 (List.mem_append_left _ hin) rfl
  have hall : (e.1 :: queue).Nodup :=
    List.nodup_cons.mpr ⟨hnotin, (List.nodup_append.mp hqueue).1⟩
  refine ⟨hnotin, hall.imp_of_mem fun {a b} ha hb hne => h.apart ?_ ?_ hne⟩
  · rcases List.mem_cons.mp ha with rfl | ha
    · exact newjob_mem_held he
    · exact queue_mem_held ha
  · rcases List.mem_cons.mp hb with rfl | hb
    · exact newjob_mem_held he
    · exact queue_mem_held hb

end Owns

/-! ## Signals -/

theorem signal_cases (choice : Nat) (workers : List Worker) :
    (signal choice workers = workers ∧ .blocked ∉ workers) ∨
      ∃ i, workers[i]? = some .blocked ∧ signal choice workers = workers.set i .entering := by
  unfold signal
  by_cases hchoice : workers[choice]? = some .blocked
  · exact Or.inr ⟨choice, hchoice, if_pos hchoice⟩
  · rw [if_neg hchoice]
    cases hfind : workers.findIdx? (· = .blocked) with
    | none =>
      rw [List.findIdx?_eq_none_iff] at hfind
      refine Or.inl ⟨rfl, fun hmem => ?_⟩
      simpa using hfind _ hmem
    | some i =>
      obtain ⟨hi, hblocked, -⟩ := List.findIdx?_eq_some_iff_getElem.mp hfind
      refine Or.inr ⟨i, ?_, rfl⟩
      rw [List.getElem?_eq_getElem hi]
      simpa using hblocked

theorem signal_held {β : Type} {g : Worker → Option β} (hblocked : g .blocked = none)
    (hentering : g .entering = none) (choice : Nat) (workers : List Worker) :
    (signal choice workers).filterMap g = workers.filterMap g := by
  rcases signal_cases choice workers with ⟨hsame, -⟩ | ⟨i, hi, hset⟩
  · rw [hsame]
  · rw [hset]
    exact held_same hi (hentering.trans hblocked.symm)

theorem broadcast_held {β : Type} {g : Worker → Option β} (hblocked : g .blocked = none)
    (hentering : g .entering = none) (workers : List Worker) :
    (broadcast workers).filterMap g = workers.filterMap g := by
  unfold broadcast
  rw [List.filterMap_map]
  apply List.filterMap_congr
  intro w hw
  by_cases h : w = .blocked
  · simp [h, hblocked, hentering]
  · simp [h]

theorem signal_running {choice job number : Nat} {workers : List Worker}
    (h : Worker.running job number ∈ signal choice workers) :
    Worker.running job number ∈ workers := by
  rcases signal_cases choice workers with ⟨hsame, -⟩ | ⟨i, hi, hset⟩
  · rwa [hsame] at h
  · rw [hset] at h
    exact (mem_set hi h).resolve_left Worker.noConfusion

theorem broadcast_running {job number : Nat} {workers : List Worker}
    (h : Worker.running job number ∈ broadcast workers) :
    Worker.running job number ∈ workers := by
  obtain ⟨w, hw, heq⟩ := List.mem_map.mp h
  split at heq
  · cases heq
  · exact heq ▸ hw

/-! ## Steps -/

theorem JobsMove.move {i : Nat} {w : Worker} (hw : s.workers[i]? = some w)
    (w' : Worker) (hslot : w'.slot = w.slot) (hrunning : ∀ job number, w' ≠ .running job number)
    {s' : ThreadPool} (hpushed : s'.pushed = s.pushed) (hstarted : s'.started = s.started)
    (hworkers : s'.workers = s.workers.set i w') : JobsMove s s' queue queue := by
  refine .stay hpushed hstarted ?_ fun job number hmem => ?_
  · rw [hworkers]
    exact held_same hw hslot
  · rw [hworkers] at hmem
    exact (mem_set hw hmem).resolve_left fun heq => hrunning job number heq.symm

theorem Sound.with_sync (h : s.Sound n free queue) (v alive working : Int) (keepalive : Bool)
    (owner : Owner) {workers : List Worker}
    (hslots : workers.filterMap Worker.slot = s.workers.filterMap Worker.slot)
    (hnumbers : workers.filterMap Worker.number = s.workers.filterMap Worker.number) :
    { s with
      v, workers, owner
      numThreadsAlive := alive
      numThreadsWorking := working
      threadsKeepalive := keepalive }.Sound n free queue := by
  obtain ⟨⟨hpool, hlinks, hheads⟩, hnewjobs, hpushed, hall⟩ := h
  refine ⟨⟨?_, hlinks, hheads⟩, hnewjobs, hpushed, ?_⟩
  · unfold held
    dsimp only
    rw [hslots]
    exact hpool
  · dsimp only
    rw [hnumbers]
    exact hall

theorem Sound.move (h : s.Sound n free queue) {i : Nat} {w : Worker} (hw : s.workers[i]? = some w)
    (w' : Worker) (hslot : w'.slot = w.slot) (hnumber : w'.number = w.number)
    (v alive working : Int) :
    { s.move i w' with
      v
      numThreadsAlive := alive
      numThreadsWorking := working }.Sound n free queue :=
  h.with_sync v alive working _ _ (held_same hw hslot) (held_same hw hnumber)

theorem Sound.bsemPost (h : s.Sound n free queue) (choice : Nat) :
    (s.bsemPost choice).Sound n free queue :=
  h.with_sync _ _ _ _ _ (signal_held rfl rfl choice _) (signal_held rfl rfl choice _)

/-! ### mp_free -/

theorem mpFree_spec (hs : PoolSizes sizeOfSlot (n * slotsForMemPoolPerThread))
    {outstanding others : List Nat} {a : Nat}
    (h : PoolInv sizeOfSlot (n * slotsForMemPoolPerThread) s.mempool free outstanding)
    (hperm : outstanding.Perm (a :: others)) :
    ∃ mempool free' kept, s.mpFree a = { s with mempool, unfreed := s.unfreed ++ kept } ∧
      PoolInv sizeOfSlot (n * slotsForMemPoolPerThread) mempool free' (others ++ kept) ∧
      (∀ b ∈ others, SameOn b sizeOfSlot s.mempool.bytes mempool.bytes) ∧
      mempool.memory = s.mempool.memory ∧ kept ⊆ s.mempool.memory := by
  have hpool := h.perm_outstanding hperm
  have hmem : a ∈ a :: others := List.mem_cons_self ..
  have hnodup := List.nodup_cons.mp (hpool.nodup_outstanding hs)
  have hsame (b : Nat) (hb : b ∈ others) :
      SameOn b sizeOfSlot s.mempool.bytes (s.mempool.mpFree a).2.bytes :=
    mpFree_sameOn hs hpool hmem (List.mem_cons_of_mem _ hb) fun heq => hnodup.1 (heq ▸ hb)
  unfold ThreadPool.mpFree
  rcases free_cases hs hpool hmem with hrefused | ⟨q, htaken, hq⟩
  · refine ⟨s.mempool, free, [a], ?_, ?_, fun b _ => SameOn.refl _, rfl, ?_⟩
    · rw [hrefused]
      rfl
    · exact hpool.perm_outstanding (List.perm_append_singleton a others).symm
    · intro b hb
      obtain rfl := List.mem_singleton.mp hb
      refine mem_memory_of_refused hs hpool hmem ?_
      rw [hrefused]
      exact fun heq => PoolCode.noConfusion heq
  · rw [htaken] at hsame ⊢
    rw [List.erase_cons_head] at hq
    refine ⟨q, _, [], ?_, by rw [List.append_nil]; exact hq, hsame, ?_, List.nil_subset _⟩
    · rw [List.append_nil]
      rfl
    · have hmemory : (s.mempool.mpFree a).2.memory = s.mempool.memory := by
        unfold MemoryPool.mpFree
        split <;> rfl
      rwa [htaken] at hmemory

theorem Accounts.congr (h : s.Accounts queue) {mempool : MemoryPool} {unfreed : List Nat}
    {workers : List Worker}
    (hnumbers : workers.filterMap Worker.number = s.workers.filterMap Worker.number)
    (hnewjobs : ∀ e ∈ s.newjobs, SameWork s.mempool.bytes mempool.bytes e.1)
    (hqueue : ∀ a ∈ queue, SameWork s.mempool.bytes mempool.bytes a) :
    { s with mempool, unfreed, workers }.Accounts queue := by
  refine ⟨fun e he => ?_, ?_, ?_⟩
  · rw [← Work.load_congr (hnewjobs e he)]
    exact h.newjobs e he
  · dsimp only
    rw [h.pushed]
    congr 1
    exact List.map_congr_left fun a ha => Work.load_congr (hqueue a ha)
  · dsimp only
    rw [hnumbers]
    exact h.numbers

theorem Sound.giveBack (h : s.Sound n free queue)
    (hs : PoolSizes sizeOfSlot (n * slotsForMemPoolPerThread)) {i job : Nat}
    (hw : s.workers[i]? = some (.freeing job)) :
    ∃ free', ((s.mpFree job).move i .uncounting).Sound n free' queue := by
  obtain ⟨⟨hpool, hlinks, hheads⟩, haccounts⟩ := h
  have hdrop := held_drop (g := Worker.slot) (q := .uncounting) hw rfl rfl
  let others := s.threads ++ (s.hasJobs :: (s.newjobs.map Prod.fst ++
    (queue ++ ((s.workers.set i .uncounting).filterMap Worker.slot ++ s.unfreed))))
  have hperm : (s.held queue).Perm (job :: others) := by
    apply List.perm_iff_count.mpr
    intro b
    have := hdrop.count_eq b
    unfold held others
    simp only [List.count_append, List.count_cons] at this ⊢
    omega
  obtain ⟨mempool, free', kept, hfree, hpool', hsame, hmemory, hkept⟩ := mpFree_spec hs hpool hperm
  have hmem {b : Nat} (hb : b ∈ s.newjobs.map Prod.fst ∨ b ∈ queue) : b ∈ others := by
    simp only [others, List.mem_append, List.mem_cons]
    rcases hb with hb | hb
    · exact Or.inr (Or.inr (Or.inl hb))
    · exact Or.inr (Or.inr (Or.inr (Or.inl hb)))
  have hwork {b : Nat} (hb : b ∈ s.newjobs.map Prod.fst ∨ b ∈ queue) :
      SameWork s.mempool.bytes mempool.bytes b := .of_sameOn (by decide) (hsame b (hmem hb))
  rw [hfree]
  refine ⟨free', ⟨?_, hlinks.congr fun a ha => ?_, ?_⟩, ?_⟩
  · refine hpool'.perm_outstanding ?_
    simp only [others, List.append_assoc, List.cons_append, held]
    exact List.Perm.refl _
  · exact (hsame a (hmem (Or.inr ha))).mono (Nat.le_refl _) (by unfold pointerSize sizeOfSlot; omega)
  · intro b hb
    dsimp only [ThreadPool.move] at hb ⊢
    rw [hmemory]
    exact (List.mem_append.mp hb).elim (hheads ·) (hkept ·)
  · exact haccounts.congr (held_same hw rfl)
      (fun e he => hwork (Or.inl (List.mem_map_of_mem he))) fun a ha => hwork (Or.inr ha)

/-! ### jobqueue_pull -/

theorem jobqueuePull_spec (h : s.jobqueue.Lists s.mempool.bytes queue)
    (hroom : queue.length < 2 ^ 31) (choice : Nat) :
    queue = [] ∧ s.jobqueuePull choice = (0, s) ∨
      ∃ job rest jobqueue, queue = job :: rest ∧ job ≠ 0 ∧
        jobqueue.Lists s.mempool.bytes rest ∧
        s.jobqueuePull choice =
          (job, if rest = [] then { s with jobqueue } else { s with jobqueue }.bsemPost choice) := by
  unfold jobqueuePull
  cases queue with
  | nil =>
    have hlen : s.jobqueue.len = 0 := h.len
    left
    simp only [h.unlink_nil, hlen, true_or, if_true, and_self]
  | cons job rest =>
    rw [List.length_cons] at hroom
    obtain ⟨hne, hjob, hlists, hmore⟩ := h.unlink_cons (by omega)
    right
    refine ⟨job, rest, _, rfl, hne, hlists, ?_⟩
    simp only [hjob, hmore]

theorem Sound.start {job : Nat} {rest : List Nat} (h : s.Sound n free (job :: rest))
    {jobqueue : JobQueue} (hlists : jobqueue.Lists s.mempool.bytes rest) {workers : List Worker}
    (hslots : workers.filterMap Worker.slot = s.workers.filterMap Worker.slot)
    (hnumbers : workers.filterMap Worker.number = s.workers.filterMap Worker.number) {i : Nat}
    (hw : workers[i]? = some .pulling) (v : Int) :
    { s with
      jobqueue, v
      workers := workers.set i (.running job s.started.length)
      started := s.started ++ [Work.load s.mempool.bytes job] }.Sound n free rest := by
  obtain ⟨⟨hpool, -, hheads⟩, hnewjobs, hpushed, hall⟩ := h
  refine ⟨⟨?_, hlists, hheads⟩, hnewjobs, ?_, ?_⟩
  · refine hpool.perm_outstanding (List.perm_iff_count.mpr fun b => ?_)
    have htake := (held_take (g := Worker.slot) (q := .running job s.started.length) hw rfl rfl).count_eq b
    rw [hslots] at htake
    unfold held
    simp only [List.count_append, List.count_cons] at htake ⊢
    omega
  · dsimp only
    rw [hpushed, List.map_cons, List.append_assoc]
    rfl
  · have htake := held_take (g := Worker.number) (q := .running job s.started.length) hw rfl rfl
    rw [hnumbers] at htake
    dsimp only
    rw [List.length_append, List.length_singleton, List.range_succ]
    refine (htake.append_right _).trans ?_
    rw [List.cons_append]
    exact (hall.cons _).trans (List.perm_append_singleton _ _).symm

theorem signal_other {workers : List Worker} {i : Nat} {w : Worker} (hw : workers[i]? = some w)
    (hne : w ≠ .blocked) (choice : Nat) : (signal choice workers)[i]? = some w := by
  rcases signal_cases choice workers with ⟨hsame, -⟩ | ⟨j, hj, hset⟩
  · rw [hsame]
    exact hw
  · have hij : j ≠ i := fun heq => by
      rw [heq, hw] at hj
      exact hne (Option.some.inj hj)
    rw [hset, List.getElem?_set_ne hij]
    exact hw

theorem Sound.pull (h : s.Sound n free queue)
    (hs : PoolSizes sizeOfSlot (n * slotsForMemPoolPerThread)) {i : Nat}
    (hw : s.workers[i]? = some .pulling) (choice : Nat) :
    ∃ queue', (s.threadDo i choice .pulling).Sound n free queue' ∧
      JobsMove s (s.threadDo i choice .pulling) queue queue' := by
  have hroom := h.1.queue_length hs
  unfold threadDo
  dsimp only
  rcases jobqueuePull_spec h.1.links (by omega) choice with
    ⟨rfl, hpull⟩ | ⟨job, rest, jobqueue, rfl, hne, hlists, hpull⟩
  · rw [hpull, if_pos rfl]
    exact ⟨[], h.move hw .uncounting rfl rfl _ _ _,
      .move hw .uncounting rfl (fun _ _ => Worker.noConfusion) rfl rfl rfl⟩
  · rw [hpull, if_neg hne]
    refine ⟨rest, ?_⟩
    by_cases hrest : rest = []
    · rw [if_pos hrest]
      refine ⟨h.start hlists rfl rfl hw _, .start job rest rfl rfl rfl (held_take hw rfl rfl) ?_⟩
      intro job' number hmem
      exact (mem_set hw hmem).imp_left fun heq => by cases heq; exact ⟨rfl, rfl⟩
    · rw [if_neg hrest]
      have hslots := signal_held (g := Worker.slot) rfl rfl choice s.workers
      have hpulling := signal_other hw Worker.noConfusion choice
      refine ⟨h.start hlists hslots (signal_held rfl rfl choice _) hpulling _,
        .start job rest rfl rfl rfl ?_ ?_⟩
      · rw [← hslots]
        exact held_take hpulling rfl rfl
      · intro job' number hmem
        rcases mem_set hpulling hmem with heq | hmem
        · cases heq
          exact Or.inl ⟨rfl, rfl⟩
        · exact Or.inr (signal_running hmem)

theorem Sound.finish (h : s.Sound n free queue) {i job number : Nat}
    (hw : s.workers[i]? = some (.running job number)) :
    { s.move i (.freeing job) with finished := s.finished ++ [number] }.Sound n free queue := by
  obtain ⟨⟨hpool, hlinks, hheads⟩, hnewjobs, hpushed, hall⟩ := h
  have hdrop := held_drop (g := Worker.number) (q := .freeing job) hw rfl rfl
  have hslots := held_same (g := Worker.slot) (q := .freeing job) hw rfl
  refine ⟨⟨?_, hlinks, hheads⟩, hnewjobs, hpushed, ?_⟩
  · unfold held ThreadPool.move
    dsimp only
    rw [hslots]
    exact hpool
  · refine List.Perm.trans ?_ hall
    have hsnoc := List.perm_append_singleton number s.finished
    exact (hsnoc.append_left _).trans (List.perm_middle.trans (hdrop.append_right _).symm)

/-! ### thpool_add_work -/

theorem Sound.addWork (h : s.Sound n free queue)
    (hs : PoolSizes sizeOfSlot (n * slotsForMemPoolPerThread)) {answer : Nat}
    (hok : MallocOk s.mempool answer) (work : Work) :
    ∃ free', (s.thpoolAddWork answer work).2.Sound n free' queue := by
  obtain ⟨⟨hpool, hlinks, hheads⟩, haccounts⟩ := h
  have hframe {b : Nat} (hb : b ∈ s.held queue) := mpAlloc_sameOn hs hpool hok hb
  unfold thpoolAddWork
  rcases alloc_cases hs hpool hok with halloc | ⟨a, q, free', halloc, hnew, -, -, hq⟩
  · rw [halloc]
    exact ⟨free, ⟨hpool, hlinks, hheads⟩, haccounts⟩
  · rw [halloc] at hframe ⊢
    have hin : a ∈ a :: s.held queue := List.mem_cons_self ..
    have hne : a ≠ 0 := Nat.pos_iff_ne_zero.mp (hq.bounds (List.mem_append_right _ hin)).1
    dsimp only
    rw [if_neg hne]
    have hsame {b : Nat} (hb : b ∈ s.held queue) :
        SameOn b sizeOfSlot s.mempool.bytes (work.store q.bytes a) := by
      have hapart : Apart sizeOfSlot b a := hq.apart (List.mem_append_right _ (List.mem_cons_of_mem _ hb))
        (List.mem_append_right _ hin) fun heq => hnew (heq ▸ hb)
      exact (hframe hb).trans (work.store_sameOn (by decide) hapart)
    have hwork {b : Nat} (hb : b ∈ s.held queue) :
        SameWork s.mempool.bytes (work.store q.bytes a) b := .of_sameOn (by decide) (hsame hb)
    have hgrown := mpAlloc_memory answer s.mempool
    rw [halloc] at hgrown
    refine ⟨free', ⟨?_, hlinks.congr fun b hb => ?_, fun b hb => hgrown (hheads hb)⟩, fun e he => ?_,
      ?_, haccounts.numbers⟩
    · have hstored := hq.write_slot hs hin fun b hapart => work.store_sameOn (by decide) hapart
      refine hstored.perm_outstanding (List.perm_iff_count.mpr fun b => ?_)
      unfold held
      simp only [List.map_append, List.map_cons, List.map_nil, List.count_append, List.count_cons,
        List.count_nil]
      omega
    · exact (hsame (queue_mem_held hb)).mono (Nat.le_refl _) (by unfold pointerSize sizeOfSlot; omega)
    · rcases List.mem_append.mp he with he | he
      · rw [← Work.load_congr (hwork (newjob_mem_held he))]
        exact haccounts.newjobs e he
      · obtain rfl := List.mem_singleton.mp he
        exact work.load_store q.bytes a
    · dsimp only
      rw [haccounts.pushed]
      congr 1
      exact List.map_congr_left fun b hb => Work.load_congr (hwork (queue_mem_held hb))

theorem Sound.push (h : s.Sound n free queue)
    (hs : PoolSizes sizeOfSlot (n * slotsForMemPoolPerThread)) {k : Nat} {e : Nat × Work}
    (he : s.newjobs[k]? = some e) (choice : Nat) :
    (s.push k choice).Sound n free (queue ++ [e.1]) := by
  obtain ⟨howns, haccounts⟩ := h
  have hroom := howns.queue_length hs
  have hmem : e ∈ s.newjobs := List.mem_of_getElem? he
  have hheld : e.1 ∈ s.held queue := newjob_mem_held hmem
  obtain ⟨-, hapart⟩ := howns.newjob_apart hs hmem
  have hbounds := howns.pool.bounds (List.mem_append_right free hheld)
  have hlinks : (s.jobqueue.link s.mempool.bytes e.1).1.Lists
      (s.jobqueue.link s.mempool.bytes e.1).2 (queue ++ [e.1]) :=
    howns.links.link (by decide) ⟨hbounds.1, by omega⟩ hapart hroom
  have hlinked {b : Nat} (hb : b ∈ s.held queue) :
      SameWork s.mempool.bytes (s.jobqueue.link s.mempool.bytes e.1).2 b := by
    have heither {c : Nat} (hc : c ∈ s.held queue) : b = c ∨ Apart sizeOfSlot b c := by
      by_cases heq : b = c
      · exact Or.inl heq
      · exact Or.inr (howns.apart hb hc heq)
    exact JobQueue.link_sameWork (by decide) (heither hheld) fun hlen =>
      heither (queue_mem_held (howns.links.rear_mem hlen))
  have hfree {b : Nat} (hb : b ∈ free) :
      SameOn b sizeOfSlot s.mempool.bytes (s.jobqueue.link s.mempool.bytes e.1).2 :=
    JobQueue.link_sameOn (howns.pool.apart_free hs hb hheld) (by decide) fun hlen =>
      howns.pool.apart_free hs hb (queue_mem_held (howns.links.rear_mem hlen))
  have hpool := howns.pool.with_bytes fun b hb =>
    (hfree hb).mono (Nat.le_refl _) (by unfold pointerSize sizeOfSlot; omega)
  have herase : (e :: s.newjobs.eraseIdx k).Perm s.newjobs := by
    obtain ⟨hk, rfl⟩ := List.getElem?_eq_some_iff.mp he
    exact List.getElem_cons_eraseIdx_perm hk
  unfold ThreadPool.push jobqueuePush
  rw [he]
  have hsound : { s with
      jobqueue := (s.jobqueue.link s.mempool.bytes e.1).1
      mempool := { s.mempool with bytes := (s.jobqueue.link s.mempool.bytes e.1).2 }
      newjobs := s.newjobs.eraseIdx k
      pushed := s.pushed ++ [e.2] }.Sound n free (queue ++ [e.1]) := by
    refine ⟨⟨?_, hlinks, howns.heads⟩, fun e' he' => ?_, ?_, haccounts.numbers⟩
    · refine hpool.perm_outstanding (List.perm_iff_count.mpr fun b => ?_)
      have := (herase.map Prod.fst).count_eq b
      unfold held
      simp only [List.map_cons, List.count_append, List.count_cons, List.count_nil] at this ⊢
      omega
    · have hold : e' ∈ s.newjobs := List.mem_of_mem_eraseIdx he'
      rw [← Work.load_congr (hlinked (newjob_mem_held hold))]
      exact haccounts.newjobs e' hold
    · dsimp only
      rw [haccounts.pushed, List.map_append, List.append_assoc]
      congr 2
      · exact List.map_congr_left fun a ha => Work.load_congr (hlinked (queue_mem_held ha))
      · rw [List.map_singleton, ← Work.load_congr (hlinked hheld), haccounts.newjobs e hmem]
  exact hsound.bsemPost choice

/-! ## thpool_init -/

theorem threadInit_foldl (hs : PoolSizes sizeOfSlot (n * slotsForMemPoolPerThread))
    (mallocs : Nat → Nat) (ids : List Nat) {outstanding : List Nat}
    (h : PoolInv sizeOfSlot (n * slotsForMemPoolPerThread) s.mempool free outstanding)
    (hroom : ids.length ≤ free.length) :
    ∃ mempool threads free',
      ids.foldl (fun s k => s.threadInit (mallocs k)) s =
        { s with
          mempool
          threads := s.threads ++ threads
          workers := s.workers ++ List.replicate ids.length .starting } ∧
      threads.length = ids.length ∧
      PoolInv sizeOfSlot (n * slotsForMemPoolPerThread) mempool free' (threads ++ outstanding) := by
  induction ids generalizing s free outstanding with
  | nil => exact ⟨s.mempool, [], free, by simp, rfl, h⟩
  | cons id ids ih =>
    rw [List.length_cons] at hroom
    obtain ⟨a, free, rfl⟩ := List.exists_cons_of_length_pos (Nat.lt_of_lt_of_le (by omega) hroom)
    rw [List.length_cons] at hroom
    have halloc := mpAlloc_of_free h (List.cons_ne_nil _ _) (mallocs id)
    obtain ⟨ha, -, -, htaken⟩ := takeHead_inv hs h
    have hnext : PoolInv sizeOfSlot (n * slotsForMemPoolPerThread)
        (s.threadInit (mallocs id)).mempool free (a :: outstanding) := by
      unfold threadInit
      rw [halloc]
      exact htaken
    obtain ⟨mempool, threads, free', hloop, hcount, hpool⟩ := ih hnext (by omega)
    have hfirst : s.threadInit (mallocs id) =
        { s with
          mempool := s.mempool.takeHead.2
          threads := s.threads ++ [a]
          workers := s.workers ++ [.starting] } := by
      unfold threadInit
      dsimp only
      rw [halloc, ha]
    refine ⟨mempool, a :: threads, free', ?_, by rw [List.length_cons, hcount, List.length_cons], ?_⟩
    · rw [List.foldl_cons, hloop, hfirst, List.length_cons, List.replicate_succ]
      simp only [List.append_assoc, List.cons_append, List.nil_append]
    · exact hpool.perm_outstanding List.perm_middle

/-- Nothing has happened yet. -/
structure Fresh (n : Nat) (s : ThreadPool) : Prop where
  sound : ∃ free, s.Sound n free []
  threads : s.threads.length = n
  workers : s.workers = List.replicate n .starting
  owner : s.owner = .initializing
  keepalive : s.threadsKeepalive = true
  v : s.v = 0
  alive : s.numThreadsAlive = 0
  working : s.numThreadsWorking = 0
  pushed : s.pushed = []
  unfreed : s.unfreed = []
  heapFrees : s.heapFrees = []

theorem jobqueueInit_of_free {a : Nat} (hs : PoolSizes sizeOfSlot (n * slotsForMemPoolPerThread))
    (h : PoolInv sizeOfSlot (n * slotsForMemPoolPerThread) s.mempool (a :: free) [])
    (answer : Nat) :
    jobqueueInit answer s =
        some { s with mempool := s.mempool.takeHead.2, jobqueue := ⟨0, 0, 0⟩, hasJobs := a, v := 0 } ∧
      PoolInv sizeOfSlot (n * slotsForMemPoolPerThread) s.mempool.takeHead.2 free [a] := by
  obtain ⟨ha, -, -, htaken⟩ := takeHead_inv hs h
  have hne : a ≠ 0 :=
    Nat.pos_iff_ne_zero.mp (h.bounds (List.mem_append_left _ (List.mem_cons_self ..))).1
  unfold jobqueueInit
  dsimp only
  rw [mpAlloc_of_free h (List.cons_ne_nil _ _), ha, if_neg hne]
  exact ⟨rfl, htaken⟩

theorem thpoolInit_spec (hn : 0 < n) (hmax : n < 209716) {mallocs : Nat → Nat} {bytes : Memory}
    (hok : MallocOk (blankPool sizeOfSlot (n * slotsForMemPoolPerThread) bytes) (mallocs 1)) :
    if mallocs 0 = 0 ∨ mallocs 1 = 0 ∨ mallocs 3 = 0 then thpoolInit mallocs n bytes = none
    else ∃ s, thpoolInit mallocs n bytes = some s ∧ s.Fresh n := by
  have hs := poolSizes hn hmax
  have hslots : toSize (toInt (((n : Int) * slotsForMemPoolPerThread))) =
      n * slotsForMemPoolPerThread := by
    have := hs.slots_lt
    rw [toInt_eq (by omega) (by omega), toSize_eq (by omega) (by omega)]
    omega
  have hpositive : ¬ (n : Int) < 0 := by omega
  have hblank := blank_inv hs bytes
  have hinit : MemoryPool.mpInit (mallocs 1) sizeOfSlot (n * slotsForMemPoolPerThread) bytes =
      (blankPool sizeOfSlot (n * slotsForMemPoolPerThread) bytes).mpExpand (mallocs 1) := rfl
  have herror := mpExpand_error_iff (blankPool sizeOfSlot (n * slotsForMemPoolPerThread) bytes)
    (mallocs 1)
  have hcount : (blankPool sizeOfSlot (n * slotsForMemPoolPerThread) bytes).memory.length ≠
    maxExpTime := Nat.zero_ne_add_one 9
  unfold thpoolInit
  simp only [if_neg hpositive, hslots, hinit, herror, hcount, false_or, Int.toNat_natCast]
  by_cases hpoolNull : mallocs 0 = 0
  · simp [hpoolNull]
  by_cases hchunkNull : mallocs 1 = 0
  · simp [hchunkNull]
  rcases mpExpand_cases hs hblank hok with hexpand | ⟨q, hexpand, hq⟩
  · rw [hexpand] at herror
    simp [hcount, hchunkNull] at herror
  rw [hexpand]
  simp only [hpoolNull, hchunkNull, false_or, if_false]
  -- One of the free slots is for the semaphore.
  have hlength : ((chunkSlots sizeOfSlot (n * slotsForMemPoolPerThread) (mallocs 1)).reverse ++
      ([] : List Nat)).length = n * slotsForMemPoolPerThread := by
    rw [List.append_nil, List.length_reverse, length_chunkSlots]
  obtain ⟨a, free, hfree⟩ :=
    List.exists_cons_of_length_pos (Nat.lt_of_lt_of_eq hs.slots_pos hlength.symm)
  rw [hfree, List.length_cons] at hlength
  rw [hfree] at hq
  obtain ⟨hqueue, htaken⟩ := jobqueueInit_of_free (s := blank q) hs hq (mallocs 2)
  rw [hqueue]
  dsimp only
  by_cases harrayNull : mallocs 3 = 0
  · rw [if_pos harrayNull, if_pos harrayNull]
  rw [if_neg harrayNull, if_neg harrayNull]
  have hroom : (List.range n).length ≤ free.length := by
    rw [List.length_range]
    unfold slotsForMemPoolPerThread at hlength
    omega
  let s : ThreadPool := { blank q with mempool := q.takeHead.2, hasJobs := a }
  obtain ⟨mempool, threads, free', hloop, hthreads, hpool⟩ :=
    threadInit_foldl (s := s) hs (fun k => mallocs (k + 4)) (List.range n) htaken hroom
  rw [List.length_range] at hloop hthreads
  refine ⟨_, congrArg some hloop, ?_⟩
  have hnone {β : Type} {g : Worker → Option β} (hg : g .starting = none) :
      (List.replicate n Worker.starting).filterMap g = [] := by
    rw [List.filterMap_replicate_of_none hg]
  have hempty : (⟨0, 0, 0⟩ : JobQueue).Lists mempool.bytes [] :=
    ⟨rfl, fun last hlast => absurd hlast (by simp), rfl⟩
  refine ⟨⟨free', ⟨?_, hempty, List.nil_subset _⟩, fun e he => absurd he List.not_mem_nil, rfl, ?_⟩,
    hthreads, rfl, rfl, rfl, rfl, rfl, rfl, rfl, rfl, rfl⟩
  · have hheld : threads ++ [a] = threads ++ (a :: ((List.replicate n Worker.starting).filterMap
        Worker.slot ++ [])) := by
      rw [hnone rfl]
      rfl
    rw [hheld] at hpool
    exact hpool
  · have hnumbers : (List.replicate n Worker.starting).filterMap Worker.number = [] := hnone rfl
    exact List.Perm.of_eq (congrArg (· ++ []) hnumbers)

theorem fresh_of_init (hn : 0 < n) (hmax : n < 209716) {mallocs : Nat → Nat} {bytes : Memory}
    (hok : MallocOk (blankPool sizeOfSlot (n * slotsForMemPoolPerThread) bytes) (mallocs 1))
    (hinit : thpoolInit mallocs n bytes = some s) : s.Fresh n := by
  have hspec := thpoolInit_spec hn hmax hok
  rw [hinit] at hspec
  split at hspec
  · cases hspec
  · obtain ⟨s', heq, hfresh⟩ := hspec
    obtain rfl := Option.some.inj heq
    exact hfresh

/-! ## Runs -/

theorem Sound.threadDo (h : s.Sound n free queue)
    (hs : PoolSizes sizeOfSlot (n * slotsForMemPoolPerThread)) {i : Nat} {w : Worker}
    (hw : s.workers[i]? = some w) (choice : Nat) :
    ∃ free' queue', (s.threadDo i choice w).Sound n free' queue' ∧
      JobsMove s (s.threadDo i choice w) queue queue' := by
  cases w with
  | starting =>
    exact ⟨free, queue, h.move hw .looping rfl rfl _ _ _,
      .move hw .looping rfl (fun _ _ => Worker.noConfusion) rfl rfl rfl⟩
  | looping =>
    refine ⟨free, queue, h.move hw _ ?_ ?_ _ _ _, .move hw _ ?_ ?_ rfl rfl rfl⟩
    all_goals cases s.threadsKeepalive <;> first | rfl | exact fun _ _ => Worker.noConfusion
  | entering =>
    unfold ThreadPool.threadDo bsemWait
    dsimp only
    split
    · exact ⟨free, queue, h.move hw .blocked rfl rfl _ _ _,
        .move hw .blocked rfl (fun _ _ => Worker.noConfusion) rfl rfl rfl⟩
    · exact ⟨free, queue, h.move hw .passed rfl rfl _ _ _,
        .move hw .passed rfl (fun _ _ => Worker.noConfusion) rfl rfl rfl⟩
  | blocked => exact ⟨free, queue, h, .stay rfl rfl rfl fun _ _ hmem => hmem⟩
  | passed =>
    refine ⟨free, queue, h.move hw _ ?_ ?_ _ _ _, .move hw _ ?_ ?_ rfl rfl rfl⟩
    all_goals cases s.threadsKeepalive <;> first | rfl | exact fun _ _ => Worker.noConfusion
  | counting =>
    exact ⟨free, queue, h.move hw .pulling rfl rfl _ _ _,
      .move hw .pulling rfl (fun _ _ => Worker.noConfusion) rfl rfl rfl⟩
  | pulling =>
    obtain ⟨queue', h'⟩ := h.pull hs hw choice
    exact ⟨free, queue', h'⟩
  | running job number =>
    exact ⟨free, queue, h.finish hw,
      .move hw (.freeing job) rfl (fun _ _ => Worker.noConfusion) rfl rfl rfl⟩
  | freeing job =>
    obtain ⟨free', h'⟩ := h.giveBack hs hw
    refine ⟨free', queue, h', .free job rfl rfl (held_drop hw rfl rfl) fun job' number hmem => ?_⟩
    exact (mem_set hw hmem).resolve_left Worker.noConfusion
  | uncounting =>
    exact ⟨free, queue, h.move hw .looping rfl rfl _ _ _,
      .move hw .looping rfl (fun _ _ => Worker.noConfusion) rfl rfl rfl⟩
  | leaving =>
    exact ⟨free, queue, h.move hw .gone rfl rfl _ _ _,
      .move hw .gone rfl (fun _ _ => Worker.noConfusion) rfl rfl rfl⟩
  | gone => exact ⟨free, queue, h, .stay rfl rfl rfl fun _ _ hmem => hmem⟩

theorem Sound.step (h : s.Sound n free queue)
    (hs : PoolSizes sizeOfSlot (n * slotsForMemPoolPerThread)) {turn : Turn}
    (hlegal : turn.Legal s) (hlive : (s.step turn).owner ≠ .returned) :
    ∃ free' queue', (s.step turn).Sound n free' queue' ∧ JobsMove s (s.step turn) queue queue' := by
  have hstay : JobsMove s s queue queue := .stay rfl rfl rfl fun _ _ hmem => hmem
  cases turn with
  | addWork answer work =>
    obtain ⟨free', h'⟩ := h.addWork hs hlegal.2 work
    refine ⟨free', queue, h', ?_⟩
    unfold ThreadPool.step thpoolAddWork
    dsimp only
    split <;> exact .stay rfl rfl rfl fun _ _ hmem => hmem
  | push k choice =>
    cases he : s.newjobs[k]? with
    | none =>
      have hsame : s.step (.push k choice) = s := push_none he choice
      rw [hsame]
      exact ⟨free, queue, h, hstay⟩
    | some e =>
      refine ⟨free, _, h.push hs he choice, ?_⟩
      unfold ThreadPool.step ThreadPool.push
      dsimp only
      rw [he]
      exact .push e (List.mem_of_getElem? he) rfl rfl (signal_held rfl rfl choice _)
        fun _ _ hmem => signal_running hmem
  | worker i choice =>
    cases hw : s.workers[i]? with
    | none =>
      rw [step_worker_none hw]
      exact ⟨free, queue, h, hstay⟩
    | some w =>
      rw [step_worker hw]
      exact h.threadDo hs hw choice
  | wake i =>
    unfold ThreadPool.step
    dsimp only
    split
    next hw =>
      exact ⟨free, queue, h.move hw .entering rfl rfl _ _ _,
        .move hw .entering rfl (fun _ _ => Worker.noConfusion) rfl rfl rfl⟩
    next => exact ⟨free, queue, h, hstay⟩
  | owner =>
    unfold ThreadPool.step ownerStep at *
    dsimp only at *
    cases howner : s.owner with
    | initializing =>
      dsimp only
      split
      · exact ⟨free, queue, h.with_sync _ _ _ _ _ rfl rfl, .stay rfl rfl rfl fun _ _ hmem => hmem⟩
      · exact ⟨free, queue, h, hstay⟩
    | serving => exact ⟨free, queue, h, hstay⟩
    | testing total =>
      exact ⟨free, queue, h.with_sync _ _ _ _ _ rfl rfl, .stay rfl rfl rfl fun _ _ hmem => hmem⟩
    | posting total =>
      have hslots := broadcast_held (g := Worker.slot) rfl rfl s.workers
      exact ⟨free, queue, h.with_sync _ _ _ _ _ hslots (broadcast_held rfl rfl _),
        .stay rfl rfl hslots fun _ _ hmem => broadcast_running hmem⟩
    | clearing total =>
      rw [howner] at hlive
      exact absurd rfl hlive
    | returned => exact ⟨free, queue, h, hstay⟩
  | destroy =>
    exact ⟨free, queue, h.with_sync _ _ _ _ _ rfl rfl, .stay rfl rfl rfl fun _ _ hmem => hmem⟩

theorem threadDo_fields (s : ThreadPool) (i choice : Nat) (w : Worker) :
    (s.threadDo i choice w).owner = s.owner ∧
      (s.threadDo i choice w).threadsKeepalive = s.threadsKeepalive ∧
      (s.threadDo i choice w).threads = s.threads ∧
      (s.threadDo i choice w).pushed = s.pushed ∧
      (s.threadDo i choice w).newjobs = s.newjobs ∧
      (s.threadDo i choice w).heapFrees = s.heapFrees ∧
      (s.threadDo i choice w).hasJobs = s.hasJobs := by
  cases w with
  | entering =>
    unfold threadDo bsemWait
    dsimp only
    split <;> exact ⟨rfl, rfl, rfl, rfl, rfl, rfl, rfl⟩
  | pulling =>
    unfold threadDo jobqueuePull
    dsimp only
    split <;> split <;> exact ⟨rfl, rfl, rfl, rfl, rfl, rfl, rfl⟩
  | _ => exact ⟨rfl, rfl, rfl, rfl, rfl, rfl, rfl⟩

theorem returned_step (h : s.owner = .returned) {turn : Turn} (hlegal : turn.Legal s) :
    (s.step turn).owner = .returned := by
  unfold ThreadPool.step
  cases turn with
  | addWork answer work => exact absurd (h.symm.trans hlegal.1) (by decide)
  | push k choice => exact absurd (h.symm.trans hlegal) (by decide)
  | worker i choice =>
    dsimp only
    split
    · exact h
    · rw [(threadDo_fields ..).1, h]
  | wake i =>
    dsimp only
    split <;> exact h
  | owner =>
    unfold ownerStep
    rw [h]
    exact h
  | destroy => exact absurd (h.symm.trans hlegal.1) (by decide)

/-- What can become of a pool that `thpool_init` made. -/
def Reachable (n : Nat) (s : ThreadPool) : Prop :=
  ∃ mallocs bytes s₀ turns,
    MallocOk (blankPool sizeOfSlot (n * slotsForMemPoolPerThread) bytes) (mallocs 1) ∧
      thpoolInit mallocs n bytes = some s₀ ∧ LegalRun s₀ turns ∧ s = s₀.run turns

theorem Reachable.step (h : s.Reachable n) {turn : Turn} (hlegal : turn.Legal s) :
    (s.step turn).Reachable n := by
  obtain ⟨mallocs, bytes, s₀, turns, hok, hs₀, hrun, rfl⟩ := h
  refine ⟨mallocs, bytes, s₀, turns ++ [turn], hok, hs₀, ?_, ?_⟩
  · exact Machine.along_snoc.mpr ⟨hrun, hlegal⟩
  · unfold run
    rw [List.foldl_append]
    rfl

theorem Reachable.rule (hn : 0 < n) (hmax : n < 209716) {P : ThreadPool → Prop}
    (hinit : ∀ s : ThreadPool, s.Fresh n → P s)
    (hstep : ∀ (s : ThreadPool) (turn : Turn), s.Reachable n → turn.Legal s → P s →
      P (s.step turn)) (h : s.Reachable n) : P s := by
  obtain ⟨mallocs, bytes, s₀, turns, hok, hs₀, hlegal, rfl⟩ := h
  have hfresh := fresh_of_init hn hmax hok hs₀
  have hreachable : s₀.Reachable n := ⟨mallocs, bytes, s₀, [], hok, hs₀, trivial, rfl⟩
  exact (Machine.Along.invariant (P := fun s => s.Reachable n ∧ P s)
    (fun s turn hlegal ⟨hs, hP⟩ => ⟨hs.step hlegal, hstep s turn hs hlegal hP⟩)
    ⟨hreachable, hinit s₀ hfresh⟩ hlegal).2

theorem Reachable.sound (hn : 0 < n) (hmax : n < 209716) (h : s.Reachable n) :
    s.owner = .returned ∨ ∃ free queue, s.Sound n free queue := by
  refine h.rule hn hmax (P := fun s => s.owner = .returned ∨ ∃ free queue, s.Sound n free queue)
    (fun s hfresh => ?_) fun s turn _ hlegal hs => ?_
  · obtain ⟨free, hsound⟩ := hfresh.sound
    exact Or.inr ⟨free, [], hsound⟩
  · by_cases hlive : (s.step turn).owner = .returned
    · exact Or.inl hlive
    · rcases hs with hreturned | ⟨free, queue, hsound⟩
      · exact absurd (returned_step hreturned hlegal) hlive
      · obtain ⟨free', queue', hsound', -⟩ := hsound.step (poolSizes hn hmax) hlegal hlive
        exact Or.inr ⟨free', queue', hsound'⟩

/-- A weight that does not tell a woken thread from a blocked one. -/
theorem signal_total {f : Worker → Nat} (hf : f .blocked = f .entering) (choice : Nat)
    (workers : List Worker) : total f (signal choice workers) = total f workers := by
  rcases signal_cases choice workers with ⟨hsame, -⟩ | ⟨i, hi, hset⟩
  · rw [hsame]
  · have := total_set hi f .entering
    rw [hset]
    omega

theorem broadcast_total {f : Worker → Nat} (hf : f .blocked = f .entering)
    (workers : List Worker) : total f (broadcast workers) = total f workers := by
  unfold broadcast
  rw [total_map]
  congr 1
  funext w
  by_cases h : w = .blocked
  · simp [h, hf]
  · simp [h]

/-- The crew is the same: who serves, how the threads are counted, and what ran. -/
structure Keeps (s s' : ThreadPool) : Prop where
  threads : s'.threads = s.threads
  hasJobs : s'.hasJobs = s.hasJobs
  total : ∀ f : Worker → Nat, f .blocked = f .entering → total f s'.workers = total f s.workers
  alive : s'.numThreadsAlive = s.numThreadsAlive
  working : s'.numThreadsWorking = s.numThreadsWorking
  keepalive : s'.threadsKeepalive = s.threadsKeepalive
  started : s'.started = s.started
  finished : s'.finished = s.finished
  heapFrees : s'.heapFrees = s.heapFrees

theorem Keeps.refl (s : ThreadPool) : s.Keeps s :=
  ⟨rfl, rfl, fun _ _ => rfl, rfl, rfl, rfl, rfl, rfl, rfl⟩

theorem Keeps.trans {s' s'' : ThreadPool} (h : s.Keeps s') (h' : s'.Keeps s'') : s.Keeps s'' where
  threads := h'.threads.trans h.threads
  hasJobs := h'.hasJobs.trans h.hasJobs
  total f hf := (h'.total f hf).trans (h.total f hf)
  alive := h'.alive.trans h.alive
  working := h'.working.trans h.working
  keepalive := h'.keepalive.trans h.keepalive
  started := h'.started.trans h.started
  finished := h'.finished.trans h.finished
  heapFrees := h'.heapFrees.trans h.heapFrees

theorem bsemPostAll_keeps (s : ThreadPool) : s.Keeps s.bsemPostAll :=
  ⟨rfl, rfl, fun _ hf => broadcast_total hf _, rfl, rfl, rfl, rfl, rfl, rfl⟩

theorem mpFree_keeps (s : ThreadPool) (mem : Nat) : s.Keeps (s.mpFree mem) :=
  ⟨rfl, rfl, fun _ _ => rfl, rfl, rfl, rfl, rfl, rfl, rfl⟩

theorem jobqueuePull_keeps (s : ThreadPool) (choice : Nat) : s.Keeps (s.jobqueuePull choice).2 := by
  unfold jobqueuePull
  dsimp only
  split
  · exact ⟨rfl, rfl, fun _ _ => rfl, rfl, rfl, rfl, rfl, rfl, rfl⟩
  · exact ⟨rfl, rfl, fun _ hf => signal_total hf _ _, rfl, rfl, rfl, rfl, rfl, rfl⟩

theorem addWork_keeps (s : ThreadPool) (answer : Nat) (work : Work) :
    s.Keeps (s.thpoolAddWork answer work).2 := by
  unfold thpoolAddWork
  dsimp only
  split <;> exact ⟨rfl, rfl, fun _ _ => rfl, rfl, rfl, rfl, rfl, rfl, rfl⟩

theorem push_keeps (s : ThreadPool) (k choice : Nat) : s.Keeps (s.push k choice) := by
  unfold push
  cases s.newjobs[k]? with
  | none => exact Keeps.refl s
  | some e => exact ⟨rfl, rfl, fun _ hf => signal_total hf _ _, rfl, rfl, rfl, rfl, rfl, rfl⟩

theorem clearJobs_keeps (rounds : Nat) (s : ThreadPool) : s.Keeps (clearJobs rounds s) := by
  induction rounds generalizing s with
  | zero => exact Keeps.refl s
  | succ rounds ih =>
    unfold clearJobs
    split
    · exact Keeps.refl s
    · exact ((jobqueuePull_keeps s 0).trans (mpFree_keeps _ _)).trans (ih _)

theorem jobqueueDestroy_keeps (s : ThreadPool) : s.Keeps s.jobqueueDestroy := by
  have h := clearJobs_keeps s.jobqueue.len.toNat s
  exact ⟨h.threads, h.hasJobs, h.total, h.alive, h.working, h.keepalive, h.started, h.finished,
    h.heapFrees⟩

theorem foldl_mpFree_eq (slots : List Nat) (s : ThreadPool) :
    ∃ mempool unfreed, slots.foldl ThreadPool.mpFree s = { s with mempool, unfreed } := by
  induction slots generalizing s with
  | nil => exact ⟨_, _, rfl⟩
  | cons slot slots ih =>
    obtain ⟨mempool, unfreed, heq⟩ := ih (s.mpFree slot)
    exact ⟨mempool, unfreed, heq⟩

theorem dealloc_keeps (s : ThreadPool) (threadsTotal : Int) :
    ∃ s', s.Keeps s' ∧ s'.v = 0 ∧ s.dealloc threadsTotal =
      { s' with
        owner := .returned
        heapFrees := s.heapFrees ++ [.threads, .threads, .thpool] } := by
  obtain ⟨mempool, unfreed, heq⟩ :=
    foldl_mpFree_eq (s.jobqueueDestroy.threads.take threadsTotal.toNat) s.jobqueueDestroy
  have hkeeps := jobqueueDestroy_keeps s
  refine ⟨ThreadPool.mpDestroy { s.jobqueueDestroy with mempool, unfreed }, ?_, rfl, ?_⟩
  · exact ⟨hkeeps.threads, hkeeps.hasJobs, hkeeps.total, hkeeps.alive, hkeeps.working,
      hkeeps.keepalive, hkeeps.started, hkeeps.finished, hkeeps.heapFrees⟩
  · unfold dealloc
    dsimp only
    rw [heq]
    simp [heapFree, ThreadPool.mpDestroy, hkeeps.heapFrees]

theorem step_slots (s : ThreadPool) (turn : Turn) :
    (s.step turn).hasJobs = s.hasJobs ∧ (s.step turn).threads = s.threads := by
  cases turn with
  | addWork answer work =>
    have h := addWork_keeps s answer work
    exact ⟨h.hasJobs, h.threads⟩
  | push k choice =>
    have h := push_keeps s k choice
    exact ⟨h.hasJobs, h.threads⟩
  | worker i choice =>
    cases hw : s.workers[i]? with
    | none =>
      rw [step_worker_none hw]
      exact ⟨rfl, rfl⟩
    | some w =>
      obtain ⟨-, -, hthreads, -, -, -, hhasJobs⟩ := threadDo_fields s i choice w
      rw [step_worker hw]
      exact ⟨hhasJobs, hthreads⟩
  | wake i =>
    rw [step_wake]
    split <;> exact ⟨rfl, rfl⟩
  | owner =>
    rw [step_owner]
    unfold ownerStep
    cases s.owner with
    | initializing =>
      dsimp only
      split <;> exact ⟨rfl, rfl⟩
    | clearing threadsTotal =>
      obtain ⟨s', hkeeps, -, heq⟩ := dealloc_keeps s threadsTotal
      dsimp only
      rw [heq]
      exact ⟨hkeeps.hasJobs, hkeeps.threads⟩
    | _ => exact ⟨rfl, rfl⟩
  | destroy => exact ⟨rfl, rfl⟩

theorem step_keepalive {turn : Turn} (h : turn ≠ .destroy) :
    (s.step turn).threadsKeepalive = s.threadsKeepalive := by
  cases turn with
  | addWork answer work => exact (addWork_keeps s answer work).keepalive
  | push k choice => exact (push_keeps s k choice).keepalive
  | worker i choice =>
    cases hw : s.workers[i]? with
    | none => rw [step_worker_none hw]
    | some w =>
      rw [step_worker hw]
      exact (threadDo_fields ..).2.1
  | wake i =>
    rw [step_wake]
    split <;> rfl
  | owner =>
    rw [step_owner]
    unfold ownerStep
    cases s.owner with
    | initializing =>
      dsimp only
      split <;> rfl
    | clearing threadsTotal =>
      obtain ⟨s', hkeeps, -, heq⟩ := dealloc_keeps s threadsTotal
      dsimp only
      rw [heq]
      exact hkeeps.keepalive
    | _ => rfl
  | destroy => exact absurd rfl h

/-- At all times the jobs pushed are the ones that started and then those that the links lead
through, in order; and each one that started either runs on one thread or has returned, once. -/
theorem jobs_in_order_once (hn : 0 < n) (hmax : n < 209716) (h : s.Reachable n)
    (hlive : s.owner ≠ .returned) :
    ∃ queue, s.jobqueue.Lists s.mempool.bytes queue ∧
      s.pushed = s.started ++ queue.map (Work.load s.mempool.bytes) ∧
      (s.workers.filterMap Worker.number ++ s.finished).Perm (List.range s.started.length) := by
  obtain ⟨free, queue, howns, haccounts⟩ := (h.sound hn hmax).resolve_left hlive
  exact ⟨queue, howns.links, haccounts.pushed, haccounts.numbers⟩

/-- One thread, and a chunk of twenty slots. -/
def poolOfOne : Option ThreadPool := thpoolInit (fun k => 65536 * (k + 1)) 1 fun _ => 0

theorem poolOfOne_isSome : poolOfOne.isSome = true := by decide +kernel

def onePool : ThreadPool := poolOfOne.get poolOfOne_isSome

theorem onePool_reachable {turns : List Turn} (h : LegalRun onePool turns) :
    (onePool.run turns).Reachable 1 :=
  ⟨fun k => 65536 * (k + 1), fun _ => 0, onePool, turns,
    Or.inr ⟨by decide +kernel, by simp [blankPool]⟩, (Option.some_get poolOfOne_isSome).symm, h, rfl⟩

/-- Two jobs are added and pushed in the other order, and the thread starts one. -/
def twoJobs : List Turn :=
  [.worker 0 0, .owner, .addWork 0 ⟨1, 2, 3⟩, .addWork 0 ⟨4, 5, 6⟩, .push 1 0, .push 0 0,
    .worker 0 0, .worker 0 0, .worker 0 0, .worker 0 0, .worker 0 0]

theorem twoJobs_legal : LegalRun onePool twoJobs := by
  unfold LegalRun twoJobs
  simp only [Machine.Along, Turn.Legal, true_and, and_true]
  exact ⟨⟨by decide +kernel, Or.inl rfl⟩, ⟨by decide +kernel, Or.inl rfl⟩, by decide +kernel,
    by decide +kernel⟩

theorem two_jobs_in_order :
    let s := onePool.run twoJobs
    s.started = [⟨4, 5, 6⟩] ∧ ∃ queue, s.jobqueue.Lists s.mempool.bytes queue ∧
      s.pushed = s.started ++ queue.map (Work.load s.mempool.bytes) ∧
      (s.workers.filterMap Worker.number ++ s.finished).Perm (List.range s.started.length) :=
  ⟨by decide +kernel, jobs_in_order_once (by decide) (by decide) (onePool_reachable twoJobs_legal)
    (by decide +kernel)⟩

end ThreadPool

end LBeacon
