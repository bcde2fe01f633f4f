import LBeacon.JobQueue
import LBeacon.PoolFrame
import LBeacon.Lib.Machine
import LBeacon.Lib.Processes

/-!
# The thread pool

`thpool.c`, with any number of threads that serve and that add work. One step of a thread is a
section under a lock together with the private work around it, or one access to a flag. A posted
`cond` wakes a thread that the scheduler chooses, and more of them may wake at any time.
-/

open Bytes CInt

namespace LBeacon

def slotsForMemPoolPerThread : Nat := 20
def sizeOfSlot : Nat := 512

/-! ## Data -/

/-- Where a thread is in `thread_do`. It is `entering` where `bsem_wait` looks at `v`, and
`running` until the function returns; `number` says which job this is, counted from the first. -/
inductive Worker where
  | starting
  | looping
  | entering
  | blocked
  | passed
  | counting
  | pulling
  | running (job number : Nat)
  | freeing (job : Nat)
  | uncounting
  | leaving
  | gone
  deriving DecidableEq

/-- Where the thread is that calls `thpool_init` and `thpool_destroy`. -/
inductive Owner where
  | initializing
  | serving
  | testing (threadsTotal : Int)
  | posting (threadsTotal : Int)
  | clearing (threadsTotal : Int)
  | returned
  deriving DecidableEq

/-- What `malloc` gave: the array of threads, and the pool itself. -/
inductive HeapBlock where
  | threads
  | thpool
  deriving DecidableEq

/-- `hasJobs` is the slot of the semaphore and `v` its value; `threads` are the slots of the
threads, and `workers` where they are. `newjobs` are the jobs of calls of `thpool_add_work` that
did not push yet. `pushed`, `started`, `finished`, `unfreed` and `heapFrees` are what happened so
far: the jobs pushed and those started, in order, the numbers of those that returned, the slots
that `mp_free` did not take, and the calls of `free`. -/
structure ThreadPool where
  mempool : MemoryPool
  jobqueue : JobQueue
  hasJobs : Nat
  v : Int
  threads : List Nat
  numThreadsAlive : Int
  numThreadsWorking : Int
  threadsKeepalive : Bool
  workers : List Worker
  owner : Owner
  newjobs : List (Nat × Work)
  pushed : List Work
  started : List Work
  finished : List Nat
  unfreed : List Nat
  heapFrees : List HeapBlock

namespace ThreadPool

def move (s : ThreadPool) (i : Nat) (w : Worker) : ThreadPool :=
  { s with workers := s.workers.set i w }

/-- What `mp_free` returns is not looked at. -/
def mpFree (s : ThreadPool) (mem : Nat) : ThreadPool :=
  let r := s.mempool.mpFree mem
  { s with
    mempool := r.2
    unfreed := if r.1 = .success then s.unfreed else s.unfreed ++ [mem] }

/-! ## Synchronisation -/

/-- `pthread_cond_signal`: the chosen thread wakes if it is blocked, else the first one that is. -/
def signal (choice : Nat) (workers : List Worker) : List Worker :=
  if workers[choice]? = some .blocked then workers.set choice .entering
  else
    match workers.findIdx? (· = .blocked) with
    | none => workers
    | some i => workers.set i .entering

/-- `pthread_cond_broadcast` -/
def broadcast (workers : List Worker) : List Worker :=
  workers.map fun w => if w = .blocked then .entering else w

def bsemPost (s : ThreadPool) (choice : Nat) : ThreadPool :=
  { s with v := 1, workers := signal choice s.workers }

def bsemPostAll (s : ThreadPool) : ThreadPool := { s with v := 1, workers := broadcast s.workers }

/-- One round of the loop in `bsem_wait`. -/
def bsemWait (s : ThreadPool) (i : Nat) : ThreadPool :=
  if s.v ≠ 1 then s.move i .blocked else { s.move i .passed with v := 0 }

/-! ## Job queue -/

def jobqueuePush (s : ThreadPool) (newjob choice : Nat) : ThreadPool :=
  let r := s.jobqueue.link s.mempool.bytes newjob
  let s := { s with jobqueue := r.1, mempool.bytes := r.2 }
  s.bsemPost choice

/-- More than one job in the queue: the semaphore is posted again. -/
def jobqueuePull (s : ThreadPool) (choice : Nat) : Nat × ThreadPool :=
  let r := s.jobqueue.unlink s.mempool.bytes
  let pulled := { s with jobqueue := r.2 }
  (r.1, if s.jobqueue.len = 0 ∨ s.jobqueue.len = 1 then pulled else pulled.bsemPost choice)

/-- The loop of `jobqueue_clear`. Each round takes a job, so as many rounds as there are jobs are
enough. -/
def clearJobs : Nat → ThreadPool → ThreadPool
  | 0, s => s
  | rounds + 1, s =>
    if s.jobqueue.len = 0 then s
    else
      let r := s.jobqueuePull 0
      clearJobs rounds (r.2.mpFree r.1)

def jobqueueClear (s : ThreadPool) : ThreadPool :=
  { clearJobs s.jobqueue.len.toNat s with jobqueue := ⟨0, 0, 0⟩, v := 0 }

def jobqueueDestroy (s : ThreadPool) : ThreadPool :=
  let s := s.jobqueueClear
  s.mpFree s.hasJobs

/-! ## Threads -/

/-- A step of the thread `i`, which is at `w`. -/
def threadDo (s : ThreadPool) (i choice : Nat) (w : Worker) : ThreadPool :=
  match w with
  | .starting => { s.move i .looping with numThreadsAlive := toInt (s.numThreadsAlive + 1) }
  | .looping => s.move i (if s.threadsKeepalive then .entering else .leaving)
  | .entering => s.bsemWait i
  | .blocked => s
  | .passed => s.move i (if s.threadsKeepalive then .counting else .looping)
  | .counting => { s.move i .pulling with numThreadsWorking := toInt (s.numThreadsWorking + 1) }
  | .pulling =>
    let r := s.jobqueuePull choice
    if r.1 = 0 then r.2.move i .uncounting
    else
      { r.2.move i (.running r.1 s.started.length) with
        started := s.started ++ [Work.load s.mempool.bytes r.1] }
  | .running job number => { s.move i (.freeing job) with finished := s.finished ++ [number] }
  | .freeing job => (s.mpFree job).move i .uncounting
  | .uncounting => { s.move i .looping with numThreadsWorking := toInt (s.numThreadsWorking - 1) }
  | .leaving => { s.move i .gone with numThreadsAlive := toInt (s.numThreadsAlive - 1) }
  | .gone => s

/-! ## thpool_init -/

def jobqueueInit (answer : Nat) (s : ThreadPool) : Option ThreadPool :=
  let r := s.mempool.mpAlloc answer
  if r.1 = 0 then none
  else some { s with mempool := r.2, jobqueue := ⟨0, 0, 0⟩, hasJobs := r.1, v := 0 }

/-- The test for NULL looks at `thread_p`, which points into the array, and not at the slot. -/
def threadInit (answer : Nat) (s : ThreadPool) : ThreadPool :=
  let r := s.mempool.mpAlloc answer
  { s with mempool := r.2, threads := s.threads ++ [r.1], workers := s.workers ++ [.starting] }

/-- The fields that `thpool_init` sets itself, and no thread yet. -/
def blank (mempool : MemoryPool) : ThreadPool where
  mempool
  jobqueue := ⟨0, 0, 0⟩
  hasJobs := 0
  v := 0
  threads := []
  numThreadsAlive := 0
  numThreadsWorking := 0
  threadsKeepalive := true
  workers := []
  owner := .initializing
  newjobs := []
  pushed := []
  started := []
  finished := []
  unfreed := []
  heapFrees := []

/-- Up to the loop that waits for the threads. `mallocs` are the answers of `malloc`: for the
pool, its first chunk, the chunk that the semaphore may need, the array, and the chunks that the
threads may need. -/
def thpoolInit (mallocs : Nat → Nat) (numThreads : Int) (bytes : Memory) : Option ThreadPool :=
  let numThreads := if numThreads < 0 then 0 else numThreads
  let slots := toSize (toInt (numThreads * slotsForMemPoolPerThread))
  if mallocs 0 = 0 then none
  else
    let r := MemoryPool.mpInit (mallocs 1) sizeOfSlot slots bytes
    if r.1 = .error then none
    else
      match jobqueueInit (mallocs 2) (blank r.2) with
      | none => none
      | some s =>
        if mallocs 3 = 0 then none
        else some ((List.range numThreads.toNat).foldl (fun s n => s.threadInit (mallocs (n + 4))) s)

/-! ## thpool_add_work -/

/-- `thpool_add_work` up to `jobqueue_push`. -/
def thpoolAddWork (s : ThreadPool) (answer : Nat) (work : Work) : Int × ThreadPool :=
  let r := s.mempool.mpAlloc answer
  if r.1 = 0 then (-1, { s with mempool := r.2 })
  else
    (0, { s with
      mempool := { r.2 with bytes := work.store r.2.bytes r.1 }
      newjobs := s.newjobs ++ [(r.1, work)] })

/-- The call that filled the `n`-th of these jobs pushes it. -/
def push (s : ThreadPool) (n choice : Nat) : ThreadPool :=
  match s.newjobs[n]? with
  | none => s
  | some e =>
    { s.jobqueuePush e.1 choice with
      newjobs := s.newjobs.eraseIdx n
      pushed := s.pushed ++ [e.2] }

/-! ## thpool_destroy -/

/-- Every block's pointer is set to NULL before it is passed to `free`. -/
def mpDestroy (s : ThreadPool) : ThreadPool :=
  { s with mempool := { s.mempool with head := 0, memory := [], size := 0, slots := 0, blocks := 0 } }

def heapFree (s : ThreadPool) (block : HeapBlock) : ThreadPool :=
  { s with heapFrees := s.heapFrees ++ [block] }

/-- What follows the loops that wait for the threads. -/
def dealloc (s : ThreadPool) (threadsTotal : Int) : ThreadPool :=
  let s := s.jobqueueDestroy
  let s := (s.threads.take threadsTotal.toNat).foldl mpFree s
  let s := s.heapFree .threads
  let s := s.mpDestroy
  let s := s.heapFree .threads
  { s.heapFree .thpool with owner := .returned }

/-- A step of `thpool_init` that waits, or of `thpool_destroy`. Its two loops that post differ in
how long they sleep. -/
def ownerStep (s : ThreadPool) : ThreadPool :=
  match s.owner with
  | .initializing => if s.numThreadsAlive = s.threads.length then { s with owner := .serving } else s
  | .serving => s
  | .testing total =>
    { s with owner := if s.numThreadsAlive ≠ 0 then .posting total else .clearing total }
  | .posting total => { s.bsemPostAll with owner := .testing total }
  | .clearing total => s.dealloc total
  | .returned => s

/-- The call of `thpool_destroy`. -/
def destroy (s : ThreadPool) : ThreadPool :=
  { s with owner := .testing s.numThreadsAlive, threadsKeepalive := false }

/-! ## Runs -/

inductive Turn where
  | addWork (answer : Nat) (work : Work)
  | push (n choice : Nat)
  | worker (i choice : Nat)
  | wake (i : Nat)
  | owner
  | destroy

def step (s : ThreadPool) : Turn → ThreadPool
  | .addWork answer work => (s.thpoolAddWork answer work).2
  | .push n choice => s.push n choice
  | .worker i choice =>
    match s.workers[i]? with
    | none => s
    | some w => s.threadDo i choice w
  | .wake i => if s.workers[i]? = some .blocked then s.move i .entering else s
  | .owner => s.ownerStep
  | .destroy => s.destroy

@[simp] theorem step_addWork (s : ThreadPool) (answer : Nat) (work : Work) :
    s.step (.addWork answer work) = (s.thpoolAddWork answer work).2 := rfl

@[simp] theorem step_push (s : ThreadPool) (n choice : Nat) :
    s.step (.push n choice) = s.push n choice := rfl

@[simp] theorem step_wake (s : ThreadPool) (i : Nat) : s.step (.wake i) =
    if s.workers[i]? = some .blocked then s.move i .entering else s := rfl

@[simp] theorem step_owner (s : ThreadPool) : s.step .owner = s.ownerStep := rfl

@[simp] theorem step_destroy (s : ThreadPool) : s.step .destroy = s.destroy := rfl

theorem step_worker {s : ThreadPool} {i : Nat} {w : Worker} (hw : s.workers[i]? = some w)
    (choice : Nat) : s.step (.worker i choice) = s.threadDo i choice w := by
  simp only [step, hw]

theorem step_worker_none {s : ThreadPool} {i : Nat} (hw : s.workers[i]? = none) (choice : Nat) :
    s.step (.worker i choice) = s := by
  simp only [step, hw]

theorem push_none {s : ThreadPool} {k : Nat} (he : s.newjobs[k]? = none) (choice : Nat) :
    s.push k choice = s := by
  simp only [push, he]

/-- Work is added between `thpool_init` and `thpool_destroy`, and `malloc` gives fresh blocks. -/
def Turn.Legal (s : ThreadPool) : Turn → Prop
  | .addWork answer _ => s.owner = .serving ∧ MallocOk s.mempool answer
  | .push _ _ => s.owner = .serving
  | .destroy => s.owner = .serving ∧ s.newjobs = []
  | _ => True

def run (s : ThreadPool) (turns : List Turn) : ThreadPool := turns.foldl step s

def LegalRun (s : ThreadPool) (turns : List Turn) : Prop :=
  Machine.Along step (fun s turn => turn.Legal s) s turns

end ThreadPool

end LBeacon
