import LBeacon.Device
import LBeacon.Lib.Machine
import Mathlib.Data.List.Induction

/-!
# The communication unit

`CommUnit_routine` over the buffer lists, with the threads that fill the lists and the workers
that take its jobs. The routine holds the lock of the priority list during a pass, so the order
of the lists does not change.
-/

namespace LBeacon

/-! ## Data -/

structure CommonConfig where
  minAgeOutOfDatePacketInSec : Int
  timeCriticalPriority : Int

def maxStarvationTime : Int := 600

/-- The fields of a `BufferNode` that the routine reads. `slot` is where it lies. -/
structure BufferNode where
  slot : Slot
  uptimeAtReceive : Int
  deriving DecidableEq

structure BufferListHead (F : Type) where
  priorityNice : Int
  function : F
  deriving DecidableEq

structure Job (F : Type) where
  slot : Slot
  function : F
  arg : BufferNode
  priority : Int

/-- The priority list in its order, the clock and the allocator of job slots. -/
structure CommWorld (F : Type) where
  config : CommonConfig
  heads : List (BufferListHead F)
  clock : Nat → Int
  offer : Nat → Option Slot

inductive Pass where
  | normal
  | critical
  | reverse
  deriving DecidableEq

/-- Where the routine is: at the head of the outer loop, in front of a list in one of the three
loops, with a node that it unlinked, or done. `reverse n` has `n` lists left. -/
inductive Place (F : Type) where
  | outer
  | scan (i : Nat)
  | critical (i : Nat)
  | reverse (n : Nat)
  | holding (pass : Pass) (i : Nat) (head : BufferListHead F) (node : BufferNode)
  | stopped

/-- A node that the routine unlinked, from which list and at which `uptime`. -/
structure Unlinked (F : Type) where
  list : Nat
  head : BufferListHead F
  node : BufferNode
  uptime : Int
  deriving DecidableEq

/-- `arrivals`, `handled`, `queued` and `nodeFrees` are what happened so far: the nodes added to
each list, those that the routine is done with, the calls that became jobs, and the nodes passed
to `mp_free(&node_mempool, ..)`. -/
structure CommUnit (F : Type) where
  nodes : Nat → List BufferNode
  place : Place F
  uptime : Int
  initTime : Int
  readings : Nat
  readyToWork : Bool
  jobPool : Pool
  jobQueue : List (Job F)
  running : List (Job F)
  arrivals : Nat → List BufferNode
  handled : List (Unlinked F)
  queued : List (F × BufferNode)
  nodeFrees : List BufferNode

variable {F : Type}

/-- After `thpool_init`, which takes slots of the pool for its threads. -/
def CommUnit.init (w : CommWorld F) (jobPool : Pool) : CommUnit F :=
  ⟨fun _ => [], .outer, w.clock 0, w.clock 0, 1, true, jobPool, [], [], fun _ => [], [], [], []⟩

/-! ## Thread pool -/

/-- `thpool_add_work`. Without a slot it returns -1, which nobody looks at. -/
def CommUnit.thpoolAddWork (w : CommWorld F) (s : CommUnit F) (function : F) (arg : BufferNode)
    (priority : Int) : CommUnit F :=
  match mpAlloc w.offer s.jobPool with
  | (none, jobPool) => { s with jobPool }
  | (some slot, jobPool) =>
    { s with
      jobPool
      jobQueue := s.jobQueue ++ [⟨slot, function, arg, priority⟩]
      queued := s.queued ++ [(function, arg)] }

/-- A worker takes the job at the front. -/
def CommUnit.pull (s : CommUnit F) : CommUnit F :=
  match s.jobQueue with
  | [] => s
  | job :: rest => { s with jobQueue := rest, running := s.running ++ [job] }

/-- The function of a job returned, and its slot goes back. -/
def CommUnit.finish (s : CommUnit F) (n : Nat) : CommUnit F :=
  match s.running[n]? with
  | none => s
  | some job =>
    { s with running := s.running.eraseIdx n, jobPool := mpFree s.jobPool job.slot }

/-! ## The routine -/

def CommUnit.readClock (w : CommWorld F) (s : CommUnit F) : CommUnit F :=
  { s with uptime := w.clock s.readings, readings := s.readings + 1 }

/-- `uptime = get_clock_time()`, and the condition of the inner loop. -/
def CommUnit.nextPass (w : CommWorld F) (s : CommUnit F) : CommUnit F :=
  let s := s.readClock w
  if s.readyToWork ∧ s.uptime - s.initTime < maxStarvationTime ∨ s.uptime < s.initTime then
    { s with place := .scan 0 }
  else { s with place := .critical 0 }

/-- The section under the lock of list `i`: its first node is unlinked. -/
def CommUnit.take (s : CommUnit F) (pass : Pass) (i : Nat) (head : BufferListHead F)
    (next : Place F) : CommUnit F :=
  match s.nodes i with
  | [] => { s with place := next }
  | node :: rest =>
    { s with
      nodes := fun j => if j = i then rest else s.nodes j
      place := .holding pass i head node }

def CommUnit.outOfDate (w : CommWorld F) (s : CommUnit F) (node : BufferNode) : Prop :=
  s.uptime - node.uptimeAtReceive > w.config.minAgeOutOfDatePacketInSec

instance (w : CommWorld F) (s : CommUnit F) (node : BufferNode) : Decidable (s.outOfDate w node) :=
  inferInstanceAs (Decidable (_ > _))

/-- What follows the section, in each of the three loops. -/
def CommUnit.handle (w : CommWorld F) (s : CommUnit F) (pass : Pass) (i : Nat)
    (head : BufferListHead F) (node : BufferNode) : CommUnit F :=
  let unlinked : Unlinked F := ⟨i, head, node, s.uptime⟩
  let s := { s with handled := s.handled ++ [unlinked] }
  match pass with
  | .normal =>
    if s.outOfDate w node then
      { s with nodeFrees := s.nodeFrees ++ [node], place := .scan (i + 1) }
    else (s.thpoolAddWork w head.function node head.priorityNice).nextPass w
  | .critical =>
    { s.thpoolAddWork w head.function node head.priorityNice with place := .reverse w.heads.length }
  | .reverse => { s.thpoolAddWork w head.function node head.priorityNice with place := .reverse i }

def CommUnit.routine (w : CommWorld F) (s : CommUnit F) : CommUnit F :=
  match s.place with
  | .outer => if s.readyToWork then s.nextPass w else { s with place := .stopped }
  | .scan i =>
    match w.heads[i]? with
    | none => s.nextPass w
    | some head => s.take .normal i head (.scan (i + 1))
  | .critical i =>
    match w.heads[i]? with
    | none => { s with place := .reverse w.heads.length }
    | some head =>
      if head.priorityNice ≠ w.config.timeCriticalPriority then
        { s with place := .reverse w.heads.length }
      else s.take .critical i head (.critical (i + 1))
  | .reverse 0 =>
    { s with initTime := w.clock s.readings, readings := s.readings + 1, place := .outer }
  | .reverse (n + 1) =>
    match w.heads[n]? with
    | none => { s with place := .reverse n }
    | some head => s.take .reverse n head (.reverse n)
  | .holding pass i head node => s.handle w pass i head node
  | .stopped => s

/-! ## All threads -/

inductive CommTurn where
  | add (i : Nat) (node : BufferNode)
  | routine
  | pull
  | finish (n : Nat)
  | stop

def CommUnit.step (w : CommWorld F) (s : CommUnit F) : CommTurn → CommUnit F
  | .add i node =>
    { s with
      nodes := fun j => if j = i then s.nodes j ++ [node] else s.nodes j
      arrivals := fun j => if j = i then s.arrivals j ++ [node] else s.arrivals j }
  | .routine => s.routine w
  | .pull => s.pull
  | .finish n => s.finish n
  | .stop => { s with readyToWork := false }

def CommUnit.run (w : CommWorld F) (jobPool : Pool) (turns : List CommTurn) : CommUnit F :=
  turns.foldl (CommUnit.step w) (.init w jobPool)

/-! ## What should become of a node -/

def CommWorld.slotFree (w : CommWorld F) (jobPool : Pool) : Prop :=
  ∃ slot, w.offer jobPool.calls = some slot ∧ slot ∉ jobPool.outstanding

def Unlinked.outOfDate (w : CommWorld F) (u : Unlinked F) : Bool :=
  u.uptime - u.node.uptimeAtReceive > w.config.minAgeOutOfDatePacketInSec

def Unlinked.call (u : Unlinked F) : F × BufferNode := (u.head.function, u.node)

/-- The node between its list and what becomes of it. -/
def CommUnit.inHand (s : CommUnit F) : List (Unlinked F) :=
  match s.place with
  | .holding _ i head node => [⟨i, head, node, s.uptime⟩]
  | _ => []

def nodesOf (i : Nat) (unlinked : List (Unlinked F)) : List BufferNode :=
  (unlinked.filter fun u => u.list = i).map Unlinked.node

/-- The nodes of a list are unlinked in the order in which they arrived. -/
structure CommUnit.Ordered (w : CommWorld F) (s : CommUnit F) : Prop where
  order : ∀ i, nodesOf i (s.handled ++ s.inHand) ++ s.nodes i = s.arrivals i
  lists : ∀ u ∈ s.handled ++ s.inHand, w.heads[u.list]? = some u.head

/-- Of the nodes that the routine is done with, those that were out of date were freed, once each,
and each other one is in one job, with the function of its list; both in order. -/
structure CommUnit.Settled (w : CommWorld F) (s : CommUnit F) : Prop where
  freed : s.nodeFrees = (s.handled.filter (·.outOfDate w)).map Unlinked.node
  queued : s.queued = (s.handled.filter (!·.outOfDate w)).map Unlinked.call

def CommUnit.Handles (w : CommWorld F) (s : CommUnit F) : Prop := s.Ordered w ∧ s.Settled w

/-- No node is dispatched that is out of date, which only the normal pass looks at, and none
without a free job slot. -/
def CommTurn.Ok (w : CommWorld F) (s : CommUnit F) : CommTurn → Prop
  | .routine => ∀ pass i head node, s.place = .holding pass i head node →
      pass = .normal ∧ s.outOfDate w node ∨ ¬ s.outOfDate w node ∧ w.slotFree s.jobPool
  | _ => True

/-! ## One step -/

theorem thpoolAddWork_eq (w : CommWorld F) (s : CommUnit F) (function : F) (arg : BufferNode)
    (priority : Int) : ∃ jobPool jobQueue queued,
      s.thpoolAddWork w function arg priority = { s with jobPool, jobQueue, queued } ∧
      (w.slotFree s.jobPool ∧ queued = s.queued ++ [(function, arg)] ∨
        ¬ w.slotFree s.jobPool ∧ queued = s.queued) := by
  unfold CommUnit.thpoolAddWork CommWorld.slotFree mpAlloc
  cases hoffer : w.offer s.jobPool.calls with
  | none => exact ⟨_, _, _, rfl, Or.inr ⟨by simp, rfl⟩⟩
  | some slot =>
    by_cases hslot : slot ∈ s.jobPool.outstanding
    · simp only [dif_pos hslot]
      exact ⟨_, _, _, rfl, Or.inr ⟨by simpa using hslot, rfl⟩⟩
    · simp only [dif_neg hslot]
      exact ⟨_, _, _, rfl, Or.inl ⟨⟨slot, rfl, hslot⟩, rfl⟩⟩

theorem nextPass_eq (w : CommWorld F) (s : CommUnit F) :
    ∃ place, s.nextPass w = { s.readClock w with place } ∧ (s.nextPass w).inHand = [] := by
  unfold CommUnit.nextPass
  dsimp only
  split
  · exact ⟨_, rfl, rfl⟩
  · exact ⟨_, rfl, rfl⟩

theorem handle_spec (w : CommWorld F) (s : CommUnit F) (pass : Pass) (i : Nat)
    (head : BufferListHead F) (node : BufferNode) :
    let s' := s.handle w pass i head node
    s'.nodes = s.nodes ∧ s'.arrivals = s.arrivals ∧
      s'.handled = s.handled ++ [⟨i, head, node, s.uptime⟩] ∧ s'.inHand = [] ∧
      (pass = .normal ∧ s.outOfDate w node ∧ s'.nodeFrees = s.nodeFrees ++ [node] ∧
          s'.queued = s.queued ∨
        ¬ (pass = .normal ∧ s.outOfDate w node) ∧ s'.nodeFrees = s.nodeFrees ∧
          (w.slotFree s.jobPool ∧ s'.queued = s.queued ++ [(head.function, node)] ∨
            ¬ w.slotFree s.jobPool ∧ s'.queued = s.queued)) := by
  intro s'
  have hadd := thpoolAddWork_eq w
    { s with handled := s.handled ++ [(⟨i, head, node, s.uptime⟩ : Unlinked F)] } head.function node
    head.priorityNice
  obtain ⟨jobPool, jobQueue, queued, hadd, hqueued⟩ := hadd
  unfold s' CommUnit.handle
  dsimp only
  rw [hadd]
  cases pass with
  | normal =>
    dsimp only
    split
    next hold => exact ⟨rfl, rfl, rfl, rfl, Or.inl ⟨rfl, hold, rfl, rfl⟩⟩
    next hnew =>
      obtain ⟨place, hnext, hhand⟩ := nextPass_eq w
        { s with handled := s.handled ++ [(⟨i, head, node, s.uptime⟩ : Unlinked F)]
                 jobPool, jobQueue, queued }
      refine ⟨?_, ?_, ?_, hhand, Or.inr ⟨fun h => hnew h.2, ?_, ?_⟩⟩
      all_goals rw [hnext]
      · rfl
      · rfl
      · rfl
      · rfl
      · exact hqueued
  | critical =>
    exact ⟨rfl, rfl, rfl, rfl, Or.inr ⟨fun h => Pass.noConfusion h.1, rfl, hqueued⟩⟩
  | reverse =>
    exact ⟨rfl, rfl, rfl, rfl, Or.inr ⟨fun h => Pass.noConfusion h.1, rfl, hqueued⟩⟩

theorem take_spec (w : CommWorld F) (s : CommUnit F) (pass : Pass) {i : Nat}
    {head : BufferListHead F} (hhead : w.heads[i]? = some head) {next : Place F}
    (hnext : ∀ pass i head node, next ≠ .holding pass i head node) :
    let s' := s.take pass i head next
    s'.arrivals = s.arrivals ∧ s'.handled = s.handled ∧ s'.nodeFrees = s.nodeFrees ∧
      s'.queued = s.queued ∧ (∀ u ∈ s'.inHand, w.heads[u.list]? = some u.head) ∧
      ∀ j, nodesOf j s'.inHand ++ s'.nodes j = s.nodes j := by
  intro s'
  unfold s' CommUnit.take
  cases hnodes : s.nodes i with
  | nil =>
    have hnone : CommUnit.inHand { s with place := next } = [] := by
      unfold CommUnit.inHand
      cases next with
      | holding pass i head node => exact absurd rfl (hnext pass i head node)
      | _ => rfl
    dsimp only
    rw [hnone]
    exact ⟨rfl, rfl, rfl, rfl, fun u hu => absurd hu List.not_mem_nil, fun j => rfl⟩
  | cons node rest =>
    refine ⟨rfl, rfl, rfl, rfl, ?_, fun j => ?_⟩
    · intro u hu
      obtain rfl := List.mem_singleton.mp hu
      exact hhead
    · by_cases hj : j = i
      · subst hj
        simp [nodesOf, CommUnit.inHand, hnodes]
      · simp [nodesOf, CommUnit.inHand, hj, Ne.symm hj]

theorem nodesOf_append (i : Nat) (xs ys : List (Unlinked F)) :
    nodesOf i (xs ++ ys) = nodesOf i xs ++ nodesOf i ys := by
  unfold nodesOf
  rw [List.filter_append, List.map_append]

theorem CommUnit.Handles.of_same {w : CommWorld F} {s s' : CommUnit F} (h : s.Handles w)
    (hhand : s.inHand = []) (harrivals : s'.arrivals = s.arrivals) (hhandled : s'.handled = s.handled)
    (hfrees : s'.nodeFrees = s.nodeFrees) (hqueued : s'.queued = s.queued)
    (hheads : ∀ u ∈ s'.inHand, w.heads[u.list]? = some u.head)
    (hnodes : ∀ j, nodesOf j s'.inHand ++ s'.nodes j = s.nodes j) : s'.Handles w := by
  obtain ⟨⟨horder, hlists⟩, hfreed, hjobs⟩ := h
  rw [hhand, List.append_nil] at hlists
  refine ⟨⟨fun j => ?_, fun u hu => ?_⟩, ?_, ?_⟩
  · rw [nodesOf_append, List.append_assoc, hnodes, hhandled, harrivals, ← horder j, hhand,
      List.append_nil]
  · rw [hhandled] at hu
    exact (List.mem_append.mp hu).elim (hlists u) (hheads u)
  · rw [hfrees, hhandled]
    exact hfreed
  · rw [hqueued, hhandled]
    exact hjobs

theorem CommUnit.Handles.of_elsewhere {w : CommWorld F} {s s' : CommUnit F} (h : s.Handles w)
    (hhand : s'.inHand = s.inHand) (harrivals : s'.arrivals = s.arrivals)
    (hnodes : s'.nodes = s.nodes) (hhandled : s'.handled = s.handled)
    (hfrees : s'.nodeFrees = s.nodeFrees) (hqueued : s'.queued = s.queued) : s'.Handles w := by
  obtain ⟨⟨horder, hlists⟩, hfreed, hjobs⟩ := h
  refine ⟨⟨?_, ?_⟩, ?_, ?_⟩
  · rw [hhandled, hhand, hnodes, harrivals]
    exact horder
  · rw [hhandled, hhand]
    exact hlists
  · rw [hfrees, hhandled]
    exact hfreed
  · rw [hqueued, hhandled]
    exact hjobs

theorem settled_snoc_iff {w : CommWorld F} {s s' : CommUnit F} (h : s.Settled w) {u : Unlinked F}
    (hhandled : s'.handled = s.handled ++ [u]) : s'.Settled w ↔
      s'.nodeFrees = s.nodeFrees ++ (if u.outOfDate w then [u.node] else []) ∧
        s'.queued = s.queued ++ (if u.outOfDate w then [] else [u.call]) := by
  have hfilter (p : Unlinked F → Bool) :
      s'.handled.filter p = s.handled.filter p ++ if p u then [u] else [] := by
    rw [hhandled, List.filter_append]
    cases hp : p u <;> simp [hp]
  rw [h.freed, h.queued]
  constructor
  · rintro ⟨hfreed, hjobs⟩
    rw [hfilter, List.map_append] at hfreed hjobs
    rw [hfreed, hjobs]
    cases hold : u.outOfDate w <;> simp
  · rintro ⟨hfreed, hjobs⟩
    constructor
    · rw [hfreed, hfilter, List.map_append]
      cases hold : u.outOfDate w <;> simp
    · rw [hjobs, hfilter, List.map_append]
      cases hold : u.outOfDate w <;> simp

theorem handle_handles_iff {w : CommWorld F} {s : CommUnit F} (h : s.Handles w) {pass : Pass}
    {i : Nat} {head : BufferListHead F} {node : BufferNode}
    (hplace : s.place = .holding pass i head node) :
    (s.handle w pass i head node).Handles w ↔
      (pass = .normal ∧ s.outOfDate w node ∨ ¬ s.outOfDate w node ∧ w.slotFree s.jobPool) := by
  obtain ⟨hnodes, harrivals, hhandled, hhand, hout⟩ := handle_spec w s pass i head node
  obtain ⟨⟨horder, hlists⟩, hfreed, hjobs⟩ := h
  have hbefore : s.inHand = [⟨i, head, node, s.uptime⟩] := by
    unfold CommUnit.inHand
    rw [hplace]
  set s' := s.handle w pass i head node
  have hordered : s'.Ordered w := by
    constructor
    · rw [hhandled, hhand, hnodes, harrivals, List.append_nil, ← hbefore]
      exact horder
    · rw [hhandled, hhand, List.append_nil, ← hbefore]
      exact hlists
  have hsettled := settled_snoc_iff ⟨hfreed, hjobs⟩ hhandled
  have hdate : (⟨i, head, node, s.uptime⟩ : Unlinked F).outOfDate w =
      decide (s.outOfDate w node) := rfl
  simp only [hdate, decide_eq_true_eq] at hsettled
  unfold CommUnit.Handles
  rw [and_iff_right hordered, hsettled]
  by_cases hold : s.outOfDate w node
  · simp only [hold, if_true, List.append_nil, and_true, not_true_eq_false, false_and, or_false]
    rcases hout with ⟨hpass, -, hfrees', hqueued'⟩ | ⟨hpass, hfrees', -⟩
    · exact ⟨fun _ => hpass, fun _ => ⟨hfrees', hqueued'⟩⟩
    · constructor
      · rintro ⟨hfreed', -⟩
        rw [hfrees'] at hfreed'
        simp at hfreed'
      · exact fun hnormal => absurd ⟨hnormal, hold⟩ hpass
  · simp only [hold, if_false, List.append_nil, and_false, not_false_eq_true, true_and, false_or]
    rcases hout with ⟨-, hold', -⟩ | ⟨-, hfrees', ⟨hslot, hqueued'⟩ | ⟨hslot, hqueued'⟩⟩
    · exact absurd hold' hold
    · exact ⟨fun _ => hslot, fun _ => ⟨hfrees', hqueued'⟩⟩
    · constructor
      · rintro ⟨-, hjobs'⟩
        rw [hqueued'] at hjobs'
        simp at hjobs'
      · exact fun hfree => absurd hfree hslot

theorem CommUnit.Handles.nextPass {w : CommWorld F} {s : CommUnit F} (h : s.Handles w)
    (hhand : s.inHand = []) : (s.nextPass w).Handles w := by
  obtain ⟨place, hnext, hhand'⟩ := nextPass_eq w s
  rw [hnext] at hhand' ⊢
  exact h.of_elsewhere (hhand'.trans hhand.symm) rfl rfl rfl rfl rfl

theorem CommUnit.Handles.take {w : CommWorld F} {s : CommUnit F} (h : s.Handles w)
    (hhand : s.inHand = []) (pass : Pass) {i : Nat} {head : BufferListHead F}
    (hhead : w.heads[i]? = some head) {next : Place F}
    (hnext : ∀ pass i head node, next ≠ .holding pass i head node) :
    (s.take pass i head next).Handles w := by
  obtain ⟨harrivals, hhandled, hfrees, hqueued, hheads, hnodes⟩ := take_spec w s pass hhead hnext
  exact h.of_same hhand harrivals hhandled hfrees hqueued hheads hnodes

theorem CommUnit.Handles.routine_empty {w : CommWorld F} {s : CommUnit F} (h : s.Handles w)
    (hhand : s.inHand = []) : (s.routine w).Handles w := by
  cases hplace : s.place with
  | holding pass i head node =>
    unfold CommUnit.inHand at hhand
    rw [hplace] at hhand
    exact absurd hhand (List.cons_ne_nil _ _)
  | outer =>
    simp only [CommUnit.routine, hplace]
    split
    · exact h.nextPass hhand
    · exact h.of_elsewhere hhand.symm rfl rfl rfl rfl rfl
  | scan i =>
    simp only [CommUnit.routine, hplace]
    split
    · exact h.nextPass hhand
    next head hhead => exact h.take hhand .normal hhead fun _ _ _ _ h => nomatch h
  | critical i =>
    simp only [CommUnit.routine, hplace]
    split
    · exact h.of_elsewhere hhand.symm rfl rfl rfl rfl rfl
    next head hhead =>
      split
      · exact h.of_elsewhere hhand.symm rfl rfl rfl rfl rfl
      · exact h.take hhand .critical hhead fun _ _ _ _ h => nomatch h
  | reverse n =>
    cases n with
    | zero =>
      simp only [CommUnit.routine, hplace]
      exact h.of_elsewhere hhand.symm rfl rfl rfl rfl rfl
    | succ n =>
      simp only [CommUnit.routine, hplace]
      split
      · exact h.of_elsewhere hhand.symm rfl rfl rfl rfl rfl
      next head hhead => exact h.take hhand .reverse hhead fun _ _ _ _ h => nomatch h
  | stopped =>
    simp only [CommUnit.routine, hplace]
    exact h

theorem exists_holding {s : CommUnit F} (h : s.inHand ≠ []) :
    ∃ pass i head node, s.place = .holding pass i head node := by
  unfold CommUnit.inHand at h
  split at h
  next pass i head node hplace => exact ⟨pass, i, head, node, hplace⟩
  next => exact absurd rfl h

theorem routine_handles_iff {w : CommWorld F} {s : CommUnit F} (h : s.Handles w) :
    (s.routine w).Handles w ↔ CommTurn.routine.Ok w s := by
  by_cases hhand : s.inHand = []
  · refine iff_of_true (h.routine_empty hhand) fun pass i head node hplace => ?_
    unfold CommUnit.inHand at hhand
    rw [hplace] at hhand
    exact absurd hhand (List.cons_ne_nil _ _)
  · obtain ⟨pass, i, head, node, hplace⟩ := exists_holding hhand
    have hstep : s.routine w = s.handle w pass i head node := by
      simp only [CommUnit.routine, hplace]
    rw [hstep, handle_handles_iff h hplace]
    constructor
    · intro hok pass' i' head' node' hplace'
      rw [hplace] at hplace'
      obtain ⟨rfl, rfl, rfl, rfl⟩ := Place.holding.inj hplace'
      exact hok
    · exact fun hok => hok pass i head node hplace

theorem commUnit_step_iff {w : CommWorld F} {s : CommUnit F} (h : s.Handles w) (turn : CommTurn) :
    (s.step w turn).Handles w ↔ turn.Ok w s := by
  cases turn with
  | routine => exact routine_handles_iff h
  | add i node =>
    refine iff_of_true ⟨⟨fun j => ?_, h.1.lists⟩, h.2.freed, h.2.queued⟩ trivial
    have horder := h.1.order j
    unfold CommUnit.step
    dsimp only
    split
    · rw [← List.append_assoc, ← horder]
      rfl
    · exact horder
  | pull =>
    refine iff_of_true ?_ trivial
    unfold CommUnit.step CommUnit.pull
    dsimp only
    split
    · exact h
    · exact h.of_elsewhere rfl rfl rfl rfl rfl rfl
  | finish n =>
    refine iff_of_true ?_ trivial
    unfold CommUnit.step CommUnit.finish
    dsimp only
    split
    · exact h
    · exact h.of_elsewhere rfl rfl rfl rfl rfl rfl
  | stop => exact iff_of_true (h.of_elsewhere rfl rfl rfl rfl rfl rfl) trivial

/-! ## Runs -/

theorem commUnit_init_handles (w : CommWorld F) (jobPool : Pool) :
    (CommUnit.init w jobPool).Handles w := by
  refine ⟨⟨fun _ => rfl, fun u hu => absurd hu List.not_mem_nil⟩, rfl, rfl⟩

/-- In every state of a run each node that was unlinked is handled as it should be, exactly when
the routine dispatches no node that is out of date and none without a free job slot. -/
theorem nodes_handled_iff (w : CommWorld F) (jobPool : Pool) (turns : List CommTurn) :
    (∀ n, (CommUnit.run w jobPool (turns.take n)).Handles w) ↔
      Machine.Along (CommUnit.step w) (fun s turn => turn.Ok w s) (.init w jobPool) turns :=
  Machine.along_iff (P := CommUnit.Handles w) (fun _ turn h => commUnit_step_iff h turn)
    (commUnit_init_handles w jobPool) turns

/-- One list, not a time-critical one. -/
def oneListWorld (clock : Nat → Int) (offer : Nat → Option Slot) : CommWorld Unit :=
  ⟨⟨100, 1⟩, [⟨0, ()⟩], clock, offer⟩

/-- Without a job slot a fresh node is gone: it is in no list, no job and not freed. After 600
seconds a node that is out of date is dispatched. -/
theorem nodes_mishandled :
    let w := oneListWorld (fun _ => 0) fun _ => none
    let s := CommUnit.run w .empty [.add 0 ⟨7, 0⟩, .routine, .routine, .routine]
    let w' := oneListWorld (fun k => if k = 0 then 0 else 700) some
    let s' := CommUnit.run w' .empty
      [.add 0 ⟨7, 0⟩, .routine, .routine, .routine, .routine]
    (s.handled = [⟨0, ⟨0, ()⟩, ⟨7, 0⟩, 0⟩] ∧ s.nodes 0 = [] ∧ s.queued = [] ∧ s.nodeFrees = [] ∧
      ¬ s.Handles w) ∧
    (s'.handled = [⟨0, ⟨0, ()⟩, ⟨7, 0⟩, 700⟩] ∧ s'.queued = [((), ⟨7, 0⟩)] ∧ s'.nodeFrees = [] ∧
      ¬ s'.Handles w') := by
  intro w s w' s'
  have hlost : s.queued = [] := by decide
  have hold : s'.nodeFrees = [] := by decide
  refine ⟨⟨by decide, by decide, hlost, by decide, fun h => ?_⟩,
    ⟨by decide, by decide, hold, fun h => ?_⟩⟩
  · exact absurd (hlost.symm.trans h.2.queued) (by decide)
  · exact absurd (hold.symm.trans h.2.freed) (by decide)

end LBeacon
