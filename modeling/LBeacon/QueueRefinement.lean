import LBeacon.PktQueue
import LBeacon.Lib.Machine

/-!
# The packet queue is a bounded FIFO

Any calls after `init_Packet_Queue`, whatever the memory held before.
-/

open CText CMemory

namespace LBeacon

/-! ## The other functions of the queue -/

/-- `Reset all flags in the pkt queue` -/
def PktQueue.resetFlags (q : PktQueue) : PktQueue :=
  { q with queue := fun i =>
      if i < maxQueueLength then { q.queue i with isNull := true } else q.queue i }

def initPacketQueueIn (memory : PktQueue) : PktQueue :=
  { memory with front := -1, rear := -1, isFree := false }.resetFlags

/-- The loop of `Free_Packet_Queue`, for a number of rounds. -/
def deleteAll : Nat → PktQueue → PktQueue
  | 0, q => q
  | n + 1, q => if q.isNull then q else deleteAll n (delpkt q)

def freePacketQueue (q : PktQueue) : PktQueue :=
  (deleteAll maxQueueLength { q with isFree := true }).resetFlags

def queueLenError : Int := -2

def PktQueue.queueLen (q : PktQueue) : Int :=
  if q.front = 0 ∧ q.rear = 0 then 1
  else if q.front = -1 ∧ q.rear = -1 then 0
  else if q.front = q.rear then 1
  else if q.rear > q.front then q.rear - q.front + 1
  else if q.front > q.rear then maxQueueLength - q.front + q.rear + 1
  else queueLenError

/-- `contentSize` is a length: of a string, or of what `recvfrom` returned. -/
inductive QueueOp where
  | addpkt (address : Ptr) (port : Nat) (content : Ptr) (contentSize : Nat)
  | getPkt
  | delpkt
  | free

inductive QueueAnswer where
  | code (c : QueueCode)
  | packet (p : SPkt)

def queueStep (q : PktQueue) : QueueOp → QueueAnswer × PktQueue
  | .addpkt address port content contentSize =>
    let r := (addpkt q address port content contentSize).value
    (.code r.1, r.2)
  | .getPkt => (.packet (getPkt q).1, (getPkt q).2)
  | .delpkt => (.code .success, delpkt q)
  | .free => (.code .success, freePacketQueue q)

/-! ## The queue as a list -/

structure PktFifo where
  packets : Fifo.Bounded SPkt maxQueueLength
  isFree : Bool

def PktFifo.init : PktFifo := ⟨.empty, false⟩

/-- Address and content end at the first NUL, and are cut to the sizes given. -/
def packetFor (address : Ptr) (port : Nat) (content : Ptr) (contentSize : Nat) : SPkt :=
  ⟨false, address.text.take networkAddrLength, port, content.text.take contentSize, contentSize⟩

def fifoStep (s : PktFifo) : QueueOp → QueueAnswer × PktFifo
  | .addpkt address port content contentSize =>
    if contentSize > messageLength then (.code .messageOversize, s)
    else if s.isFree then (.code .isFree, s)
    else match s.packets.push (packetFor address port content contentSize) with
      | none => (.code .full, s)
      | some packets => (.code .success, { s with packets })
  | .getPkt =>
    (.packet (s.packets.items.headD { SPkt.zeroed with isNull := true }),
      { s with packets := s.packets.pop })
  | .delpkt => (.code .success, { s with packets := s.packets.pop })
  | .free => (.code .success, ⟨.empty, true⟩)

/-! ## Agreement -/

/-- The packets are those in the cells in use, and only these cells are not null. -/
def Agrees (q : PktQueue) (s : PktFifo) : Prop :=
  q.isFree = s.isFree ∧
  ∃ cells, q.Uses cells ∧ s.packets.items = cells.map q.queue ∧
    ∀ i < maxQueueLength, (q.queue i).isNull = false ↔ i ∈ cells

theorem Agrees.holds {q : PktQueue} {s : PktFifo} (h : Agrees q s) : q.Holds s.packets.items := by
  obtain ⟨-, cells, huses, hitems, -⟩ := h
  exact holds_iff_uses.mpr ⟨cells, huses, hitems⟩

theorem init_agrees (memory : PktQueue) : Agrees (initPacketQueueIn memory) .init := by
  refine ⟨rfl, [], Or.inl ⟨rfl, rfl, rfl⟩, rfl, fun i hi => ?_⟩
  unfold initPacketQueueIn PktQueue.resetFlags
  simp [hi]

theorem addpkt_value {q : PktQueue} {address content : Ptr} {port contentSize : Nat} :
    (addpkt q address port content contentSize).value =
      if contentSize > messageLength then (.messageOversize, q)
      else if q.isFree then (.isFree, q)
      else if q.isFull then (.full, q)
      else (.success, q.nextRear.write q.nextRear.rear.toNat
        (packetFor address port content contentSize)) := by
  unfold addpkt
  split
  · rfl
  · split
    · rfl
    · split <;> rfl

theorem addpkt_agrees {q : PktQueue} {s : PktFifo} (h : Agrees q s) (address : Ptr) (port : Nat)
    (content : Ptr) (contentSize : Nat) :
    let op := QueueOp.addpkt address port content contentSize
    (queueStep q op).1 = (fifoStep s op).1 ∧ Agrees (queueStep q op).2 (fifoStep s op).2 := by
  intro op
  unfold op queueStep fifoStep
  simp only [addpkt_value]
  by_cases hsize : contentSize > messageLength
  · simp only [if_pos hsize]
    exact ⟨trivial, h⟩
  simp only [if_neg hsize, h.1]
  by_cases hfree : s.isFree = true
  · simp only [if_pos hfree]
    exact ⟨trivial, h⟩
  simp only [if_neg hfree]
  by_cases hfull : q.isFull = true
  · rw [if_pos hfull, Fifo.Bounded.push_full ((isFull_iff h.holds).mp hfull)]
    exact ⟨rfl, h⟩
  · have hroom : s.packets.items.length < maxQueueLength :=
      lt_of_le_of_ne s.packets.bounded fun heq => hfull ((isFull_iff h.holds).mpr heq)
    obtain ⟨packets, hpush, hitems⟩ :=
      Fifo.Bounded.push_of_lt hroom (packetFor address port content contentSize)
    rw [if_neg hfull, hpush]
    obtain ⟨hclosed, cells, huses, hcells, hflags⟩ := h
    rw [hcells, List.length_map] at hroom
    obtain ⟨idx, hidx, hfresh, hrear, hqueue, hnext⟩ := nextRear_uses huses hroom
    rw [hrear, Int.toNat_natCast]
    refine ⟨rfl, (nextRear_isFree q).trans hclosed, cells ++ [idx], hnext, ?_, fun i hi => ?_⟩
    · rw [hitems, hcells, List.map_append, map_write_of_notMem hfresh, hqueue]
      simp [PktQueue.write]
    · by_cases heq : i = idx
      · simp [PktQueue.write, heq, packetFor]
      · simp [PktQueue.write, heq, hqueue, hflags i hi]

theorem delpkt_agrees {q : PktQueue} {s : PktFifo} (h : Agrees q s) :
    Agrees (delpkt q) { s with packets := s.packets.pop } := by
  have hholds := h.holds
  obtain ⟨hfree, cells, huses, hcells, hflags⟩ := h
  unfold delpkt
  cases cells with
  | nil =>
    rw [if_pos ((isNull_iff hholds).mpr hcells)]
    exact ⟨hfree, [], huses, congrArg List.tail hcells, hflags⟩
  | cons cell cells =>
    have hsome : ¬ q.isNull = true := by
      rw [isNull_iff hholds, hcells]
      exact List.cons_ne_nil _ _
    obtain ⟨-, hfront, hfresh, -⟩ := nextFront_uses huses
    rw [if_neg hsome, hfront, Int.toNat_natCast]
    obtain ⟨-, -, -, hqueue, hnext⟩ := nextFront_uses ((write_uses q cell _ _).mpr huses)
    refine ⟨(nextFront_isFree _).trans hfree, cells, hnext, ?_, fun i hi => ?_⟩
    · rw [hqueue, map_write_of_notMem hfresh]
      exact congrArg List.tail hcells
    · rw [hqueue]
      by_cases heq : i = cell
      · simp [PktQueue.write, heq, hfresh]
      · simp [PktQueue.write, heq, hflags i hi]

theorem getPkt_agrees {q : PktQueue} {s : PktFifo} (h : Agrees q s) :
    (getPkt q).1 = s.packets.items.headD { SPkt.zeroed with isNull := true } ∧
      Agrees (getPkt q).2 { s with packets := s.packets.pop } := by
  have hdel := delpkt_agrees h
  cases hitems : s.packets.items with
  | nil =>
    have hnull := (isNull_iff h.holds).mpr hitems
    rw [delpkt, if_pos hnull] at hdel
    rw [getPkt, if_pos hnull]
    exact ⟨rfl, hdel⟩
  | cons p pkts =>
    have hsome : ¬ q.isNull = true := by
      rw [isNull_iff h.holds, hitems]
      exact List.cons_ne_nil _ _
    rw [getPkt, if_neg hsome]
    exact ⟨front_of_holds (hitems ▸ h.holds), hdel⟩

theorem deleteAll_agrees {n : Nat} {q : PktQueue} {s : PktFifo} (h : Agrees q s)
    (hn : s.packets.items.length ≤ n) :
    (deleteAll n q).isNull = true ∧ Agrees (deleteAll n q) { s with packets := .empty } := by
  induction n generalizing q s with
  | zero =>
    have hnil : s.packets.items = [] := List.length_eq_zero_iff.mp (Nat.le_zero.mp hn)
    exact ⟨(isNull_iff h.holds).mpr hnil, Fifo.Bounded.eq_empty hnil ▸ h⟩
  | succ n ih =>
    unfold deleteAll
    by_cases hnull : q.isNull = true
    · have hnil := (isNull_iff h.holds).mp hnull
      rw [if_pos hnull]
      exact ⟨hnull, Fifo.Bounded.eq_empty hnil ▸ h⟩
    · rw [if_neg hnull]
      have hpop : s.packets.pop.items.length = s.packets.items.length - 1 := List.length_tail
      have hle : s.packets.pop.items.length ≤ n := by omega
      exact ih (s := { s with packets := s.packets.pop }) (delpkt_agrees h) hle

theorem resetFlags_agrees {q : PktQueue} {s : PktFifo} (h : Agrees q s)
    (hnil : s.packets.items = []) : Agrees q.resetFlags s := by
  obtain ⟨hfree, cells, huses, hcells, -⟩ := h
  have hnone : cells = [] := List.map_eq_nil_iff.mp (hcells.symm.trans hnil)
  subst hnone
  refine ⟨hfree, [], huses, hnil, fun i hi => ?_⟩
  unfold PktQueue.resetFlags
  simp [hi]

theorem step_agrees {q : PktQueue} {s : PktFifo} (op : QueueOp) (h : Agrees q s) :
    (queueStep q op).1 = (fifoStep s op).1 ∧ Agrees (queueStep q op).2 (fifoStep s op).2 := by
  cases op with
  | addpkt address port content contentSize => exact addpkt_agrees h address port content contentSize
  | getPkt =>
    obtain ⟨hhead, hrest⟩ := getPkt_agrees h
    exact ⟨congrArg QueueAnswer.packet hhead, hrest⟩
  | delpkt => exact ⟨rfl, delpkt_agrees h⟩
  | free =>
    have hclosed : Agrees { q with isFree := true } { s with isFree := true } := ⟨rfl, h.2⟩
    exact ⟨rfl, resetFlags_agrees (deleteAll_agrees hclosed s.packets.bounded).2 rfl⟩

/-! ## The three tests -/

theorem queueLen_eq {q : PktQueue} {cells : List Nat} (h : q.Uses cells) :
    q.queueLen = cells.length := by
  unfold PktQueue.queueLen
  rcases h with ⟨rfl, hfront, hrear⟩ | ⟨front, count, hlt, hpos, hle, hfront, hrear, rfl⟩
  · simp [hfront, hrear]
  · rw [Fifo.length_cells, hfront, hrear]
    have hsome : ¬ ((front : Int) = -1 ∧
        (((front + (count - 1)) % maxQueueLength : Nat) : Int) = -1) := by omega
    rw [if_neg hsome]
    simp only [maxQueueLength] at *
    split_ifs <;> omega

theorem addpkt_success_iff {q : PktQueue} {s : PktFifo} (h : Agrees q s) (address : Ptr)
    (port : Nat) (content : Ptr) (contentSize : Nat) :
    (addpkt q address port content contentSize).value.1 = .success ↔
      contentSize ≤ messageLength ∧ s.isFree = false ∧
        s.packets.items.length < maxQueueLength := by
  have hfull : q.isFull = false ↔ s.packets.items.length < maxQueueLength := by
    rw [← Bool.not_eq_true, isFull_iff h.holds]
    have := s.packets.bounded
    omega
  rw [addpkt_value, ← h.1, ← hfull, ← Nat.not_lt]
  by_cases hsize : contentSize > messageLength <;> cases q.isFree <;> cases q.isFull <;>
    simp [hsize]

/-- Every run of the queue answers as the list does, and shows the list in its cells. -/
theorem queue_refines_fifo (memory : PktQueue) (ops : List QueueOp) :
    let run := Machine.run queueStep (initPacketQueueIn memory) ops
    let abstractRun := Machine.run fifoStep .init ops
    let q := run.2
    let packets := abstractRun.2.packets.items
    run.1 = abstractRun.1 ∧ q.isFree = abstractRun.2.isFree ∧
      (∀ address port content contentSize,
        (addpkt q address port content contentSize).value.1 = .success ↔
          contentSize ≤ messageLength ∧ q.isFree = false ∧ packets.length < maxQueueLength) ∧
      (q.isNull = true ↔ packets = []) ∧ (q.isFull = true ↔ packets.length = maxQueueLength) ∧
      q.queueLen = packets.length ∧
      (∃ cells, q.Uses cells ∧ packets = cells.map q.queue ∧
        ∀ i < maxQueueLength, (q.queue i).isNull = false ↔ i ∈ cells) ∧
      (deleteAll maxQueueLength { q with isFree := true }).isNull = true := by
  intro run abstractRun q packets
  obtain ⟨hanswers, hend⟩ := Machine.run_related Agrees (fun _ _ op h => step_agrees op h) ops
    (init_agrees memory)
  have hlen : q.queueLen = packets.length := by
    obtain ⟨-, cells, huses, hcells, -⟩ := hend
    exact (queueLen_eq huses).trans (by rw [← List.length_map, ← hcells])
  have hclosed : Agrees { q with isFree := true } { abstractRun.2 with isFree := true } :=
    ⟨rfl, hend.2⟩
  refine ⟨hanswers, hend.1, fun a port c size => ?_, isNull_iff hend.holds,
    isFull_iff hend.holds, hlen, hend.2,
    (deleteAll_agrees hclosed abstractRun.2.packets.bounded).1⟩
  rw [hend.1]
  exact addpkt_success_iff hend a port c size

end LBeacon
