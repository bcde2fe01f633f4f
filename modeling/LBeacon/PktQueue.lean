import LBeacon.Lib.CMemory
import LBeacon.Lib.Fifo

/-!
# The packet queue

`pkt_Queue.c`: packets in an array of 512 cells, with `front` and `rear` at -1 when there is
none. Each function holds the queue's mutex from its first test to its return.
-/

open CText CMemory

namespace LBeacon

def networkAddrLength : Nat := 16
def messageLength : Nat := 65507
def maxQueueLength : Nat := 512

/-- `content` and `address` are the characters of their buffers up to the zeros behind. -/
structure SPkt where
  isNull : Bool
  address : Str
  port : Nat
  content : Str
  contentSize : Int
  deriving DecidableEq

/-- `memset(&tmp, 0, sizeof(tmp))` -/
def SPkt.zeroed : SPkt := ⟨false, [], 0, [], 0⟩

structure PktQueue where
  front : Int
  rear : Int
  queue : Nat → SPkt
  isFree : Bool

inductive QueueCode where
  | success
  | full
  | isFree
  | messageOversize
  deriving DecidableEq

/-- What the cells hold before the first packet is of no interest: zeros, in a static queue. -/
def initPacketQueue : PktQueue := ⟨-1, -1, fun _ => { SPkt.zeroed with isNull := true }, false⟩

def PktQueue.isNull (q : PktQueue) : Bool := q.front = -1 ∧ q.rear = -1

def PktQueue.isFull (q : PktQueue) : Bool :=
  q.front = q.rear + 1 ∨ (q.front = 0 ∧ q.rear = maxQueueLength - 1)

def PktQueue.write (q : PktQueue) (idx : Nat) (p : SPkt) : PktQueue :=
  { q with queue := fun i => if i = idx then p else q.queue i }

/-- The packet that `addpkt` stores. -/
def storePkt (address : Ptr) (port : Nat) (content : Ptr) (contentSize : Nat) : Watched SPkt := do
  let address ← strncpyTo networkAddrLength address networkAddrLength
  let content ← strncpyTo messageLength content contentSize
  return ⟨false, address, port, content, contentSize⟩

/-- The cell behind `rear`. -/
def PktQueue.nextRear (q : PktQueue) : PktQueue :=
  if q.isNull then { q with front := 0, rear := 0 }
  else if q.rear = maxQueueLength - 1 then { q with rear := 0 }
  else { q with rear := q.rear + 1 }

def addpkt (q : PktQueue) (address : Ptr) (port : Nat) (content : Ptr) (contentSize : Nat) :
    Watched (QueueCode × PktQueue) := do
  if contentSize > messageLength then return (.messageOversize, q)
  if q.isFree then return (.isFree, q)
  if q.isFull then return (.full, q)
  let q := q.nextRear
  let p ← storePkt address port content contentSize
  return (.success, q.write q.rear.toNat p)

/-- The cell behind `front`. -/
def PktQueue.nextFront (q : PktQueue) : PktQueue :=
  if q.front = q.rear then { q with front := -1, rear := -1 }
  else if q.front = maxQueueLength - 1 then { q with front := 0 }
  else { q with front := q.front + 1 }

def delpkt (q : PktQueue) : PktQueue :=
  if q.isNull then q
  else
    let old := q.queue q.front.toNat
    let cleared := { old with isNull := true, content := [], address := [], port := 0 }
    (q.write q.front.toNat cleared).nextFront

def getPkt (q : PktQueue) : SPkt × PktQueue :=
  if q.isNull then ({ SPkt.zeroed with isNull := true }, q)
  else (q.queue q.front.toNat, delpkt q)

/-! ## A queue of packets -/

/-- The queue holds these packets, in the order in which they came. -/
def PktQueue.Holds (q : PktQueue) (pkts : List SPkt) : Prop :=
  (pkts = [] ∧ q.front = -1 ∧ q.rear = -1) ∨
  ∃ front count : Nat, front < maxQueueLength ∧ 0 < count ∧ count ≤ maxQueueLength ∧
    q.front = front ∧ q.rear = ((front + (count - 1)) % maxQueueLength : Nat) ∧
    pkts = (Fifo.cells maxQueueLength front count).map q.queue

/-- The cells in use, from `front` to `rear`. -/
def PktQueue.Uses (q : PktQueue) (cells : List Nat) : Prop :=
  (cells = [] ∧ q.front = -1 ∧ q.rear = -1) ∨
  ∃ front count : Nat, front < maxQueueLength ∧ 0 < count ∧ count ≤ maxQueueLength ∧
    q.front = front ∧ q.rear = ((front + (count - 1)) % maxQueueLength : Nat) ∧
    cells = Fifo.cells maxQueueLength front count

theorem holds_iff_uses {q : PktQueue} {pkts : List SPkt} :
    q.Holds pkts ↔ ∃ cells, q.Uses cells ∧ pkts = cells.map q.queue := by
  constructor
  · rintro (⟨rfl, hends⟩ | ⟨front, count, hlt, hpos, hle, hfront, hrear, rfl⟩)
    · exact ⟨[], Or.inl ⟨rfl, hends⟩, rfl⟩
    · exact ⟨_, Or.inr ⟨front, count, hlt, hpos, hle, hfront, hrear, rfl⟩, rfl⟩
  · rintro ⟨cells, ⟨rfl, hends⟩ | ⟨front, count, hlt, hpos, hle, hfront, hrear, rfl⟩, rfl⟩
    · exact Or.inl ⟨rfl, hends⟩
    · exact Or.inr ⟨front, count, hlt, hpos, hle, hfront, hrear, rfl⟩

@[simp] theorem write_uses (q : PktQueue) (idx : Nat) (p : SPkt) (cells : List Nat) :
    (q.write idx p).Uses cells ↔ q.Uses cells := Iff.rfl

theorem init_holds : initPacketQueue.Holds [] := Or.inl ⟨rfl, rfl, rfl⟩

theorem holds_length_le {q : PktQueue} {pkts : List SPkt} (h : q.Holds pkts) :
    pkts.length ≤ maxQueueLength := by
  rcases h with ⟨rfl, -⟩ | ⟨front, count, -, -, hle, -, -, rfl⟩
  · exact Nat.zero_le _
  · rwa [List.length_map, Fifo.length_cells]

theorem holds_unique {q : PktQueue} {pkts pkts' : List SPkt} (h : q.Holds pkts)
    (h' : q.Holds pkts') : pkts = pkts' := by
  rcases h with ⟨rfl, hfront, -⟩ | ⟨front, count, hlt, hpos, hle, hfront, hrear, rfl⟩
  · rcases h' with ⟨rfl, -⟩ | ⟨front', count', -, -, -, hfront', -⟩
    · rfl
    · omega
  · rcases h' with ⟨-, hfront', -⟩ | ⟨front', count', -, hpos', hle', hfront', hrear', rfl⟩
    · omega
    · have hsame : front = front' := by omega
      subst hsame
      have hcell : (front + (count - 1)) % maxQueueLength = (front + (count' - 1)) % maxQueueLength :=
        Int.ofNat.inj (hrear.symm.trans hrear')
      have hcount := Fifo.mod_add_inj front (by omega) (by omega) hcell
      rw [show count = count' by omega]

theorem isNull_iff {q : PktQueue} {pkts : List SPkt} (h : q.Holds pkts) :
    q.isNull = true ↔ pkts = [] := by
  unfold PktQueue.isNull
  rcases h with ⟨rfl, hfront, hrear⟩ | ⟨front, count, -, hpos, -, hfront, -, rfl⟩
  · simp [hfront, hrear]
  · have hne : (Fifo.cells maxQueueLength front count).map q.queue ≠ [] := by
      rw [ne_eq, List.map_eq_nil_iff, ← List.length_eq_zero_iff, Fifo.length_cells]
      omega
    simp only [decide_eq_true_eq, hne, iff_false]
    omega

theorem isFull_iff {q : PktQueue} {pkts : List SPkt} (h : q.Holds pkts) :
    q.isFull = true ↔ pkts.length = maxQueueLength := by
  unfold PktQueue.isFull
  rcases h with ⟨rfl, hfront, hrear⟩ | ⟨front, count, hlt, hpos, hle, hfront, hrear, rfl⟩
  · simp [hfront, hrear, maxQueueLength]
  · rw [List.length_map, Fifo.length_cells, decide_eq_true_eq, hfront, hrear]
    simp only [maxQueueLength] at *
    omega

theorem nextRear_isFree (q : PktQueue) : q.nextRear.isFree = q.isFree := by
  unfold PktQueue.nextRear
  split
  · rfl
  · split <;> rfl

theorem nextFront_isFree (q : PktQueue) : q.nextFront.isFree = q.isFree := by
  unfold PktQueue.nextFront
  split
  · rfl
  · split <;> rfl

theorem map_write_of_notMem {q : PktQueue} {idx : Nat} {cells : List Nat} (h : idx ∉ cells)
    (p : SPkt) : cells.map (q.write idx p).queue = cells.map q.queue := by
  apply List.map_congr_left
  intro i hi
  exact if_neg fun (heq : i = idx) => h (heq ▸ hi)

theorem nextRear_uses {q : PktQueue} {cells : List Nat} (h : q.Uses cells)
    (hroom : cells.length < maxQueueLength) :
    ∃ idx, idx < maxQueueLength ∧ idx ∉ cells ∧ q.nextRear.rear = idx ∧
      q.nextRear.queue = q.queue ∧ q.nextRear.Uses (cells ++ [idx]) := by
  unfold PktQueue.nextRear
  rcases h with ⟨rfl, hfront, hrear⟩ | ⟨front, count, hlt, hpos, hle, hfront, hrear, rfl⟩
  · rw [if_pos (by simp [PktQueue.isNull, hfront, hrear])]
    refine ⟨0, by decide, by simp, rfl, rfl, Or.inr ⟨0, 1, ?_⟩⟩
    exact ⟨by decide, by decide, by decide, rfl, rfl, rfl⟩
  · rw [Fifo.length_cells] at hroom
    have hnext : (if q.rear = maxQueueLength - 1 then { q with rear := 0 }
        else { q with rear := q.rear + 1 }) =
          { q with rear := ((front + count) % maxQueueLength : Nat) } := by
      by_cases hwrap : q.rear = maxQueueLength - 1
      · rw [if_pos hwrap]
        simp only [maxQueueLength] at *
        congr 1
        omega
      · rw [if_neg hwrap]
        simp only [maxQueueLength] at *
        congr 1
        omega
    rw [if_neg (by simp [PktQueue.isNull]; omega), hnext]
    refine ⟨(front + count) % maxQueueLength, Nat.mod_lt _ (by decide),
      Fifo.rear_notMem_cells hroom, rfl, rfl, Or.inr ⟨front, count + 1, ?_⟩⟩
    exact ⟨hlt, Nat.succ_pos _, hroom, hfront, rfl, Fifo.cells_succ_rear.symm⟩

theorem nextFront_uses {q : PktQueue} {cell : Nat} {cells : List Nat} (h : q.Uses (cell :: cells)) :
    cell < maxQueueLength ∧ q.front = cell ∧ cell ∉ cells ∧ q.nextFront.queue = q.queue ∧
      q.nextFront.Uses cells := by
  rcases h with ⟨hnil, -⟩ | ⟨front, count, hlt, hpos, hle, hfront, hrear, hcells⟩
  · exact absurd hnil (List.cons_ne_nil cell cells)
  obtain ⟨n, rfl⟩ := Nat.exists_eq_succ_of_ne_zero hpos.ne'
  have hfresh := Fifo.front_notMem_cells front (Nat.lt_of_succ_le hle)
  rw [Fifo.cells_succ_front, List.cons.injEq, Nat.mod_eq_of_lt hlt] at hcells
  rw [Nat.mod_eq_of_lt hlt] at hfresh
  obtain ⟨rfl, rfl⟩ := hcells
  refine ⟨hlt, hfront, hfresh, ?_⟩
  unfold PktQueue.nextFront
  by_cases hlast : n = 0
  · -- The last packet leaves.
    rw [if_pos (by simp [hfront, hrear, hlast, Nat.mod_eq_of_lt hlt]), hlast]
    exact ⟨rfl, Or.inl ⟨rfl, rfl, rfl⟩⟩
  · have hnext : (if q.front = maxQueueLength - 1 then { q with front := 0 }
        else { q with front := q.front + 1 }) =
          { q with front := ((cell + 1) % maxQueueLength : Nat) } := by
      by_cases hwrap : q.front = maxQueueLength - 1
      · rw [if_pos hwrap]
        simp only [maxQueueLength] at *
        congr 1
        omega
      · rw [if_neg hwrap]
        simp only [maxQueueLength] at *
        congr 1
        omega
    rw [if_neg (by simp only [hfront, hrear, maxQueueLength] at *; omega), hnext]
    refine ⟨rfl, Or.inr ⟨(cell + 1) % maxQueueLength, n, Nat.mod_lt _ (by decide), by omega,
      by omega, rfl, ?_, rfl⟩⟩
    simp only [hrear, maxQueueLength] at *
    omega

theorem nextRear_holds {q : PktQueue} {pkts : List SPkt} (h : q.Holds pkts)
    (hroom : pkts.length < maxQueueLength) (p : SPkt) :
    (q.nextRear.write q.nextRear.rear.toNat p).Holds (pkts ++ [p]) := by
  obtain ⟨cells, huses, rfl⟩ := holds_iff_uses.mp h
  rw [List.length_map] at hroom
  obtain ⟨idx, -, hfresh, hrear, hqueue, hnext⟩ := nextRear_uses huses hroom
  rw [hrear, Int.toNat_natCast]
  refine holds_iff_uses.mpr ⟨cells ++ [idx], hnext, ?_⟩
  rw [List.map_append, map_write_of_notMem hfresh, hqueue]
  simp [PktQueue.write]

theorem nextFront_holds {q : PktQueue} {p : SPkt} {pkts : List SPkt} (h : q.Holds (p :: pkts))
    (cleared : SPkt) : (q.write q.front.toNat cleared).nextFront.Holds pkts := by
  obtain ⟨cells, huses, hpkts⟩ := holds_iff_uses.mp h
  obtain ⟨cell, cells, rfl⟩ := List.exists_cons_of_ne_nil (l := cells) (by rintro rfl; simp at hpkts)
  rw [List.map_cons, List.cons.injEq] at hpkts
  obtain ⟨-, hfront, hfresh, -⟩ := nextFront_uses huses
  obtain ⟨-, -, -, hqueue, hnext⟩ :=
    nextFront_uses ((write_uses q q.front.toNat cleared _).mpr huses)
  refine holds_iff_uses.mpr ⟨cells, hnext, ?_⟩
  rw [hqueue, hfront, Int.toNat_natCast, map_write_of_notMem hfresh, hpkts.2]

theorem front_of_holds {q : PktQueue} {p : SPkt} {pkts : List SPkt} (h : q.Holds (p :: pkts)) :
    q.queue q.front.toNat = p := by
  obtain ⟨cells, huses, hpkts⟩ := holds_iff_uses.mp h
  obtain ⟨cell, cells, rfl⟩ := List.exists_cons_of_ne_nil (l := cells) (by rintro rfl; simp at hpkts)
  rw [List.map_cons, List.cons.injEq] at hpkts
  rw [(nextFront_uses huses).2.1, Int.toNat_natCast, hpkts.1]

theorem getPkt_isFree (q : PktQueue) : (getPkt q).2.isFree = q.isFree := by
  unfold getPkt delpkt
  split
  · rfl
  · exact nextFront_isFree _

theorem getPkt_nil {q : PktQueue} (h : q.Holds []) :
    getPkt q = ({ SPkt.zeroed with isNull := true }, q) := if_pos ((isNull_iff h).mpr rfl)

theorem getPkt_cons {q : PktQueue} {p : SPkt} {pkts : List SPkt} (h : q.Holds (p :: pkts)) :
    (getPkt q).1 = p ∧ (getPkt q).2.Holds pkts := by
  have hsome : ¬ q.isNull = true := by
    rw [isNull_iff h]
    exact List.cons_ne_nil p pkts
  rw [getPkt, if_neg hsome, delpkt, if_neg hsome]
  exact ⟨front_of_holds h, nextFront_holds h _⟩

/-! ## Copying a packet in -/

theorem storePkt_safe {address content : Ptr} {contentSize : Nat}
    (haddress : address.Terminated ∨ networkAddrLength ≤ address.text.length)
    (hcontent : content.Terminated ∨ contentSize ≤ content.text.length)
    (hsize : contentSize ≤ messageLength) (port : Nat) :
    (storePkt address port content contentSize).faults = [] := by
  have ha := (faults_strncpyTo networkAddrLength address networkAddrLength).mpr
    ⟨haddress, le_rfl⟩
  have hc := (faults_strncpyTo messageLength content contentSize).mpr ⟨hcontent, hsize⟩
  simp only [storePkt, faults_bind, ha, hc, faults_pure, List.nil_append]

theorem addpkt_safe {address content : Ptr} {contentSize : Nat}
    (haddress : address.Terminated ∨ networkAddrLength ≤ address.text.length)
    (hcontent : content.Terminated ∨ contentSize ≤ content.text.length)
    (hsize : contentSize ≤ messageLength) (q : PktQueue) (port : Nat) :
    (addpkt q address port content contentSize).faults = [] := by
  unfold addpkt
  rw [if_neg (Nat.not_lt.mpr hsize)]
  split
  · rfl
  · split
    · rfl
    · rw [faults_bind, storePkt_safe haddress hcontent hsize]
      rfl

theorem addressBuf_readable (address : Str) :
    (Ptr.ofBuf address networkAddrLength).Terminated ∨
      networkAddrLength ≤ (Ptr.ofBuf address networkAddrLength).text.length := by
  have := (Ptr.ofBuf address networkAddrLength).fits
  rw [room_ofBuf] at this
  rw [Ptr.Terminated, room_ofBuf]
  omega

end LBeacon
