import LBeacon.UdpThreads
import LBeacon.Authenticity
import LBeacon.Lib.Fair
import Mathlib.Data.List.Infix

/-!
# Delivery

While the connection is not released, what was accepted is sent, and what was stored is taken.
-/

open CText CMemory Fair

namespace LBeacon

/-- How many steps it takes the thread to hand the first packet to `sendto`. -/
def SendThread.distance : SendThread → Nat
  | .testing => 3
  | .looking => 2
  | .getting => 1
  | .sending _ => 0
  | .done => 0

namespace Udp

variable {s : Udp}

theorem Reachable.step (h : s.Reachable) (turn : Turn) : (s.step turn).Reachable := by
  obtain ⟨memory, memory', sendSocket, recvSocket, bound, s₀, turns, hs₀, rfl⟩ := h
  refine ⟨memory, memory', sendSocket, recvSocket, bound, s₀, turns ++ [turn], hs₀, ?_⟩
  unfold run
  rw [List.foldl_append]
  rfl

/-- Before `udp_release` is called. -/
structure Serving (s : Udp) : Prop where
  stage : s.stage = .serving
  shutdown : s.shutdown = false
  sendSocket : s.sendSocket = true
  pktQueue : s.pktQueue.isFree = false
  receivedQueue : s.receivedQueue.isFree = false
  sender : s.sender ≠ .done

theorem addpkt_isFree (q : PktQueue) (address : Ptr) (port : Nat) (content : Ptr) (size : Nat) :
    (addpkt q address port content size).value.2.isFree = q.isFree := by
  rw [addpkt_value]
  split
  · rfl
  · split
    · rfl
    · split
      · rfl
      · exact nextRear_isFree q

theorem Serving.step (h : s.Serving) {turn : Turn} (hstays : turn ≠ .release) :
    (s.step turn).Serving := by
  cases turn with
  | send =>
    rw [step_send]
    unfold udpSendPktRoutine
    cases hsender : s.sender with
    | testing =>
      refine ⟨h.stage, h.shutdown, h.sendSocket, h.pktQueue, h.receivedQueue, ?_⟩
      rw [h.shutdown]
      exact SendThread.noConfusion
    | looking =>
      refine ⟨h.stage, h.shutdown, h.sendSocket, h.pktQueue, h.receivedQueue, ?_⟩
      cases s.pktQueue.isNull <;> exact SendThread.noConfusion
    | getting =>
      refine ⟨h.stage, h.shutdown, h.sendSocket, ?_, h.receivedQueue, ?_⟩
      · exact (getPkt_isFree s.pktQueue).trans h.pktQueue
      · dsimp only
        cases (getPkt s.pktQueue).1.isNull <;> exact SendThread.noConfusion
    | sending pkt =>
      unfold sendto
      rw [h.sendSocket]
      exact ⟨h.stage, h.shutdown, rfl, h.pktQueue, h.receivedQueue, SendThread.noConfusion⟩
    | done => exact h
  | recv answer =>
    rw [step_recv]
    unfold udpRecvPktRoutine
    cases s.receiver with
    | storing d =>
      refine ⟨h.stage, h.shutdown, h.sendSocket, h.pktQueue, ?_, h.sender⟩
      exact (addpkt_isFree s.receivedQueue _ _ _ _).trans h.receivedQueue
    | done => exact h
    | _ => exact ⟨h.stage, h.shutdown, h.sendSocket, h.pktQueue, h.receivedQueue, h.sender⟩
  | add address port content size =>
    exact ⟨h.stage, h.shutdown, h.sendSocket,
      (addpkt_isFree s.pktQueue address port content size).trans h.pktQueue, h.receivedQueue,
      h.sender⟩
  | getrecv e emptyPkt =>
    refine ⟨h.stage, h.shutdown, h.sendSocket, h.pktQueue, ?_, h.sender⟩
    show (udpGetrecv e emptyPkt s.receivedQueue).value.2.isFree = false
    rw [udpGetrecv_queue, getPkt_isFree, h.receivedQueue]
  | release => exact absurd rfl hstays

theorem step_history (s : Udp) (turn : Turn) :
    s.accepted <+: (s.step turn).accepted ∧ s.sent <+: (s.step turn).sent ∧
      s.arrived <+: (s.step turn).arrived ∧ s.taken <+: (s.step turn).taken := by
  have hsame : s.accepted <+: s.accepted ∧ s.sent <+: s.sent ∧ s.arrived <+: s.arrived ∧
      s.taken <+: s.taken :=
    ⟨List.prefix_rfl, List.prefix_rfl, List.prefix_rfl, List.prefix_rfl⟩
  cases turn with
  | send =>
    rw [step_send]
    unfold udpSendPktRoutine
    cases s.sender with
    | sending pkt =>
      unfold sendto
      dsimp only
      split
      · exact ⟨hsame.1, List.prefix_append _ _, hsame.2.2⟩
      · exact hsame
    | _ => exact hsame
  | recv answer =>
    rw [step_recv]
    unfold udpRecvPktRoutine
    cases s.receiver with
    | storing d =>
      dsimp only
      split
      · exact ⟨hsame.1, hsame.2.1, List.prefix_append _ _, hsame.2.2.2⟩
      · exact hsame
    | _ => exact hsame
  | add address port content size =>
    refine ⟨?_, hsame.2⟩
    rw [step_add]
    unfold Udp.add
    dsimp only
    split
    · exact List.prefix_append _ _
    · exact hsame.1
  | getrecv e emptyPkt =>
    refine ⟨hsame.1, hsame.2.1, hsame.2.2.1, ?_⟩
    rw [step_getrecv]
    unfold Udp.getrecv
    dsimp only
    split
    · exact hsame.2.2.2
    · exact List.prefix_append _ _
  | release =>
    rw [step_release]
    unfold udpRelease
    cases s.stage <;> exact hsame

theorem add_accepted_le (s : Udp) (address : Ptr) (port : Nat) (content : Ptr) (size : Nat) :
    (s.add address port content size).accepted.length ≤ s.accepted.length + 1 := by
  unfold Udp.add
  dsimp only
  split
  · exact Nat.le_of_eq List.length_append
  · exact Nat.le_succ _

theorem send_keeps (s : Udp) :
    s.udpSendPktRoutine.accepted = s.accepted ∧ s.udpSendPktRoutine.taken = s.taken := by
  unfold Udp.udpSendPktRoutine Udp.sendto
  cases s.sender with
  | sending pkt => dsimp only; split <;> exact ⟨rfl, rfl⟩
  | _ => exact ⟨rfl, rfl⟩

theorem recv_keeps (s : Udp) (answer : Option Datagram) :
    (s.udpRecvPktRoutine answer).accepted = s.accepted ∧
      (s.udpRecvPktRoutine answer).taken = s.taken := by
  unfold Udp.udpRecvPktRoutine
  cases s.receiver <;> exact ⟨rfl, rfl⟩

/-! ## What is accepted is sent -/

/-- The packet `k` is the next one to be sent. -/
def Pending (k : Nat) (s : Udp) : Prop := s.sent.length = k ∧ k < s.accepted.length

variable {k : Nat}

theorem Pending.step (h : s.Pending k) (turn : Turn) :
    (s.step turn).Pending k ∨ k < (s.step turn).sent.length := by
  obtain ⟨haccepted, hsent, -⟩ := step_history s turn
  have := haccepted.length_le
  have := hsent.length_le
  obtain ⟨heq, hlt⟩ := h
  rcases Nat.eq_or_lt_of_le hsent.length_le with hsame | hmore
  · exact Or.inl ⟨by omega, by omega⟩
  · exact Or.inr (by omega)

theorem Pending.send (h : s.Pending k) (hserving : s.Serving) {waiting unread : List SPkt}
    (hinOrder : s.InOrder waiting unread) :
    s.udpSendPktRoutine.sender.distance < s.sender.distance ∨
      k < s.udpSendPktRoutine.sent.length := by
  obtain ⟨heq, hlt⟩ := h
  have hout := congrArg List.length hinOrder.outbound
  have hunsent := hinOrder.unsent hserving.sendSocket
  rw [hunsent] at hout
  simp only [List.length_append, List.length_nil] at hout
  unfold hand at hout
  have hqueue (hhand : s.hand = []) : ∃ p rest, waiting = p :: rest := by
    refine List.exists_cons_of_length_pos ?_
    unfold hand at hhand
    rw [hhand, List.length_nil] at hout
    omega
  unfold udpSendPktRoutine
  cases hsender : s.sender with
  | testing =>
    left
    rw [hserving.shutdown]
    exact Nat.lt_succ_self 2
  | looking =>
    left
    obtain ⟨p, rest, hwaiting⟩ := hqueue (by unfold hand; rw [hsender])
    have hsome : s.pktQueue.isNull = false := by
      rw [← Bool.not_eq_true, isNull_iff (hinOrder.pktQueue.holds hserving.pktQueue), hwaiting]
      exact List.cons_ne_nil p rest
    rw [hsome]
    exact Nat.lt_succ_self 1
  | getting =>
    left
    obtain ⟨p, rest, hwaiting⟩ := hqueue (by unfold hand; rw [hsender])
    rcases hinOrder.pktQueue.get with ⟨-, -, hnone⟩ | ⟨rest, -, hsome, -⟩
    · rw [hnone hserving.pktQueue] at hwaiting
      exact absurd hwaiting.symm (List.cons_ne_nil p rest)
    · dsimp only
      rw [hsome]
      exact Nat.lt_succ_self 0
  | sending pkt =>
    right
    unfold sendto
    dsimp only
    rw [if_pos hserving.sendSocket]
    dsimp only
    rw [List.length_append, List.length_singleton]
    omega
  | done => exact absurd hsender hserving.sender

/-! ## Runs -/

/-- A connection among other threads: no step is one of `udp_release`. -/
structure ServingRun (run : Nat → Udp) : Prop where
  reachable : (run 0).Reachable
  serving : (run 0).Serving
  step : ∀ t, run (t + 1) = run t ∨ ∃ turn, turn ≠ .release ∧ run (t + 1) = (run t).step turn

/-- `udp_send_pkt_routine` goes on. -/
def Sends (run : Nat → Udp) : Prop :=
  Recurs (fun t : Nat => t) fun t => run (t + 1) = (run t).udpSendPktRoutine

/-- `udp_getrecv` is called again and again. -/
def Reads (run : Nat → Udp) : Prop :=
  Recurs (fun t : Nat => t) fun t => ∃ e emptyPkt, run (t + 1) = (run t).getrecv e emptyPkt

variable {run : Nat → Udp}

theorem ServingRun.reachable_at (h : ServingRun run) (t : Nat) : (run t).Reachable := by
  induction t with
  | zero => exact h.reachable
  | succ t ih =>
    rcases h.step t with hsame | ⟨turn, -, hstep⟩
    · rw [hsame]
      exact ih
    · rw [hstep]
      exact ih.step turn

theorem ServingRun.history (h : ServingRun run) (t : Nat) :
    (run t).accepted <+: (run (t + 1)).accepted ∧ (run t).sent <+: (run (t + 1)).sent ∧
      (run t).arrived <+: (run (t + 1)).arrived ∧ (run t).taken <+: (run (t + 1)).taken := by
  rcases h.step t with hsame | ⟨turn, -, hstep⟩
  · rw [hsame]
    exact ⟨List.prefix_rfl, List.prefix_rfl, List.prefix_rfl, List.prefix_rfl⟩
  · rw [hstep]
    exact step_history _ turn

theorem ServingRun.prefixes (h : ServingRun run) {t u : Nat} (htu : t ≤ u) :
    (run t).accepted <+: (run u).accepted ∧ (run t).arrived <+: (run u).arrived := by
  induction u, htu using Nat.le_induction with
  | base => exact ⟨List.prefix_rfl, List.prefix_rfl⟩
  | succ u _ ih =>
    obtain ⟨haccepted, -, harrived, -⟩ := h.history u
    exact ⟨ih.1.trans haccepted, ih.2.trans harrived⟩

end Udp

end LBeacon
