import LBeacon.Delivery

/-!
# The end of the threads

What the two threads of UDP_API.c still do once `udp_release` has set `shutdown`.
-/

open CMemory Fair

namespace LBeacon

/-! ## What is to come -/

/-- What the thread still takes from the queue once `shutdown` is set. -/
def SendThread.owing : SendThread → Nat
  | .testing => 0
  | .looking => 1
  | .getting => 1
  | .sending _ => 1
  | .done => 0

/-- How many steps the thread is from its end once `shutdown` is set. -/
def SendThread.remaining : SendThread → Nat
  | .testing => 1
  | .looking => 4
  | .getting => 3
  | .sending _ => 2
  | .done => 0

def RecvThread.owing : RecvThread → Nat
  | .testing => 0
  | .calling => 1
  | .receiving => 1
  | .storing _ => 1
  | .done => 0

def RecvThread.remaining : RecvThread → Nat
  | .testing => 1
  | .calling => 4
  | .receiving => 3
  | .storing _ => 2
  | .done => 0

def ReleaseStage.remaining : ReleaseStage → Nat
  | .serving => 5
  | .shutDown => 4
  | .sendClosed => 3
  | .recvClosed => 2
  | .sendFreed => 1
  | .released => 0

namespace Udp

variable {s : Udp} {turns : Nat → Turn}

/-- What was given to `sendto`. -/
def offered (s : Udp) : Nat := s.sent.length + s.unsent.length

theorem offered_sendto (s : Udp) (pkt : SPkt) : (s.sendto pkt).offered = s.offered + 1 := by
  unfold sendto offered
  cases s.sendSocket
  all_goals
    simp only [Bool.false_eq_true, if_true, if_false, List.length_append, List.length_singleton]
    omega

theorem send_subsides (h : s.shutdown = true) :
    s.udpSendPktRoutine.offered + s.udpSendPktRoutine.sender.owing ≤ s.offered + s.sender.owing ∧
      (s.udpSendPktRoutine.sender.remaining < s.sender.remaining ∨
        s.sender.remaining = 0 ∧ s.udpSendPktRoutine = s) := by
  unfold udpSendPktRoutine
  cases hat : s.sender with
  | testing =>
    rw [h]
    exact ⟨Nat.le_refl _, Or.inl Nat.one_pos⟩
  | looking =>
    cases s.pktQueue.isNull
    · exact ⟨Nat.le_refl _, Or.inl (by simp [SendThread.remaining])⟩
    · exact ⟨Nat.le_succ _, Or.inl (by simp [SendThread.remaining])⟩
  | getting =>
    dsimp only
    cases (getPkt s.pktQueue).1.isNull
    · exact ⟨Nat.le_refl _, Or.inl (by simp [SendThread.remaining])⟩
    · exact ⟨Nat.le_succ _, Or.inl (by simp [SendThread.remaining])⟩
  | sending pkt =>
    exact ⟨Nat.le_of_eq (offered_sendto s pkt), Or.inl (by simp [SendThread.remaining])⟩
  | done =>
    dsimp only
    rw [hat]
    exact ⟨Nat.le_refl _, Or.inr ⟨rfl, rfl⟩⟩

theorem recv_subsides (h : s.shutdown = true) (answer : Option Datagram) :
    (s.udpRecvPktRoutine answer).arrived.length + (s.udpRecvPktRoutine answer).receiver.owing ≤
        s.arrived.length + s.receiver.owing ∧
      ((s.udpRecvPktRoutine answer).receiver.remaining < s.receiver.remaining ∨
        s.receiver.remaining = 0 ∧ s.udpRecvPktRoutine answer = s) := by
  unfold udpRecvPktRoutine
  cases hat : s.receiver with
  | testing =>
    rw [h]
    exact ⟨Nat.le_refl _, Or.inl Nat.one_pos⟩
  | calling =>
    cases s.recvSocket
    · exact ⟨Nat.le_succ _, Or.inl (by simp [RecvThread.remaining])⟩
    · exact ⟨Nat.le_refl _, Or.inl (by simp [RecvThread.remaining])⟩
  | receiving =>
    cases answer
    · exact ⟨Nat.le_succ _, Or.inl (by simp [RecvThread.remaining])⟩
    · exact ⟨Nat.le_refl _, Or.inl (by simp [RecvThread.remaining])⟩
  | storing d =>
    refine ⟨?_, Or.inl (by simp [RecvThread.remaining])⟩
    dsimp only
    split
    · rw [List.length_append]
      exact Nat.le_refl _
    · exact Nat.le_succ _
  | done =>
    dsimp only
    rw [hat]
    exact ⟨Nat.le_refl _, Or.inr ⟨rfl, rfl⟩⟩

theorem others_stay (s : Udp) (turn : Turn) :
    (s.shutdown = true → (s.step turn).shutdown = true) ∧
      (turn ≠ .send → (s.step turn).sender = s.sender ∧ (s.step turn).offered = s.offered) ∧
      ((∀ answer, turn ≠ .recv answer) →
        (s.step turn).receiver = s.receiver ∧ (s.step turn).arrived = s.arrived) ∧
      (turn ≠ .release → (s.step turn).stage = s.stage) := by
  cases turn with
  | send =>
    rw [step_send]
    refine ⟨fun h => ?_, fun h => absurd rfl h, fun _ => ?_, fun _ => ?_⟩
    all_goals
      unfold udpSendPktRoutine sendto
      cases s.sender <;> cases s.sendSocket <;> first | exact h | exact ⟨rfl, rfl⟩ | rfl
  | recv answer =>
    rw [step_recv]
    refine ⟨fun h => ?_, fun _ => ?_, fun h => absurd rfl (h answer), fun _ => ?_⟩
    all_goals
      unfold udpRecvPktRoutine
      cases s.receiver <;> first | exact h | exact ⟨rfl, rfl⟩ | rfl
  | release =>
    rw [step_release]
    refine ⟨fun h => ?_, fun _ => ?_, fun _ => ?_, fun h => absurd rfl h⟩
    all_goals
      unfold udpRelease
      cases s.stage <;> first | exact h | exact ⟨rfl, rfl⟩ | rfl
  | _ => exact ⟨fun h => h, fun _ => ⟨rfl, rfl⟩, fun _ => ⟨rfl, rfl⟩, fun _ => rfl⟩

theorem step_sender (h : s.shutdown = true) (turn : Turn) :
    (s.step turn).offered + (s.step turn).sender.owing ≤ s.offered + s.sender.owing ∧
      (s.step turn).sender.remaining ≤ s.sender.remaining := by
  by_cases hturn : turn = .send
  · obtain ⟨hoffered, hlt | ⟨-, hsame⟩⟩ := send_subsides h
    · rw [hturn]
      exact ⟨hoffered, Nat.le_of_lt hlt⟩
    · rw [hturn, step_send, hsame]
      exact ⟨Nat.le_refl _, Nat.le_refl _⟩
  · obtain ⟨hsender, hoffered⟩ := (others_stay s turn).2.1 hturn
    rw [hsender, hoffered]
    exact ⟨Nat.le_refl _, Nat.le_refl _⟩

theorem step_receiver (h : s.shutdown = true) (turn : Turn) :
    (s.step turn).arrived.length + (s.step turn).receiver.owing ≤
        s.arrived.length + s.receiver.owing ∧
      (s.step turn).receiver.remaining ≤ s.receiver.remaining := by
  by_cases hturn : ∃ answer, turn = .recv answer
  · obtain ⟨answer, rfl⟩ := hturn
    obtain ⟨harrived, hlt | ⟨-, hsame⟩⟩ := recv_subsides h answer
    · exact ⟨harrived, Nat.le_of_lt hlt⟩
    · rw [step_recv, hsame]
      exact ⟨Nat.le_refl _, Nat.le_refl _⟩
  · obtain ⟨hreceiver, harrived⟩ :=
      (others_stay s turn).2.2.1 fun answer heq => hturn ⟨answer, heq⟩
    rw [hreceiver, harrived]
    exact ⟨Nat.le_refl _, Nat.le_refl _⟩

/-- From the moment `shutdown` is set, at most one packet more is given to `sendto`, and at most one
datagram more is stored, whatever is in the queues and whatever is called. -/
theorem few_after_release (h : s.shutdown = true) (turns : List Turn) :
    (s.run turns).offered ≤ s.offered + 1 ∧
      (s.run turns).arrived.length ≤ s.arrived.length + 1 := by
  have hrun : (s.run turns).shutdown = true ∧
      (s.run turns).offered + (s.run turns).sender.owing ≤ s.offered + s.sender.owing ∧
      (s.run turns).arrived.length + (s.run turns).receiver.owing ≤
        s.arrived.length + s.receiver.owing := by
    unfold run
    refine Machine.foldl_invariant (P := fun s' : Udp => s'.shutdown = true ∧
        s'.offered + s'.sender.owing ≤ s.offered + s.sender.owing ∧
        s'.arrived.length + s'.receiver.owing ≤ s.arrived.length + s.receiver.owing)
      ⟨h, Nat.le_refl _, Nat.le_refl _⟩ fun pre turn _ ⟨hshutdown, hoffered, harrived⟩ => ?_
    exact ⟨(others_stay _ turn).1 hshutdown,
      Nat.le_trans (step_sender hshutdown turn).1 hoffered,
      Nat.le_trans (step_receiver hshutdown turn).1 harrived⟩
  have hsender : s.sender.owing ≤ 1 := by cases s.sender <;> simp [SendThread.owing]
  have hreceiver : s.receiver.owing ≤ 1 := by cases s.receiver <;> simp [RecvThread.owing]
  omega

/-- The packet in the thread's hand still goes to `sendto`, and the next one does not. -/
theorem closing_few :
    (closing.run (List.replicate 5 .send)).offered ≤ closing.offered + 1 ∧
      (closing.run (List.replicate 5 .send)).arrived.length ≤ closing.arrived.length + 1 :=
  few_after_release (by decide) _

end Udp

end LBeacon
