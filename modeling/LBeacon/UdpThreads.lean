import LBeacon.Send
import LBeacon.ReceiveSafety
import LBeacon.Lib.Machine

/-!
# The threads of UDP_API.c

One thread takes packets from `pkt_Queue` and sends them, and one puts datagrams that arrive into
`Received_Queue`. Other threads call `udp_addpkt` and `udp_getrecv`, and one calls `udp_release`.
-/

open CText CMemory

namespace LBeacon

/-! ## Data -/

/-- Where `udp_send_pkt_routine` is. It is `looking` where it calls `is_null`, without the mutex. -/
inductive SendThread where
  | testing
  | looking
  | getting
  | sending (currentSendPkt : SPkt)
  | done

/-- Where `udp_recv_pkt_routine` is. It is `receiving` while it waits inside `recvfrom`. -/
inductive RecvThread where
  | testing
  | calling
  | receiving
  | storing (d : Datagram)
  | done

/-- How far `udp_release` has got. -/
inductive ReleaseStage where
  | serving
  | shutDown
  | sendClosed
  | recvClosed
  | sendFreed
  | released
  deriving DecidableEq

/-- `sendSocket` and `recvSocket` say whether the sockets are open. The last five are what happened
so far: the packets that `addpkt` put into `pkt_Queue`, those that the thread gave to `sendto` before
the socket was closed and after it, the datagrams that `addpkt` put into `Received_Queue`, and the
packets that `udp_getrecv` took. -/
structure Udp where
  shutdown : Bool
  sendSocket : Bool
  recvSocket : Bool
  pktQueue : PktQueue
  receivedQueue : PktQueue
  sender : SendThread
  receiver : RecvThread
  stage : ReleaseStage
  accepted : List SPkt
  sent : List SPkt
  unsent : List SPkt
  arrived : List Datagram
  taken : List SPkt

def sendSocketError : Int := -2
def recvSocketError : Int := -3
def recvSocketBindError : Int := -5

/-- `memory` is what the two queues hold before; the answers of `socket` and `bind` come from
outside. -/
def udpInitial (memory memory' : PktQueue) (sendSocket recvSocket bound : Int) : Int × Option Udp :=
  if sendSocket = -1 then (sendSocketError, none)
  else if recvSocket = -1 then (recvSocketError, none)
  else if bound = -1 then (recvSocketBindError, none)
  else
    (0, some
      { shutdown := false
        sendSocket := true
        recvSocket := true
        pktQueue := initPacketQueueIn memory
        receivedQueue := initPacketQueueIn memory'
        sender := .testing
        receiver := .testing
        stage := .serving
        accepted := []
        sent := []
        unsent := []
        arrived := []
        taken := [] })

namespace Udp

/-! ## Steps -/

/-- Nothing depends on what `sendto` answers; on a closed socket it fails. -/
def sendto (s : Udp) (pkt : SPkt) : Udp :=
  if s.sendSocket then { s with sent := s.sent ++ [pkt] }
  else { s with unsent := s.unsent ++ [pkt] }

/-- A step of `udp_send_pkt_routine`. A look in the middle of `addpkt` sees what a look behind it
does, and one in the middle of `Free_Packet_Queue` what a look in front of it does. -/
def udpSendPktRoutine (s : Udp) : Udp :=
  match s.sender with
  | .testing => { s with sender := if s.shutdown then .done else .looking }
  | .looking => { s with sender := if s.pktQueue.isNull then .testing else .getting }
  | .getting =>
    let r := getPkt s.pktQueue
    { s with pktQueue := r.2, sender := if r.1.isNull then .testing else .sending r.1 }
  | .sending currentSendPkt => { s.sendto currentSendPkt with sender := .testing }
  | .done => s

/-- A step of `udp_recv_pkt_routine`. A call of `recvfrom` on a closed socket fails; one that waits
goes on when the socket is closed, and `answer` is what it gives. -/
def udpRecvPktRoutine (s : Udp) (answer : Option Datagram) : Udp :=
  match s.receiver with
  | .testing => { s with receiver := if s.shutdown then .done else .calling }
  | .calling => { s with receiver := if s.recvSocket then .receiving else .testing }
  | .receiving =>
    { s with
      receiver :=
        match answer with
        | some d => .storing d
        | none => .testing }
  | .storing d =>
    let r := (addpkt s.receivedQueue (Ptr.ofBuf d.address networkAddrLength) d.port
      (Ptr.ofBuf d.bytes messageLength) d.bytes.length).value
    { s with
      receivedQueue := r.2
      receiver := .testing
      arrived := if r.1 = .success then s.arrived ++ [d] else s.arrived }
  | .done => s

/-- A call of `udp_addpkt` or of `udp_addpkt_without_encoding` comes to `addpkt`. -/
def add (s : Udp) (address : Ptr) (port : Nat) (content : Ptr) (size : Nat) : Udp :=
  let r := (addpkt s.pktQueue address port content size).value
  { s with
    pktQueue := r.2
    accepted :=
      if r.1 = .success then s.accepted ++ [packetFor address port content size] else s.accepted }

/-- A call of `udp_getrecv`. -/
def getrecv (s : Udp) (e : Encryption) (emptyPkt : SPkt) : Udp :=
  let pkt := (getPkt s.receivedQueue).1
  { s with
    receivedQueue := (udpGetrecv e emptyPkt s.receivedQueue).value.2
    taken := if pkt.isNull then s.taken else s.taken ++ [pkt] }

/-- The next step of `udp_release`. -/
def udpRelease (s : Udp) : Udp :=
  match s.stage with
  | .serving => { s with shutdown := true, stage := .shutDown }
  | .shutDown => { s with sendSocket := false, stage := .sendClosed }
  | .sendClosed => { s with recvSocket := false, stage := .recvClosed }
  | .recvClosed => { s with pktQueue := freePacketQueue s.pktQueue, stage := .sendFreed }
  | .sendFreed => { s with receivedQueue := freePacketQueue s.receivedQueue, stage := .released }
  | .released => s

inductive Turn where
  | send
  | recv (answer : Option Datagram)
  | add (address : Ptr) (port : Nat) (content : Ptr) (size : Nat)
  | getrecv (e : Encryption) (emptyPkt : SPkt)
  | release

def step (s : Udp) : Turn → Udp
  | .send => s.udpSendPktRoutine
  | .recv answer => s.udpRecvPktRoutine answer
  | .add address port content size => s.add address port content size
  | .getrecv e emptyPkt => s.getrecv e emptyPkt
  | .release => s.udpRelease

@[simp] theorem step_send (s : Udp) : s.step .send = s.udpSendPktRoutine := rfl

@[simp] theorem step_recv (s : Udp) (answer : Option Datagram) :
    s.step (.recv answer) = s.udpRecvPktRoutine answer := rfl

@[simp] theorem step_add (s : Udp) (address : Ptr) (port : Nat) (content : Ptr) (size : Nat) :
    s.step (.add address port content size) = s.add address port content size := rfl

@[simp] theorem step_getrecv (s : Udp) (e : Encryption) (emptyPkt : SPkt) :
    s.step (.getrecv e emptyPkt) = s.getrecv e emptyPkt := rfl

@[simp] theorem step_release (s : Udp) : s.step .release = s.udpRelease := rfl

/-- A call of `udp_addpkt`. -/
def udpAddpkt (c : Codec) (s : Udp) (address : Ptr) (port : Nat) (content : Ptr) :
    Watched (Int × Udp) := do
  let r ← LBeacon.udpAddpkt c s.pktQueue address port content
  let ciphertext := Ptr.ofBuf (c.sealed content.text) lengthOfEncodedWifiMessage
  return (r.1, s.add address port ciphertext (c.sealed content.text).length)

theorem udpAddpkt_pktQueue (c : Codec) (s : Udp) (address : Ptr) (port : Nat) (content : Ptr) :
    (s.udpAddpkt c address port content).value.2.pktQueue =
      (LBeacon.udpAddpkt c s.pktQueue address port content).value.2 := by
  rw [udpAddpkt_value]
  split
  · rename_i hlong
    show (addpkt s.pktQueue address port _ _).value.2 = s.pktQueue
    rw [addpkt_value, if_pos hlong]
  · rfl

def run (s : Udp) (turns : List Turn) : Udp := turns.foldl step s

/-- What can become of a connection that `udp_initial` made. -/
def Reachable (s : Udp) : Prop :=
  ∃ memory memory' sendSocket recvSocket bound s₀ turns,
    udpInitial memory memory' sendSocket recvSocket bound = (0, some s₀) ∧ s = s₀.run turns

end Udp

/-! ## A queue until it is freed -/

/-- The packets in the queue, until it is freed; `pkts` stays then. -/
structure Conveys (q : PktQueue) (pkts : List SPkt) : Prop where
  agrees : ∃ fifo : PktFifo, Agrees q fifo ∧
    fifo.packets.items = if q.isFree then [] else pkts
  packets : ∀ p ∈ pkts, p.isNull = false

variable {q : PktQueue} {pkts : List SPkt}

theorem Conveys.holds (h : Conveys q pkts) (hopen : q.isFree = false) : q.Holds pkts := by
  obtain ⟨fifo, hagrees, hitems⟩ := h.agrees
  rw [hopen] at hitems
  exact (hitems.trans (if_neg Bool.false_ne_true)) ▸ hagrees.holds

theorem Conveys.free (h : Conveys q pkts) : Conveys (freePacketQueue q) pkts := by
  obtain ⟨fifo, hagrees, -⟩ := h.agrees
  have hfreed := (step_agrees .free hagrees).2
  have hfree : (freePacketQueue q).isFree = true := hfreed.1
  refine ⟨⟨_, hfreed, ?_⟩, h.packets⟩
  rw [hfree]
  rfl

theorem Conveys.get (h : Conveys q pkts) :
    (getPkt q).1.isNull = true ∧ (getPkt q).2 = q ∧ (q.isFree = false → pkts = []) ∨
      ∃ rest, pkts = (getPkt q).1 :: rest ∧ (getPkt q).1.isNull = false ∧
        Conveys (getPkt q).2 rest ∧ q.isFree = false := by
  obtain ⟨fifo, hagrees, hitems⟩ := h.agrees
  cases hnull : q.isNull with
  | true =>
    left
    have hnone := (isNull_iff hagrees.holds).mp hnull
    rw [getPkt, if_pos hnull]
    refine ⟨rfl, rfl, fun hopen => ?_⟩
    rw [hopen] at hitems
    exact hitems.symm.trans hnone
  | false =>
    right
    have hsome : fifo.packets.items ≠ [] := fun hnone => by
      rw [(isNull_iff hagrees.holds).mpr hnone] at hnull
      exact Bool.noConfusion hnull
    cases hopen : q.isFree with
    | true =>
      rw [hopen] at hitems
      exact absurd hitems hsome
    | false =>
      rw [hopen] at hitems
      obtain ⟨p, rest, heq⟩ := List.exists_cons_of_ne_nil hsome
      have hpkts : pkts = p :: rest := hitems.symm.trans heq
      obtain ⟨hfirst, hrest⟩ := getPkt_agrees hagrees
      rw [heq] at hfirst
      refine ⟨rest, by rw [hfirst]; exact hpkts, ?_, ⟨⟨_, hrest, ?_⟩, fun p hp => ?_⟩, rfl⟩
      · rw [hfirst]
        exact h.packets p (hpkts ▸ List.mem_cons_self ..)
      · rw [getPkt_isFree, hopen]
        exact congrArg List.tail heq
      · exact h.packets p (hpkts ▸ List.mem_cons_of_mem _ hp)

theorem Conveys.add (h : Conveys q pkts) (address : Ptr) (port : Nat) (content : Ptr)
    (size : Nat) :
    Conveys (addpkt q address port content size).value.2
      (if (addpkt q address port content size).value.1 = .success then
        pkts ++ [packetFor address port content size] else pkts) := by
  obtain ⟨fifo, hagrees, hitems⟩ := h.agrees
  obtain ⟨hanswer, hnext⟩ := addpkt_agrees hagrees address port content size
  unfold queueStep fifoStep at hanswer hnext
  dsimp only at hanswer hnext
  generalize (addpkt q address port content size).value = r at *
  have hrefused {c : QueueCode} (hcode : QueueAnswer.code r.1 = .code c) (hc : c ≠ .success)
      (hsame : Agrees r.2 fifo) :
      Conveys r.2 (if r.1 = .success then pkts ++ [packetFor address port content size]
        else pkts) := by
    obtain rfl := QueueAnswer.code.inj hcode
    rw [if_neg hc]
    refine ⟨⟨fifo, hsame, ?_⟩, h.packets⟩
    rw [hsame.1, ← hagrees.1]
    exact hitems
  by_cases hsize : size > messageLength
  · rw [if_pos hsize] at hanswer hnext
    exact hrefused hanswer QueueCode.noConfusion hnext
  rw [if_neg hsize] at hanswer hnext
  by_cases hfree : fifo.isFree = true
  · rw [if_pos hfree] at hanswer hnext
    exact hrefused hanswer QueueCode.noConfusion hnext
  rw [if_neg hfree] at hanswer hnext
  cases hpush : fifo.packets.push (packetFor address port content size) with
  | none =>
    rw [hpush] at hanswer hnext
    exact hrefused hanswer QueueCode.noConfusion hnext
  | some packets =>
    rw [hpush] at hanswer hnext
    dsimp only at hanswer hnext
    have hopen : q.isFree = false := by
      rw [hagrees.1]
      exact Bool.not_eq_true _ ▸ hfree
    have hroom : fifo.packets.items.length < maxQueueLength := by
      by_contra hfull
      have hlength := Nat.le_antisymm fifo.packets.bounded (Nat.not_lt.mp hfull)
      rw [Fifo.Bounded.push_full hlength] at hpush
      cases hpush
    obtain ⟨packets', hpush', hpushed⟩ :=
      Fifo.Bounded.push_of_lt hroom (packetFor address port content size)
    obtain rfl := Option.some.inj (hpush.symm.trans hpush')
    rw [if_pos (QueueAnswer.code.inj hanswer)]
    refine ⟨⟨_, hnext, ?_⟩, fun p hp => ?_⟩
    · have hstill : r.2.isFree = false := by
        rw [hnext.1, ← hagrees.1]
        exact hopen
      rw [hstill, hpushed, hitems, hopen]
      rfl
    · rcases List.mem_append.mp hp with hp | hp
      · exact h.packets p hp
      · rw [List.mem_singleton.mp hp]
        rfl

/-! ## Order -/

namespace Udp

variable {s : Udp}

/-- The packet that the thread took and did not send yet. -/
def hand (s : Udp) : List SPkt :=
  match s.sender with
  | .sending pkt => [pkt]
  | _ => []

/-- `waiting` are the packets behind those that were sent, and `unread` behind those that were
taken. -/
structure InOrder (s : Udp) (waiting unread : List SPkt) : Prop where
  outbound : s.accepted = s.sent ++ s.unsent ++ s.hand ++ waiting
  pktQueue : Conveys s.pktQueue waiting
  unsent : s.sendSocket = true → s.unsent = []
  inbound : s.arrived.map Datagram.stored = s.taken ++ unread
  receivedQueue : Conveys s.receivedQueue unread

variable {waiting unread : List SPkt}

theorem InOrder.send (h : s.InOrder waiting unread) :
    ∃ waiting', s.udpSendPktRoutine.InOrder waiting' unread := by
  have hout := h.outbound
  unfold hand at hout
  unfold udpSendPktRoutine
  cases hsender : s.sender with
  | testing =>
    refine ⟨waiting, ?_, h.pktQueue, h.unsent, h.inbound, h.receivedQueue⟩
    rw [hsender] at hout
    unfold hand
    cases s.shutdown <;> exact hout
  | looking =>
    refine ⟨waiting, ?_, h.pktQueue, h.unsent, h.inbound, h.receivedQueue⟩
    rw [hsender] at hout
    unfold hand
    cases s.pktQueue.isNull <;> exact hout
  | getting =>
    rw [hsender] at hout
    dsimp only at hout ⊢
    rcases h.pktQueue.get with ⟨hnull, hsame, -⟩ | ⟨rest, rfl, hsome, hrest, -⟩
    · rw [hnull, hsame]
      exact ⟨waiting, hout, h.pktQueue, h.unsent, h.inbound, h.receivedQueue⟩
    · rw [hsome]
      refine ⟨rest, ?_, hrest, h.unsent, h.inbound, h.receivedQueue⟩
      rw [hout]
      simp [hand]
  | sending pkt =>
    rw [hsender] at hout
    refine ⟨waiting, ?_⟩
    unfold sendto
    dsimp only at hout ⊢
    cases hsocket : s.sendSocket with
    | true =>
      have hnone := h.unsent hsocket
      rw [hnone] at hout
      refine ⟨?_, h.pktQueue, fun _ => hnone, h.inbound, h.receivedQueue⟩
      simp only [if_true, hand, hnone]
      rw [hout]
      simp
    | false =>
      refine ⟨?_, h.pktQueue, fun hopen => ?_, h.inbound, h.receivedQueue⟩
      · simp only [Bool.false_eq_true, if_false, hand]
        rw [hout]
        simp
      · simp only [Bool.false_eq_true, if_false] at hopen
  | done => exact ⟨waiting, h⟩

theorem InOrder.recv (h : s.InOrder waiting unread) (answer : Option Datagram) :
    ∃ unread', (s.udpRecvPktRoutine answer).InOrder waiting unread' := by
  unfold udpRecvPktRoutine
  cases hreceiver : s.receiver with
  | storing d =>
    have hstored : packetFor (Ptr.ofBuf d.address networkAddrLength) d.port
        (Ptr.ofBuf d.bytes messageLength) d.bytes.length = d.stored :=
      congrArg Watched.value (storePkt_spec d)
    have hadd := h.receivedQueue.add (Ptr.ofBuf d.address networkAddrLength) d.port
      (Ptr.ofBuf d.bytes messageLength) d.bytes.length
    have hin := h.inbound
    refine ⟨_, h.outbound, h.pktQueue, h.unsent, ?_, hadd⟩
    dsimp only
    split
    · rw [List.map_append, hin, hstored, List.append_assoc]
      rfl
    · exact hin
  | done => exact ⟨unread, h⟩
  | _ => exact ⟨unread, h.outbound, h.pktQueue, h.unsent, h.inbound, h.receivedQueue⟩

theorem InOrder.add (h : s.InOrder waiting unread) (address : Ptr) (port : Nat) (content : Ptr)
    (size : Nat) : ∃ waiting', (s.add address port content size).InOrder waiting' unread := by
  have hout := h.outbound
  refine ⟨_, ?_, h.pktQueue.add address port content size, h.unsent, h.inbound, h.receivedQueue⟩
  unfold Udp.add
  dsimp only
  split
  · rw [hout]
    simp [hand]
  · exact hout

theorem InOrder.getrecv (h : s.InOrder waiting unread) (e : Encryption) (emptyPkt : SPkt) :
    ∃ unread', (s.getrecv e emptyPkt).InOrder waiting unread' := by
  have hin := h.inbound
  unfold Udp.getrecv
  dsimp only
  rw [udpGetrecv_queue]
  rcases h.receivedQueue.get with ⟨hnull, hsame, -⟩ | ⟨rest, hrest, hsome, hconveys, -⟩
  · rw [hnull, hsame]
    exact ⟨unread, h.outbound, h.pktQueue, h.unsent, hin, h.receivedQueue⟩
  · rw [hsome]
    refine ⟨rest, h.outbound, h.pktQueue, h.unsent, ?_, hconveys⟩
    rw [hrest] at hin
    rw [hin]
    simp

theorem InOrder.release (h : s.InOrder waiting unread) : s.udpRelease.InOrder waiting unread := by
  unfold udpRelease
  cases s.stage with
  | shutDown =>
    exact ⟨h.outbound, h.pktQueue, fun hopen => Bool.noConfusion hopen, h.inbound, h.receivedQueue⟩
  | recvClosed => exact ⟨h.outbound, h.pktQueue.free, h.unsent, h.inbound, h.receivedQueue⟩
  | sendFreed => exact ⟨h.outbound, h.pktQueue, h.unsent, h.inbound, h.receivedQueue.free⟩
  | _ => exact ⟨h.outbound, h.pktQueue, h.unsent, h.inbound, h.receivedQueue⟩

theorem InOrder.step (h : s.InOrder waiting unread) (turn : Turn) :
    ∃ waiting' unread', (s.step turn).InOrder waiting' unread' := by
  cases turn with
  | send =>
    obtain ⟨waiting', h'⟩ := h.send
    exact ⟨waiting', unread, h'⟩
  | recv answer =>
    obtain ⟨unread', h'⟩ := h.recv answer
    exact ⟨waiting, unread', h'⟩
  | add address port content size =>
    obtain ⟨waiting', h'⟩ := h.add address port content size
    exact ⟨waiting', unread, h'⟩
  | getrecv e emptyPkt =>
    obtain ⟨unread', h'⟩ := h.getrecv e emptyPkt
    exact ⟨waiting, unread', h'⟩
  | release => exact ⟨waiting, unread, h.release⟩

theorem Reachable.rule {P : Udp → Prop}
    (hinit : ∀ memory memory' sendSocket recvSocket bound s,
      udpInitial memory memory' sendSocket recvSocket bound = (0, some s) → P s)
    (hstep : ∀ (s : Udp) (turn : Turn), P s → P (s.step turn)) (h : s.Reachable) : P s := by
  obtain ⟨memory, memory', sendSocket, recvSocket, bound, s₀, turns, hs₀, rfl⟩ := h
  exact Machine.foldl_invariant (hinit memory memory' sendSocket recvSocket bound s₀ hs₀)
    fun pre turn _ hP => hstep _ turn hP

/-- A connection before the first packet. -/
def connected : Udp where
  shutdown := false
  sendSocket := true
  recvSocket := true
  pktQueue := initPacketQueueIn initPacketQueue
  receivedQueue := initPacketQueueIn initPacketQueue
  sender := .testing
  receiver := .testing
  stage := .serving
  accepted := []
  sent := []
  unsent := []
  arrived := []
  taken := []

/-- Two packets are accepted, and the first is taken; `udp_release` starts and closes the socket. -/
def closing : Udp :=
  connected.run [.add (Ptr.ofBuf "10.0.0.1".toList 17) 8888 (Ptr.ofBuf "a".toList 2) 1,
    .add (Ptr.ofBuf "10.0.0.1".toList 17) 8888 (Ptr.ofBuf "b".toList 2) 1, .send, .send, .send,
    .release, .release]

end Udp

end LBeacon
