import LBeacon.Dispatch
import LBeacon.JoinDelivery
import LBeacon.Uplink

/-!
# The beacon among its threads

The loop of `main`, the loop of `manage_communication`, the threads of UDP_API.c and those that
change the tracked lists, from the start of the loops to `ready_to_work` becoming false.
-/

open CText CMemory

namespace LBeacon

/-! ## The handlers, up to the message -/

/-- `handle_health_report` in front of `udp_addpkt`, with the message if it gets there. -/
def healthMessage (cfg : Config) (w : HealthWorld) : Watched (ErrorCode × Option Str) := do
  let selfCheckBuf ← readFirstLine w.selfCheckBelow w.selfCheckFile fileOpenRetry []
  let versionBuf ← readFirstLine w.versionBelow w.versionFile fileOpenRetry []
  let message := pollInfoText beaconHealthReport cfg w.now
  if message.length > maxLengthRespBasicInfo then return (.ePrepareResponseBasicInfo, none)
  let messageTemp ← strcpy wifiMessageLength (selfCheckBuf ++ [';'] ++ versionBuf ++ [';'])
  if wifiMessageLength ≤ message.length + messageTemp.length then return (.eBufferSize, none)
  let message ← strcat wifiMessageLength message messageTemp
  return (.workSuccessfully, some message)

/-- `handle_tracked_object_data` in front of `udp_addpkt`. The threads that change the lists do not
come between its critical sections here. -/
def trackedMessage (cfg : Config) (w : World) (s : Tracker) : ErrorCode × Option Str × Tracker :=
  if s.brObjectList = [] ∧ s.bleObjectList = [] then (.workSuccessfully, none, s)
  else
    match beaconBasicInfo cfg w s with
    | (.workSuccessfully, message, s) =>
      let (brText, s) := consolidateTrackedData s .br (sizeT (wifiMessageLength - message.length))
      let message := message ++ brText
      let (bleText, s) := consolidateTrackedData s .ble (sizeT (wifiMessageLength - message.length))
      let message := message ++ bleText
      (.workSuccessfully, some message, (s.addpkt message).tick)
    | (_, _, s) => (.ePrepareResponseBasicInfo, none, s)

variable {c : Codec} {cfg : Config} {gatewayAddr : Str} {gatewayPort : Nat}

theorem handleHealthReport_message (w : HealthWorld) (q : PktQueue) :
    handleHealthReport c cfg gatewayAddr gatewayPort w q = do
      let r ← healthMessage cfg w
      match r.2 with
      | none => return (r.1, q)
      | some message =>
        let sent ← udpAddpkt c q (Ptr.ofBuf gatewayAddr networkAddrLength) gatewayPort
          (Ptr.ofBuf message wifiMessageLength)
        return (r.1, sent.2) := by
  unfold handleHealthReport healthMessage
  ext1
  · simp only [value_bind]
    split
    · rfl
    · simp only [value_bind]
      split <;> rfl
  · simp only [faults_bind, value_bind]
    split
    · simp
    · simp only [faults_bind, value_bind]
      split <;> simp [List.append_assoc]

theorem handleTrackedObjectData_message (w : World) (s : Tracker) (q : PktQueue) :
    Uplink.handleTrackedObjectData c cfg gatewayAddr gatewayPort w s q =
      let r := trackedMessage cfg w s
      match r.2.1 with
      | none => pure (r.1, r.2.2, q)
      | some message => do
        let sent ← udpAddpkt c q (Ptr.ofBuf gatewayAddr networkAddrLength) gatewayPort
          (Ptr.ofBuf message wifiMessageLength)
        return (r.1, r.2.2, sent.2) := by
  unfold Uplink.handleTrackedObjectData trackedMessage
  split
  · rfl
  · cases beaconBasicInfo cfg w s with
    | mk code rest =>
      obtain ⟨message, s⟩ := rest
      cases code <;> rfl

/-! ## Threads -/

/-- Where the loop of `manage_communication` is: in front of `udp_getrecv`, behind it with a packet, or
in a handler in front of `udp_addpkt`. -/
inductive Communication where
  | getting
  | serving (tmpPkt : SPkt)
  | adding (message : Str)

/-- Behind a handler that has a message, or none. -/
def Communication.handOver : Option Str → Communication
  | none => .getting
  | some message => .adding message

/-- How many steps the thread is away from `udp_getrecv`. -/
def Communication.distance : Communication → Nat
  | .getting => 0
  | .adding _ => 1
  | .serving _ => 2

theorem Communication.handOver_distance (answer : Option Str) : (handOver answer).distance ≤ 1 := by
  cases answer <;> simp [handOver, distance]

/-- `config` is `g_config` but for `local_addr`, which is in `comm`. `requests` are the times at which
`send_join_request` was successful so far. -/
structure Exchange where
  config : Config
  comm : Comm
  thread : Communication
  lastJoinRequestTime : Int
  requests : List Int
  tracker : Tracker
  udp : Udp

namespace Exchange

def gConfig (s : Exchange) : Config := { s.config with localAddr := s.comm.localAddr }

/-- What the loop of `main` sees. -/
def joining (s : Exchange) : Joining where
  config := s.gConfig
  joinStatus := s.comm.joinStatus
  lastJoinRequestTime := s.lastJoinRequestTime
  udp := s.udp
  requests := s.requests

/-- One pass of the loop of `main`. -/
def pass (site : Site) (s : Exchange) (currentTime : Int) (now : Int32) : Exchange :=
  let j := s.joining.pass site currentTime now
  { s with lastJoinRequestTime := j.lastJoinRequestTime, requests := j.requests, udp := j.udp }

/-- The handler of a request. That of a join response has no message, and is done when the packet is
dispatched. -/
def handle (w : World) (s : Exchange) (health : HealthWorld) : Option Request → Watched Exchange
  | some .trackedObjectData =>
    let r := trackedMessage s.gConfig w s.tracker
    return { s with tracker := r.2.2, thread := .handOver r.2.1 }
  | some .beaconHealthReport => do
    let r ← healthMessage s.gConfig health
    return { s with thread := .handOver r.2 }
  | _ => return { s with thread := .getting }

/-- The next step of the loop of `manage_communication`. -/
def manageCommunication (site : Site) (w : World) (s : Exchange) (emptyPkt : SPkt)
    (health : HealthWorld) : Watched Exchange :=
  match s.thread with
  | .getting => do
    let r ← udpGetrecv site.codec.toEncryption emptyPkt s.udp.receivedQueue
    return { s with
      udp := s.udp.getrecv site.codec.toEncryption emptyPkt
      thread := if r.1.isNull then .getting else .serving r.1 }
  | .serving tmpPkt => do
    let served ← servePacket tmpPkt s.comm
    handle w { s with comm := served.2 } health served.1
  | .adding message => do
    let r ← s.udp.udpAddpkt site.codec (Ptr.ofBuf site.gatewayAddr networkAddrLength)
      site.gatewayPort (Ptr.ofBuf message wifiMessageLength)
    return { s with udp := r.2, thread := .getting }

/-- Whose turn it is. `push`, `scanRsp` and `cleanup` are what the other threads do to the tracked
lists. -/
inductive Turn where
  | pass (currentTime : Int) (now : Int32)
  | comm (emptyPkt : SPkt) (health : HealthWorld)
  | send
  | recv (answer : Option Datagram)
  | push (deviceType : DeviceType) (args : PushArgs)
  | scanRsp (macAddress : Str) (payload : List UInt8)
  | cleanup (list : ListHead)

def step (site : Site) (w : World) (s : Exchange) : Turn → Exchange
  | .pass currentTime now => s.pass site currentTime now
  | .comm emptyPkt health => (s.manageCommunication site w emptyPkt health).value
  | .send => { s with udp := s.udp.udpSendPktRoutine }
  | .recv answer => { s with udp := s.udp.udpRecvPktRoutine answer }
  | .push deviceType args => { s with tracker := sendToPushDongle w s.tracker deviceType args }
  | .scanRsp macAddress payload =>
    { s with tracker := sendToPushDongleScanRsp w s.tracker macAddress payload }
  | .cleanup list => { s with tracker := cleanupLists s.tracker list }

def run (site : Site) (w : World) (s : Exchange) (turns : List Turn) : Exchange :=
  turns.foldl (step site w) s

/-- The communication thread stays in its buffers. -/
def Turn.Safe (site : Site) (w : World) (s : Exchange) : Turn → Prop
  | .comm emptyPkt health => (s.manageCommunication site w emptyPkt health).faults = []
  | _ => True

/-- All turns are safe. -/
def Safe (site : Site) (w : World) (s : Exchange) (turns : List Turn) : Prop :=
  Machine.Along (step site w) (Turn.Safe site w) s turns

/-- What `get_clock_time` gave to the passes. -/
def clocks (turns : List Turn) : List Int :=
  turns.filterMap fun
    | .pass currentTime _ => some currentTime
    | _ => none

/-- Before the loops. `manage_communication` has not looked at a packet. -/
def start (config : Config) (comm : Comm) (tracker : Tracker) (udp : Udp) : Exchange where
  config
  comm
  thread := .getting
  lastJoinRequestTime := 0
  requests := []
  tracker
  udp

variable {site : Site} {w : World} {s : Exchange}

@[simp] theorem step_pass (s : Exchange) (currentTime : Int) (now : Int32) :
    s.step site w (.pass currentTime now) = s.pass site currentTime now := rfl

@[simp] theorem step_comm (s : Exchange) (emptyPkt : SPkt) (health : HealthWorld) :
    s.step site w (.comm emptyPkt health) = (s.manageCommunication site w emptyPkt health).value := rfl

/-! ## What a step does -/

variable {emptyPkt : SPkt} {health : HealthWorld}

theorem pass_cases (site : Site) (s : Exchange) (currentTime : Int) (now : Int32) :
    s.pass site currentTime now = s ∨
      ∃ address port content size, s.pass site currentTime now =
        { s with
          udp := s.udp.add address port content size
          lastJoinRequestTime := currentTime
          requests := s.requests ++ [currentTime] } := by
  unfold pass
  obtain heq | ⟨address, port, content, size, heq⟩ := s.joining.pass_cases site currentTime now
  · left
    rw [heq]
    rfl
  · right
    refine ⟨address, port, content, size, ?_⟩
    rw [heq]
    rfl

theorem comm_getting (h : s.thread = .getting) :
    let pkt := (udpGetrecv site.codec.toEncryption emptyPkt s.udp.receivedQueue).value.1
    (s.manageCommunication site w emptyPkt health).value =
      { s with
        udp := s.udp.getrecv site.codec.toEncryption emptyPkt
        thread := if pkt.isNull then .getting else .serving pkt } := by
  intro pkt
  unfold manageCommunication
  rw [h]
  rfl

/-- The two steps for a packet are one round of the loop, up to the handler. -/
theorem comm_round (h : s.thread = .getting)
    (hpkt : (udpGetrecv site.codec.toEncryption emptyPkt s.udp.receivedQueue).value.1.isNull = false) :
    let round := (LBeacon.manageCommunication site.codec.toEncryption emptyPkt
      ⟨s.udp.receivedQueue, s.comm⟩).value
    let s' := (s.manageCommunication site w emptyPkt health).value
    round.2.receivedQueue = s'.udp.receivedQueue ∧
      ∃ pkt, s'.thread = .serving pkt ∧ (servePacket pkt s'.comm).value = (round.1, round.2.comm) := by
  intro round s'
  have hstep : s' = _ := comm_getting h
  obtain ⟨hrequest, hcomm⟩ := manageCommunication_packet (s := ⟨s.udp.receivedQueue, s.comm⟩) hpkt
  rw [hstep]
  refine ⟨?_, _, if_neg (by rw [hpkt]; exact Bool.false_ne_true), ?_⟩
  · rw [round_queue]
    exact (udpGetrecv_queue _ _ _).symm
  · dsimp only [round]
    rw [hrequest, hcomm]

theorem comm_serving {tmpPkt : SPkt} (h : s.thread = .serving tmpPkt) :
    let served := servePacket tmpPkt s.comm
    let handled := handle w { s with comm := served.value.2 } health served.value.1
    s.manageCommunication site w emptyPkt health =
      ⟨handled.value, served.faults ++ handled.faults⟩ := by
  unfold manageCommunication
  rw [h]
  rfl

theorem handle_frame (w : World) (s : Exchange) (health : HealthWorld) (request : Option Request) :
    ∃ tracker thread, (handle w s health request).value = { s with tracker, thread } := by
  unfold handle
  split
  · exact ⟨_, _, rfl⟩
  · simp only [value_bind]
    exact ⟨_, _, rfl⟩
  · exact ⟨_, _, rfl⟩

theorem comm_serving_frame {tmpPkt : SPkt} (h : s.thread = .serving tmpPkt) :
    ∃ tracker thread, (s.manageCommunication site w emptyPkt health).value =
      { s with comm := (servePacket tmpPkt s.comm).value.2, tracker, thread } := by
  rw [comm_serving h]
  exact handle_frame w { s with comm := (servePacket tmpPkt s.comm).value.2 } health _

theorem comm_adding {message : Str} (h : s.thread = .adding message) :
    let content := Ptr.ofBuf message wifiMessageLength
    let framed := site.codec.sealed content.text
    (s.manageCommunication site w emptyPkt health).value =
      { s with
        udp := s.udp.add (Ptr.ofBuf site.gatewayAddr networkAddrLength) site.gatewayPort
          (Ptr.ofBuf framed lengthOfEncodedWifiMessage) framed.length
        thread := .getting } := by
  unfold manageCommunication
  rw [h]
  rfl

/-! ## The loop of main among the others -/

/-- What a packet does to the variables that `handle_join_response` writes. -/
def Answered (s s' : Comm) (faults : List Fault) : Prop :=
  s'.localAddr = s.localAddr ∧ s'.joinStatus = s.joinStatus ∨
    ∃ payload, (handleJoinResponse payload).value = (s'.localAddr, s'.joinStatus) ∧
      (faults = [] → (handleJoinResponse payload).faults = [])

theorem dispatch_answered (payload : Ptr) (s : Comm) :
    Answered s (dispatch payload s).value.2 (dispatch payload s).faults := by
  unfold dispatch
  split
  · split
    · refine Or.inr ⟨payload, ?_⟩
      simp only [value_bind, faults_bind, value_pure, faults_pure, List.append_nil, true_and]
      exact id
    · left
      split
      · exact ⟨rfl, rfl⟩
      · split <;> exact ⟨rfl, rfl⟩
  · exact Or.inl ⟨rfl, rfl⟩

theorem Answered.mono {s s' : Comm} {faults faults' : List Fault} (h : Answered s s' faults)
    (hle : faults' = [] → faults = []) : Answered s s' faults' := by
  obtain hsame | ⟨payload, hvalue, hsafe⟩ := h
  · exact Or.inl hsame
  · exact Or.inr ⟨payload, hvalue, fun hnone => hsafe (hle hnone)⟩

theorem parsePacket_answered (buf : Ptr) (s : Comm) :
    Answered s (parsePacket buf s).value.2 (parsePacket buf s).faults := by
  unfold parsePacket
  simp only [value_bind, faults_bind]
  split
  · exact Or.inl ⟨rfl, rfl⟩
  · simp only [value_bind, faults_bind]
    split
    · exact Or.inl ⟨rfl, rfl⟩
    · simp only [value_bind, faults_bind]
      split
      · exact Or.inl ⟨rfl, rfl⟩
      · simp only [value_bind, faults_bind]
        refine (dispatch_answered _ _).mono fun hnone => ?_
        simp only [List.append_eq_nil_iff] at hnone
        exact hnone.2.2.2.2

theorem servePacket_answered (tmpPkt : SPkt) (s : Comm) :
    Answered s (servePacket tmpPkt s).value.2 (servePacket tmpPkt s).faults := by
  unfold servePacket
  simp only [value_bind, faults_bind]
  refine (parsePacket_answered _ _).mono fun hnone => ?_
  simp only [List.append_eq_nil_iff] at hnone
  exact hnone.2.2

/-- To the loop of `main` a step of the beacon is at most one turn of the others. -/
theorem joining_step (site : Site) (w : World) (s : Exchange) (turn : Turn) :
    ∃ jturns, (s.step site w turn).joining = s.joining.run site jturns ∧
      Joining.clocks jturns = clocks [turn] ∧
      (turn.Safe site w s → ∀ jturn ∈ jturns, jturn.Safe) := by
  have hudp (turn : Udp.Turn) : ∀ jturn ∈ [Joining.Turn.udp turn], jturn.Safe := by
    simp [Joining.Turn.Safe]
  cases turn with
  | pass currentTime now =>
    refine ⟨[.pass currentTime now], ?_, rfl, fun _ => by simp [Joining.Turn.Safe]⟩
    show (s.pass site currentTime now).joining = s.joining.pass site currentTime now
    unfold pass
    obtain heq | ⟨_, _, _, _, heq⟩ := s.joining.pass_cases site currentTime now
    · rw [heq]
      rfl
    · rw [heq]
      rfl
  | comm emptyPkt health =>
    rw [step_comm]
    cases hthread : s.thread with
    | getting =>
      rw [comm_getting hthread]
      exact ⟨[.udp (.getrecv site.codec.toEncryption emptyPkt)], rfl, rfl, fun _ => hudp _⟩
    | serving tmpPkt =>
      obtain ⟨tracker, thread, heq⟩ := comm_serving_frame hthread
      rw [heq]
      obtain ⟨haddr, hstatus⟩ | ⟨payload, hvalue, hsafe⟩ := servePacket_answered tmpPkt s.comm
      · refine ⟨[], ?_, rfl, fun _ _ hmem => absurd hmem List.not_mem_nil⟩
        show joining _ = s.joining
        unfold joining gConfig
        dsimp only
        rw [haddr, hstatus]
      · refine ⟨[.reply payload], ?_, rfl, fun hnone => ?_⟩
        · show joining _ = s.joining.reply payload
          unfold joining gConfig Joining.reply JoinState.handleJoinResponse
          simp only [value_bind, value_pure, hvalue]
        · have hfaults : (s.manageCommunication site w emptyPkt health).faults = [] := hnone
          rw [comm_serving hthread, List.append_eq_nil_iff] at hfaults
          simp only [List.mem_singleton, forall_eq]
          exact hsafe hfaults.1
    | adding message =>
      rw [comm_adding hthread]
      exact ⟨[.udp (.add _ _ _ _)], rfl, rfl, fun _ => hudp _⟩
  | send => exact ⟨[.udp .send], rfl, rfl, fun _ => hudp _⟩
  | recv answer => exact ⟨[.udp (.recv answer)], rfl, rfl, fun _ => hudp _⟩
  | _ => exact ⟨[], rfl, rfl, fun _ _ hmem => absurd hmem List.not_mem_nil⟩

/-- What `manage_communication` may still add for the packet that it took. -/
def owing (s : Exchange) : Nat :=
  match s.thread with
  | .getting => 0
  | _ => 1

/-- One packet at most for each request to join, and one for each packet that was taken. -/
def Balanced (s : Exchange) : Prop :=
  s.udp.accepted.length + s.owing ≤ s.requests.length + s.udp.taken.length

theorem owing_le_one (s : Exchange) : s.owing ≤ 1 := by
  unfold owing
  cases s.thread <;> simp

theorem Balanced.step (h : s.Balanced) (turn : Turn) : (s.step site w turn).Balanced := by
  unfold Balanced at h ⊢
  cases turn with
  | pass currentTime now =>
    rw [step_pass]
    obtain heq | ⟨address, port, content, size, heq⟩ := s.pass_cases site currentTime now
    · rw [heq]
      exact h
    · rw [heq]
      have hadd := Udp.add_accepted_le s.udp address port content size
      show (s.udp.add address port content size).accepted.length + s.owing ≤
        (s.requests ++ [currentTime]).length + s.udp.taken.length
      rw [List.length_append, List.length_singleton]
      omega
  | comm emptyPkt health =>
    rw [step_comm]
    cases hthread : s.thread with
    | getting =>
      rw [comm_getting hthread]
      unfold owing at h ⊢
      rw [hthread] at h
      unfold Udp.getrecv
      dsimp only at h ⊢
      cases hnull : (getPkt s.udp.receivedQueue).1.isNull with
      | true =>
        have hsame : (udpGetrecv site.codec.toEncryption emptyPkt s.udp.receivedQueue).value.1 =
            (getPkt s.udp.receivedQueue).1 := by
          unfold udpGetrecv
          rw [if_pos hnull]
          rfl
        rw [hsame, hnull, if_pos rfl, if_pos rfl]
        exact h
      | false =>
        rw [if_neg Bool.false_ne_true, List.length_append, List.length_singleton]
        split
        · exact Nat.le_succ_of_le h
        · exact Nat.succ_le_succ h
    | serving tmpPkt =>
      obtain ⟨tracker, thread, heq⟩ := comm_serving_frame hthread
      rw [heq]
      have howing : s.owing = 1 := by
        unfold owing
        rw [hthread]
      exact Nat.le_trans (Nat.add_le_add_left (howing ▸ owing_le_one _) _) h
    | adding message =>
      rw [comm_adding hthread]
      have howing : s.owing = 1 := by
        unfold owing
        rw [hthread]
      rw [howing] at h
      exact Nat.le_trans (Udp.add_accepted_le s.udp _ _ _ _) h
  | send =>
    show s.udp.udpSendPktRoutine.accepted.length + s.owing ≤
      s.requests.length + s.udp.udpSendPktRoutine.taken.length
    rw [(s.udp.send_keeps).1, (s.udp.send_keeps).2]
    exact h
  | recv answer =>
    show (s.udp.udpRecvPktRoutine answer).accepted.length + s.owing ≤
      s.requests.length + (s.udp.udpRecvPktRoutine answer).taken.length
    rw [(s.udp.recv_keeps answer).1, (s.udp.recv_keeps answer).2]
    exact h
  | _ => exact h

variable {memory memory' : PktQueue} {sendSocket recvSocket bound : Int} {config : Config}
  {comm : Comm} {tracker : Tracker} {udp : Udp}

end Exchange

end LBeacon
