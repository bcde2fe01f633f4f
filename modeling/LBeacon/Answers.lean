import LBeacon.Exchange

/-!
# Answers

What the beacon sends can be opened, and a request that came in is handled and answered.
-/

open CText CMemory Fair

namespace LBeacon

/-! ## What the messages say -/

/-- The message starts with the type, the UUID and the address. -/
def Introduces (config : Config) (message : Str) : Prop :=
  ∃ pollType ∈ [requestToJoin, trackedObjectData, beaconHealthReport], ∃ localAddr now,
    localAddr.length < networkAddrLength ∧
      pollInfoText pollType { config with localAddr } now <+: message

theorem healthMessage_some {cfg : Config} {w : HealthWorld} (hsafe : (healthMessage cfg w).faults = [])
    {message : Str} (h : (healthMessage cfg w).value.2 = some message) : message = healthText cfg w := by
  unfold healthMessage fileOpenRetry at h hsafe
  simp only [faults_bind, List.append_eq_nil_iff] at hsafe
  obtain ⟨hself, hversion, -⟩ := hsafe
  rw [readFirstLine_eq _ (readFirstLine_faults _ hself),
    readFirstLine_eq _ (readFirstLine_faults _ hversion)] at h
  simp only [value_bind, value_pure] at h
  split at h
  · cases h
  · simp only [value_bind] at h
    split at h
    · cases h
    · exact (Option.some.inj h).symm

theorem trackedMessage_some {cfg : Config} {w : World} {s : Tracker} {message : Str}
    (h : (trackedMessage cfg w s).2.1 = some message) : message = pollMessage cfg w s := by
  unfold trackedMessage at h
  split at h
  · cases h
  · rcases Nat.lt_or_ge maxLengthRespBasicInfo (basicInfo cfg w s).length with hlong | hshort
    · rw [beaconBasicInfo_long hlong] at h
      cases h
    · rw [beaconBasicInfo_fits hshort] at h
      simp only [consolidate_eq] at h
      exact (Option.some.inj h).symm

theorem introduces_healthText {config : Config} {localAddr : Str}
    (haddr : localAddr.length < networkAddrLength) (w : HealthWorld) :
    Introduces config (healthText { config with localAddr } w) :=
  ⟨beaconHealthReport, by simp, localAddr, w.now, haddr, List.prefix_append _ _⟩

theorem introduces_pollMessage {config : Config} {localAddr : Str}
    (haddr : localAddr.length < networkAddrLength) (w : World) (s : Tracker) :
    Introduces config (pollMessage { config with localAddr } w s) := by
  refine ⟨trackedObjectData, by simp, localAddr, w.clock s.readings, haddr, ?_⟩
  rw [← basicInfoText_eq]
  unfold pollMessage
  rw [List.append_assoc]
  exact List.prefix_append _ _

theorem introduces_join {config : Config} {localAddr : Str}
    (haddr : localAddr.length < networkAddrLength) (now : Int32) :
    Introduces config (pollInfoText requestToJoin { config with localAddr } now) :=
  ⟨requestToJoin, by simp, localAddr, now, haddr, List.prefix_rfl⟩

namespace Exchange

variable {site : Site} {w : World} {s : Exchange} {config : Config}

/-- What a handler has to send. -/
def answer (w : World) (s : Exchange) (health : HealthWorld) : Request → Option Str
  | .joinResponse => none
  | .trackedObjectData => (trackedMessage s.gConfig w s.tracker).2.1
  | .beaconHealthReport => (healthMessage s.gConfig health).value.2

theorem handle_thread (w : World) (s : Exchange) (health : HealthWorld) (request : Option Request) :
    (handle w s health request).value.thread = .handOver (request.bind (s.answer w health)) := by
  unfold handle
  split
  · rfl
  · rfl
  · rename_i htracked hhealth
    obtain _ | ⟨_ | _ | _⟩ := request
    · rfl
    · rfl
    · exact absurd rfl htracked
    · exact absurd rfl hhealth

theorem adding_of_handOver {answer : Option Str} {message : Str}
    (h : Communication.handOver answer = .adding message) : answer = some message := by
  cases answer with
  | none => exact Communication.noConfusion h
  | some found => exact congrArg some (Communication.adding.inj h)

/-! ## What is sent can be opened -/

/-- The packet is one for a message that starts with the beacon's own text. -/
def Written (site : Site) (config : Config) (p : SPkt) : Prop :=
  ∃ message, p = site.pkt message ∧ Sendable message ∧ Introduces config message

structure Speaks (site : Site) (config : Config) (s : Exchange) : Prop where
  same : s.config = config
  fits : Joining.Fits s.gConfig
  thread : ∀ message, s.thread = .adding message → NUL ∉ message ∧ Introduces config message
  accepted : ∀ p ∈ s.udp.accepted, Written site config p

theorem gConfig_eq (h : s.config = config) :
    s.gConfig = { config with localAddr := s.comm.localAddr } := by
  unfold gConfig
  rw [h]

theorem answer_introduces (hconfig : s.config = config) (hfits : Joining.Fits s.gConfig)
    {health : HealthWorld} {request : Request}
    (hsafe : (handle w s health (some request)).faults = []) {message : Str}
    (h : s.answer w health request = some message) : NUL ∉ message ∧ Introduces config message := by
  have haddr := hfits.localAddr
  cases request with
  | joinResponse => cases h
  | trackedObjectData =>
    rw [trackedMessage_some h]
    refine ⟨nul_notMem_pollMessage hfits.uuidText hfits.localAddrText w s.tracker, ?_⟩
    rw [gConfig_eq hconfig] at haddr ⊢
    exact introduces_pollMessage haddr w s.tracker
  | beaconHealthReport =>
    have hnone : (healthMessage s.gConfig health).faults = [] := by
      unfold handle at hsafe
      rw [faults_bind, List.append_eq_nil_iff] at hsafe
      exact hsafe.1
    rw [healthMessage_some hnone h]
    refine ⟨nul_notMem_healthText hfits.uuidText hfits.localAddrText, ?_⟩
    rw [gConfig_eq hconfig] at haddr ⊢
    exact introduces_healthText haddr health

theorem fits_step (h : Joining.Fits s.gConfig) {turn : Turn} (hsafe : turn.Safe site w s) :
    Joining.Fits (s.step site w turn).gConfig := by
  obtain ⟨jturns, heq, -, hjsafe⟩ := joining_step site w s turn
  have hfits : Joining.Fits (s.joining.run site jturns).config := h.run (hjsafe hsafe)
  rw [← heq] at hfits
  exact hfits

theorem sendable_of_safe {message : Str} (hthread : s.thread = .adding message) (hnul : NUL ∉ message)
    {emptyPkt : SPkt} {health : HealthWorld}
    (hsafe : (s.manageCommunication site w emptyPkt health).faults = []) : Sendable message := by
  refine ⟨hnul, Nat.lt_of_not_le fun hlong => ?_⟩
  unfold manageCommunication Udp.udpAddpkt at hsafe
  rw [hthread] at hsafe
  simp only [faults_bind, List.append_eq_nil_iff] at hsafe
  exact udpAddpkt_long hnul hlong _ _ _ hsafe.1.1

theorem Speaks.comm (hc : site.codec.Sound) (h : s.Speaks site config) {emptyPkt : SPkt}
    {health : HealthWorld} (hsafe : (s.manageCommunication site w emptyPkt health).faults = []) :
    (s.manageCommunication site w emptyPkt health).value.Speaks site config := by
  have hfits : Joining.Fits (s.manageCommunication site w emptyPkt health).value.gConfig :=
    fits_step h.fits (show (Turn.comm emptyPkt health).Safe site w s from hsafe)
  cases hthread : s.thread with
  | getting =>
    rw [comm_getting hthread] at hfits ⊢
    refine ⟨h.same, hfits, fun message hadding => ?_, h.accepted⟩
    dsimp only at hadding
    split at hadding <;> cases hadding
  | serving tmpPkt =>
    rw [comm_serving hthread] at hsafe hfits ⊢
    dsimp only at hsafe hfits ⊢
    rw [List.append_eq_nil_iff] at hsafe
    generalize hserved : (servePacket tmpPkt s.comm).value = served at *
    obtain ⟨tracker, thread, heq⟩ := handle_frame w { s with comm := served.2 } health served.1
    have hnext := handle_thread w { s with comm := served.2 } health served.1
    rw [heq] at hfits hnext ⊢
    refine ⟨h.same, hfits, fun message hadding => ?_, h.accepted⟩
    rw [hnext] at hadding
    obtain ⟨request, hrequest, hanswer⟩ := Option.bind_eq_some_iff.mp (adding_of_handOver hadding)
    rw [hrequest] at hsafe
    exact answer_introduces (s := { s with comm := served.2 }) h.same hfits hsafe.2 hanswer
  | adding message =>
    have hsend := sendable_of_safe hthread (h.thread message hthread).1 hsafe
    rw [comm_adding hthread] at hfits ⊢
    refine ⟨h.same, hfits, fun _ hadding => Communication.noConfusion hadding, fun p hp => ?_⟩
    obtain hold | rfl := Site.mem_accepted hc hsend hp
    · exact h.accepted p hold
    · exact ⟨message, rfl, hsend, (h.thread message hthread).2⟩

theorem Speaks.step (hc : site.codec.Sound) (h : s.Speaks site config) {turn : Turn}
    (hsafe : turn.Safe site w s) : (s.step site w turn).Speaks site config := by
  have hfits := fits_step h.fits hsafe
  cases turn with
  | pass currentTime now =>
    rw [step_pass] at hfits ⊢
    refine ⟨h.same, hfits, h.thread, fun p hp => ?_⟩
    obtain hold | rfl := Joining.mem_pass_accepted (s := s.joining) hc h.fits hp
    · exact h.accepted p hold
    · refine ⟨_, rfl, Joining.joinText_sendable h.fits now, ?_⟩
      have haddr := h.fits.localAddr
      show Introduces config (pollInfoText requestToJoin s.gConfig now)
      rw [gConfig_eq h.same] at haddr ⊢
      exact introduces_join haddr now
  | comm emptyPkt health => exact h.comm hc hsafe
  | send =>
    refine ⟨h.same, hfits, h.thread, fun p hp => h.accepted p ?_⟩
    exact s.udp.send_keeps.1 ▸ hp
  | recv answer =>
    refine ⟨h.same, hfits, h.thread, fun p hp => h.accepted p ?_⟩
    exact (s.udp.recv_keeps answer).1 ▸ hp
  | _ => exact ⟨h.same, hfits, h.thread, h.accepted⟩

variable {memory memory' : PktQueue} {sendSocket recvSocket bound : Int} {comm : Comm}
  {tracker : Tracker} {udp : Udp}

/-- The threads of a beacon that is not stopped. -/
structure FairRun (s : Exchange) (turns : Nat → Turn) : Prop where
  reachable : s.udp.Reachable
  serving : s.udp.Serving
  comm : Recurs turns fun turn => ∃ emptyPkt health, turn = .comm emptyPkt health
  send : Recurs turns fun turn => turn = .send

variable {turns : Nat → Turn}

theorem step_thread (s : Exchange) {turn : Turn} (h : ¬ ∃ emptyPkt health, turn = .comm emptyPkt health) :
    (s.step site w turn).thread = s.thread := by
  cases turn with
  | comm emptyPkt health => exact absurd ⟨emptyPkt, health, rfl⟩ h
  | _ => rfl

theorem FairRun.next (h : FairRun s turns) (t : Nat) {thread : Communication}
    (hthread : (states (step site w) s turns t).thread = thread) :
    ∃ u, t ≤ u ∧ (states (step site w) s turns u).thread = thread ∧
      ∃ emptyPkt health, turns u = .comm emptyPkt health :=
  h.comm.until (P := fun s : Exchange => s.thread = thread) (fun u hother hu => by
    rw [states_succ, step_thread _ hother]
    exact hu) hthread

theorem comm_distance (h : s.thread ≠ .getting) (emptyPkt : SPkt) (health : HealthWorld) :
    (s.manageCommunication site w emptyPkt health).value.thread.distance < s.thread.distance := by
  cases hthread : s.thread with
  | getting => exact absurd hthread h
  | serving tmpPkt =>
    rw [comm_serving hthread]
    dsimp only
    rw [handle_thread]
    exact Nat.lt_succ_of_le (Communication.handOver_distance _)
  | adding message =>
    rw [comm_adding hthread]
    exact Nat.lt_succ_self 0

theorem FairRun.gets (h : FairRun s turns) (site : Site) (w : World) (t : Nat) :
    ∃ u, t ≤ u ∧ (states (step site w) s turns u).thread = .getting := by
  by_cases hnow : (states (step site w) s turns t).thread = .getting
  · exact ⟨t, Nat.le_refl t, hnow⟩
  have hleads : LeadsTo (states (step site w) s turns) (fun s => s.thread ≠ .getting)
      fun s => s.thread = .getting := by
    refine LeadsTo.of_inputs h.comm (fun s : Exchange => s.thread.distance)
      (fun u hother hbusy => Or.inl ?_) fun u ⟨emptyPkt, health, hturn⟩ hbusy => ?_
    · rw [states_succ, step_thread _ hother]
      exact ⟨hbusy, Nat.le_refl _⟩
    · have hless : (states (step site w) s turns (u + 1)).thread.distance <
          (states (step site w) s turns u).thread.distance := by
        rw [states_succ, hturn, step_comm]
        exact comm_distance hbusy emptyPkt health
      exact (Classical.em _).symm.imp_left fun hstill => ⟨hstill, hless⟩
  exact hleads t hnow

theorem FairRun.reads (h : FairRun s turns) :
    Udp.Reads fun t => (states (step site w) s turns t).udp := fun t => by
  obtain ⟨u, htu, hgetting⟩ := h.gets site w t
  obtain ⟨v, huv, hthread, emptyPkt, health, hturn⟩ := h.next u hgetting
  refine ⟨v, Nat.le_trans htu huv, site.codec.toEncryption, emptyPkt, ?_⟩
  show (states (step site w) s turns (v + 1)).udp = _
  rw [states_succ, hturn, step_comm, comm_getting hthread]

/-! ## A request is answered -/

/-- The next step runs the handler of `r` for this text, and `message` is what it has to send. -/
def Handles (w : World) (s : Exchange) (turn : Turn) (text : Str) (r : Request)
    (message : Option Str) : Prop :=
  ∃ pkt emptyPkt health, s.thread = .serving pkt ∧ pkt.text = text ∧ turn = .comm emptyPkt health ∧
    (servePacket pkt s.comm).value.1 = some r ∧
    { s with comm := (servePacket pkt s.comm).value.2 }.answer w health r = message

theorem Handles.thread {turn : Turn} {text message : Str} {r : Request}
    (h : s.Handles w turn text r (some message)) :
    (s.step site w turn).thread = .adding message := by
  obtain ⟨pkt, emptyPkt, health, hthread, -, rfl, hserved, hanswer⟩ := h
  rw [step_comm, comm_serving hthread]
  dsimp only
  rw [handle_thread, hserved, Option.bind_some, hanswer]
  rfl

end Exchange

end LBeacon
