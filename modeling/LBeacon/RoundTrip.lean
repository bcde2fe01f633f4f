import LBeacon.Send
import LBeacon.Authenticity
import Mathlib.Data.List.Forall2

/-!
# Messages over the network

What `udp_addpkt` sends on one side, `udp_getrecv` returns on the other.
-/

open CText CMemory

namespace LBeacon

/-! ## Two queues with a network between them -/

inductive LinkEvent where
  | send (address : Ptr) (port : Nat) (content : Str)
  | transfer (address : Ptr) (port : Nat)
  | receive (emptyPkt : SPkt)

/-- `received` are the contents that were returned, with their `content_size`. -/
structure Link where
  sendQueue : PktQueue
  receivedQueue : PktQueue
  received : List (Str × Int)

def linkStep (c : Codec) (s : Link) : LinkEvent → Link
  | .send address port content =>
    let message := Ptr.ofBuf content wifiMessageLength
    { s with sendQueue := (udpAddpkt c s.sendQueue address port message).value.2 }
  | .transfer address port =>
    let r := getPkt s.sendQueue
    if r.1.isNull then { s with sendQueue := r.2 }
    else
      let arrived := addpkt s.receivedQueue address port (Ptr.ofBuf r.1.content messageLength)
        r.1.contentSize.toNat
      { s with sendQueue := r.2, receivedQueue := arrived.value.2 }
  | .receive emptyPkt =>
    let r := (udpGetrecv c.toEncryption emptyPkt s.receivedQueue).value
    if r.1.isNull then { s with receivedQueue := r.2 }
    else ⟨s.sendQueue, r.2, s.received ++ [(r.1.text, r.1.contentSize)]⟩

def linkRun (c : Codec) (s : Link) (events : List LinkEvent) : Link := events.foldl (linkStep c) s

def LinkEvent.sent : LinkEvent → List Str
  | .send _ _ content => [content]
  | _ => []

/-- No send finds a full queue, and no transfer. -/
def LinkEvent.HasRoom (s : Link) : LinkEvent → Prop
  | .send _ _ _ => s.sendQueue.isFull = false
  | .transfer _ _ => s.receivedQueue.isFull = false
  | .receive _ => True

def Roomy (c : Codec) : Link → List LinkEvent → Prop
  | _, [] => True
  | s, event :: events => event.HasRoom s ∧ Roomy c (linkStep c s event) events

/-- What is assumed of `libEncrypt`, for the hashes of messages. -/
structure Codec.Sound (c : Codec) : Prop where
  decodes : ∀ content, c.decoder (some (c.encoder (c.sha256Hash content))) =
    some (c.sha256Hash content)
  nonempty : ∀ content, c.encoder (c.sha256Hash content) ≠ []
  short : ∀ content, (c.encoder (c.sha256Hash content)).length < lengthOfSha256
  noDelimiter : ∀ content, ';' ∉ c.encoder (c.sha256Hash content)
  noNul : ∀ content, NUL ∉ c.encoder (c.sha256Hash content)

def Sendable (content : Str) : Prop := NUL ∉ content ∧ content.length < wifiMessageLength

theorem Codec.Sound.token_eq {c : Codec} (hc : c.Sound) (content : Str) :
    c.token content = c.encoder (c.sha256Hash content) := cstr_eq_self (hc.noNul content)

theorem Codec.Sound.sealed_length {c : Codec} (hc : c.Sound) {content : Str}
    (h : Sendable content) : (c.sealed content).length < lengthOfEncodedWifiMessage := by
  have hshort := hc.short content
  have hlen := h.2
  unfold Codec.sealed
  rw [hc.token_eq, List.length_append, List.length_cons]
  unfold lengthOfEncodedWifiMessage
  omega

theorem udpAddpkt_safe {c : Codec} (hc : c.Sound) {content : Str} (h : Sendable content)
    (q : PktQueue) {address : Ptr}
    (haddress : address.Terminated ∨ networkAddrLength ≤ address.text.length) (port : Nat) :
    (udpAddpkt c q address port (Ptr.ofBuf content wifiMessageLength)).faults = [] := by
  have htext : (Ptr.ofBuf content wifiMessageLength).text = content := by
    rw [text_ofBuf h.2.le, cstr_eq_self h.1]
  have hlen := hc.sealed_length h
  have hsealed : c.token content ++ [';'] ++ content = c.sealed content := by
    rw [List.append_assoc]
    rfl
  have hread : (Ptr.ofBuf content wifiMessageLength).read.faults = [] := by
    rw [faults_read, Ptr.Terminated, htext, room_ofBuf]
    exact h.2
  have hsize : (c.sealed content).length ≤ messageLength :=
    hlen.le.trans (by decide)
  have hterm : (Ptr.ofBuf (c.sealed content) lengthOfEncodedWifiMessage).Terminated := by
    rw [Ptr.Terminated, text_ofBuf hlen.le, room_ofBuf]
    exact (cstr_length_le _).trans_lt hlen
  unfold udpAddpkt
  rw [faults_bind, hread, List.nil_append, value_read, htext, faults_bind, faults_bind,
    value_strcat, value_strcat, hsealed, if_neg (Nat.not_lt.mpr hsize), faults_bind,
    addpkt_safe haddress (Or.inl hterm) hsize, faults_pure, List.append_nil]
  unfold Codec.sealed at hlen
  rw [List.length_append, List.length_cons] at hlen
  simp only [List.append_nil, List.append_eq_nil_iff, faults_strcat, List.length_append,
    List.length_singleton]
  omega

/-! ## What a queue carries -/

/-- The packet holds the message and its token. -/
def Sealed (c : Codec) (content : Str) (p : SPkt) : Prop :=
  Sendable content ∧ p.isNull = false ∧ p.content = c.sealed content ∧
    p.contentSize = (c.sealed content).length

def Carries (c : Codec) (q : PktQueue) (contents : List Str) : Prop :=
  ∃ f : PktFifo, Agrees q f ∧ f.isFree = false ∧ List.Forall₂ (Sealed c) contents f.packets.items

theorem Carries.isFull_iff {c : Codec} {q : PktQueue} {contents : List Str}
    (h : Carries c q contents) : q.isFull = false ↔ contents.length < maxQueueLength := by
  obtain ⟨f, hagrees, -, hcontents⟩ := h
  have hbound := f.packets.bounded
  rw [hcontents.length_eq, ← Bool.not_eq_true, LBeacon.isFull_iff hagrees.holds]
  omega

theorem Carries.isNull_iff {c : Codec} {q : PktQueue} {contents : List Str}
    (h : Carries c q contents) : q.isNull = true ↔ contents = [] := by
  obtain ⟨f, hagrees, -, hcontents⟩ := h
  rw [LBeacon.isNull_iff hagrees.holds, ← List.length_eq_zero_iff, ← hcontents.length_eq,
    List.length_eq_zero_iff]

theorem carries_addpkt {c : Codec} (hc : c.Sound) {q : PktQueue} {contents : List Str}
    {content : Str} (h : Carries c q contents) (hsend : Sendable content)
    (hroom : q.isFull = false) {src : Ptr} (hsrc : src.text = c.sealed content) (address : Ptr)
    (port : Nat) :
    Carries c (addpkt q address port src (c.sealed content).length).value.2
      (contents ++ [content]) := by
  rw [h.isFull_iff] at hroom
  obtain ⟨f, hagrees, hopen, hcontents⟩ := h
  obtain ⟨-, hnext⟩ := addpkt_agrees hagrees address port src (c.sealed content).length
  have hsize : ¬ (c.sealed content).length > messageLength :=
    Nat.not_lt.mpr ((hc.sealed_length hsend).le.trans (by decide))
  obtain ⟨packets, hpush, hitems⟩ := Fifo.Bounded.push_of_lt
    (hcontents.length_eq ▸ hroom) (packetFor address port src (c.sealed content).length)
  simp only [fifoStep, if_neg hsize, hopen, Bool.false_eq_true, if_false, hpush] at hnext
  refine ⟨_, hnext, rfl, ?_⟩
  rw [hitems]
  refine List.rel_append hcontents (.cons ⟨hsend, rfl, ?_, rfl⟩ .nil)
  unfold packetFor
  rw [hsrc, List.take_length]

theorem carries_getPkt_cons {c : Codec} {q : PktQueue} {content : Str} {contents : List Str}
    (h : Carries c q (content :: contents)) :
    Sealed c content (getPkt q).1 ∧ Carries c (getPkt q).2 contents := by
  obtain ⟨f, hagrees, hopen, hcontents⟩ := h
  obtain ⟨hhead, hnext⟩ := getPkt_agrees hagrees
  obtain ⟨p, pkts, hp, hrest, hitems⟩ := List.forall₂_cons_left_iff.mp hcontents
  rw [hhead, hitems]
  have htail : f.packets.pop.items = pkts := congrArg List.tail hitems
  exact ⟨hp, _, hnext, hopen, htail ▸ hrest⟩

theorem carries_getPkt_nil {c : Codec} {q : PktQueue} (h : Carries c q []) :
    (getPkt q).1.isNull = true ∧ (getPkt q).2 = q := by
  have hnull := h.isNull_iff.mpr rfl
  rw [getPkt, if_pos hnull]
  exact ⟨rfl, rfl⟩

theorem openPkt_sealed {c : Codec} (hc : c.Sound) {content : Str} {p : SPkt}
    (h : Sealed c content p) (emptyPkt : SPkt) :
    (openPkt c.toEncryption emptyPkt p).value =
      { p with content, contentSize := content.length } := by
  obtain ⟨hsend, -, hcontent, -⟩ := h
  have htoken := hc.token_eq content
  have hdelim : ';' ∉ c.token content := htoken ▸ hc.noDelimiter content
  have hnul : NUL ∉ c.sealed content := by
    unfold Codec.sealed
    simp only [List.mem_append, List.mem_cons, not_or]
    exact ⟨htoken ▸ hc.noNul content, by decide, hsend.1⟩
  have htext : p.text = c.sealed content := by
    have hlen : (c.sealed content).length ≤ messageLength :=
      (hc.sealed_length hsend).le.trans (by decide)
    rw [SPkt.text, hcontent, List.take_of_length_le hlen, cstr_eq_self hnul]
  have hrest : afterField ';' p.text = content := htext ▸ afterField_append hdelim content
  have hfirst : firstToken p.text = some (c.token content) := by
    rw [firstToken, htext, Codec.sealed, field_append hdelim]
    exact if_neg (htoken ▸ hc.nonempty content)
  have hgenuine : Genuine StartsWith c.toEncryption p.text := by
    refine ⟨c.token content, c.sha256Hash content, hfirst, htoken ▸ hc.decodes content, ?_⟩
    rw [hrest]
    exact List.prefix_rfl
  have hsome : firstToken p.text = none → c.decoder none = none := by
    rw [hfirst]
    exact fun h => absurd h (Option.some_ne_none _)
  rcases openPkt_spec c.toEncryption emptyPkt p hsome with ⟨-, hopen⟩ | ⟨hforged, -⟩
  · rw [hopen, hrest]
  · exact absurd hgenuine hforged

/-! ## Events -/

/-- The messages that were returned, those that arrived and those that were sent. -/
structure Between (c : Codec) (s : Link) (done arrived waiting : List Str) : Prop where
  sendQueue : Carries c s.sendQueue waiting
  receivedQueue : Carries c s.receivedQueue arrived
  received : s.received = done.map fun content => (content, (content.length : Int))

theorem send_between {c : Codec} (hc : c.Sound) {s : Link} {done arrived waiting : List Str}
    (h : Between c s done arrived waiting) {content : Str} (hsend : Sendable content)
    (hroom : s.sendQueue.isFull = false) (address : Ptr) (port : Nat) :
    Between c (linkStep c s (.send address port content)) done arrived (waiting ++ [content]) := by
  refine ⟨?_, h.receivedQueue, h.received⟩
  have htext : (Ptr.ofBuf content wifiMessageLength).text = content := by
    rw [text_ofBuf hsend.2.le, cstr_eq_self hsend.1]
  have hlen := hc.sealed_length hsend
  have hsize : ¬ (c.sealed content).length > messageLength :=
    Nat.not_lt.mpr (hlen.le.trans (by decide))
  have hnul := nul_notMem_sealed c (Ptr.ofBuf content wifiMessageLength)
  rw [htext] at hnul
  have hsrc : (Ptr.ofBuf (c.sealed content) lengthOfEncodedWifiMessage).text = c.sealed content := by
    rw [text_ofBuf hlen.le, cstr_eq_self hnul]
  unfold linkStep
  simp only [udpAddpkt_value, htext, if_neg hsize]
  exact carries_addpkt hc h.sendQueue hsend hroom hsrc address port

theorem transfer_between {c : Codec} (hc : c.Sound) {s : Link} {done arrived waiting : List Str}
    {content : Str} (h : Between c s done arrived (content :: waiting))
    (hroom : s.receivedQueue.isFull = false) (address : Ptr) (port : Nat) :
    Between c (linkStep c s (.transfer address port)) done (arrived ++ [content]) waiting := by
  obtain ⟨⟨hsend, hnull, hcontent, hsize⟩, hrest⟩ := carries_getPkt_cons h.sendQueue
  have hlen : (c.sealed content).length ≤ messageLength :=
    (hc.sealed_length hsend).le.trans (by decide)
  have hnul := nul_notMem_sealed c (Ptr.ofBuf content wifiMessageLength)
  rw [text_ofBuf hsend.2.le, cstr_eq_self hsend.1] at hnul
  have hsrc : (Ptr.ofBuf (c.sealed content) messageLength).text = c.sealed content := by
    rw [text_ofBuf hlen, cstr_eq_self hnul]
  unfold linkStep
  simp only [hnull, Bool.false_eq_true, if_false, hcontent, hsize, Int.toNat_natCast]
  exact ⟨hrest, carries_addpkt hc h.receivedQueue hsend hroom hsrc address port, h.received⟩

theorem transfer_none {c : Codec} {s : Link} {done arrived : List Str}
    (h : Between c s done arrived []) (address : Ptr) (port : Nat) :
    Between c (linkStep c s (.transfer address port)) done arrived [] := by
  obtain ⟨hnull, hsame⟩ := carries_getPkt_nil h.sendQueue
  unfold linkStep
  simp only [hnull, if_true, hsame]
  exact h

theorem receive_between {c : Codec} (hc : c.Sound) {s : Link} {done arrived waiting : List Str}
    {content : Str} (h : Between c s done (content :: arrived) waiting) (emptyPkt : SPkt) :
    Between c (linkStep c s (.receive emptyPkt)) (done ++ [content]) arrived waiting := by
  obtain ⟨hsealed, hrest⟩ := carries_getPkt_cons h.receivedQueue
  have hopen := openPkt_sealed hc hsealed emptyPkt
  obtain ⟨hsend, hnull, -, -⟩ := hsealed
  have hget : (udpGetrecv c.toEncryption emptyPkt s.receivedQueue).value =
      ({ (getPkt s.receivedQueue).1 with content, contentSize := content.length },
        (getPkt s.receivedQueue).2) := by
    unfold udpGetrecv
    rw [if_neg (by simp [hnull]), value_bind, hopen, value_pure]
  have htext : cstr (content.take messageLength) = content := by
    have hlen : content.length ≤ messageLength := hsend.2.le.trans (by decide)
    rw [List.take_of_length_le hlen, cstr_eq_self hsend.1]
  unfold linkStep
  simp only [hget, hnull, Bool.false_eq_true, if_false, SPkt.text, htext]
  refine ⟨h.sendQueue, hrest, ?_⟩
  rw [h.received, List.map_append]
  rfl

theorem receive_none {c : Codec} {s : Link} {done waiting : List Str}
    (h : Between c s done [] waiting) (emptyPkt : SPkt) :
    Between c (linkStep c s (.receive emptyPkt)) done [] waiting := by
  obtain ⟨hnull, hsame⟩ := carries_getPkt_nil h.receivedQueue
  have hget : (udpGetrecv c.toEncryption emptyPkt s.receivedQueue).value =
      getPkt s.receivedQueue := by
    unfold udpGetrecv
    rw [if_pos hnull, value_pure]
  unfold linkStep
  simp only [hget, hnull, if_true, hsame]
  exact h

/-! ## Runs -/

def sentBy (events : List LinkEvent) : List Str := events.flatMap LinkEvent.sent

theorem run_between {c : Codec} (hc : c.Sound) {events : List LinkEvent} {s : Link}
    {done arrived waiting : List Str} (h : Between c s done arrived waiting)
    (hsend : ∀ content ∈ sentBy events, Sendable content) (hroom : Roomy c s events) :
    ∃ done' arrived' waiting', Between c (linkRun c s events) done' arrived' waiting' ∧
      done' ++ (arrived' ++ waiting') = done ++ (arrived ++ waiting) ++ sentBy events := by
  induction events generalizing s done arrived waiting with
  | nil => exact ⟨done, arrived, waiting, h, by simp [sentBy]⟩
  | cons event events ih =>
    unfold sentBy at hsend ih ⊢
    rw [List.flatMap_cons] at hsend ⊢
    have hlater : ∀ content ∈ events.flatMap LinkEvent.sent, Sendable content :=
      fun content hmem => hsend content (List.mem_append_right _ hmem)
    unfold linkRun at ih ⊢
    rw [List.foldl_cons]
    obtain ⟨hfirst, hrest⟩ := hroom
    cases event with
    | send address port content =>
      have hnext := send_between hc h (hsend content (by simp [LinkEvent.sent])) hfirst address port
      obtain ⟨done', arrived', waiting', hend, heq⟩ := ih hnext hlater hrest
      exact ⟨done', arrived', waiting', hend, by simp [heq, LinkEvent.sent]⟩
    | transfer address port =>
      cases waiting with
      | nil => exact ih (transfer_none h address port) hlater hrest
      | cons content waiting =>
        have hnext := transfer_between hc h hfirst address port
        obtain ⟨done', arrived', waiting', hend, heq⟩ := ih hnext hlater hrest
        exact ⟨done', arrived', waiting', hend, by simp [heq, LinkEvent.sent]⟩
    | receive emptyPkt =>
      cases arrived with
      | nil => exact ih (receive_none h emptyPkt) hlater hrest
      | cons content arrived =>
        have hnext := receive_between hc h emptyPkt
        obtain ⟨done', arrived', waiting', hend, heq⟩ := ih hnext hlater hrest
        exact ⟨done', arrived', waiting', hend, by simp [heq, LinkEvent.sent]⟩

/-! ## All messages of a batch -/

theorem sends_between {c : Codec} (hc : c.Sound) {contents : List Str} {s : Link}
    {done arrived waiting : List Str} (h : Between c s done arrived waiting)
    (hsend : ∀ content ∈ contents, Sendable content)
    (hroom : waiting.length + contents.length ≤ maxQueueLength) (address : Ptr) (port : Nat) :
    Between c (linkRun c s (contents.map (.send address port))) done arrived
      (waiting ++ contents) := by
  induction contents generalizing s waiting with
  | nil => exact (List.append_nil waiting).symm ▸ h
  | cons content contents ih =>
    rw [List.length_cons] at hroom
    have hfirst := h.sendQueue.isFull_iff.mpr (by omega)
    have hnext := send_between hc h (hsend content (by simp)) hfirst address port
    have hrest := ih hnext (fun x hx => hsend x (List.mem_cons_of_mem _ hx))
      (by rw [List.length_append, List.length_singleton]; omega)
    rw [List.append_assoc] at hrest
    exact hrest

theorem transfers_between {c : Codec} (hc : c.Sound) {waiting : List Str} {s : Link}
    {done arrived : List Str} (h : Between c s done arrived waiting)
    (hroom : arrived.length + waiting.length ≤ maxQueueLength) (address : Ptr) (port : Nat) :
    Between c (linkRun c s (List.replicate waiting.length (.transfer address port))) done
      (arrived ++ waiting) [] := by
  induction waiting generalizing s arrived with
  | nil => exact (List.append_nil arrived).symm ▸ h
  | cons content waiting ih =>
    rw [List.length_cons] at hroom
    have hfirst := h.receivedQueue.isFull_iff.mpr (by omega)
    have hrest := ih (transfer_between hc h hfirst address port)
      (by rw [List.length_append, List.length_singleton]; omega)
    rw [List.append_assoc] at hrest
    exact hrest

theorem receives_between {c : Codec} (hc : c.Sound) {arrived : List Str} {s : Link}
    {done waiting : List Str} (h : Between c s done arrived waiting) (emptyPkt : SPkt) :
    Between c (linkRun c s (List.replicate arrived.length (.receive emptyPkt))) (done ++ arrived)
      [] waiting := by
  induction arrived generalizing s done with
  | nil => exact (List.append_nil done).symm ▸ h
  | cons content arrived ih =>
    have hrest := ih (receive_between hc h emptyPkt)
    rw [List.append_assoc] at hrest
    exact hrest

/-- Two empty queues in use, and nothing returned yet. -/
def Link.Fresh (s : Link) : Prop :=
  Agrees s.sendQueue .init ∧ Agrees s.receivedQueue .init ∧ s.received = []

theorem Link.Fresh.between {s : Link} (h : s.Fresh) (c : Codec) : Between c s [] [] [] :=
  ⟨⟨_, h.1, rfl, .nil⟩, ⟨_, h.2.1, rfl, .nil⟩, h.2.2⟩

/-- In any order of steps that finds room, the messages come out as they went in; and a batch
of at most 512 messages comes out whole. -/
theorem round_trip (c : Codec) (hc : c.Sound) (start : Link) (hstart : start.Fresh) :
    (∀ events, (∀ content ∈ sentBy events, Sendable content) → Roomy c start events →
      let s := linkRun c start events
      ∃ done rest, sentBy events = done ++ rest ∧
        s.received = done.map (fun content => (content, (content.length : Int))) ∧
        (s.sendQueue.isNull = true → s.receivedQueue.isNull = true → rest = [])) ∧
    ∀ contents : List Str, contents.length ≤ maxQueueLength →
      (∀ content ∈ contents, Sendable content) →
      ∀ (address peer : Ptr) (port peerPort : Nat) (emptyPkt : SPkt),
        let n := contents.length
        (linkRun c start (contents.map (.send address port) ++
          List.replicate n (.transfer peer peerPort) ++
          List.replicate n (.receive emptyPkt))).received =
            contents.map fun content => (content, (content.length : Int)) := by
  constructor
  · intro events hsend hroom s
    obtain ⟨done, arrived, waiting, hend, heq⟩ :=
      run_between hc (hstart.between c) hsend hroom
    refine ⟨done, arrived ++ waiting, heq.symm, hend.received, fun hempty hempty' => ?_⟩
    rw [hend.sendQueue.isNull_iff.mp hempty, hend.receivedQueue.isNull_iff.mp hempty']
    rfl
  · intro contents hlen hsend address peer port peerPort emptyPkt n
    have hsent := sends_between hc (hstart.between c) hsend
      (by rw [List.length_nil, Nat.zero_add]; exact hlen) address port
    have harrived := transfers_between hc hsent
      (by rw [List.length_nil, Nat.zero_add]; exact hlen) peer peerPort
    have hdone := receives_between hc harrived emptyPkt
    unfold linkRun at hdone ⊢
    rw [List.foldl_append, List.foldl_append]
    exact hdone.received

/-- A checksum of one character, behind a prefix. -/
def prefixCodec : Codec where
  sha256Hash s := [if s.length % 2 = 0 then 'e' else 'o']
  encoder s := 'k' :: s
  decoder t := match t with
    | some ('k' :: s) => some s
    | _ => none

theorem prefixCodec_sound : prefixCodec.Sound where
  decodes _ := rfl
  nonempty _ := List.cons_ne_nil _ _
  short _ := by simp [prefixCodec, lengthOfSha256]
  noDelimiter content := by
    simp only [prefixCodec]
    split <;> decide
  noNul content := by
    simp only [prefixCodec]
    split <;> decide

theorem round_trip_of_delimiters :
    let start : Link := ⟨initPacketQueueIn initPacketQueue, initPacketQueueIn initPacketQueue, []⟩
    let contents := [[], ";".toList, "6;4;1.3;".toList]
    let here := Ptr.ofBuf "10.0.0.1".toList networkAddrLength
    (linkRun prefixCodec start (contents.map (.send here 8888) ++
      List.replicate 3 (.transfer here 8888) ++
      List.replicate 3 (.receive SPkt.zeroed))).received =
        [([], 0), (";".toList, 1), ("6;4;1.3;".toList, 8)] := by
  intro start contents here
  refine (round_trip prefixCodec prefixCodec_sound start
    ⟨init_agrees _, init_agrees _, rfl⟩).2 contents (by decide) ?_ here here 8888 8888 .zeroed
  unfold Sendable contents
  decide

end LBeacon
