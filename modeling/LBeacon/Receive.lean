import LBeacon.PktQueue
import LBeacon.Device

/-!
# The receive path

From a datagram in `udp_recv_pkt_routine` to the request that `manage_communication` serves.
-/

open CText CMemory

namespace LBeacon

/-! ## strtok_save -/

/-- A string that starts with the delimiter gives no token: the saved pointer moves over it,
also when the string is not the one that it points into. -/
def strtokSave (delim : Char) (str : Option Ptr) (saveptr : SavePtr) : Watched Tok := do
  let tmp ← match str with
    | none => saveptr.deref
    | some p => pure p
  if (← tmp.peek) = delim then return ⟨none, saveptr.advance 1⟩
  strtokR delim str saveptr

/-- The string that a call goes on with. -/
def Resolves (str : Option Ptr) (saveptr : SavePtr) (p : Ptr) : Prop :=
  str = some p ∨ str = none ∧ saveptr = .place p

theorem strtokSave_eq {delim : Char} {str : Option Ptr} {saveptr : SavePtr} {p : Ptr}
    (h : Resolves str saveptr p) :
    strtokSave delim str saveptr = (do
      if (← p.peek) = delim then return ⟨none, saveptr.advance 1⟩
      tokenFrom delim p) := by
  rcases h with rfl | ⟨rfl, rfl⟩ <;> rfl

theorem strtokSave_eq_tokenFrom {delim : Char} {str : Option Ptr} (saveptr : SavePtr) {p : Ptr}
    (h : Resolves str saveptr p) (hne : field delim p.text ≠ []) :
    (strtokSave delim str saveptr).value = (tokenFrom delim p).value ∧
      (p.Terminated → (tokenFrom delim p).faults = [] →
        (strtokSave delim str saveptr).faults = []) := by
  obtain ⟨c, t, htext, hc⟩ := field_ne_nil hne
  have hpeek : p.peek.value ≠ delim := by
    rw [value_peek, htext]
    exact hc
  rw [strtokSave_eq h]
  constructor
  · rw [value_bind, if_neg hpeek]
  · intro ht htoken
    rw [faults_bind, if_neg hpeek, htoken, (faults_peek p).mpr ht.room_pos, List.nil_append]

theorem strtokSave_none {delim : Char} {str : Option Ptr} (saveptr : SavePtr) {p : Ptr}
    (h : Resolves str saveptr p) (hnil : field delim p.text = []) (hdelim : delim ≠ NUL) :
    (strtokSave delim str saveptr).value =
        ⟨none, if p.text = [] then .place p else saveptr.advance 1⟩ ∧
      (p.Terminated → (strtokSave delim str saveptr).faults = []) := by
  rw [strtokSave_eq h]
  by_cases htext : p.text = []
  · have hpeek : p.peek.value ≠ delim := by
      rw [value_peek, htext]
      exact hdelim.symm
    obtain ⟨hvalue, hsafe⟩ := tokenFrom_nil delim htext
    rw [if_pos htext, value_bind, faults_bind, if_neg hpeek]
    refine ⟨hvalue, fun ht => ?_⟩
    rw [hsafe ht, (faults_peek p).mpr ht.room_pos, List.nil_append]
  · have hpeek : p.peek.value = delim := by
      rw [value_peek]
      exact headD_of_field_nil hnil htext
    rw [if_neg htext, value_bind, faults_bind, if_pos hpeek]
    refine ⟨rfl, fun ht => ?_⟩
    rw [faults_pure, (faults_peek p).mpr ht.room_pos, List.nil_append]

theorem strtokSave_first {delim : Char} {p : Ptr} {rest : List Str} (h : Ahead delim p rest)
    (hne : rest.headD [] ≠ []) (saveptr : SavePtr) :
    ∃ q, (strtokSave delim (some p) saveptr).value = ⟨some (rest.headD []), .place q⟩ ∧
      (strtokSave delim (some p) saveptr).faults = [] ∧ Ahead delim q rest.tail := by
  obtain ⟨q, hvalue, hsafe, hq⟩ := tokenFrom_ahead h hne
  obtain ⟨hsame, hfaults⟩ := strtokSave_eq_tokenFrom saveptr (Or.inl rfl)
    (h.field_eq ▸ hne)
  exact ⟨q, hsame.trans hvalue, hfaults h.1 hsafe, hq⟩

theorem strtokSave_next {delim : Char} {p : Ptr} {rest : List Str} (h : Ahead delim p rest)
    (hdelim : delim ≠ NUL) :
    ∃ q, (strtokSave delim none (.place p)).value =
        ⟨tokenOf (rest.headD []), .place q⟩ ∧
      (strtokSave delim none (.place p)).faults = [] ∧ Ahead delim q rest.tail := by
  have hres : Resolves none (.place p) p := Or.inr ⟨rfl, rfl⟩
  by_cases hnil : rest.headD [] = []
  · have hfield := h.field_eq.trans hnil
    obtain ⟨hvalue, hsafe⟩ := strtokSave_none _ hres hfield hdelim
    rw [tokenOf, if_pos hnil, hvalue]
    by_cases htext : p.text = []
    · rw [if_pos htext]
      refine ⟨p, rfl, hsafe h.1, h.afterField ?_ Iff.rfl⟩
      rw [htext]
      rfl
    · have hlen : 1 ≤ p.text.length := List.length_pos_iff.mpr htext
      rw [if_neg htext]
      refine ⟨p.advance 1, rfl, hsafe h.1, h.afterField ?_ (terminated_advance hlen)⟩
      rw [← drop_field_length, hfield]
      rfl
  · obtain ⟨q, hvalue, hsafe, hq⟩ := tokenFrom_ahead h hnil
    obtain ⟨hsame, hfaults⟩ := strtokSave_eq_tokenFrom _ hres (h.field_eq ▸ hnil)
    rw [tokenOf, if_neg hnil]
    exact ⟨q, hsame.trans hvalue, hfaults h.1 hsafe, hq⟩

/-! ## udp_getrecv -/

/-- `libEncrypt`. The decoder gets a pointer that may be NULL, and fails with `none`. -/
structure Encryption where
  decoder : Option Str → Option Str
  sha256Hash : Str → Str

/-- What becomes of a packet that was taken. `emptyPkt` is what the automatic variable happens
to hold: nothing is assigned to it. The last copy overlaps its source, and moves the rest to
the front. -/
def openPkt (e : Encryption) (emptyPkt tmp : SPkt) : Watched SPkt := do
  let ciphertext ← strtokSave ';' (some (Ptr.ofBuf tmp.content messageLength)) .null
  match e.decoder ciphertext.str with
  | none => return emptyPkt
  | some decodedtext =>
    let savePtr ← ciphertext.saveptr.deref
    let rest ← savePtr.read
    let contentSha256 := e.sha256Hash rest
    if strncmp decodedtext contentSha256 (strlen contentSha256) ≠ 0 then return emptyPkt
    let content ← strcpy messageLength rest
    return { tmp with content, contentSize := content.length }

def udpGetrecv (e : Encryption) (emptyPkt : SPkt) (q : PktQueue) : Watched (SPkt × PktQueue) := do
  let tmp := (getPkt q).1
  let q := (getPkt q).2
  if tmp.isNull then return (tmp, q)
  let pkt ← openPkt e emptyPkt tmp
  return (pkt, q)

/-! ## handle_join_response -/

/-- The new `g_config.local_addr` and `join_status`. -/
def handleJoinResponse (respPayload : Ptr) : Watched (Str × Int) := do
  let payload ← respPayload.read
  let buf ← strcpy wifiMessageLength payload
  let lbeaconUuid ← strtokSave ';' (some (Ptr.ofBuf buf wifiMessageLength)) .null
  let lbeaconTimestamp ← strtokSave ';' none lbeaconUuid.saveptr
  let lbeaconIp ← strtokSave ';' none lbeaconTimestamp.saveptr
  let localAddr ← strcpy networkAddrLength (← readToken lbeaconIp.str)
  let joinResult ← strtokSave ';' none lbeaconIp.saveptr
  let result ← readToken joinResult.str
  return (localAddr, atoi result)

/-! ## manage_communication -/

def fromGateway : Int := 6
def joinResponse : Int := 2
def trackedObjectData : Int := 4
def beaconHealthReport : Int := 6

inductive Request where
  | joinResponse
  | trackedObjectData
  | beaconHealthReport
  deriving DecidableEq

/-- The variables that live through the loop, and `g_config.local_addr`. -/
structure Comm where
  pktDirection : Int
  pktType : Int
  saveptr : SavePtr
  joinStatus : Int
  localAddr : Str

def dispatch (packetContent : Ptr) (s : Comm) : Watched (Option Request × Comm) :=
  if s.pktDirection = fromGateway then
    if s.pktType = joinResponse then do
      let r ← handleJoinResponse packetContent
      return (some .joinResponse, { s with localAddr := r.1, joinStatus := r.2 })
    else if s.pktType = trackedObjectData then return (some .trackedObjectData, s)
    else if s.pktType = beaconHealthReport then return (some .beaconHealthReport, s)
    else return (none, s)
  else return (none, s)

/-- The next token, with the place that `remain_string` moves to. A number that `sscanf` does
not find leaves the variable as it was. -/
def parsePacket (buf : Ptr) (s : Comm) : Watched (Option Request × Comm) := do
  let fromDirection ← strtokSave ';' (some buf) s.saveptr
  let s := { s with saveptr := fromDirection.saveptr }
  match fromDirection.str with
  | none => return (none, s)
  | some direction =>
    let remainString := buf.advance (direction.length + 1)
    let s := { s with pktDirection := (scanInt direction).getD s.pktDirection }
    let requestType ← strtokSave ';' none s.saveptr
    let s := { s with saveptr := requestType.saveptr }
    match requestType.str with
    | none => return (none, s)
    | some type =>
      let remainString := remainString.advance (type.length + 1)
      let s := { s with pktType := (scanInt type).getD s.pktType }
      let apiVersion ← strtokSave ';' none s.saveptr
      let s := { s with saveptr := apiVersion.saveptr }
      match apiVersion.str with
      | none => return (none, s)
      | some version =>
        let packetContent := remainString.advance (version.length + 1)
        -- `zlog_info` prints it.
        let _ ← packetContent.read
        dispatch packetContent s

structure Receiver where
  receivedQueue : PktQueue
  comm : Comm

/-- One round of the loop. -/
def manageCommunication (e : Encryption) (emptyPkt : SPkt) (s : Receiver) :
    Watched (Option Request × Receiver) := do
  let r ← udpGetrecv e emptyPkt s.receivedQueue
  let tmpPkt := r.1
  if tmpPkt.isNull then return (none, { s with receivedQueue := r.2 })
  let content ← (Ptr.ofBuf tmpPkt.content messageLength).read
  let buf ← strcpy wifiMessageLength content
  let served ← parsePacket (Ptr.ofBuf buf wifiMessageLength) s.comm
  return (served.1, ⟨r.2, served.2⟩)

/-! ## udp_recv_pkt_routine -/

/-- A datagram of 1 to 65507 bytes, and where it came from. -/
structure Datagram where
  bytes : Str
  address : Str
  port : Nat
  nonempty : 0 < bytes.length
  fits : bytes.length ≤ messageLength
  addressFits : address.length < networkAddrLength

/-- `recv_buf` is cleared before the datagram is received into it. -/
def udpRecvPktRoutine (q : PktQueue) (d : Datagram) : Watched PktQueue := do
  let r ← addpkt q (Ptr.ofBuf d.address networkAddrLength) d.port
    (Ptr.ofBuf d.bytes messageLength) d.bytes.length
  return r.2

/-! ## Runs -/

/-- A step of the receiving thread or of the communication thread. `emptyPkt` is what the
automatic variable of `udp_getrecv` holds in that round. -/
inductive NetEvent where
  | received (d : Datagram)
  | round (emptyPkt : SPkt)

def netStep (e : Encryption) (s : Receiver) : NetEvent → Watched Receiver
  | .received d => do
    let q ← udpRecvPktRoutine s.receivedQueue d
    return { s with receivedQueue := q }
  | .round emptyPkt => do
    let r ← manageCommunication e emptyPkt s
    return r.2

/-- `join_status` starts as `JOIN_UNKNOWN`. -/
def Receiver.init : Receiver := ⟨initPacketQueue, ⟨0, 0, .null, 2, []⟩⟩

def netRun (e : Encryption) (events : List NetEvent) : Receiver :=
  events.foldl (fun s event => (netStep e s event).value) .init

end LBeacon
