import LBeacon.Authenticity
import LBeacon.Lib.Machine

/-!
# Memory safety of the receive path

What a datagram must look like for every string operation, from `addpkt` to
`handle_join_response`, to stay inside its buffers.
-/

open CText CMemory

namespace LBeacon

/-! ## Join responses -/

/-- UUID, time, address, result, ...: the second field may be empty. -/
def JoinOk (fs : List Str) : Prop :=
  fs.headD [] ≠ [] ∧ fs.tail.tail.headD [] ≠ [] ∧
    (fs.tail.tail.headD []).length < networkAddrLength ∧ fs.tail.tail.tail.headD [] ≠ []

theorem ahead_ofBuf {s : Str} {capacity : Nat} (hs : NUL ∉ s) (h : s.length < capacity) :
    Ahead ';' (Ptr.ofBuf s capacity) (fields ';' s) := by
  have htext : (Ptr.ofBuf s capacity).text = s := by rw [text_ofBuf h.le, cstr_eq_self hs]
  refine ⟨?_, Or.inl (by rw [htext])⟩
  rw [Ptr.Terminated, htext]
  exact h

theorem strtokSave_wild (delim : Char) : (strtokSave delim none .wild).faults ≠ [] :=
  List.cons_ne_nil _ _

theorem handleJoinResponse_safe_iff {p : Ptr} (ht : p.Terminated)
    (hlen : p.text.length < wifiMessageLength) :
    (handleJoinResponse p).faults = [] ↔ JoinOk (fields ';' p.text) := by
  have hfirst := ahead_ofBuf p.noNul hlen
  by_cases huuid : (fields ';' p.text).headD [] = []
  · -- The saved pointer is still NULL, or stands at an empty string.
    refine iff_of_false ?_ fun h => h.1 huuid
    obtain ⟨hv1, hf1⟩ := strtokSave_none .null (Or.inl rfl)
      (hfirst.field_eq.trans huuid) (by decide)
    by_cases htext : (Ptr.ofBuf p.text wifiMessageLength).text = []
    · rw [if_pos htext] at hv1
      rw [text_ofBuf hlen.le, cstr_eq_self p.noNul] at htext
      obtain ⟨q2, hv2, hf2, hq2⟩ := strtokSave_next hfirst (by decide)
      obtain ⟨q3, hv3, hf3, hq3⟩ := strtokSave_next hq2 (by decide)
      have hnone : (fields ';' p.text).tail.headD [] = [] := by
        rw [htext]
        rfl
      simp only [handleJoinResponse, faults_bind, value_read, value_strcpy, hv1, hv2, hv3,
        List.append_eq_nil_iff, faults_readToken, isSome_tokenOf, not_and]
      exact fun _ _ _ _ _ h => absurd hnone h
    · rw [if_neg htext] at hv1
      simp only [handleJoinResponse, faults_bind, value_read, value_strcpy, hv1,
        List.append_eq_nil_iff, not_and]
      intro _ _ _ h
      exact absurd h (strtokSave_wild ';')
  · obtain ⟨q1, hv1, hf1, hq1⟩ := strtokSave_first hfirst huuid .null
    obtain ⟨q2, hv2, hf2, hq2⟩ := strtokSave_next hq1 (by decide)
    obtain ⟨q3, hv3, hf3, hq3⟩ := strtokSave_next hq2 (by decide)
    obtain ⟨q4, hv4, hf4, hq4⟩ := strtokSave_next hq3 (by decide)
    simp only [handleJoinResponse, faults_bind, value_read, value_strcpy, hv1, hf1, hv2, hf2, hv3,
      hf3, hv4, hf4, List.append_eq_nil_iff, faults_read, faults_strcpy, faults_readToken,
      faults_pure, isSome_tokenOf, value_readToken_tokenOf]
    simp only [JoinOk, ht, hlen, huuid, ne_eq, not_false_eq_true, true_and, and_true]

/-! ## Packets -/

/-- What `manage_communication` needs of a packet: when all three header fields are there, the
place behind them is still in `buf`, and a join response has its fields. A number that is
missing counts as the one read last. -/
def PacketOk (s : Comm) (packet : Str) : Prop :=
  let fs := fields ';' packet
  fs.headD [] ≠ [] → fs.tail.headD [] ≠ [] → fs.tail.tail.headD [] ≠ [] →
    (fs.length = 3 → packet.length + 1 < wifiMessageLength) ∧
    ((scanInt (fs.headD [])).getD s.pktDirection = fromGateway →
      (scanInt (fs.tail.headD [])).getD s.pktType = joinResponse → JoinOk (fs.drop 3))

theorem dispatch_safe_iff {p : Ptr} (ht : p.Terminated) (hlen : p.text.length < wifiMessageLength)
    (s : Comm) :
    (dispatch p s).faults = [] ↔
      (s.pktDirection = fromGateway → s.pktType = joinResponse → JoinOk (fields ';' p.text)) := by
  unfold dispatch
  rw [← handleJoinResponse_safe_iff ht hlen]
  by_cases hdir : s.pktDirection = fromGateway
  · rw [if_pos hdir]
    by_cases htype : s.pktType = joinResponse
    · simp [hdir, htype]
    · rw [if_neg htype]
      simp only [htype, false_implies, implies_true, iff_true]
      split
      · rfl
      · split <;> rfl
  · rw [if_neg hdir]
    simp [hdir]

theorem fields_cons_cases {s f : Str} {rest : List Str} (h : fields ';' s = f :: rest) :
    (rest = [] ∧ s = f) ∨ (fields ';' (s.drop (f.length + 1)) = rest ∧ f.length < s.length) := by
  rcases fields_cases ';' s with ⟨hall, -, -⟩ | ⟨hcons, hlen⟩
  · rw [h, List.cons.injEq] at hall
    exact Or.inl ⟨hall.2, hall.1.symm⟩
  · rw [h, List.cons.injEq] at hcons
    obtain ⟨rfl, rfl⟩ := hcons
    rw [drop_field_length]
    exact Or.inr ⟨rfl, hlen⟩

/-- The place behind three fields. -/
def behindHeader (buf : Ptr) (f1 f2 f3 : Str) : Ptr :=
  ((buf.advance (f1.length + 1)).advance (f2.length + 1)).advance (f3.length + 1)

theorem behindHeader_safe_iff {packet f1 f2 f3 : Str} {rest : List Str} (hnul : NUL ∉ packet)
    (hlen : packet.length < wifiMessageLength) (h : fields ';' packet = f1 :: f2 :: f3 :: rest)
    (s : Comm) :
    (behindHeader (Ptr.ofBuf packet wifiMessageLength) f1 f2 f3).Terminated ∧
      (dispatch (behindHeader (Ptr.ofBuf packet wifiMessageLength) f1 f2 f3) s).faults = [] ↔
    (rest = [] → packet.length + 1 < wifiMessageLength) ∧
      (s.pktDirection = fromGateway → s.pktType = joinResponse → JoinOk rest) := by
  have hbuf : (Ptr.ofBuf packet wifiMessageLength).text = packet := by
    rw [text_ofBuf hlen.le, cstr_eq_self hnul]
  let p := behindHeader (Ptr.ofBuf packet wifiMessageLength) f1 f2 f3
  let r1 := packet.drop (f1.length + 1)
  let r2 := r1.drop (f2.length + 1)
  have htext : p.text = r2.drop (f3.length + 1) := by
    simp only [p, behindHeader, text_advance, hbuf, r1, r2]
  have hroom : p.room = wifiMessageLength - (f1.length + 1) - (f2.length + 1) - (f3.length + 1) := rfl
  obtain ⟨hr1, hl1⟩ : fields ';' r1 = f2 :: f3 :: rest ∧ f1.length < packet.length :=
    (fields_cons_cases h).resolve_left (by simp)
  obtain ⟨hr2, hl2⟩ : fields ';' r2 = f3 :: rest ∧ f2.length < r1.length :=
    (fields_cons_cases hr1).resolve_left (by simp)
  have hlen1 : r1.length = packet.length - (f1.length + 1) := List.length_drop
  have hlen2 : r2.length = r1.length - (f2.length + 1) := List.length_drop
  clear_value r1 r2
  change p.Terminated ∧ (dispatch p s).faults = [] ↔ _
  have hdispatch : p.Terminated → ((dispatch p s).faults = [] ↔
      (s.pktDirection = fromGateway → s.pktType = joinResponse → JoinOk (fields ';' p.text))) := by
    intro ht
    refine dispatch_safe_iff ht ?_ s
    rw [htext, List.length_drop]
    omega
  rcases fields_cons_cases hr2 with ⟨rfl, hlast⟩ | ⟨hr3, hl3⟩
  · -- The third field ends the packet: its NUL is skipped like a delimiter.
    have hnil : p.text = [] := by
      rw [htext, ← hlast]
      exact List.drop_eq_nil_of_le (Nat.le_succ _)
    have hterm : p.Terminated ↔ packet.length + 1 < wifiMessageLength := by
      have := congrArg List.length hlast
      rw [Ptr.Terminated, hnil, hroom, List.length_nil]
      omega
    have hjoin : JoinOk (fields ';' p.text) ↔ JoinOk [] := by
      rw [hnil]
      exact Iff.rfl
    simp only [forall_const, hterm]
    refine and_congr_right fun ht => ?_
    rw [hdispatch (hterm.mpr ht), hjoin]
  · have hterm : p.Terminated := by
      rw [Ptr.Terminated, hroom, htext, List.length_drop]
      omega
    have hne : rest ≠ [] := hr3 ▸ List.splitOn_ne_nil _ _
    rw [hdispatch hterm, htext, hr3]
    simp [hterm, hne]

theorem parsePacket_safe_iff (s : Comm) {packet : Str} (hnul : NUL ∉ packet)
    (hlen : packet.length < wifiMessageLength) :
    (parsePacket (Ptr.ofBuf packet wifiMessageLength) s).faults = [] ↔ PacketOk s packet := by
  have hfirst := ahead_ofBuf hnul hlen
  have htext : (Ptr.ofBuf packet wifiMessageLength).text = packet := by
    rw [text_ofBuf hlen.le, cstr_eq_self hnul]
  by_cases hdir : (fields ';' packet).headD [] = []
  · refine iff_of_true ?_ fun h => absurd hdir h
    obtain ⟨hv1, hf1⟩ := strtokSave_none s.saveptr (Or.inl rfl)
      (hfirst.field_eq.trans hdir) (by decide)
    simp only [parsePacket, faults_bind, hv1, hf1 hfirst.1, faults_pure, List.nil_append]
  obtain ⟨q1, hv1, hf1, hq1⟩ := strtokSave_first hfirst hdir s.saveptr
  obtain ⟨q2, hv2, hf2, hq2⟩ := strtokSave_next hq1 (by decide)
  by_cases htype : (fields ';' packet).tail.headD [] = []
  · refine iff_of_true ?_ fun _ h => absurd htype h
    simp only [parsePacket, faults_bind, hv1, hf1, hv2, hf2, htype, tokenOf, if_true, faults_pure,
      List.nil_append]
  obtain ⟨q3, hv3, hf3, hq3⟩ := strtokSave_next hq2 (by decide)
  by_cases hversion : (fields ';' packet).tail.tail.headD [] = []
  · refine iff_of_true ?_ fun _ _ h => absurd hversion h
    simp only [parsePacket, faults_bind, hv1, hf1, hv2, hf2, if_neg htype, hv3, hf3, hversion,
      tokenOf, if_true, faults_pure, List.nil_append]
  simp only [parsePacket, faults_bind, hv1, hf1, hv2, hf2, if_neg htype, hv3, hf3, if_neg hversion,
      tokenOf, List.nil_append, List.append_eq_nil_iff, faults_read]
  have hshape : fields ';' packet = (fields ';' packet).headD [] ::
      (fields ';' packet).tail.headD [] :: (fields ';' packet).tail.tail.headD [] ::
        (fields ';' packet).drop 3 := by
    cases hfs : fields ';' packet with
    | nil => exact absurd (by rw [hfs]; rfl) hdir
    | cons f1 fs =>
      cases fs with
      | nil => exact absurd (by rw [hfs]; rfl) htype
      | cons f2 fs =>
        cases fs with
        | nil => exact absurd (by rw [hfs]; rfl) hversion
        | cons f3 fs => rfl
  have hlast : (fields ';' packet).drop 3 = [] ↔ (fields ';' packet).length = 3 := by
    have := congrArg List.length hshape
    rw [List.length_cons, List.length_cons, List.length_cons] at this
    rw [← List.length_eq_zero_iff]
    omega
  refine (behindHeader_safe_iff hnul hlen hshape _).trans ?_
  rw [hlast]
  exact ⟨fun h _ _ _ => h, fun h => h hdir htype hversion⟩

/-! ## Accepted packets -/

theorem openPkt_safe_iff {e : Encryption} {tmp : SPkt} (hg : Genuine StartsWith e tmp.text)
    (emptyPkt : SPkt) :
    (openPkt e emptyPkt tmp).faults = [] ↔ tmp.text.length < messageLength := by
  let p := Ptr.ofBuf tmp.content messageLength
  have hp : p.Terminated ↔ tmp.text.length < messageLength := Iff.rfl
  obtain ⟨token, text, htoken, hdec, hmatch⟩ := hg
  have hne : field ';' p.text ≠ [] := by
    intro hnil
    rw [firstToken, show field ';' tmp.text = [] from hnil] at htoken
    exact Option.some_ne_none token htoken.symm
  have hfirst : token = field ';' p.text := Option.some.inj (htoken.symm.trans (if_neg hne))
  obtain ⟨q, hvalue, hrest, hq, hsafe⟩ := tokenFrom_spec hne
  obtain ⟨hsame, hfaults⟩ := strtokSave_eq_tokenFrom .null (Or.inl rfl) hne
  have hlen : q.text.length ≤ p.text.length := by
    rw [hrest, ← drop_field_length, List.length_drop]
    omega
  have hcmp : strncmp text (e.sha256Hash q.text) (strlen (e.sha256Hash q.text)) = 0 := by
    rw [strncmp_strlen_eq_zero, hrest]
    exact hmatch
  have hopen : (openPkt e emptyPkt tmp).faults =
      (strtokSave ';' (some p) .null).faults ++
        (q.read.faults ++ (strcpy messageLength q.text).faults) := by
    unfold openPkt
    rw [faults_bind, hsame, hvalue, ← hfirst]
    simp only [hdec]
    change _ ++ ([] ++ (q.read.faults ++ (if strncmp text (e.sha256Hash q.text)
      (strlen (e.sha256Hash q.text)) ≠ 0 then _ else _ : Watched SPkt).faults)) = _
    rw [if_neg (not_not_intro hcmp), faults_bind, faults_pure, List.append_nil, List.nil_append]
    rfl
  rw [hopen, ← hp]
  simp only [List.append_eq_nil_iff, faults_read, faults_strcpy, hq]
  constructor
  · exact fun h => h.2.1
  · exact fun ht => ⟨hfaults ht (hsafe ht), ht, hlen.trans_lt (hp.mp ht)⟩

/-! ## The queue -/

/-- The packet of a datagram. -/
def Datagram.stored (d : Datagram) : SPkt where
  isNull := false
  address := cstr d.address
  port := d.port
  content := cstr d.bytes
  contentSize := d.bytes.length

theorem storePkt_spec (d : Datagram) :
    storePkt (Ptr.ofBuf d.address networkAddrLength) d.port (Ptr.ofBuf d.bytes messageLength)
      d.bytes.length = ⟨d.stored, []⟩ := by
  have haddr := d.addressFits
  have hle := cstr_length_le d.address
  have hle' := cstr_length_le d.bytes
  have hterm : (Ptr.ofBuf d.address networkAddrLength).Terminated := by
    rw [Ptr.Terminated, text_ofBuf haddr.le, room_ofBuf]
    omega
  have hbytes : (Ptr.ofBuf d.bytes messageLength).Terminated ∨
      d.bytes.length ≤ (Ptr.ofBuf d.bytes messageLength).text.length := by
    have := d.fits
    rw [Ptr.Terminated, text_ofBuf d.fits, room_ofBuf]
    omega
  refine Watched.ext ?_ ?_
  · simp only [storePkt, value_bind, value_strncpyTo, value_pure, text_ofBuf haddr.le,
      text_ofBuf d.fits]
    rw [List.take_of_length_le (by omega), List.take_of_length_le hle']
    rfl
  · have haddress := (faults_strncpyTo networkAddrLength _ networkAddrLength).mpr
      ⟨Or.inl hterm, le_rfl⟩
    have hcontent := (faults_strncpyTo messageLength _ d.bytes.length).mpr ⟨hbytes, d.fits⟩
    simp only [storePkt, faults_bind, haddress, hcontent, faults_pure, List.nil_append]

theorem udpRecvPktRoutine_safe (q : PktQueue) (d : Datagram) : (udpRecvPktRoutine q d).faults = [] := by
  have hsize : ¬ d.bytes.length > messageLength := Nat.not_lt.mpr d.fits
  unfold udpRecvPktRoutine addpkt
  rw [if_neg hsize, storePkt_spec]
  by_cases hfree : q.isFree = true
  · rw [if_pos hfree]
    rfl
  · rw [if_neg hfree]
    by_cases hfull : q.isFull = true
    · rw [if_pos hfull]
      rfl
    · rw [if_neg hfull]
      rfl

theorem udpRecvPktRoutine_spec {q : PktQueue} {pkts : List SPkt} (hfree : q.isFree = false)
    (h : q.Holds pkts) (d : Datagram) :
    (udpRecvPktRoutine q d).value.isFree = false ∧
      (udpRecvPktRoutine q d).value.Holds
        (if pkts.length < maxQueueLength then pkts ++ [d.stored] else pkts) := by
  have hsize : ¬ d.bytes.length > messageLength := Nat.not_lt.mpr d.fits
  unfold udpRecvPktRoutine addpkt
  rw [if_neg hsize, if_neg (by rw [hfree]; decide)]
  by_cases hfull : q.isFull = true
  · have hlen := (isFull_iff h).mp hfull
    rw [if_pos hfull, if_neg (by omega)]
    exact ⟨hfree, h⟩
  · have hlen : pkts.length < maxQueueLength := by
      have := holds_length_le h
      rw [isFull_iff h] at hfull
      omega
    rw [if_neg hfull, if_pos hlen, storePkt_spec]
    exact ⟨(nextRear_isFree q).trans hfree, nextRear_holds h hlen d.stored⟩

/-! ## Runs -/

/-- The datagrams that wait, oldest first. -/
def queueDatagram (waiting : List Datagram) : NetEvent → List Datagram
  | .received d => if waiting.length < maxQueueLength then waiting ++ [d] else waiting
  | .round _ => waiting.tail

def pending (events : List NetEvent) : List Datagram := events.foldl queueDatagram []

/-- The queue holds the packets of these datagrams. -/
def Waiting (s : Receiver) (waiting : List Datagram) : Prop :=
  s.receivedQueue.isFree = false ∧ s.receivedQueue.Holds (waiting.map Datagram.stored)

theorem udpGetrecv_queue (e : Encryption) (emptyPkt : SPkt) (q : PktQueue) :
    (udpGetrecv e emptyPkt q).value.2 = (getPkt q).2 := by
  unfold udpGetrecv
  by_cases hnull : (getPkt q).1.isNull = true
  · rw [if_pos hnull]
    rfl
  · rw [if_neg hnull]
    rfl

theorem round_queue (e : Encryption) (emptyPkt : SPkt) (s : Receiver) :
    (manageCommunication e emptyPkt s).value.2.receivedQueue = (getPkt s.receivedQueue).2 := by
  unfold manageCommunication
  rw [value_bind, ← udpGetrecv_queue e emptyPkt s.receivedQueue]
  by_cases hnull : (udpGetrecv e emptyPkt s.receivedQueue).value.1.isNull = true
  · rw [if_pos hnull]
    rfl
  · rw [if_neg hnull]
    rfl

theorem waiting_step (e : Encryption) {s : Receiver} {waiting : List Datagram}
    (h : Waiting s waiting) (event : NetEvent) :
    Waiting (netStep e s event).value (queueDatagram waiting event) := by
  obtain ⟨hfree, hholds⟩ := h
  cases event with
  | received d =>
    obtain ⟨hfree', hholds'⟩ := udpRecvPktRoutine_spec hfree hholds d
    rw [List.length_map] at hholds'
    refine ⟨hfree', ?_⟩
    by_cases hroom : waiting.length < maxQueueLength
    · rw [if_pos hroom] at hholds'
      rw [queueDatagram, if_pos hroom, List.map_append]
      exact hholds'
    · rw [if_neg hroom] at hholds'
      rw [queueDatagram, if_neg hroom]
      exact hholds'
  | round emptyPkt =>
    have hqueue : (netStep e s (.round emptyPkt)).value.receivedQueue = (getPkt s.receivedQueue).2 :=
      round_queue e emptyPkt s
    rw [Waiting, hqueue, getPkt_isFree]
    refine ⟨hfree, ?_⟩
    cases waiting with
    | nil =>
      rw [getPkt_nil hholds]
      exact hholds
    | cons d waiting => exact (getPkt_cons hholds).2

theorem waiting_run (e : Encryption) (events : List NetEvent) :
    Waiting (netRun e events) (pending events) := by
  apply Machine.foldl_induction (P := fun pre s => Waiting s (pending pre))
  · exact ⟨rfl, init_holds⟩
  · intro pre event _ h
    rw [pending, List.foldl_append]
    exact waiting_step e h event

/-! ## The whole path -/

/-- What a datagram must look like, and `PacketOk` of what follows its token. -/
def DatagramOk (s : Comm) (d : Datagram) : Prop :=
  (cstr d.bytes).length < messageLength ∧
    (afterField ';' (cstr d.bytes)).length < wifiMessageLength ∧
    PacketOk s (afterField ';' (cstr d.bytes))

/-- No string operation on the datagram leaves its buffers: not when it is queued, whatever the
queue holds, and not in the round that serves it. -/
def PathSafe (e : Encryption) (emptyPkt : SPkt) (s : Receiver) (d : Datagram) : Prop :=
  (∀ q, (udpRecvPktRoutine q d).faults = []) ∧ (manageCommunication e emptyPkt s).faults = []

theorem stored_text (d : Datagram) : d.stored.text = cstr d.bytes := by
  have := (cstr_length_le d.bytes).trans d.fits
  rw [SPkt.text, Datagram.stored, List.take_of_length_le this, cstr_cstr]

theorem round_safe_iff (e : Encryption) (emptyPkt : SPkt) {s : Receiver} {d : Datagram}
    {later : List Datagram} (h : Waiting s (d :: later))
    (haccepted : Genuine StartsWith e (cstr d.bytes)) :
    (manageCommunication e emptyPkt s).faults = [] ↔ DatagramOk s.comm d := by
  have htaken : (getPkt s.receivedQueue).1 = d.stored := (getPkt_cons h.2).1
  have hgenuine := haccepted
  rw [← stored_text] at hgenuine
  have hopen := ((openPkt_spec e emptyPkt d.stored fun hnone => by
    obtain ⟨token, -, htoken, -⟩ := hgenuine
    exact absurd (htoken.symm.trans hnone) (Option.some_ne_none token)).resolve_right
      fun hforged => hforged.1 hgenuine).2
  have hnul : NUL ∉ afterField ';' (cstr d.bytes) := by
    rw [← stored_text, ← cstr_afterField]
    exact nul_notMem_cstr _
  rw [stored_text] at hopen
  generalize hrest : afterField ';' (cstr d.bytes) = rest at hopen hnul
  have hrecv : udpGetrecv e emptyPkt s.receivedQueue =
      openPkt e emptyPkt d.stored >>= fun pkt => pure (pkt, (getPkt s.receivedQueue).2) := by
    unfold udpGetrecv
    rw [htaken]
    rfl
  have hround : (manageCommunication e emptyPkt s).faults = [] ↔
      (openPkt e emptyPkt d.stored).faults = [] ∧ (Ptr.ofBuf rest messageLength).Terminated ∧
        (Ptr.ofBuf rest messageLength).text.length < wifiMessageLength ∧
        (parsePacket (Ptr.ofBuf (Ptr.ofBuf rest messageLength).text wifiMessageLength) s.comm).faults
          = [] := by
    unfold manageCommunication
    rw [hrecv, faults_bind, faults_bind, value_bind, hopen, faults_pure, List.append_nil,
      List.append_eq_nil_iff]
    refine and_congr_right fun _ => ?_
    change (Ptr.ofBuf rest messageLength).read.faults ++
      ((strcpy wifiMessageLength (Ptr.ofBuf rest messageLength).text).faults ++ (_ ++ [])) = [] ↔ _
    simp only [List.append_nil, List.append_eq_nil_iff, faults_read, faults_strcpy]
    exact Iff.rfl
  rw [hround, openPkt_safe_iff hgenuine, stored_text, DatagramOk, hrest]
  have hle : rest.length ≤ (cstr d.bytes).length := by
    rw [← hrest, ← drop_field_length, List.length_drop]
    omega
  refine and_congr_right fun hlen => ?_
  have htext : (Ptr.ofBuf rest messageLength).text = rest := by
    rw [text_ofBuf (hle.trans hlen.le), cstr_eq_self hnul]
  have hterm : (Ptr.ofBuf rest messageLength).Terminated := by
    rw [Ptr.Terminated, htext]
    exact hle.trans_lt hlen
  rw [htext]
  constructor
  · rintro ⟨-, hfits, hparse⟩
    exact ⟨hfits, (parsePacket_safe_iff s.comm hnul hfits).mp hparse⟩
  · rintro ⟨hfits, hpacket⟩
    exact ⟨hterm, hfits, (parsePacket_safe_iff s.comm hnul hfits).mpr hpacket⟩

/-- For every accepted datagram at the head of the queue, in every run. -/
theorem receive_path_safe_iff (e : Encryption) (events : List NetEvent) (d : Datagram)
    (later : List Datagram) (hpending : pending events = d :: later)
    (haccepted : Genuine StartsWith e (cstr d.bytes)) (emptyPkt : SPkt) :
    PathSafe e emptyPkt (netRun e events) d ↔ DatagramOk (netRun e events).comm d := by
  have hwaiting := hpending ▸ waiting_run e events
  rw [PathSafe, round_safe_iff e emptyPkt hwaiting haccepted]
  exact and_iff_right fun q => udpRecvPktRoutine_safe q d

def packetFrom (s : String) (h : 0 < s.toList.length) (h' : s.toList.length ≤ messageLength) :
    Datagram := ⟨s.toList, "10.0.0.1".toList, 8888, h, h', by decide⟩

theorem status_request_safe :
    let d := packetFrom "key;6;4;1.3;" (by decide) (by decide)
    PathSafe statusRequest .zeroed (netRun statusRequest [.received d]) d := by
  intro d
  have hfirst : firstToken (cstr d.bytes) = some "key".toList := by decide +kernel
  have hmatch : cstr (statusRequest.sha256Hash (afterField ';' (cstr d.bytes))) =
      cstr "6;4;1.3;".toList := by
    decide +kernel
  have hok : DatagramOk (netRun statusRequest [.received d]).comm d := by
    refine ⟨by decide +kernel, by decide +kernel, fun _ _ _ => ⟨fun _ => by decide +kernel, ?_⟩⟩
    intro _ htype
    exact absurd htype (by decide +kernel)
  exact (receive_path_safe_iff statusRequest [.received d] d [] rfl
    ⟨_, _, hfirst, rfl, Equals.startsWith hmatch.symm⟩ .zeroed).mpr hok

/-- A join response without the address: `strcpy` reads the NULL that `strtok_save` returns. -/
theorem short_join_response_faults :
    let d := packetFrom "key;6;2;1.3;uuid" (by decide) (by decide)
    let e := oneToken "key".toList "6;2;1.3;uuid".toList
    pending [.received d] = [d] ∧ Genuine StartsWith e (cstr d.bytes) ∧
      ¬ PathSafe e .zeroed (netRun e [.received d]) d := by
  intro d e
  have hfirst : firstToken (cstr d.bytes) = some "key".toList := by decide +kernel
  have hmatch : cstr (e.sha256Hash (afterField ';' (cstr d.bytes))) =
      cstr "6;2;1.3;uuid".toList := by
    decide +kernel
  refine ⟨rfl, ⟨_, _, hfirst, rfl, Equals.startsWith hmatch.symm⟩, ?_⟩
  rintro ⟨-, hround⟩
  have hfaults : (manageCommunication e .zeroed (netRun e [.received d])).faults =
      [.nullRead, .nullRead] := by
    decide +kernel
  rw [hround] at hfaults
  exact absurd hfaults (by decide)

end LBeacon
