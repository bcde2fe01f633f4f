import LBeacon.Authenticity
import LBeacon.Lib.Machine

/-!
# Which handler a packet gets

`manage_communication` keeps `pkt_direction` and `pkt_type` from packet to packet, and `sscanf`
leaves them alone when a field is not a number.
-/

open CText CMemory

namespace LBeacon

/-! ## One packet, and the packets before it -/

/-- The body of the loop for a packet that is not null. -/
def servePacket (tmpPkt : SPkt) (s : Comm) : Watched (Option Request × Comm) := do
  let content ← (Ptr.ofBuf tmpPkt.content messageLength).read
  let buf ← strcpy wifiMessageLength content
  parsePacket (Ptr.ofBuf buf wifiMessageLength) s

def commAfter (history : List SPkt) : Comm :=
  history.foldl (fun s p => (servePacket p s).value.2) Receiver.init.comm

/-- The packet fits into `buf`. -/
def Fits (p : SPkt) : Prop := p.text.length < wifiMessageLength

theorem manageCommunication_packet {e : Encryption} {emptyPkt : SPkt} {s : Receiver}
    (h : (udpGetrecv e emptyPkt s.receivedQueue).value.1.isNull = false) :
    (manageCommunication e emptyPkt s).value.1 =
        (servePacket (udpGetrecv e emptyPkt s.receivedQueue).value.1 s.comm).value.1 ∧
      (manageCommunication e emptyPkt s).value.2.comm =
        (servePacket (udpGetrecv e emptyPkt s.receivedQueue).value.1 s.comm).value.2 := by
  unfold manageCommunication servePacket
  rw [value_bind]
  generalize (udpGetrecv e emptyPkt s.receivedQueue).value = r at h ⊢
  rw [if_neg (by simp [h])]
  exact ⟨rfl, rfl⟩

theorem netRun_comm (e : Encryption) (events : List NetEvent) :
    ∃ history, (netRun e events).comm = commAfter history := by
  apply Machine.foldl_invariant (P := fun s : Receiver => ∃ history, s.comm = commAfter history)
  · exact ⟨[], rfl⟩
  · rintro pre event - ⟨history, h⟩
    generalize pre.foldl (fun s event => (netStep e s event).value) .init = s at h ⊢
    cases event with
    | received d => exact ⟨history, h⟩
    | round emptyPkt =>
      change ∃ history, (manageCommunication e emptyPkt s).value.2.comm = _
      by_cases hnull : (udpGetrecv e emptyPkt s.receivedQueue).value.1.isNull = true
      · refine ⟨history, ?_⟩
        unfold manageCommunication
        rw [value_bind, if_pos hnull]
        exact h
      · rw [Bool.not_eq_true] at hnull
        refine ⟨history ++ [(udpGetrecv e emptyPkt s.receivedQueue).value.1], ?_⟩
        rw [(manageCommunication_packet hnull).2, h]
        unfold commAfter
        rw [List.foldl_append, List.foldl_cons, List.foldl_nil]

/-! ## The numbers in force -/

def Comm.numbers (s : Comm) : Int × Int := (s.pktDirection, s.pktType)

/-- The direction and the type after a packet. -/
def readNumbers (numbers : Int × Int) (text : Str) : Int × Int :=
  if field ';' text = [] then numbers
  else
    let direction := (scanInt (field ';' text)).getD numbers.1
    let text := afterField ';' text
    if field ';' text = [] then (direction, numbers.2)
    else (direction, (scanInt (field ';' text)).getD numbers.2)

def remembered (history : List SPkt) : Int × Int :=
  history.foldl (fun numbers p => readNumbers numbers p.text) (0, 0)

/-- The first three fields are not empty, and the text behind them is `rest`. -/
def ThreeFields (text rest : Str) : Prop :=
  field ';' text ≠ [] ∧ field ';' (afterField ';' text) ≠ [] ∧
    field ';' (afterField ';' (afterField ';' text)) ≠ [] ∧
    afterField ';' (afterField ';' (afterField ';' text)) = rest

theorem strtokSave_token {str : Option Ptr} {saveptr : SavePtr} {p : Ptr}
    (h : Resolves str saveptr p) (hne : field ';' p.text ≠ []) :
    ∃ q : Ptr, (strtokSave ';' str saveptr).value = ⟨some (field ';' p.text), .place q⟩ ∧
      q.text = afterField ';' p.text := by
  obtain ⟨q, hvalue, htext, -⟩ := tokenFrom_spec hne
  exact ⟨q, (strtokSave_eq_tokenFrom saveptr h hne).1.trans hvalue, htext⟩

theorem strtokSave_empty {str : Option Ptr} {saveptr : SavePtr} {p : Ptr}
    (h : Resolves str saveptr p) (hnil : field ';' p.text = []) :
    (strtokSave ';' str saveptr).value.str = none := by
  rw [(strtokSave_none saveptr h hnil (by decide)).1]

theorem parsePacket_cases (p : Ptr) (s : Comm) :
    ∃ s' : Comm, s'.numbers = readNumbers s.numbers p.text ∧
      ((∃ payload : Ptr, ThreeFields p.text payload.text ∧
          (parsePacket p s).value = (dispatch payload s').value) ∨
        (∀ rest, ¬ ThreeFields p.text rest) ∧ (parsePacket p s).value = (none, s')) := by
  unfold parsePacket readNumbers
  have hres : Resolves (some p) s.saveptr p := Or.inl rfl
  by_cases hfirst : field ';' p.text = []
  · simp only [value_bind, strtokSave_empty hres hfirst, if_pos hfirst]
    refine ⟨_, ?_, Or.inr ⟨fun _ h => h.1 hfirst, rfl⟩⟩
    rfl
  · obtain ⟨q, htoken, hq⟩ := strtokSave_token hres hfirst
    have hresq : Resolves none (.place q) q := Or.inr ⟨rfl, rfl⟩
    simp only [value_bind, htoken, if_neg hfirst, ← hq]
    by_cases hsecond : field ';' q.text = []
    · simp only [strtokSave_empty hresq hsecond, if_pos hsecond]
      refine ⟨_, ?_, Or.inr ⟨fun _ h => h.2.1 (hq ▸ hsecond), rfl⟩⟩
      rfl
    · obtain ⟨r, htoken', hr⟩ := strtokSave_token hresq hsecond
      have hresr : Resolves none (.place r) r := Or.inr ⟨rfl, rfl⟩
      simp only [value_bind, htoken', if_neg hsecond]
      by_cases hthird : field ';' r.text = []
      · simp only [strtokSave_empty hresr hthird]
        refine ⟨_, ?_, Or.inr ⟨fun _ h => h.2.2.1 (hq ▸ hr ▸ hthird), rfl⟩⟩
        rfl
      · obtain ⟨t, htoken'', -⟩ := strtokSave_token hresr hthird
        simp only [value_bind, htoken'']
        refine ⟨_, ?_, Or.inl ⟨_, ⟨hfirst, hq ▸ hsecond, hq ▸ hr ▸ hthird, ?_⟩, rfl⟩⟩
        · rfl
        · simp only [text_advance, drop_field_length]
          rw [← hq, drop_field_length, ← hr, drop_field_length]

theorem servePacket_cases {pkt : SPkt} (hfits : Fits pkt) (s : Comm) :
    ∃ s' : Comm, s'.numbers = readNumbers s.numbers pkt.text ∧
      ((∃ payload : Ptr, ThreeFields pkt.text payload.text ∧
          (servePacket pkt s).value = (dispatch payload s').value) ∨
        (∀ rest, ¬ ThreeFields pkt.text rest) ∧ (servePacket pkt s).value = (none, s')) := by
  have htext : (Ptr.ofBuf pkt.text wifiMessageLength).text = pkt.text := by
    rw [text_ofBuf (Nat.le_of_lt hfits), SPkt.text, cstr_cstr]
  have hserve : (servePacket pkt s).value =
      (parsePacket (Ptr.ofBuf pkt.text wifiMessageLength) s).value := by
    unfold servePacket SPkt.text
    simp only [value_bind, value_read, value_strcpy]
    rfl
  have hcases := parsePacket_cases (Ptr.ofBuf pkt.text wifiMessageLength) s
  rw [htext] at hcases
  rw [hserve]
  exact hcases

/-! ## The switch -/

def Request.number : Request → Int
  | .joinResponse => LBeacon.joinResponse
  | .trackedObjectData => LBeacon.trackedObjectData
  | .beaconHealthReport => LBeacon.beaconHealthReport

theorem dispatch_served (payload : Ptr) (s : Comm) (r : Request) :
    (dispatch payload s).value.1 = some r ↔ s.numbers = (fromGateway, r.number) := by
  unfold dispatch Comm.numbers
  rw [Prod.mk.injEq]
  by_cases hdirection : s.pktDirection = fromGateway
  · rw [if_pos hdirection]
    cases r <;> grind [Request.number, joinResponse, trackedObjectData, beaconHealthReport,
      value_bind, value_pure]
  · rw [if_neg hdirection]
    simp [hdirection]

theorem dispatch_numbers (payload : Ptr) (s : Comm) :
    (dispatch payload s).value.2.numbers = s.numbers := by
  unfold dispatch
  grind [value_bind, value_pure, Comm.numbers]

theorem dispatch_join {payload : Ptr} {s : Comm}
    (h : s.numbers = (fromGateway, Request.joinResponse.number)) :
    (handleJoinResponse payload).value =
      ((dispatch payload s).value.2.localAddr, (dispatch payload s).value.2.joinStatus) := by
  unfold Comm.numbers at h
  rw [Prod.mk.injEq] at h
  have htype : s.pktType = joinResponse := h.2
  unfold dispatch
  rw [if_pos h.1, if_pos htype, value_bind, value_pure]

theorem servePacket_served {pkt : SPkt} (hfits : Fits pkt) (s : Comm) (r : Request) :
    (servePacket pkt s).value.1 = some r ↔
      (∃ rest, ThreeFields pkt.text rest) ∧
        readNumbers s.numbers pkt.text = (fromGateway, r.number) := by
  obtain ⟨s', hnumbers, ⟨payload, hthree, hserve⟩ | ⟨hnone, hserve⟩⟩ := servePacket_cases hfits s
  · rw [hserve, dispatch_served, hnumbers]
    exact ⟨fun h => ⟨⟨_, hthree⟩, h⟩, fun h => h.2⟩
  · rw [hserve]
    simp [hnone]

theorem servePacket_numbers {pkt : SPkt} (hfits : Fits pkt) (s : Comm) :
    (servePacket pkt s).value.2.numbers = readNumbers s.numbers pkt.text := by
  obtain ⟨s', hnumbers, ⟨payload, -, hserve⟩ | ⟨-, hserve⟩⟩ := servePacket_cases hfits s
  · rw [hserve, dispatch_numbers, hnumbers]
  · rw [hserve, ← hnumbers]

theorem commAfter_numbers {history : List SPkt} (hfits : ∀ p ∈ history, Fits p) :
    (commAfter history).numbers = remembered history := by
  apply Machine.foldl_induction (P := fun pre (s : Comm) => s.numbers = remembered pre)
  · rfl
  · intro pre p hpre h
    unfold remembered at h ⊢
    rw [List.foldl_append, ← h]
    exact servePacket_numbers (hfits p (Machine.mem_of_step hpre)) _

/-! ## Exact dispatch -/

/-- `text` is `d;t;v;rest`, from the gateway, and of `r`'s type. -/
def Asks (text : Str) (r : Request) (rest : Str) : Prop :=
  ∃ d t v : Str, (d ≠ [] ∧ t ≠ [] ∧ v ≠ []) ∧ (';' ∉ d ∧ ';' ∉ t ∧ ';' ∉ v) ∧
    text = d ++ ';' :: (t ++ ';' :: (v ++ ';' :: rest)) ∧
    scanInt d = some fromGateway ∧ scanInt t = some r.number

/-- The packets stay in `buf`, exactly the handler that the packet asks for runs, and
`handle_join_response` gets what is behind the third field. -/
structure Exact (history : List SPkt) (pkt : SPkt) (served : Option Request × Receiver) : Prop where
  copied : ∀ p ∈ history ++ [pkt], Fits p
  handler : ∀ r, served.1 = some r ↔ ∃ rest, Asks pkt.text r rest
  payload : ∀ rest, Asks pkt.text .joinResponse rest → ∃ p : Ptr, p.text = rest ∧
    (handleJoinResponse p).value = (served.2.comm.localAddr, served.2.comm.joinStatus)

/-- The direction or the type is not a number. -/
def Unread (text : Str) : Prop :=
  scanInt (field ';' text) = none ∨ scanInt (field ';' (afterField ';' text)) = none

/-- The packet has three fields. There is no fourth, or an earlier packet's number is used; and
the numbers in force name a handler. -/
def Misread (numbers : Int × Int) (text : Str) : Prop :=
  (∃ rest, ThreeFields text rest) ∧ (';' ∉ afterField ';' (afterField ';' text) ∨ Unread text) ∧
    ∃ r : Request, readNumbers numbers text = (fromGateway, r.number)

theorem eq_append_of_field_ne_nil {text : Str} (h : field ';' (afterField ';' text) ≠ []) :
    text = field ';' text ++ ';' :: afterField ';' text := by
  rcases field_cases ';' text with ⟨-, hafter⟩ | hsplit
  · rw [hafter] at h
    exact absurd rfl h
  · exact hsplit

theorem asks_iff (text : Str) (r : Request) (rest : Str) :
    Asks text r rest ↔ ThreeFields text rest ∧ ';' ∈ afterField ';' (afterField ';' text) ∧
      scanInt (field ';' text) = some fromGateway ∧
      scanInt (field ';' (afterField ';' text)) = some r.number := by
  constructor
  · rintro ⟨d, t, v, ⟨hd, ht, hv⟩, ⟨hd', ht', hv'⟩, rfl, hdirection, htype⟩
    unfold ThreeFields
    simp only [field_append hd', afterField_append hd', field_append ht', afterField_append ht',
      field_append hv', afterField_append hv']
    exact ⟨⟨hd, ht, hv, trivial⟩, by simp, hdirection, htype⟩
  · rintro ⟨⟨hd, ht, hv, hrest⟩, hmem, hdirection, htype⟩
    refine ⟨_, _, _, ⟨hd, ht, hv⟩, ⟨delim_notMem_field _ _, delim_notMem_field _ _,
      delim_notMem_field _ _⟩, ?_, hdirection, htype⟩
    rw [← hrest, ← eq_append_of_mem hmem, ← eq_append_of_field_ne_nil hv,
      ← eq_append_of_field_ne_nil ht]

theorem readNumbers_of_read {text rest : Str} (h : ThreeFields text rest) (numbers : Int × Int) :
    readNumbers numbers text = ((scanInt (field ';' text)).getD numbers.1,
      (scanInt (field ';' (afterField ';' text))).getD numbers.2) := by
  unfold readNumbers
  rw [if_neg h.1, if_neg h.2.1]

theorem Asks.readNumbers {text rest : Str} {r : Request} (h : Asks text r rest)
    (numbers : Int × Int) : readNumbers numbers text = (fromGateway, r.number) := by
  obtain ⟨hthree, -, hdirection, htype⟩ := (asks_iff text r rest).mp h
  rw [readNumbers_of_read hthree, hdirection, htype]
  rfl

theorem asks_of_not_misread {numbers : Int × Int} {text rest : Str} {r : Request}
    (h : ¬ Misread numbers text) (hthree : ThreeFields text rest)
    (hnumbers : LBeacon.readNumbers numbers text = (fromGateway, r.number)) :
    Asks text r rest := by
  have hread : ¬ (';' ∉ afterField ';' (afterField ';' text) ∨ Unread text) :=
    fun hbad => h ⟨⟨rest, hthree⟩, hbad, r, hnumbers⟩
  unfold Unread at hread
  push Not at hread
  obtain ⟨hmem, hd, ht⟩ := hread
  obtain ⟨direction, hdirection⟩ := Option.ne_none_iff_exists'.mp hd
  obtain ⟨type, htype⟩ := Option.ne_none_iff_exists'.mp ht
  rw [readNumbers_of_read hthree, hdirection, htype, Prod.mk.injEq] at hnumbers
  exact (asks_iff text r rest).mpr
    ⟨hthree, hmem, hnumbers.1 ▸ hdirection, hnumbers.2 ▸ htype⟩

/-- A number that is missing can be one that a status request left. -/
theorem Unread.after_status {numbers : Int × Int} {text rest : Str} {r : Request}
    (h : Unread text) (hthree : ThreeFields text rest)
    (hnumbers : readNumbers numbers text = (fromGateway, r.number)) :
    Misread (fromGateway, trackedObjectData) text := by
  refine ⟨⟨rest, hthree⟩, Or.inr h, ?_⟩
  rw [readNumbers_of_read hthree, Prod.mk.injEq] at hnumbers
  obtain ⟨hdirection, htype⟩ := hnumbers
  have hgateway : (scanInt (field ';' text)).getD fromGateway = fromGateway := by
    cases hd : scanInt (field ';' text) with
    | none => rfl
    | some direction => rwa [hd] at hdirection
  rw [readNumbers_of_read hthree, hgateway]
  cases ht : scanInt (field ';' (afterField ';' text)) with
  | none => exact ⟨.trackedObjectData, rfl⟩
  | some type =>
    rw [ht] at htype
    exact ⟨r, congrArg (Prod.mk fromGateway) htype⟩

/-! ## Any history -/

theorem served_iff {e : Encryption} {emptyPkt pkt : SPkt} {q : PktQueue} {history : List SPkt}
    (hpkt : (udpGetrecv e emptyPkt q).value.1 = pkt) (hnull : pkt.isNull = false)
    (hfits : ∀ p ∈ history ++ [pkt], Fits p) (r : Request) :
    (manageCommunication e emptyPkt ⟨q, commAfter history⟩).value.1 = some r ↔
      (∃ rest, ThreeFields pkt.text rest) ∧
        readNumbers (remembered history) pkt.text = (fromGateway, r.number) := by
  subst hpkt
  rw [(manageCommunication_packet (s := ⟨q, commAfter history⟩) hnull).1,
    servePacket_served (hfits _ (by simp)),
    commAfter_numbers fun p hp => hfits p (List.mem_append_left _ hp)]

theorem join_payload {e : Encryption} {emptyPkt pkt : SPkt} {q : PktQueue} {history : List SPkt}
    {rest : Str} (hpkt : (udpGetrecv e emptyPkt q).value.1 = pkt) (hnull : pkt.isNull = false)
    (hfits : Fits pkt) (hasks : Asks pkt.text .joinResponse rest) :
    let comm := (manageCommunication e emptyPkt ⟨q, commAfter history⟩).value.2.comm
    ∃ p : Ptr, p.text = rest ∧
      (handleJoinResponse p).value = (comm.localAddr, comm.joinStatus) := by
  subst hpkt
  rw [(manageCommunication_packet (s := ⟨q, commAfter history⟩) hnull).2]
  obtain ⟨s', hnumbers, ⟨payload, hthree, hserve⟩ | ⟨hnone, -⟩⟩ :=
    servePacket_cases hfits (commAfter history)
  · refine ⟨payload, ?_, ?_⟩
    · exact hthree.2.2.2.symm.trans ((asks_iff _ _ _).mp hasks).1.2.2.2
    · rw [hserve]
      exact dispatch_join (hnumbers.trans (hasks.readNumbers _))
  · exact absurd ((asks_iff _ _ _).mp hasks).1 (hnone rest)

theorem exact_iff {e : Encryption} {emptyPkt pkt : SPkt} {q : PktQueue}
    (hpkt : (udpGetrecv e emptyPkt q).value.1 = pkt) (hnull : pkt.isNull = false)
    (history : List SPkt) :
    Exact history pkt (manageCommunication e emptyPkt ⟨q, commAfter history⟩).value ↔
      (∀ p ∈ history ++ [pkt], Fits p) ∧ ¬ Misread (remembered history) pkt.text := by
  constructor
  · rintro ⟨hfits, hhandler, -⟩
    refine ⟨hfits, ?_⟩
    rintro ⟨hthree, hbad, r, hnumbers⟩
    obtain ⟨rest, hasks⟩ :=
      (hhandler r).mp ((served_iff hpkt hnull hfits r).mpr ⟨hthree, hnumbers⟩)
    obtain ⟨-, hmem, hdirection, htype⟩ := (asks_iff _ _ _).mp hasks
    rcases hbad with hnone | hunread | hunread
    · exact hnone hmem
    · exact Option.some_ne_none _ (hdirection.symm.trans hunread)
    · exact Option.some_ne_none _ (htype.symm.trans hunread)
  · rintro ⟨hfits, hgood⟩
    refine ⟨hfits, fun r => ?_, fun rest => join_payload hpkt hnull (hfits pkt (by simp))⟩
    rw [served_iff hpkt hnull hfits]
    constructor
    · rintro ⟨⟨rest, hthree⟩, hnumbers⟩
      exact ⟨rest, asks_of_not_misread hgood hthree hnumbers⟩
    · rintro ⟨rest, hasks⟩
      exact ⟨⟨rest, ((asks_iff _ _ _).mp hasks).1⟩, hasks.readNumbers _⟩

/-- A status request. -/
def statusPkt : SPkt := { SPkt.zeroed with content := "6;4;1.3;".toList, contentSize := 8 }

theorem statusPkt_text : statusPkt.text = "6;4;1.3;".toList := by decide +kernel

theorem statusPkt_fits : Fits statusPkt := by
  unfold Fits
  rw [statusPkt_text]
  decide

theorem remembered_statusPkt : remembered [statusPkt] = (fromGateway, trackedObjectData) := by
  unfold remembered
  rw [List.foldl_cons, List.foldl_nil, statusPkt_text]
  decide

theorem same_after_all_iff {e : Encryption} {emptyPkt pkt : SPkt} {q : PktQueue}
    (hpkt : (udpGetrecv e emptyPkt q).value.1 = pkt) (hnull : pkt.isNull = false)
    (hfits : Fits pkt) :
    (∀ h₁ h₂, (∀ p ∈ h₁ ++ h₂, Fits p) →
      (manageCommunication e emptyPkt ⟨q, commAfter h₁⟩).value.1 =
        (manageCommunication e emptyPkt ⟨q, commAfter h₂⟩).value.1) ↔
      ¬ (Unread pkt.text ∧ Misread (fromGateway, trackedObjectData) pkt.text) := by
  have hpackets {history : List SPkt} (h : ∀ p ∈ history, Fits p) :
      ∀ p ∈ history ++ [pkt], Fits p := by
    simpa [or_imp, forall_and] using ⟨h, hfits⟩
  constructor
  · rintro hsame ⟨hunread, ⟨rest, hthree⟩, -, r, hnumbers⟩
    have hstatus : ∀ p ∈ [statusPkt], Fits p := by simpa using statusPkt_fits
    have hafter := (served_iff hpkt hnull (hpackets hstatus) r).mpr
      ⟨⟨rest, hthree⟩, by rw [remembered_statusPkt, hnumbers]⟩
    have hfirst := (hsame [] [statusPkt] hstatus).trans hafter
    have hzero := ((served_iff hpkt hnull (hpackets (by simp)) r).mp hfirst).2
    -- Nothing was read before the first packet: a missing number is zero.
    rw [readNumbers_of_read hthree, Prod.mk.injEq] at hzero
    rcases hunread with hd | ht
    · rw [hd] at hzero
      exact absurd hzero.1 (by decide)
    · rw [ht] at hzero
      exact absurd hzero.2 (by cases r <;> decide)
  · intro hgood
    have hsame {h₁ h₂ : List SPkt} (hf₁ : ∀ p ∈ h₁, Fits p) (hf₂ : ∀ p ∈ h₂, Fits p)
        {r : Request} (h : (manageCommunication e emptyPkt ⟨q, commAfter h₁⟩).value.1 = some r) :
        (manageCommunication e emptyPkt ⟨q, commAfter h₂⟩).value.1 = some r := by
      rw [served_iff hpkt hnull (hpackets hf₁)] at h
      rw [served_iff hpkt hnull (hpackets hf₂)]
      obtain ⟨⟨rest, hthree⟩, hnumbers⟩ := h
      refine ⟨⟨rest, hthree⟩, ?_⟩
      have hread : ¬ Unread pkt.text :=
        fun h => hgood ⟨h, h.after_status hthree hnumbers⟩
      unfold Unread at hread
      push Not at hread
      obtain ⟨direction, hd⟩ := Option.ne_none_iff_exists'.mp hread.1
      obtain ⟨type, ht⟩ := Option.ne_none_iff_exists'.mp hread.2
      rw [readNumbers_of_read hthree, hd, ht] at hnumbers ⊢
      exact hnumbers
    intro h₁ h₂ hf
    simp only [List.mem_append, or_imp, forall_and] at hf
    apply Option.ext
    exact fun r => ⟨hsame hf.1 hf.2, hsame hf.2 hf.1⟩

/-- After any packets, a packet is dispatched exactly unless it is misread. -/
theorem dispatch_exact_iff (e : Encryption) (emptyPkt pkt : SPkt) (q : PktQueue)
    (hpkt : (udpGetrecv e emptyPkt q).value.1 = pkt) (hnull : pkt.isNull = false) :
    (∀ history, Exact history pkt (manageCommunication e emptyPkt ⟨q, commAfter history⟩).value ↔
      (∀ p ∈ history ++ [pkt], Fits p) ∧ ¬ Misread (remembered history) pkt.text) ∧
    (Fits pkt → ((∀ h₁ h₂, (∀ p ∈ h₁ ++ h₂, Fits p) →
      (manageCommunication e emptyPkt ⟨q, commAfter h₁⟩).value.1 =
        (manageCommunication e emptyPkt ⟨q, commAfter h₂⟩).value.1) ↔
      ¬ (Unread pkt.text ∧ Misread (fromGateway, trackedObjectData) pkt.text))) :=
  ⟨exact_iff hpkt hnull, same_after_all_iff hpkt hnull⟩

/-! ## A packet that borrows its numbers -/

theorem status_after_status_exact :
    Exact [statusPkt] statusPkt (manageCommunication (oneToken "key".toList "6;4;1.3;".toList)
      .zeroed ⟨queueOf "key;6;4;1.3;".toList, commAfter [statusPkt]⟩).value := by
  have hpkt : (udpGetrecv (oneToken "key".toList "6;4;1.3;".toList) .zeroed
      (queueOf "key;6;4;1.3;".toList)).value.1 = statusPkt := by decide +kernel
  apply ((dispatch_exact_iff _ _ _ _ hpkt rfl).1 [statusPkt]).mpr
  refine ⟨by simpa using statusPkt_fits, ?_⟩
  rw [statusPkt_text]
  rintro ⟨-, hbad | hbad | hbad, -⟩
  · exact hbad (by decide)
  · exact absurd hbad (by decide)
  · exact absurd hbad (by decide)

theorem borrowed_numbers_dispatched :
    let e := oneToken "key".toList "x;y;1.3;".toList
    let q := queueOf "key;x;y;1.3;".toList
    let pkt := (udpGetrecv e .zeroed q).value.1
    pkt.isNull = false ∧ pkt.text = "x;y;1.3;".toList ∧ (∀ r rest, ¬ Asks pkt.text r rest) ∧
      (manageCommunication e .zeroed ⟨q, commAfter []⟩).value.1 = none ∧
      (manageCommunication e .zeroed ⟨q, commAfter [statusPkt]⟩).value.1 =
        some .trackedObjectData ∧
      ¬ Exact [statusPkt] pkt (manageCommunication e .zeroed ⟨q, commAfter [statusPkt]⟩).value := by
  intro e q pkt
  have htext : pkt.text = "x;y;1.3;".toList := by decide +kernel
  have hserved : (manageCommunication e .zeroed ⟨q, commAfter [statusPkt]⟩).value.1 =
      some .trackedObjectData := by decide +kernel
  have hasks : ∀ r rest, ¬ Asks pkt.text r rest := by
    intro r rest h
    rw [htext] at h
    exact absurd ((asks_iff _ _ _).mp h).2.2.1 (by decide)
  refine ⟨by decide +kernel, htext, hasks, by decide +kernel, hserved, fun h => ?_⟩
  obtain ⟨rest, hrest⟩ := (h.handler .trackedObjectData).mp hserved
  exact hasks _ _ hrest

end LBeacon
