import LBeacon.Receive

/-!
# Authenticity of received packets

`udp_getrecv` returns the packet it took when its token is genuine. Every other path after the
queue's own null packet returns `empty_pkt`, to which nothing was assigned.
-/

open CText CMemory

namespace LBeacon

/-! ## What a genuine packet is -/

/-- The string in `content`. -/
def SPkt.text (p : SPkt) : Str := cstr (p.content.take messageLength)

/-- `none` when the first token is missing or empty. -/
def firstToken (s : Str) : Option Str := tokenOf (field ';' s)

/-- The first token decrypts to a text that matches the hash of the rest. -/
def Genuine (Matches : Str → Str → Prop) (e : Encryption) (s : Str) : Prop :=
  ∃ token text, firstToken s = some token ∧ e.decoder (some token) = some text ∧
    Matches text (e.sha256Hash (afterField ';' s))

/-- The comparison in the source: as many characters as the hash has. -/
def StartsWith (text hash : Str) : Prop := cstr hash <+: cstr text

def Equals (text hash : Str) : Prop := cstr text = cstr hash

/-- A packet that is not null is a genuine one without its token, and a null packet is not
served. -/
def Authentic (Matches : Str → Str → Prop) (e : Encryption) (emptyPkt : SPkt) (q : PktQueue) :
    Prop :=
  ((udpGetrecv e emptyPkt q).value.1.isNull = false →
    Genuine Matches e (getPkt q).1.text ∧
      cstr (udpGetrecv e emptyPkt q).value.1.content = afterField ';' (getPkt q).1.text) ∧
  ∀ comm, (udpGetrecv e emptyPkt q).value.1.isNull = true →
    (manageCommunication e emptyPkt ⟨q, comm⟩).value.1 = none

/-! ## The three ends of udp_getrecv -/

theorem Equals.startsWith {text hash : Str} (h : Equals text hash) : StartsWith text hash := by
  unfold Equals at h
  unfold StartsWith
  exact h ▸ List.prefix_rfl

theorem Genuine.mono {M N : Str → Str → Prop} (hMN : ∀ text hash, M text hash → N text hash)
    {e : Encryption} {s : Str} (h : Genuine M e s) : Genuine N e s := by
  obtain ⟨token, text, htoken, htext, hmatch⟩ := h
  exact ⟨token, text, htoken, htext, hMN _ _ hmatch⟩

theorem openPkt_spec (e : Encryption) (emptyPkt tmp : SPkt)
    (hnull : firstToken tmp.text = none → e.decoder none = none) :
    (Genuine StartsWith e tmp.text ∧ (openPkt e emptyPkt tmp).value =
      { tmp with
        content := afterField ';' tmp.text
        contentSize := (afterField ';' tmp.text).length }) ∨
    (¬ Genuine StartsWith e tmp.text ∧ (openPkt e emptyPkt tmp).value = emptyPkt) := by
  let p := Ptr.ofBuf tmp.content messageLength
  have htext : p.text = tmp.text := rfl
  have hres : Resolves (some p) .null p := Or.inl rfl
  unfold openPkt
  rw [value_bind]
  by_cases hnil : field ';' p.text = []
  · -- No token: the decoder gets NULL.
    right
    have hnone : firstToken tmp.text = none := if_pos hnil
    constructor
    · rintro ⟨token, text, htoken, -⟩
      exact Option.some_ne_none token (htoken.symm.trans hnone)
    · rw [(strtokSave_none _ hres hnil (by decide)).1]
      simp only [hnull hnone]
      rfl
  · obtain ⟨q, htoken, hrest, -⟩ := tokenFrom_spec hnil
    rw [(strtokSave_eq_tokenFrom _ hres hnil).1, htoken]
    have hfirst : firstToken tmp.text = some (field ';' p.text) := if_neg hnil
    cases hdec : e.decoder (some (field ';' p.text)) with
    | none =>
      right
      refine ⟨?_, rfl⟩
      rintro ⟨token, text, htok, htxt, -⟩
      rw [hfirst, Option.some.injEq] at htok
      rw [← htok, hdec] at htxt
      exact Option.some_ne_none _ htxt.symm
    | some decodedtext =>
      have hgenuine : Genuine StartsWith e tmp.text ↔
          StartsWith decodedtext (e.sha256Hash q.text) := by
        rw [hrest]
        constructor
        · rintro ⟨token, text, htok, htxt, hmatch⟩
          rw [hfirst, Option.some.injEq] at htok
          rw [← htok, hdec, Option.some.injEq] at htxt
          exact htxt ▸ hmatch
        · exact fun hmatch => ⟨_, _, hfirst, hdec, hmatch⟩
      rw [hgenuine, StartsWith, ← strncmp_strlen_eq_zero]
      by_cases hcmp : strncmp decodedtext (e.sha256Hash q.text)
          (strlen (e.sha256Hash q.text)) = 0
      · refine Or.inl ⟨hcmp, ?_⟩
        rw [← htext, ← hrest]
        exact congrArg Watched.value (if_neg (not_not_intro hcmp))
      · refine Or.inr ⟨hcmp, ?_⟩
        exact congrArg Watched.value (if_pos hcmp)

theorem udpGetrecv_cases (e : Encryption) (hnull : e.decoder none = none) (emptyPkt : SPkt)
    (q : PktQueue) :
    let head := (getPkt q).1
    (head.isNull = true ∧ (udpGetrecv e emptyPkt q).value.1 = head) ∨
    (head.isNull = false ∧ Genuine StartsWith e head.text ∧
      (udpGetrecv e emptyPkt q).value.1 =
        { head with
          content := afterField ';' head.text
          contentSize := (afterField ';' head.text).length }) ∨
    (head.isNull = false ∧ ¬ Genuine StartsWith e head.text ∧
      (udpGetrecv e emptyPkt q).value.1 = emptyPkt) := by
  intro head
  unfold udpGetrecv
  by_cases hhead : head.isNull = true
  · left
    rw [if_pos hhead]
    exact ⟨hhead, rfl⟩
  · right
    rw [if_neg hhead]
    rw [Bool.not_eq_true] at hhead
    rcases openPkt_spec e emptyPkt head (fun _ => hnull) with ⟨hgenuine, hopen⟩ | ⟨hgenuine, hopen⟩
    · exact Or.inl ⟨hhead, hgenuine, hopen⟩
    · exact Or.inr ⟨hhead, hgenuine, hopen⟩

/-! ## What manage_communication relies on -/

theorem null_packet_not_served (e : Encryption) (emptyPkt : SPkt) (s : Receiver)
    (h : (udpGetrecv e emptyPkt s.receivedQueue).value.1.isNull = true) :
    (manageCommunication e emptyPkt s).value.1 = none := by
  unfold manageCommunication
  rw [value_bind, if_pos h, value_pure]

theorem cstr_afterField (p : SPkt) : cstr (afterField ';' p.text) = afterField ';' p.text := by
  apply cstr_eq_self
  intro h
  rw [← drop_field_length] at h
  exact nul_notMem_cstr _ (List.mem_of_mem_drop h)

theorem authentic_iff_of_reading {Matches : Str → Str → Prop}
    (hM : ∀ text hash, Matches text hash → StartsWith text hash) (e : Encryption)
    (hnull : e.decoder none = none) (emptyPkt : SPkt) (q : PktQueue) :
    Authentic Matches e emptyPkt q ↔
      (getPkt q).1.isNull = true ∨ Genuine Matches e (getPkt q).1.text ∨
        ¬ Genuine StartsWith e (getPkt q).1.text ∧ emptyPkt.isNull = true := by
  have hserved : ∀ comm, (udpGetrecv e emptyPkt q).value.1.isNull = true →
      (manageCommunication e emptyPkt ⟨q, comm⟩).value.1 = none :=
    fun comm h => null_packet_not_served e emptyPkt ⟨q, comm⟩ h
  have hstarts : Genuine Matches e (getPkt q).1.text → Genuine StartsWith e (getPkt q).1.text :=
    Genuine.mono hM
  unfold Authentic
  rw [and_iff_left hserved]
  rcases udpGetrecv_cases e hnull emptyPkt q with ⟨hhead, hr⟩ | ⟨hhead, hg, hr⟩ | ⟨hhead, hg, hr⟩
  · simp [hr, hhead]
  · rw [hr]
    simp [hhead, hg, cstr_afterField]
  · have hM' : ¬ Genuine Matches e (getPkt q).1.text := fun h => hg (hstarts h)
    rw [hr]
    simp [hhead, hg, hM']

/-- Nothing else makes a packet authentic: the queue gives none, or the packet is genuine, or
`empty_pkt` happens to be null. -/
theorem getrecv_authentic_iff (e : Encryption) (hnull : e.decoder none = none) (emptyPkt : SPkt)
    (q : PktQueue) :
    (Authentic StartsWith e emptyPkt q ↔
      (getPkt q).1.isNull = true ∨ Genuine StartsWith e (getPkt q).1.text ∨
        emptyPkt.isNull = true) ∧
    (Authentic Equals e emptyPkt q ↔
      (getPkt q).1.isNull = true ∨ Genuine Equals e (getPkt q).1.text ∨
        ¬ Genuine StartsWith e (getPkt q).1.text ∧ emptyPkt.isNull = true) := by
  constructor
  · rw [authentic_iff_of_reading (fun _ _ h => h) e hnull emptyPkt q]
    by_cases hg : Genuine StartsWith e (getPkt q).1.text <;> simp [hg]
  · exact authentic_iff_of_reading (fun _ _ => Equals.startsWith) e hnull emptyPkt q

/-! ## One genuine packet, one forged -/

/-- An encryption that decrypts one token, with texts as their own hashes. -/
def oneToken (token text : Str) : Encryption where
  decoder t := if t = some token then some text else none
  sha256Hash s := s

def statusRequest : Encryption := oneToken "key".toList "6;4;1.3;".toList

/-- A queue with one packet. -/
def queueOf (content : Str) : PktQueue where
  front := 0
  rear := 0
  queue _ := ⟨false, [], 0, content, content.length⟩
  isFree := false

theorem genuine_authentic :
    Authentic StartsWith statusRequest .zeroed (queueOf "key;6;4;1.3;".toList) ∧
      Authentic Equals statusRequest .zeroed (queueOf "key;6;4;1.3;".toList) := by
  have hfirst : firstToken (getPkt (queueOf "key;6;4;1.3;".toList)).1.text = some "key".toList := by
    decide +kernel
  have hmatch : cstr "6;4;1.3;".toList = cstr (statusRequest.sha256Hash
      (afterField ';' (getPkt (queueOf "key;6;4;1.3;".toList)).1.text)) := by
    decide +kernel
  have hg : Genuine Equals statusRequest (getPkt (queueOf "key;6;4;1.3;".toList)).1.text :=
    ⟨"key".toList, "6;4;1.3;".toList, hfirst, rfl, hmatch⟩
  obtain ⟨hstarts, hequals⟩ :=
    getrecv_authentic_iff statusRequest rfl .zeroed (queueOf "key;6;4;1.3;".toList)
  exact ⟨hstarts.mpr (Or.inr (Or.inl (hg.mono fun _ _ => Equals.startsWith))),
    hequals.mpr (Or.inr (Or.inl hg))⟩

/-- The decryption fails, and the request is the one that an earlier packet left on the stack. -/
theorem forged_packet_served :
    let emptyPkt : SPkt := { SPkt.zeroed with content := "6;4;1.3;".toList, contentSize := 8 }
    let q := queueOf "forged;6;4;1.3;".toList
    statusRequest.decoder none = none ∧
      (udpGetrecv statusRequest emptyPkt q).value.1.isNull = false ∧
      ¬ Authentic StartsWith statusRequest emptyPkt q ∧ ¬ Authentic Equals statusRequest emptyPkt q ∧
      (manageCommunication statusRequest emptyPkt ⟨q, ⟨0, 0, .null, 2, []⟩⟩).value.1 =
        some .trackedObjectData := by
  intro emptyPkt q
  have hnull : (udpGetrecv statusRequest emptyPkt q).value.1.isNull = false := by decide +kernel
  have hfirst : firstToken (getPkt q).1.text = some "forged".toList := by decide +kernel
  have hforged (M : Str → Str → Prop) : ¬ Genuine M statusRequest (getPkt q).1.text := by
    rintro ⟨token, text, htoken, htext, -⟩
    rw [hfirst, Option.some.injEq] at htoken
    subst htoken
    exact Option.some_ne_none _ htext.symm
  exact ⟨rfl, hnull, fun h => hforged _ (h.1 hnull).1, fun h => hforged _ (h.1 hnull).1,
    by decide +kernel⟩

end LBeacon
