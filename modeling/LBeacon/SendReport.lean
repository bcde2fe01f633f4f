import LBeacon.RoundTrip
import Mathlib.Data.List.TakeDrop

/-!
# What the send functions report

`udp_addpkt` and `udp_addpkt_without_encoding` return 0 without a look at what `addpkt` said.
-/

open CText CMemory

namespace LBeacon

/-- `size` is the length of a content. -/
def udpAddpktWithoutEncoding (q : PktQueue) (address : Ptr) (port : Nat) (content : Ptr)
    (size : Nat) : Watched (Int × PktQueue) := do
  if size > messageLength then return (addpktMsgOversize, q)
  let r ← addpkt q address port content size
  return (0, r.2)

/-! ## A report to rely on -/

/-- The answer is 0 exactly when the queue has one packet more, which is this one. Otherwise the
queue is as it was. -/
structure ReportsTruthfully (q : PktQueue) (pkts : List SPkt) (p : SPkt)
    (r : Watched (Int × PktQueue)) : Prop where
  safe : r.faults = []
  success : r.value.1 = 0 ↔ r.value.2.Holds (pkts ++ [p])
  failure : r.value.1 ≠ 0 → r.value.2 = q

/-- The packet for these bytes, whatever the fields of the queue can hold. -/
def framedPkt (address : Ptr) (port : Nat) (framed : Str) (size : Nat) : SPkt :=
  ⟨false, address.text, port, framed, size⟩

/-- The queue takes packets, and the address can be read and stored. -/
def PktQueue.Accepts (q : PktQueue) (address : Ptr) : Prop :=
  q.isFree = false ∧ q.isFull = false ∧
    (address.Terminated ∨ networkAddrLength ≤ address.text.length) ∧
    address.text.length ≤ networkAddrLength

instance (q : PktQueue) (address : Ptr) : Decidable (q.Accepts address) := by
  unfold PktQueue.Accepts; infer_instance

variable {q : PktQueue} {pkts : List SPkt} {address content : Ptr} {port size : Nat} {p : SPkt}

theorem not_holds_append (h : q.Holds pkts) : ¬ q.Holds (pkts ++ [p]) := by
  intro h'
  have := congrArg List.length (holds_unique h h')
  simp at this

theorem addpkt_faults (hsize : size ≤ messageLength) (hopen : q.isFree = false)
    (hroom : q.isFull = false) : (addpkt q address port content size).faults = [] ↔
      (address.Terminated ∨ networkAddrLength ≤ address.text.length) ∧
      (content.Terminated ∨ size ≤ content.text.length) := by
  unfold addpkt storePkt
  rw [if_neg (Nat.not_lt.mpr hsize), if_neg (by simp [hopen]), if_neg (by simp [hroom])]
  simp [hsize]

theorem holds_append_unique {p' : SPkt} (h : q.Holds (pkts ++ [p])) :
    q.Holds (pkts ++ [p']) ↔ p = p' := by
  constructor
  · intro h'
    simpa using holds_unique h h'
  · rintro rfl
    exact h

theorem addpkt_holds (h : q.Holds pkts) (hsize : size ≤ messageLength) (hopen : q.isFree = false)
    (hroom : q.isFull = false) (address : Ptr) (port : Nat) (content : Ptr) :
    (addpkt q address port content size).value.2.Holds
      (pkts ++ [packetFor address port content size]) := by
  have hpkts : pkts.length < maxQueueLength := by
    have := holds_length_le h
    have := (isFull_iff h).not.mp (Bool.not_eq_true _ ▸ hroom)
    omega
  rw [addpkt_value, if_neg (Nat.not_lt.mpr hsize), if_neg (by simp [hopen]),
    if_neg (by simp [hroom])]
  exact nextRear_holds h hpkts _

theorem addpkt_refused (h : ¬ (q.isFree = false ∧ q.isFull = false)) :
    (addpkt q address port content size).value.2 = q := by
  rw [addpkt_value]
  cases hfree : q.isFree <;> cases hfull : q.isFull <;> simp [hfree, hfull] at h ⊢ <;> split <;> rfl

theorem packetFor_eq_framedPkt {framed : Str} :
    packetFor address port content size = framedPkt address port framed size ↔
      address.text.length ≤ networkAddrLength ∧ content.text.take size = framed := by
  unfold packetFor framedPkt
  simp only [SPkt.mk.injEq, true_and, and_true]
  rw [List.take_eq_self_iff]

theorem reports_zero_iff (h : q.Holds pkts) (hsize : size ≤ messageLength) {framed : Str}
    (hframed : content.text.take size = framed) :
    ReportsTruthfully q pkts (framedPkt address port framed size)
        ⟨(0, (addpkt q address port content size).value.2),
          (addpkt q address port content size).faults⟩ ↔
      q.Accepts address ∧ (content.Terminated ∨ size ≤ content.text.length) := by
  constructor
  · rintro ⟨hsafe, hsuccess, -⟩
    have hholds := hsuccess.mp rfl
    by_cases hopen : q.isFree = false ∧ q.isFull = false
    · have hin := addpkt_holds h hsize hopen.1 hopen.2 address port content
      have hp := packetFor_eq_framedPkt.mp ((holds_append_unique hin).mp hholds)
      obtain ⟨haddr, hread⟩ := (addpkt_faults hsize hopen.1 hopen.2).mp hsafe
      exact ⟨⟨hopen.1, hopen.2, haddr, hp.1⟩, hread⟩
    · rw [addpkt_refused hopen] at hholds
      exact absurd hholds (not_holds_append h)
  · rintro ⟨⟨hopen, hroom, haddr, hshort⟩, hread⟩
    have hin := addpkt_holds h hsize hopen hroom address port content
    rw [packetFor_eq_framedPkt.mpr ⟨hshort, hframed⟩] at hin
    refine ⟨(addpkt_faults hsize hopen hroom).mpr ⟨haddr, hread⟩, ?_, fun hne => absurd rfl hne⟩
    exact ⟨fun _ => hin, fun _ => rfl⟩

theorem reports_oversize (h : q.Holds pkts) :
    ReportsTruthfully q pkts p (pure (addpktMsgOversize, q)) := by
  refine ⟨rfl, ⟨fun hz => ?_, fun hh => absurd hh (not_holds_append h)⟩, fun _ => rfl⟩
  have hne : addpktMsgOversize ≠ 0 := by decide
  exact absurd hz hne

/-! ## The two functions -/

theorem without_encoding_reports (h : q.Holds pkts) :
    ReportsTruthfully q pkts (framedPkt address port (content.text.take size) size)
        (udpAddpktWithoutEncoding q address port content size) ↔
      messageLength < size ∨
        q.Accepts address ∧ (content.Terminated ∨ size ≤ content.text.length) := by
  by_cases hsize : messageLength < size
  · have hresult : udpAddpktWithoutEncoding q address port content size =
        pure (addpktMsgOversize, q) := if_pos hsize
    rw [hresult]
    exact ⟨fun _ => Or.inl hsize, fun _ => reports_oversize h⟩
  · have hresult : udpAddpktWithoutEncoding q address port content size =
        ⟨(0, (addpkt q address port content size).value.2),
          (addpkt q address port content size).faults⟩ := by
      unfold udpAddpktWithoutEncoding
      rw [if_neg hsize]
      ext1 <;> simp
    rw [hresult, reports_zero_iff h (Nat.not_lt.mp hsize) rfl]
    simp [hsize]

theorem udpAddpkt_faults {c : Codec}
    (hf : (udpAddpkt c q address port content).faults = []) :
    content.Terminated ∧ (c.sealed content.text).length < lengthOfEncodedWifiMessage := by
  unfold udpAddpkt at hf
  simp only [faults_bind, List.append_eq_nil_iff, faults_read, faults_strcat, value_strcat,
    value_read] at hf
  obtain ⟨hterm, -, hfits, -⟩ := hf
  refine ⟨hterm, ?_⟩
  have hsealed : c.token content.text ++ [';'] ++ content.text = c.sealed content.text := by
    rw [List.append_assoc]
    rfl
  rwa [← hsealed, List.length_append]

theorem udpAddpkt_eq {c : Codec} (hterm : content.Terminated)
    (hfits : (c.sealed content.text).length < lengthOfEncodedWifiMessage) :
    udpAddpkt c q address port content =
      ⟨(0, (addpkt q address port (Ptr.ofBuf (c.sealed content.text) lengthOfEncodedWifiMessage)
          (c.sealed content.text).length).value.2),
        (addpkt q address port (Ptr.ofBuf (c.sealed content.text) lengthOfEncodedWifiMessage)
          (c.sealed content.text).length).faults⟩ := by
  have hsize : ¬ (c.sealed content.text).length > messageLength := by
    have : lengthOfEncodedWifiMessage ≤ messageLength := by decide
    omega
  have hsealed : c.token content.text ++ [';'] ++ content.text = c.sealed content.text := by
    rw [List.append_assoc]
    rfl
  have hdelim : (strcat lengthOfEncodedWifiMessage (c.token content.text) [';']).faults = [] := by
    rw [faults_strcat]
    have := congrArg List.length hsealed
    simp only [List.length_append, List.length_singleton] at this ⊢
    omega
  have htext : (strcat lengthOfEncodedWifiMessage (c.token content.text ++ [';'])
      content.text).faults = [] := by
    rw [faults_strcat, ← List.length_append, hsealed]
    exact hfits
  ext1
  · rw [udpAddpkt_value, if_neg hsize]
  · unfold udpAddpkt
    simp only [faults_bind, value_read, value_strcat, (faults_read content).mpr hterm,
      hdelim, htext, hsealed, if_neg hsize, List.nil_append, faults_pure, List.append_nil]

theorem encoding_reports (c : Codec) (h : q.Holds pkts) (address : Ptr) (port : Nat)
    (content : Ptr) :
    ReportsTruthfully q pkts
        (framedPkt address port (c.sealed content.text) (c.sealed content.text).length)
        (udpAddpkt c q address port content) ↔
      content.Terminated ∧ (c.sealed content.text).length < lengthOfEncodedWifiMessage ∧
        q.Accepts address := by
  by_cases hfit : content.Terminated ∧
      (c.sealed content.text).length < lengthOfEncodedWifiMessage
  · obtain ⟨hterm, hfits⟩ := hfit
    have htext : (Ptr.ofBuf (c.sealed content.text) lengthOfEncodedWifiMessage).text =
        c.sealed content.text := by
      rw [text_ofBuf hfits.le, cstr_eq_self (nul_notMem_sealed c content)]
    have hsize : (c.sealed content.text).length ≤ messageLength :=
      hfits.le.trans (by decide)
    rw [udpAddpkt_eq hterm hfits, reports_zero_iff h hsize (by rw [htext, List.take_length])]
    simp [hterm, hfits, htext]
  · constructor
    · rintro ⟨hsafe, -, -⟩
      exact absurd (udpAddpkt_faults hsafe) hfit
    · rintro ⟨hterm, hfits, -⟩
      exact absurd ⟨hterm, hfits⟩ hfit

theorem send_functions_report_iff (c : Codec) (h : q.Holds pkts) (address : Ptr) (port : Nat)
    (content : Ptr) (size : Nat) :
    (ReportsTruthfully q pkts
        (framedPkt address port (c.sealed content.text) (c.sealed content.text).length)
        (udpAddpkt c q address port content) ↔
      content.Terminated ∧ (c.sealed content.text).length < lengthOfEncodedWifiMessage ∧
        q.Accepts address) ∧
    (ReportsTruthfully q pkts (framedPkt address port (content.text.take size) size)
        (udpAddpktWithoutEncoding q address port content size) ↔
      messageLength < size ∨
        q.Accepts address ∧ (content.Terminated ∨ size ≤ content.text.length)) :=
  ⟨encoding_reports c h address port content, without_encoding_reports h⟩

theorem send_functions_report_iff_open :
    ReportsTruthfully initPacketQueue []
      (framedPkt (Ptr.ofBuf "10.0.0.1".toList 16) 8888 "ko;a".toList 4)
      (udpAddpkt prefixCodec initPacketQueue (Ptr.ofBuf "10.0.0.1".toList 16) 8888
        (Ptr.ofBuf "a".toList 8)) :=
  (send_functions_report_iff prefixCodec init_holds (Ptr.ofBuf "10.0.0.1".toList 16) 8888
    (Ptr.ofBuf "a".toList 8) 1).1.mpr (by decide)

/-- A queue that was freed takes nothing, and 0 is returned. -/
theorem send_reports_freed : ¬ ∀ q pkts, q.Holds pkts →
    ReportsTruthfully q pkts (framedPkt (Ptr.ofBuf "10.0.0.1".toList 16) 8888 "ko;a".toList 4)
      (udpAddpkt prefixCodec q (Ptr.ofBuf "10.0.0.1".toList 16) 8888
        (Ptr.ofBuf "a".toList 8)) := by
  intro hall
  have hfreed : ({ initPacketQueue with isFree := true } : PktQueue).Holds [] := init_holds
  have hgained := (hall _ _ hfreed).success.mp rfl
  have hsame : (udpAddpkt prefixCodec { initPacketQueue with isFree := true }
      (Ptr.ofBuf "10.0.0.1".toList 16) 8888 (Ptr.ofBuf "a".toList 8)).value.2 =
        { initPacketQueue with isFree := true } := rfl
  rw [hsame] at hgained
  exact not_holds_append hfreed hgained

end LBeacon
