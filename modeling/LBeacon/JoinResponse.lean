import LBeacon.ReceiveSafety
import LBeacon.Tracking

/-!
# What a join response changes

`handle_join_response` with the value that it returns and the variables that it writes.
-/

open CText CMemory

namespace LBeacon

/-- `g_config.local_addr` and `*join_status`. -/
structure JoinState where
  localAddr : Str
  joinStatus : Int
  deriving DecidableEq

/-- The only `return` is the one at the end. -/
def JoinState.handleJoinResponse (g : JoinState) (respPayload : Ptr) :
    Watched (ErrorCode × JoinState) := do
  let r ← LBeacon.handleJoinResponse respPayload
  return (.workSuccessfully, { g with localAddr := r.1, joinStatus := r.2 })

/-- Four fields that are not empty, and an address that `local_addr` has room for. -/
def CompleteReply (payload : Str) : Prop :=
  4 ≤ (fields ';' payload).length ∧ (∀ k < 4, fieldAt ';' payload k ≠ []) ∧
    (fieldAt ';' payload 2).length < networkAddrLength

instance (payload : Str) : Decidable (CompleteReply payload) := by
  unfold CompleteReply
  infer_instance

/-- A complete reply is taken over without an access outside a buffer, and any other is refused
with an error and without a change. -/
structure AllOrNothing (g : JoinState) (payload : Ptr) : Prop where
  taken : CompleteReply payload.text → (g.handleJoinResponse payload).faults = [] ∧
    (g.handleJoinResponse payload).value =
      (.workSuccessfully, ⟨fieldAt ';' payload.text 2, atoi (fieldAt ';' payload.text 3)⟩)
  refused : ¬ CompleteReply payload.text →
    (g.handleJoinResponse payload).value.1 ≠ .workSuccessfully ∧
      (g.handleJoinResponse payload).value.2 = g

variable {p : Ptr}

theorem handleJoinResponse_faults (g : JoinState) :
    (g.handleJoinResponse p).faults = (handleJoinResponse p).faults := by
  unfold JoinState.handleJoinResponse
  rw [faults_bind, faults_pure, List.append_nil]

theorem fits_buf_of_safe (h : (handleJoinResponse p).faults = []) :
    p.text.length < wifiMessageLength := by
  unfold handleJoinResponse at h
  simp only [faults_bind, List.append_eq_nil_iff, faults_strcpy] at h
  exact h.2.1

theorem four_of_length {fs : List Str} (h : 4 ≤ fs.length) :
    ∃ f₀ f₁ f₂ f₃ rest, fs = f₀ :: f₁ :: f₂ :: f₃ :: rest := by
  rcases fs with _ | ⟨f₀, _ | ⟨f₁, _ | ⟨f₂, _ | ⟨f₃, rest⟩⟩⟩⟩
  iterate 4 simp at h
  exact ⟨f₀, f₁, f₂, f₃, rest, rfl⟩

theorem CompleteReply.joinOk (h : CompleteReply p.text) : JoinOk (fields ';' p.text) := by
  obtain ⟨hcount, hne, hlen⟩ := h
  obtain ⟨f₀, f₁, f₂, f₃, rest, hfields⟩ := four_of_length hcount
  unfold fieldAt at hne hlen
  rw [hfields] at hne hlen ⊢
  exact ⟨hne 0 (by omega), hne 2 (by omega), hlen, hne 3 (by omega)⟩

theorem handleJoinResponse_value (h : CompleteReply p.text)
    (hlen : p.text.length < wifiMessageLength) :
    (handleJoinResponse p).value = (fieldAt ';' p.text 2, atoi (fieldAt ';' p.text 3)) := by
  have hfirst := ahead_ofBuf p.noNul hlen
  obtain ⟨q1, hv1, -, hq1⟩ := strtokSave_first hfirst h.joinOk.1 .null
  obtain ⟨q2, hv2, -, hq2⟩ := strtokSave_next hq1 (by decide)
  obtain ⟨q3, hv3, -, hq3⟩ := strtokSave_next hq2 (by decide)
  obtain ⟨q4, hv4, -, -⟩ := strtokSave_next hq3 (by decide)
  simp only [handleJoinResponse, value_bind, value_read, value_strcpy, hv1, hv2, hv3, hv4,
    value_readToken_tokenOf, value_pure]
  obtain ⟨f₀, f₁, f₂, f₃, rest, hfields⟩ := four_of_length h.1
  unfold fieldAt
  rw [hfields]
  rfl

theorem join_response_all_or_nothing_iff (g : JoinState) (ht : p.Terminated) :
    AllOrNothing g p ↔ CompleteReply p.text ∧ p.text.length < wifiMessageLength := by
  constructor
  · intro h
    -- Nothing is ever refused.
    have hcomplete : CompleteReply p.text := by
      by_contra hother
      exact (h.refused hother).1 rfl
    have hsafe := (h.taken hcomplete).1
    rw [handleJoinResponse_faults] at hsafe
    exact ⟨hcomplete, fits_buf_of_safe hsafe⟩
  · rintro ⟨hcomplete, hlen⟩
    refine ⟨fun _ => ⟨?_, ?_⟩, absurd hcomplete⟩
    · rw [handleJoinResponse_faults]
      exact (handleJoinResponse_safe_iff ht hlen).mpr hcomplete.joinOk
    · unfold JoinState.handleJoinResponse
      rw [value_bind, handleJoinResponse_value hcomplete hlen]
      rfl

def replyFrom (s : String) : Ptr := Ptr.ofBuf s.toList wifiMessageLength

theorem join_response_taken : AllOrNothing ⟨[], 2⟩ (replyFrom "uuid;1600000000;10.0.0.7;1") :=
  (join_response_all_or_nothing_iff _ (by decide)).mpr ⟨by decide, by decide⟩

/-- A reply without a time: the address and the status are overwritten all the same, and the
call reports success. -/
theorem reply_without_time_taken :
    let g : JoinState := ⟨"10.0.0.1".toList, 2⟩
    let r := g.handleJoinResponse (replyFrom "uuid;;10.0.0.7;1")
    ¬ CompleteReply (replyFrom "uuid;;10.0.0.7;1").text ∧ r.faults = [] ∧
      r.value = (.workSuccessfully, ⟨"10.0.0.7".toList, 1⟩) ∧
      ¬ AllOrNothing g (replyFrom "uuid;;10.0.0.7;1") := by
  intro g r
  have hother : ¬ CompleteReply (replyFrom "uuid;;10.0.0.7;1").text := by decide
  refine ⟨hother, by decide, by decide, fun h => ?_⟩
  exact (h.refused hother).1 rfl

end LBeacon
