import LBeacon.AddressMap
import LBeacon.HealthReport
import LBeacon.JoinResponse
import LBeacon.UdpThreads
import LBeacon.Lib.Spacing

/-!
# Join requests

The loop at the end of `main` asks to join again and again, while the communication thread handles
the responses and the threads of UDP_API.c serve the queue.
-/

open CText CMemory

namespace LBeacon

def requestToJoin : Int := 1
def intervalForReconnectGatewayInSec : Int := 30

/-- The codec and the address of the gateway. -/
structure Site where
  codec : Codec
  gatewayAddr : Str
  gatewayPort : Nat

/-- The packet for a message to the gateway. -/
def Site.pkt (site : Site) (message : Str) : SPkt :=
  let framed := site.codec.sealed message
  framedPkt (Ptr.ofBuf site.gatewayAddr networkAddrLength) site.gatewayPort framed framed.length

theorem Site.accepted {site : Site} (hc : site.codec.Sound) {message : Str} (hsend : Sendable message)
    (s : Udp) :
    (s.udpAddpkt site.codec (Ptr.ofBuf site.gatewayAddr networkAddrLength) site.gatewayPort
        (Ptr.ofBuf message wifiMessageLength)).value.2.accepted =
      s.accepted ++ if s.pktQueue.isFree || s.pktQueue.isFull then [] else [site.pkt message] := by
  have hlength := hc.sealed_length hsend
  have hsize : ¬ (site.codec.sealed message).length > messageLength :=
    Nat.not_lt.mpr (Nat.le_trans hlength.le (by decide))
  have htext : (Ptr.ofBuf message wifiMessageLength).text = message := by
    rw [text_ofBuf hsend.2.le, cstr_eq_self hsend.1]
  have hnul := nul_notMem_sealed site.codec (Ptr.ofBuf message wifiMessageLength)
  rw [htext] at hnul
  have hpacket : packetFor (Ptr.ofBuf site.gatewayAddr networkAddrLength) site.gatewayPort
      (Ptr.ofBuf (site.codec.sealed message) lengthOfEncodedWifiMessage)
      (site.codec.sealed message).length = site.pkt message := by
    refine packetFor_eq_framedPkt.mpr ⟨(Ptr.ofBuf site.gatewayAddr networkAddrLength).fits, ?_⟩
    rw [text_ofBuf hlength.le, cstr_eq_self hnul, List.take_length]
  unfold Udp.udpAddpkt Udp.add
  simp only [value_bind, value_pure, htext, addpkt_value, if_neg hsize, hpacket]
  cases s.pktQueue.isFree with
  | true => exact (List.append_nil _).symm
  | false =>
    cases s.pktQueue.isFull with
    | true => exact (List.append_nil _).symm
    | false => rfl

theorem Site.mem_accepted {site : Site} (hc : site.codec.Sound) {message : Str}
    (hsend : Sendable message) {s : Udp} {p : SPkt}
    (h : p ∈ (s.udpAddpkt site.codec (Ptr.ofBuf site.gatewayAddr networkAddrLength) site.gatewayPort
      (Ptr.ofBuf message wifiMessageLength)).value.2.accepted) :
    p ∈ s.accepted ∨ p = site.pkt message := by
  rw [Site.accepted hc hsend, List.mem_append] at h
  refine h.imp_right fun h => ?_
  split at h
  · exact absurd h List.not_mem_nil
  · exact List.mem_singleton.mp h

/-- What `udp_addpkt` returns is not looked at. -/
def sendJoinRequest (site : Site) (cfg : Config) (now : Int32) (s : Udp) :
    Watched (ErrorCode × Udp) := do
  let message := pollInfoText requestToJoin cfg now
  if message.length > maxLengthRespBasicInfo then return (.ePrepareResponseBasicInfo, s)
  let r ← s.udpAddpkt site.codec (Ptr.ofBuf site.gatewayAddr networkAddrLength) site.gatewayPort
    (Ptr.ofBuf message wifiMessageLength)
  return (.workSuccessfully, r.2)

/-- `joinStatus` is the variable of `manage_communication`. `requests` are the times at which
`send_join_request` was successful so far. -/
structure Joining where
  config : Config
  joinStatus : Int
  lastJoinRequestTime : Int
  udp : Udp
  requests : List Int

namespace Joining

/-- One pass of the loop. Where it does not ask, it sleeps. -/
def pass (site : Site) (s : Joining) (currentTime : Int) (now : Int32) : Joining :=
  if currentTime - s.lastJoinRequestTime > intervalForReconnectGatewayInSec then
    let r := (sendJoinRequest site s.config now s.udp).value
    let s := { s with udp := r.2 }
    if r.1 = .workSuccessfully then
      { s with lastJoinRequestTime := currentTime, requests := s.requests ++ [currentTime] }
    else s
  else s

/-- The communication thread handles a join response. -/
def reply (s : Joining) (respPayload : Ptr) : Joining :=
  let r := (JoinState.handleJoinResponse ⟨s.config.localAddr, s.joinStatus⟩ respPayload).value.2
  { s with config := { s.config with localAddr := r.localAddr }, joinStatus := r.joinStatus }

inductive Turn where
  | pass (currentTime : Int) (now : Int32)
  | reply (respPayload : Ptr)
  | udp (turn : Udp.Turn)

def step (site : Site) (s : Joining) : Turn → Joining
  | .pass currentTime now => s.pass site currentTime now
  | .reply respPayload => s.reply respPayload
  | .udp turn => { s with udp := s.udp.step turn }

@[simp] theorem step_pass (site : Site) (s : Joining) (currentTime : Int) (now : Int32) :
    s.step site (.pass currentTime now) = s.pass site currentTime now := rfl

@[simp] theorem step_reply (site : Site) (s : Joining) (respPayload : Ptr) :
    s.step site (.reply respPayload) = s.reply respPayload := rfl

theorem reply_localAddr (s : Joining) (respPayload : Ptr) :
    (s.reply respPayload).config.localAddr = (handleJoinResponse respPayload).value.1 := by
  unfold reply JoinState.handleJoinResponse
  simp only [value_bind, value_pure]

def run (site : Site) (s : Joining) (turns : List Turn) : Joining := turns.foldl (step site) s

/-- Before the first pass. -/
def start (config : Config) (joinStatus : Int) (udp : Udp) : Joining where
  config
  joinStatus
  lastJoinRequestTime := 0
  udp
  requests := []

/-- What `get_clock_time` gave to the passes. -/
def clocks (turns : List Turn) : List Int :=
  turns.filterMap fun
    | .pass currentTime _ => some currentTime
    | _ => none

/-- A response is handled without an access outside a buffer. -/
def Turn.Safe : Turn → Prop
  | .reply respPayload => (handleJoinResponse respPayload).faults = []
  | _ => True

variable {site : Site} {s : Joining}

/-- A pass asks and notes the time, or does nothing. -/
theorem pass_cases (site : Site) (s : Joining) (currentTime : Int) (now : Int32) :
    s.pass site currentTime now = s ∨
      ∃ address port content size, s.pass site currentTime now =
        { s with
          udp := s.udp.add address port content size
          lastJoinRequestTime := currentTime
          requests := s.requests ++ [currentTime] } := by
  unfold pass sendJoinRequest
  dsimp only
  split
  · split
    · exact Or.inl (if_neg ErrorCode.noConfusion)
    · exact Or.inr ⟨_, _, _, _, if_pos rfl⟩
  · exact Or.inl rfl

/-! ## The text fits -/

theorem pollInfoText_length_le {pollType : Int} (htype : (intText pollType).length ≤ 1) {cfg : Config}
    (huuid : cfg.uuid.length < lengthOfUuid) (haddr : cfg.localAddr.length < networkAddrLength)
    (now : Int32) : (pollInfoText pollType cfg now).length ≤ maxLengthRespBasicInfo := by
  have htime := List.length_take_le (lengthOfEpochTime - 1) (intText now.toInt)
  have hhead : "8;".toList.length = 2 := rfl
  have hversion : ";1.3;".toList.length = 5 := rfl
  unfold pollInfoText
  simp only [List.length_append, List.length_singleton, hhead, hversion]
  unfold lengthOfUuid at huuid
  unfold networkAddrLength at haddr
  unfold lengthOfEpochTime at htime
  unfold maxLengthRespBasicInfo lengthOfEpochTime
  omega

/-- The beacon's own texts are strings within their arrays. -/
structure Fits (cfg : Config) : Prop where
  uuid : cfg.uuid.length < lengthOfUuid
  uuidText : NUL ∉ cfg.uuid
  localAddr : cfg.localAddr.length < networkAddrLength
  localAddrText : NUL ∉ cfg.localAddr

theorem nul_notMem_tokenFrom (delim : Char) (s : Ptr) :
    NUL ∉ (readToken (tokenFrom delim s).value.str).value := by
  unfold tokenFrom
  simp only [value_bind]
  split
  · exact List.not_mem_nil
  · simp only [value_bind]
    split
    · exact List.not_mem_nil
    · have htoken := fun h => (s.advance (s.text.takeWhile (· = delim)).length).noNul
        ((List.takeWhile_prefix (· ≠ delim)).subset h)
      simp only [value_bind]
      split <;> exact htoken

theorem nul_notMem_strtokSave (delim : Char) (str : Option Ptr) (saveptr : SavePtr) :
    NUL ∉ (readToken (strtokSave delim str saveptr).value.str).value := by
  unfold strtokSave strtokR
  cases str
  all_goals
    simp only [value_bind]
    split
    · exact List.not_mem_nil
    · exact nul_notMem_tokenFrom delim _

theorem nul_notMem_localAddr (p : Ptr) : NUL ∉ (handleJoinResponse p).value.1 := by
  unfold handleJoinResponse
  simp only [value_bind, value_pure, value_strcpy]
  exact nul_notMem_strtokSave _ _ _

theorem localAddr_length {p : Ptr} (h : (handleJoinResponse p).faults = []) :
    (handleJoinResponse p).value.1.length < networkAddrLength := by
  unfold handleJoinResponse at h ⊢
  simp only [faults_bind, List.append_eq_nil_iff, faults_strcpy] at h
  simp only [value_bind, value_pure, value_strcpy]
  obtain ⟨-, -, -, -, -, -, haddr, -⟩ := h
  exact haddr

theorem Fits.step (h : Fits s.config) {turn : Turn} (hsafe : turn.Safe) :
    Fits (s.step site turn).config := by
  cases turn with
  | pass currentTime now =>
    unfold Joining.step pass
    dsimp only
    split
    · split <;> exact h
    · exact h
  | reply respPayload =>
    rw [step_reply]
    refine ⟨h.uuid, h.uuidText, ?_, ?_⟩
    · rw [reply_localAddr]
      exact localAddr_length hsafe
    · rw [reply_localAddr]
      exact nul_notMem_localAddr respPayload
  | udp turn => exact h

theorem Fits.run (h : Fits s.config) {turns : List Turn} (hsafe : ∀ turn ∈ turns, turn.Safe) :
    Fits (s.run site turns).config :=
  Machine.foldl_invariant (P := fun s : Joining => Fits s.config) h fun _ turn hpre h =>
    h.step (hsafe turn (Machine.mem_of_step hpre))

/-! ## The times of the requests -/

theorem sendJoinRequest_fits {cfg : Config} (h : Fits cfg) (now : Int32) (s : Udp) :
    (sendJoinRequest site cfg now s).value =
      (.workSuccessfully, (s.udpAddpkt site.codec (Ptr.ofBuf site.gatewayAddr networkAddrLength)
        site.gatewayPort (Ptr.ofBuf (pollInfoText requestToJoin cfg now) wifiMessageLength)).value.2) := by
  have hfits : (pollInfoText requestToJoin cfg now).length ≤ maxLengthRespBasicInfo :=
    pollInfoText_length_le (by decide) h.uuid h.localAddr now
  unfold sendJoinRequest
  rw [if_neg (Nat.not_lt.mpr hfits)]
  rfl

end Joining

end LBeacon
