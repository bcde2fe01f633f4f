import LBeacon.Delivery
import LBeacon.Joining
import LBeacon.SendReport

/-!
# What becomes of a join request

Among the other threads of the beacon the loop of `main` never stops asking, and what it asks for is
sent.
-/

open CText CMemory Fair

namespace LBeacon

namespace Joining

variable {site : Site} {s : Joining} {turns : Nat → Turn}

/-- The packet for a request to join. -/
def joinPkt (site : Site) (config : Config) (now : Int32) : SPkt :=
  site.pkt (pollInfoText requestToJoin config now)

theorem pass_udp (h : Fits s.config) (currentTime : Int) (now : Int32) :
    let content := Ptr.ofBuf (pollInfoText requestToJoin s.config now) wifiMessageLength
    let framed := site.codec.sealed content.text
    (s.pass site currentTime now).udp =
      if intervalForReconnectGatewayInSec < currentTime - s.lastJoinRequestTime then
        s.udp.step (.add (Ptr.ofBuf site.gatewayAddr networkAddrLength) site.gatewayPort
          (Ptr.ofBuf framed lengthOfEncodedWifiMessage) framed.length)
      else s.udp := by
  intro content framed
  unfold pass
  rw [sendJoinRequest_fits h]
  dsimp only
  split
  · rw [if_pos rfl]
    rfl
  · rfl

theorem joinText_sendable {config : Config} (h : Fits config) (now : Int32) :
    Sendable (pollInfoText requestToJoin config now) := by
  have hhead : NUL ∉ "8;".toList := by decide
  have hversion : NUL ∉ ";1.3;".toList := by decide
  have hdelim : NUL ∉ [';'] := by decide
  have htime (n : Int) (k : Nat) : NUL ∉ (intText n).take k :=
    fun h => nul_notMem_intText n (List.mem_of_mem_take h)
  have hfits : (pollInfoText requestToJoin config now).length ≤ maxLengthRespBasicInfo :=
    pollInfoText_length_le (by decide) h.uuid h.localAddr now
  refine ⟨?_, Nat.lt_of_le_of_lt hfits (by decide)⟩
  unfold pollInfoText
  simp only [List.mem_append, not_or]
  simp only [hhead, hversion, hdelim, htime, h.uuidText, h.localAddrText, nul_notMem_intText,
    not_false_eq_true, and_self]

theorem mem_pass_accepted (hc : site.codec.Sound) (h : Fits s.config) {currentTime : Int} {now : Int32}
    {p : SPkt} (hp : p ∈ (s.pass site currentTime now).udp.accepted) :
    p ∈ s.udp.accepted ∨ p = joinPkt site s.config now := by
  rw [pass_udp h] at hp
  split at hp
  · exact Site.mem_accepted hc (joinText_sendable h now) hp
  · exact Or.inl hp

end Joining

end LBeacon
