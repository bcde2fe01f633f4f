import LBeacon.QueueRefinement
import LBeacon.Receive

/-!
# The send path

`udp_addpkt` puts the encrypted hash of a message before it.
-/

open CText CMemory

namespace LBeacon

def lengthOfSha256 : Nat := 512
def lengthOfEncodedWifiMessage : Nat := wifiMessageLength + lengthOfSha256

/-- `libEncrypt` with its encoder. -/
structure Codec extends Encryption where
  encoder : Str → Str

/-- The encrypted hash of a message. -/
def Codec.token (c : Codec) (content : Str) : Str := cstr (c.encoder (c.sha256Hash content))

def addpktMsgOversize : Int := -6

/-- What `addpkt` returns is not looked at. -/
def udpAddpkt (c : Codec) (q : PktQueue) (address : Ptr) (port : Nat) (content : Ptr) :
    Watched (Int × PktQueue) := do
  let content ← content.read
  let ciphertext := c.token content
  let ciphertext ← strcat lengthOfEncodedWifiMessage ciphertext [';']
  let ciphertext ← strcat lengthOfEncodedWifiMessage ciphertext content
  let size := ciphertext.length
  if size > messageLength then return (addpktMsgOversize, q)
  let r ← addpkt q address port (Ptr.ofBuf ciphertext lengthOfEncodedWifiMessage) size
  return (0, r.2)

/-- The text of the packet for a message. -/
def Codec.sealed (c : Codec) (content : Str) : Str := c.token content ++ ';' :: content

theorem udpAddpkt_value (c : Codec) (q : PktQueue) (address : Ptr) (port : Nat) (content : Ptr) :
    (udpAddpkt c q address port content).value =
      if (c.sealed content.text).length > messageLength then (addpktMsgOversize, q)
      else (0, (addpkt q address port
        (Ptr.ofBuf (c.sealed content.text) lengthOfEncodedWifiMessage)
        (c.sealed content.text).length).value.2) := by
  have hsealed : c.token content.text ++ [';'] ++ content.text = c.sealed content.text := by
    rw [List.append_assoc]
    rfl
  unfold udpAddpkt
  simp only [value_bind, value_read, value_strcat, hsealed]
  split <;> rfl

theorem nul_notMem_sealed (c : Codec) (content : Ptr) : NUL ∉ c.sealed content.text := by
  unfold Codec.sealed Codec.token
  simp only [List.mem_append, List.mem_cons, not_or]
  exact ⟨nul_notMem_cstr _, by decide, content.noNul⟩

end LBeacon
