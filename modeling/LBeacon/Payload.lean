import LBeacon.Device

/-! # Advertising payloads: hex text and AD structures -/

open CText

namespace LBeacon

def decimalToHex (number : Nat) : Char :=
  if number ≤ 9 then Char.ofNat (number + 48) else Char.ofNat (number - 10 + 65)

def hexToDecimal (hexNumber : Char) : Int :=
  if hexNumber.toNat ≥ 65 then hexNumber.toNat - 65 + 10 else hexNumber.toNat - 48

/-- The loop body shared by the two hex writers. -/
def hexByte (b : UInt8) : Str := [decimalToHex (b.toNat / 16), decimalToHex (b.toNat % 16)]

def getPrintableBlePayload (inBuf : List UInt8) : Str := inBuf.flatMap hexByte

theorem getPrintableBlePayload_length (bytes : List UInt8) :
    (getPrintableBlePayload bytes).length = 2 * bytes.length := by
  induction bytes with
  | nil => rfl
  | cons b bytes ih =>
    simp only [getPrintableBlePayload, List.flatMap_cons, List.length_append] at ih ⊢
    rw [ih]
    simp [hexByte]
    omega

theorem notMem_printable {c : Char} (hdigit : ∀ n, n < 16 → decimalToHex n ≠ c)
    (bytes : List UInt8) : c ∉ getPrintableBlePayload bytes := by
  intro h
  obtain ⟨b, -, hb⟩ := List.mem_flatMap.mp h
  have hlt := b.toNat_lt
  rcases List.mem_pair.mp hb with hhigh | hlow
  · exact hdigit _ (by omega) hhigh.symm
  · exact hdigit _ (by omega) hlow.symm

/-! ## eir_parse_specific_data -/

def eirNameComplete : UInt8 := 0x09
def eirManufactureSpecificData : UInt8 := 0xFF
def blePayloadFormat05C60xffFieldLen : UInt8 := 7
def blePayloadFormat05C70xffFieldLen : UInt8 := 11

/-- The hex text of bytes `0` to `fieldLen`, both included. A byte past the end of the
report reads as zero: the payload array was cleared before the report was copied in. -/
def hexOfField (eir : List UInt8) (fieldLen : Nat) : Str :=
  (List.range (fieldLen + 1)).flatMap fun i => hexByte (eir.getD i 0)

/-- The loop, from the structure that starts at `eir`. `none` is `E_PARSE_UUID`. -/
def eirLoop (eirLen : Nat) (eirType : UInt8) (bufLen : Nat) :
    Nat → List UInt8 → Nat → Option Str
  | 0, _, _ => none
  | fuel + 1, eir, offset =>
    if offset < eirLen then
      let fieldLen := (eir.getD 0 0).toNat
      let kind := eir.getD 1 0
      if fieldLen = 0 then none
      else if offset + fieldLen > eirLen then none
      else if kind = eirType ∧ kind = eirNameComplete then
        if fieldLen > bufLen then none else some (hexOfField eir fieldLen)
      else if kind = eirType ∧ kind = eirManufactureSpecificData then
        if fieldLen > bufLen then none
        else if fieldLen = blePayloadFormat05C60xffFieldLen.toNat ∨
            fieldLen = blePayloadFormat05C70xffFieldLen.toNat then
          some (hexOfField eir fieldLen)
        else none
      else eirLoop eirLen eirType bufLen fuel (eir.drop (fieldLen + 1)) (offset + fieldLen + 1)
    else none

/-- Every round moves at least two bytes on, so `eirLen + 1` rounds are enough. -/
def eirParseSpecificData (eir : List UInt8) (eirType : UInt8) (bufLen : Nat) : Option Str :=
  eirLoop eir.length eirType bufLen (eir.length + 1) eir 0

/-! ## convert_str_to_mac_address -/

/-- Twelve characters of the buffer, with a colon after every second one but the last. -/
def convertStrToMacAddress (macAddressPayload : Str) : Str :=
  (List.range 12).flatMap fun i =>
    if i % 2 = 1 ∧ i ≠ 11 then [macAddressPayload.getD i NUL, ':']
    else [macAddressPayload.getD i NUL]

end LBeacon
