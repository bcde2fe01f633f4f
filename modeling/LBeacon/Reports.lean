import LBeacon.Examine
import LBeacon.Steps
import Mathlib.Data.List.GetD

/-!
# Runs of the whole beacon

Advertising reports, inquiry results, polls and cleanups, as the operations on the lists that
they cause.
-/

open CText

namespace LBeacon

/-! ## Events -/

inductive Event where
  | report (temp : TempBleDevice)
  | inquiry (address : Mac) (rssi : Int32)
  | poll
  | cleanup (list : ListHead)

/-- What `start_br_scanning` passes on. -/
def inquiryArgs (address : Mac) (rssi : Int32) : PushArgs :=
  ⟨address.text, rssi, 0, 0, false, false, []⟩

def TempBleDevice.isAdvertising (temp : TempBleDevice) : Prop :=
  temp.evtType = eventTypeAdvInd ∨ temp.evtType = eventTypeAdvNonconnInd

instance (temp : TempBleDevice) : Decidable temp.isAdvertising :=
  inferInstanceAs (Decidable (_ ∨ _))

/-- The list operation that an examined report causes. -/
def reportOp (cfg : Config) (temp : TempBleDevice) : Option Op :=
  if temp.isAdvertising then (matchReport cfg temp).map (.push .ble)
  else if temp.evtType = eventTypeScanRsp then
    some (.scanRsp temp.scannedMacAddress.text temp.payload)
  else none

def Event.op (cfg : Config) : Event → Option Op
  | .report temp => if temp.isWeak cfg then none else reportOp cfg temp
  | .inquiry address rssi =>
    if rssi > cfg.scanRssiCoverage then some (.push .brEdr (inquiryArgs address rssi)) else none
  | .poll => some .poll
  | .cleanup list => some (.cleanup list)

def eventStep (cfg : Config) (w : World) (s : Tracker) (e : Event) : Tracker :=
  match e.op cfg with
  | some op => step cfg w s op
  | none => s

def eventRun (cfg : Config) (w : World) (events : List Event) : Tracker :=
  run cfg w (events.filterMap (Event.op cfg))

theorem examineReport_eq (cfg : Config) (w : World) (s : Tracker) (temp : TempBleDevice) :
    examineReport cfg w s temp = (match reportOp cfg temp with
      | some op => step cfg w s op
      | none => s) := by
  unfold examineReport reportOp
  by_cases hadv : temp.isAdvertising
  · rw [if_pos hadv, if_pos (show _ ∨ _ from hadv)]
    cases matchReport cfg temp <;> rfl
  · rw [if_neg hadv, if_neg (show ¬ (_ ∨ _) from hadv)]
    split <;> rfl

theorem examineNode_tracker (cfg : Config) (w : World) (s : Scanner) (a : Slot) :
    (examineNode cfg w s a).tracker = eventStep cfg w s.tracker (.report (s.temp a)) := by
  unfold examineNode eventStep
  rw [Event.op]
  split
  · rfl
  · exact examineReport_eq cfg w s.tracker (s.temp a)

/-! ## The texts that the parser returns -/

theorem eirLoop_some {eirLen fuel offset bufLen : Nat} {eirType : UInt8} {eir : List UInt8}
    {text : Str} (h : eirLoop eirLen eirType bufLen fuel eir offset = some text) :
    ∃ eir' n, text = hexOfField eir' n ∧
      (eirType = eirManufactureSpecificData → n = 7 ∨ n = 11) := by
  induction fuel generalizing eir offset with
  | zero => simp [eirLoop] at h
  | succ fuel ih =>
    simp only [eirLoop] at h
    split at h
    · split at h
      · simp at h
      · split at h
        · simp at h
        · split at h
          next hname =>
            split at h
            · simp at h
            · refine ⟨eir, _, (Option.some.inj h).symm, fun hmanufacturer => ?_⟩
              rw [← hname.1, hname.2] at hmanufacturer
              exact absurd hmanufacturer (by decide)
          next =>
            split at h
            · split at h
              · simp at h
              · split at h
                next hlen => exact ⟨eir, _, (Option.some.inj h).symm, fun _ => hlen⟩
                next => simp at h
            · exact ih h
    · simp at h

theorem eirLoop_manufacturer {eirLen fuel offset bufLen : Nat} {eir : List UInt8} {payload : Str}
    (h : eirLoop eirLen eirManufactureSpecificData bufLen fuel eir offset = some payload) :
    ∃ eir' n, payload = hexOfField eir' n ∧ (n = 7 ∨ n = 11) := by
  obtain ⟨eir', n, htext, hn⟩ := eirLoop_some h
  exact ⟨eir', n, htext, hn rfl⟩

theorem hexOfField_length (eir : List UInt8) (n : Nat) :
    (hexOfField eir n).length = 2 * (n + 1) := by
  have hsum : ∀ l : List Nat, (l.flatMap fun i => hexByte (eir.getD i 0)).length = 2 * l.length := by
    intro l
    induction l with
    | nil => rfl
    | cons i l ih =>
      rw [List.flatMap_cons, List.length_append, ih, List.length_cons]
      simp only [hexByte, List.length_cons, List.length_nil]
      omega
  rw [hexOfField, hsum, List.length_range]

theorem isHexDigit_decimalToHex : ∀ n, n < 16 → isHexDigit (decimalToHex n) = true := by decide

theorem isHexDigit_hexByte (b : UInt8) : ∀ c ∈ hexByte b, isHexDigit c = true := by
  have hb := b.toNat_lt
  intro c hc
  simp only [hexByte, List.mem_cons, List.not_mem_nil, or_false] at hc
  rcases hc with rfl | rfl
  · exact isHexDigit_decimalToHex _ (by omega)
  · exact isHexDigit_decimalToHex _ (by omega)

theorem isHexDigit_hexOfField (eir : List UInt8) (n : Nat) :
    ∀ c ∈ hexOfField eir n, isHexDigit c = true := by
  intro c hc
  obtain ⟨i, -, hi⟩ := List.mem_flatMap.mp hc
  exact isHexDigit_hexByte _ c hi

/-! ## Addresses -/

theorem isCompleteMac.full {s : Str} (h : isCompleteMac s = true) : s.length = 17 ∧ NUL ∉ s := by
  simp only [isCompleteMac, Bool.and_eq_true, beq_iff_eq, List.all_eq_true, List.mem_range] at h
  refine ⟨h.1, fun hnul => ?_⟩
  obtain ⟨i, hi, hget⟩ := List.mem_iff_getElem.mp hnul
  have hchar := h.2 i (h.1 ▸ hi)
  rw [List.getD_eq_getElem _ _ hi, hget] at hchar
  split at hchar <;> exact absurd hchar (by decide)

theorem convertStrToMacAddress_cons (c₀ c₁ c₂ c₃ c₄ c₅ c₆ c₇ c₈ c₉ c₁₀ c₁₁ : Char) :
    convertStrToMacAddress [c₀, c₁, c₂, c₃, c₄, c₅, c₆, c₇, c₈, c₉, c₁₀, c₁₁] =
      [c₀, c₁, ':', c₂, c₃, ':', c₄, c₅, ':', c₆, c₇, ':', c₈, c₉, ':', c₁₀, c₁₁] := rfl

theorem convert_complete {payload : Str} (hlen : payload.length = 12)
    (hhex : ∀ c ∈ payload, isHexDigit c = true) :
    isCompleteMac (convertStrToMacAddress payload) = true := by
  match payload, hlen with
  | [c₀, c₁, c₂, c₃, c₄, c₅, c₆, c₇, c₈, c₉, c₁₀, c₁₁], _ =>
    simp only [List.forall_mem_cons] at hhex
    obtain ⟨h0, h1, h2, h3, h4, h5, h6, h7, h8, h9, h10, h11, -⟩ := hhex
    rw [convertStrToMacAddress_cons]
    simp [isCompleteMac, List.range_succ, h0, h1, h2, h3, h4, h5, h6, h7, h8, h9, h10, h11]

theorem convert_incomplete {payload : Str} (hlen : payload.length = 4) :
    isCompleteMac (convertStrToMacAddress payload) = false := by
  match payload, hlen with
  | [c₀, c₁, c₂, c₃], _ =>
    have hnul : NUL ∈ convertStrToMacAddress [c₀, c₁, c₂, c₃] := by
      rw [show convertStrToMacAddress [c₀, c₁, c₂, c₃] = [c₀, c₁, ':', c₂, c₃, ':', NUL, NUL, ':',
        NUL, NUL, ':', NUL, NUL, ':', NUL, NUL] from rfl]
      simp
    rw [Bool.eq_false_iff]
    intro h
    exact (isCompleteMac.full h).2 hnul

end LBeacon
