import LBeacon.Intervals
import LBeacon.Reports

/-!
# Whose sighting it is

Which address an accepted report carries, and which node the lookup then returns.
-/

open CText

namespace LBeacon

/-! ## Where the address comes from -/

/-- The name rule that decides about a report that no MAC rule took. -/
def decidingNameRule (cfg : Config) (temp : TempBleDevice) : Option DeviceNamePrefix :=
  if (matchMacRules temp cfg.macPrefixList).1 then none
  else
    (eirParseSpecificData temp.payload eirNameComplete lengthOfAdvertisement).bind fun name =>
      cfg.deviceNamePrefixList.find? fun rule => startsWith name rule.rulePrefix

theorem matchNameRules_eq (temp : TempBleDevice) (name : Str) (rules : List DeviceNamePrefix) :
    matchNameRules temp name rules =
      (rules.find? fun rule => startsWith name rule.rulePrefix).bind (applyNameRule temp) := by
  induction rules with
  | nil => rfl
  | cons rule rest ih =>
    rw [matchNameRules, List.find?_cons]
    cases startsWith name rule.rulePrefix with
    | true => rfl
    | false => exact ih

theorem matchReport_eq (cfg : Config) (temp : TempBleDevice) :
    matchReport cfg temp =
      if (matchMacRules temp cfg.macPrefixList).1 then (matchMacRules temp cfg.macPrefixList).2
      else (decidingNameRule cfg temp).bind (applyNameRule temp) := by
  rw [matchReport, decidingNameRule]
  rcases matchMacRules temp cfg.macPrefixList with ⟨_ | _, call⟩
  · simp only [Bool.false_eq_true, if_false]
    cases eirParseSpecificData temp.payload eirNameComplete lengthOfAdvertisement with
    | none => rfl
    | some name => exact matchNameRules_eq temp name cfg.deviceNamePrefixList
  · rfl

theorem applyMacRule_address {temp : TempBleDevice} {rule : PrefixRule} {args : PushArgs}
    (h : (applyMacRule temp rule).2 = some args) :
    args.macAddress = temp.scannedMacAddress.text := by
  simp only [applyMacRule] at h
  split at h
  · rw [← Option.some.inj h]; rfl
  · split at h
    · simp at h
    · split at h
      · split at h
        · rw [← Option.some.inj h]; rfl
        · simp at h
      · simp at h

theorem matchMacRules_address {temp : TempBleDevice} {rules : List PrefixRule} {args : PushArgs}
    (h : (matchMacRules temp rules).2 = some args) :
    args.macAddress = temp.scannedMacAddress.text := by
  induction rules with
  | nil => simp [matchMacRules] at h
  | cons rule rest ih =>
    rw [matchMacRules] at h
    split at h
    · exact applyMacRule_address h
    · exact ih h

def isTag05C7 (rule : DeviceNamePrefix) : Bool :=
  startsWith rule.identifier bidaetechTagIdentifier05C7

theorem not_noParse_of_isTag05C7 {rule : DeviceNamePrefix} (h : isTag05C7 rule = true) :
    strncmp blePayloadIdentifierNoParse rule.identifier (strlen blePayloadIdentifierNoParse) ≠ 0 := by
  simp only [isTag05C7, startsWith, decide_eq_true_eq] at h
  have h4 : strlen bidaetechTagIdentifier05C7 = strlen blePayloadIdentifierNoParse := by decide
  rw [h4, strncmp_eq_zero] at h
  rw [Ne, strncmp_eq_zero, h]
  decide

theorem applyNameRule_address {temp : TempBleDevice} {rule : DeviceNamePrefix} {args : PushArgs}
    (h : applyNameRule temp rule = some args) :
    (isTag05C7 rule = false ∧ args.macAddress = temp.scannedMacAddress.text) ∨
    (isTag05C7 rule = true ∧ ∃ payload,
      eirParseSpecificData temp.payload eirManufactureSpecificData lengthOfAdvertisement =
        some payload ∧
      args.macAddress =
        convertStrToMacAddress (payload.drop blePayloadFormat05C7IndexOfMacAddress)) := by
  simp only [applyNameRule] at h
  split at h
  next hno =>
    refine Or.inl ⟨?_, by rw [← Option.some.inj h]; rfl⟩
    rw [Bool.eq_false_iff]
    exact fun htag => not_noParse_of_isTag05C7 htag hno
  next =>
    split at h
    · simp at h
    next payload hparse =>
      split at h
      · split at h
        next htag => exact Or.inr ⟨htag, payload, hparse, by rw [← Option.some.inj h]; rfl⟩
        next htag =>
          split at h
          · exact Or.inl ⟨Bool.eq_false_iff.mpr htag, by rw [← Option.some.inj h]; rfl⟩
          · simp at h
      · simp at h

/-- A `05C7` rule decides about the report, and the manufacturer field has length 7: the text
ends after four of the twelve digits of the address. -/
def ShortTag (cfg : Config) (temp : TempBleDevice) : Prop :=
  ∃ rule payload, decidingNameRule cfg temp = some rule ∧ isTag05C7 rule = true ∧
    eirParseSpecificData temp.payload eirManufactureSpecificData lengthOfAdvertisement =
      some payload ∧
    payload.length = 2 * (blePayloadFormat05C60xffFieldLen.toNat + 1)

theorem drop_index_length {payload : Str} (n : Nat) (h : payload.length = 2 * (n + 1)) :
    (payload.drop blePayloadFormat05C7IndexOfMacAddress).length = 2 * (n + 1) - 12 := by
  rw [List.length_drop, h]
  rfl

theorem address_of_short {cfg : Config} {temp : TempBleDevice} {args : PushArgs}
    (h : matchReport cfg temp = some args) (hshort : ShortTag cfg temp) :
    isCompleteMac args.macAddress = false := by
  obtain ⟨rule, payload, hrule, htag, hparse, hlen⟩ := hshort
  have hmac : (matchMacRules temp cfg.macPrefixList).1 = false := by
    rw [decidingNameRule] at hrule
    split at hrule
    · simp at hrule
    next hmac => exact Bool.eq_false_iff.mpr hmac
  rw [matchReport_eq, hmac, hrule] at h
  rcases applyNameRule_address h with ⟨hno, -⟩ | ⟨-, payload', hparse', haddr⟩
  · rw [htag] at hno
    simp at hno
  · rw [hparse] at hparse'
    rw [haddr, ← Option.some.inj hparse']
    exact convert_incomplete (drop_index_length 7 hlen)

theorem address_of_not_short {cfg : Config} {temp : TempBleDevice} {args : PushArgs}
    (h : matchReport cfg temp = some args) (hshort : ¬ ShortTag cfg temp) :
    isCompleteMac args.macAddress = true := by
  rw [matchReport_eq] at h
  split at h
  · rw [matchMacRules_address h]
    exact temp.scannedMacAddress.complete
  next hmac =>
    obtain ⟨rule, hrule, happly⟩ := Option.bind_eq_some_iff.mp h
    rcases applyNameRule_address happly with ⟨-, haddr⟩ | ⟨htag, payload, hparse, haddr⟩
    · rw [haddr]
      exact temp.scannedMacAddress.complete
    · obtain ⟨eir, n, rfl, rfl | rfl⟩ := eirLoop_manufacturer hparse
      · exact absurd ⟨rule, _, hrule, htag, hparse, hexOfField_length eir 7⟩ hshort
      · rw [haddr]
        refine convert_complete (drop_index_length 11 (hexOfField_length eir 11)) ?_
        intro c hc
        exact isHexDigit_hexOfField eir 11 c (List.mem_of_mem_drop hc)

theorem address_fits {cfg : Config} {temp : TempBleDevice} {args : PushArgs}
    (h : matchReport cfg temp = some args) : FitsMac args.macAddress := by
  have hlen : args.macAddress.length = 17 := by
    rw [matchReport_eq] at h
    split at h
    · rw [matchMacRules_address h]
      exact (isCompleteMac.full temp.scannedMacAddress.complete).1
    · obtain ⟨rule, -, happly⟩ := Option.bind_eq_some_iff.mp h
      rcases applyNameRule_address happly with ⟨-, haddr⟩ | ⟨-, payload, -, haddr⟩
      · rw [haddr]
        exact (isCompleteMac.full temp.scannedMacAddress.complete).1
      · rw [haddr]
        rfl
  have := cstr_length_le args.macAddress
  rw [FitsMac, strlen]
  exact Nat.lt_of_le_of_lt (this.trans_eq hlen) (by decide)

/-! ## Reachable lists -/

/-- The address in every linked node is a string that fits. -/
def AddressesFit (s : Tracker) : Prop :=
  ∀ a, s.Linked a → FitsMac (s.dev a).scannedMacAddress

def Op.AddressFits : Op → Prop
  | .push _ args => FitsMac args.macAddress
  | _ => True

theorem newDevice_fits {now : Int32} {args : PushArgs} (h : FitsMac args.macAddress) :
    FitsMac (newDevice now args).scannedMacAddress := by
  have htake : strncpy args.macAddress lengthOfMacAddress = cstr args.macAddress := by
    rw [strncpy, List.take_of_length_le]
    exact Nat.le_of_lt h
  rw [FitsMac, strlen, newDevice]
  simp only [htake, cstr_cstr]
  exact h

theorem addressesFit_step {cfg : Config} {w : World} {s : Tracker} (hs : Placed s)
    (h : AddressesFit s) {op : Op} (hop : op.AddressFits) : AddressesFit (step cfg w s op) := by
  intro a ha
  rcases (step_spec hs cfg w op).dev hs ha with ⟨hl, hw⟩ | ⟨deviceType, args, now, rfl, heq⟩
  · have hfit := h a hl
    cases hw with
    | same heq => rw [heq]; exact hfit
    | sighted deviceType args now _ _ heq => rw [heq]; exact hfit
    | responded macAddress payload _ _ _ heq => rw [heq]; exact hfit
  · rw [heq]
    exact newDevice_fits hop

theorem addressesFit_run {cfg : Config} {w : World} {ops : List Op}
    (hops : ∀ op ∈ ops, op.AddressFits) : AddressesFit (run cfg w ops) := by
  apply run_invariant
  · intro a ha
    simp [Tracker.init, Tracker.Linked] at ha
  · intro pre op hpre hs h
    exact addressesFit_step hs h (hops op (Machine.mem_of_step hpre))

theorem event_addressFits {cfg : Config} {e : Event} {op : Op} (h : e.op cfg = some op) :
    op.AddressFits := by
  cases e with
  | report temp =>
    simp only [Event.op, reportOp] at h
    split at h
    · simp at h
    · split at h
      · obtain ⟨args, hargs, rfl⟩ := Option.map_eq_some_iff.mp h
        exact address_fits hargs
      · split at h
        · rw [← Option.some.inj h]; trivial
        · simp at h
  | inquiry address rssi =>
    simp only [Event.op] at h
    split at h
    · rw [← Option.some.inj h]
      have hfull := isCompleteMac.full address.complete
      exact FullMac.fits ⟨hfull.1, hfull.2⟩
    · simp at h
  | poll => rw [← Option.some.inj h]; trivial
  | cleanup list => rw [← Option.some.inj h]; trivial

theorem addressesFit_eventRun (cfg : Config) (w : World) (events : List Event) :
    AddressesFit (eventRun cfg w events) := by
  refine addressesFit_run fun op hop => ?_
  obtain ⟨e, -, he⟩ := List.mem_filterMap.mp hop
  exact event_addressFits he

theorem placed_eventRun (cfg : Config) (w : World) (events : List Event) :
    Placed (eventRun cfg w events) := placed_run cfg w _

/-! ## Identity -/

/-- The report is strong enough, is an advertisement, and some rule hands it on. -/
structure Accepted (cfg : Config) (temp : TempBleDevice) (args : PushArgs) : Prop where
  strong : temp.isWeak cfg = false
  advertising : temp.isAdvertising
  matched : matchReport cfg temp = some args

/-- The address is complete, the lookup finds exactly the node that has it, and the report
leaves every other node as it was. -/
structure Identity (cfg : Config) (w : World) (s : Tracker) (temp : TempBleDevice)
    (args : PushArgs) : Prop where
  complete : isCompleteMac args.macAddress = true
  found : ∀ a, (checkIsInList w s args.macAddress .ble).1 = some a →
    a ∈ s.bleObjectList ∧ s.mac a = args.macAddress
  finds : ∀ a ∈ s.bleObjectList, s.mac a = args.macAddress →
    ∃ b, (checkIsInList w s args.macAddress .ble).1 = some b
  frame : ∀ a, s.Linked a → s.mac a ≠ args.macAddress →
    (eventStep cfg w s (.report temp)).dev a = s.dev a

theorem eventStep_accepted {cfg : Config} {temp : TempBleDevice} {args : PushArgs}
    (h : Accepted cfg temp args) (w : World) (s : Tracker) :
    eventStep cfg w s (.report temp) = sendToPushDongle w s .ble args := by
  rw [eventStep, Event.op, h.strong]
  simp only [Bool.false_eq_true, if_false, reportOp, if_pos h.advertising, h.matched]
  rfl

theorem push_frame {w : World} {s : Tracker} (hs : Placed s) {args : PushArgs} {a : Slot}
    (ha : s.Linked a) (hmac : hasMac args.macAddress (s.dev a) = false) :
    (sendToPushDongle w s .ble args).dev a = s.dev a := by
  rcases push_ble_cases w s args with ⟨b, -, hb, heq⟩ | ⟨-, heq⟩
  · have hab : a ≠ b := by
      rintro rfl
      rw [hmac] at hb
      exact Bool.false_ne_true hb
    rw [heq]
    exact if_neg hab
  · rw [heq]
    rcases pushNew_cases w .ble args s with ⟨q, -, -, heq'⟩ | ⟨b, q, hb, -, -, heq'⟩
    · rw [heq']
    · have hab : a ≠ b := by
        rintro rfl
        exact hb (hs.allocated a ha)
      rw [heq', added_dev]
      exact if_neg hab

theorem identity_of_complete {cfg : Config} {w : World} {s : Tracker} {temp : TempBleDevice}
    {args : PushArgs} (hs : Placed s) (hfit : AddressesFit s) (hacc : Accepted cfg temp args)
    (hcomplete : isCompleteMac args.macAddress = true) : Identity cfg w s temp args := by
  have hfull : FullMac args.macAddress := isCompleteMac.full hcomplete
  have hiff : ∀ a, s.Linked a → (hasMac args.macAddress (s.dev a) = true ↔
      s.mac a = args.macAddress) := by
    intro a ha
    rw [hasMac_iff (hfit a ha), hfull.cstr_eq]
    exact eq_comm
  refine ⟨hcomplete, ?_, ?_, ?_⟩
  · intro a ha
    rcases check_ble_cases w s args.macAddress with ⟨b, hb, hmac, heq⟩ | ⟨-, heq⟩
    · rw [heq] at ha
      rw [← Option.some.inj ha]
      exact ⟨hb, (hiff b (Or.inr (Or.inr hb))).mp hmac⟩
    · rw [heq] at ha
      simp at ha
  · intro a ha hmac
    rcases check_ble_cases w s args.macAddress with ⟨b, -, -, heq⟩ | ⟨hnone, -⟩
    · exact ⟨b, by rw [heq]⟩
    · rw [← hiff a (Or.inr (Or.inr ha)), hnone a ha] at hmac
      exact absurd hmac Bool.false_ne_true
  · intro a ha hne
    rw [eventStep_accepted hacc]
    refine push_frame hs ha ?_
    rw [Bool.eq_false_iff]
    exact fun hmac => hne ((hiff a ha).mp hmac)

/-- The sighting is the device's own unless a `05C7` rule took a report with a short
manufacturer field. -/
theorem sighting_identity_iff (cfg : Config) (w : World) (events : List Event)
    (temp : TempBleDevice) (args : PushArgs) (hacc : Accepted cfg temp args) :
    Identity cfg w (eventRun cfg w events) temp args ↔ ¬ ShortTag cfg temp := by
  constructor
  · intro h hshort
    have hcomplete := h.complete
    rw [address_of_short hacc.matched hshort] at hcomplete
    exact absurd hcomplete Bool.false_ne_true
  · intro hshort
    exact identity_of_complete (placed_eventRun cfg w events) (addressesFit_eventRun cfg w events)
      hacc (address_of_not_short hacc.matched hshort)

/-! ## A tag with a short field -/

/-- Names of one letter are taken for `05C7` tags. -/
def tagConfig : Config :=
  ⟨[], [], -100, [], [⟨"0209".toList, bidaetechTagIdentifier05C7, false, false⟩]⟩

def tagWorld : World := ⟨fun _ => 0, some, some⟩

def namedTag (manufacturerField : List UInt8) : TempBleDevice :=
  ⟨⟨"AA:BB:CC:DD:EE:FF".toList, by decide⟩, eventTypeAdvInd,
    [2, eirNameComplete, 0x41] ++ manufacturerField, -60⟩

/-- A complete name, then a manufacturer field of length 7 that carries `05C7`. -/
def shortTagReport : TempBleDevice := namedTag [7, 0xFF, 0, 0, 0x05, 0xC7, 0x12, 0x34]

def shortTagArgs : PushArgs :=
  shortTagReport.pushArgs (convertStrToMacAddress "1234".toList) 0 0 false false

/-- The address that is handed on is `12:34:`, whatever digits the tag has after these. -/
theorem short_tag_cut_off : Accepted tagConfig shortTagReport shortTagArgs ∧
    cstr shortTagArgs.macAddress = "12:34:".toList ∧
    ¬ Identity tagConfig tagWorld (eventRun tagConfig tagWorld []) shortTagReport shortTagArgs := by
  refine ⟨⟨by decide, by decide, by decide +kernel⟩, by decide, ?_⟩
  intro h
  exact absurd h.complete (by decide)

def fullTagReport : TempBleDevice :=
  namedTag [11, 0xFF, 0, 0, 0x05, 0xC7, 0x12, 0x34, 0x56, 0x78, 0x9A, 0xBC]

def fullTagArgs : PushArgs :=
  fullTagReport.pushArgs (convertStrToMacAddress "123456789ABC".toList) 0 0 false false

theorem full_tag_identity_iff :
    Identity tagConfig tagWorld (eventRun tagConfig tagWorld [.report shortTagReport]) fullTagReport
      fullTagArgs ↔ ¬ ShortTag tagConfig fullTagReport :=
  sighting_identity_iff tagConfig tagWorld [.report shortTagReport] fullTagReport fullTagArgs
    ⟨by decide, by decide, by decide +kernel⟩

end LBeacon
