import LBeacon.AdStructures
import LBeacon.Identity
import LBeacon.Lib.FirstMatch

/-!
# Which rule decides

One round of `examine_scanned_ble_device` with the locals that outlive it: the scratch buffer, the
match flag and the values for `send_to_push_dongle`. Then what the rules say of a report.
-/

open CText FirstMatch

namespace LBeacon

/-! ## The source -/

/-- `calls` has the calls of `send_to_push_dongle` so far. -/
structure MatchLocals where
  isButtonPressed : Int
  batteryVoltage : Int
  payload : Str
  isMatched : Bool
  isPayloadNeeded : Bool
  isScanRspNeeded : Bool
  virtualMacAddress : Str
  calls : List PushArgs

namespace MatchLocals

/-- The call for a BLE device, with the signal strength and the payload of the report. -/
def sendToPushDongle (x : MatchLocals) (temp : TempBleDevice) (macAddress : Str)
    (isPayloadNeeded isScanRspNeeded : Bool) : MatchLocals :=
  { x with
    calls := x.calls ++ [temp.pushArgs macAddress x.isButtonPressed x.batteryVoltage
      isPayloadNeeded isScanRspNeeded] }

/-- `memset(payload, 0, ..)` and `eir_parse_specific_data`. A call that fails leaves something in
the buffer. -/
def parse (leaves : MatchLocals → Str) (temp : TempBleDevice) (eirType : UInt8) (x : MatchLocals) :
    Bool × MatchLocals :=
  let x := { x with payload := [] }
  match eirParseSpecificData temp.payload eirType lengthOfAdvertisement with
  | some text => (true, { x with payload := text })
  | none => (false, { x with payload := leaves x })

/-- The body for a MAC rule whose prefix matched. -/
def applyMacRule (leaves : MatchLocals → Str) (temp : TempBleDevice) (rule : PrefixRule)
    (x : MatchLocals) : MatchLocals :=
  let address := temp.scannedMacAddress.text
  if strncmp blePayloadIdentifierNoParse rule.identifier (strlen blePayloadIdentifierNoParse) = 0
  then
    let x := { x with isMatched := true, isPayloadNeeded := false, isScanRspNeeded := false }
    x.sendToPushDongle temp address x.isPayloadNeeded x.isScanRspNeeded
  else
    match x.parse leaves temp eirManufactureSpecificData with
    | (true, x) =>
      if carriesIdentifier x.payload rule.identifier then
        let x := { x with isMatched := true }
        if startsWith rule.identifier bidaetechTagIdentifier05C6 then
          let x := { x with
            isButtonPressed := hexToDecimal (x.payload.getD blePayloadFormat05C6IndexOfPanic NUL)
            batteryVoltage :=
              hexToDecimal (x.payload.getD blePayloadFormat05C6IndexOfVoltage NUL) * 16 +
                hexToDecimal (x.payload.getD (blePayloadFormat05C6IndexOfVoltage + 1) NUL)
            isPayloadNeeded := false
            isScanRspNeeded := false }
          x.sendToPushDongle temp address x.isPayloadNeeded x.isScanRspNeeded
        else x
      else x
    | (false, x) => x

/-- Every way through the body ends with a `break`. -/
def macLoop (leaves : MatchLocals → Str) (temp : TempBleDevice) :
    List PrefixRule → MatchLocals → MatchLocals
  | [], x => x
  | rule :: rest, x =>
    if startsWith temp.scannedMacAddress.text rule.rulePrefix then x.applyMacRule leaves temp rule
    else macLoop leaves temp rest x

/-- The body for a name rule whose prefix matched. -/
def applyNameRule (leaves : MatchLocals → Str) (temp : TempBleDevice) (rule : DeviceNamePrefix)
    (x : MatchLocals) : MatchLocals :=
  let address := temp.scannedMacAddress.text
  if strncmp blePayloadIdentifierNoParse rule.identifier (strlen blePayloadIdentifierNoParse) = 0
  then
    let x := { x with isMatched := true }
    x.sendToPushDongle temp address rule.isPayloadNeeded rule.isScanRspNeeded
  else
    match x.parse leaves temp eirManufactureSpecificData with
    | (true, x) =>
      if carriesIdentifier x.payload rule.identifier then
        if startsWith rule.identifier bidaetechTagIdentifier05C7 then
          let x := { x with
            isMatched := true
            virtualMacAddress :=
              convertStrToMacAddress (x.payload.drop blePayloadFormat05C7IndexOfMacAddress) }
          x.sendToPushDongle temp x.virtualMacAddress rule.isPayloadNeeded rule.isScanRspNeeded
        else if startsWith rule.identifier bidaetechTagIdentifier4153 then
          let x := { x with
            isMatched := true
            isButtonPressed := hexToDecimal (x.payload.getD blePayloadFormat4153IndexOfPanic NUL) }
          x.sendToPushDongle temp address rule.isPayloadNeeded rule.isScanRspNeeded
        else x
      else x
    | (false, x) => x

def nameLoop (leaves : MatchLocals → Str) (temp : TempBleDevice) :
    List DeviceNamePrefix → MatchLocals → MatchLocals
  | [], x => x
  | rule :: rest, x =>
    if startsWith x.payload rule.rulePrefix then x.applyNameRule leaves temp rule
    else nameLoop leaves temp rest x

/-- The part for `is_matched == false`. -/
def matchName (cfg : Config) (leaves : MatchLocals → Str) (temp : TempBleDevice)
    (x : MatchLocals) : MatchLocals :=
  match x.parse leaves temp eirNameComplete with
  | (true, x) => x.nameLoop leaves temp cfg.deviceNamePrefixList
  | (false, x) => x

/-- One round of the loop over the reports. A scan response goes to another function. -/
def examine (cfg : Config) (leaves : MatchLocals → Str) (temp : TempBleDevice) (x : MatchLocals) :
    MatchLocals :=
  if temp.isWeak cfg then x
  else if temp.isAdvertising then
    let x := { x with isButtonPressed := 0, batteryVoltage := 0, isMatched := false }
    let x := x.macLoop leaves temp cfg.macPrefixList
    if x.isMatched = false then x.matchName cfg leaves temp else x
  else x

/-! ## The calls of a round -/

/-- Nothing was decoded yet. -/
structure Idle (x : MatchLocals) : Prop where
  button : x.isButtonPressed = 0
  battery : x.batteryVoltage = 0

variable {leaves : MatchLocals → Str} {temp : TempBleDevice} {x : MatchLocals}

theorem calls_sendToPushDongle (x : MatchLocals) (temp : TempBleDevice) (macAddress : Str)
    (isPayloadNeeded isScanRspNeeded : Bool) :
    (x.sendToPushDongle temp macAddress isPayloadNeeded isScanRspNeeded).calls =
      x.calls ++ [temp.pushArgs macAddress x.isButtonPressed x.batteryVoltage isPayloadNeeded
        isScanRspNeeded] := rfl

theorem applyMacRule_spec (hx : x.Idle) (hmatched : x.isMatched = false) (rule : PrefixRule) :
    let r := LBeacon.applyMacRule temp rule
    let x' := x.applyMacRule leaves temp rule
    x'.isMatched = r.1 ∧ (r.1 = true → x'.calls = x.calls ++ r.2.toList) ∧
      (r.1 = false → x'.Idle ∧ x'.calls = x.calls) := by
  obtain ⟨hbutton, hbattery⟩ := hx
  intro r x'
  unfold r x' applyMacRule LBeacon.applyMacRule parse
  dsimp only
  split
  · simp [MatchLocals.sendToPushDongle, hbutton, hbattery]
  cases eirParseSpecificData temp.payload eirManufactureSpecificData lengthOfAdvertisement with
  | none => exact ⟨hmatched, fun h => Bool.noConfusion h, fun _ => ⟨⟨hbutton, hbattery⟩, rfl⟩⟩
  | some text =>
    dsimp only
    split
    · split
      · exact ⟨rfl, fun _ => rfl, fun h => Bool.noConfusion h⟩
      · exact ⟨rfl, fun _ => by simp, fun h => Bool.noConfusion h⟩
    · exact ⟨hmatched, fun h => Bool.noConfusion h, fun _ => ⟨⟨hbutton, hbattery⟩, rfl⟩⟩

theorem macLoop_spec (leaves : MatchLocals → Str) (temp : TempBleDevice) (hx : x.Idle)
    (hmatched : x.isMatched = false) (rules : List PrefixRule) :
    let r := matchMacRules temp rules
    let x' := x.macLoop leaves temp rules
    x'.isMatched = r.1 ∧ (r.1 = true → x'.calls = x.calls ++ r.2.toList) ∧
      (r.1 = false → x'.Idle ∧ x'.calls = x.calls) := by
  induction rules with
  | nil => exact ⟨hmatched, fun h => Bool.noConfusion h, fun _ => ⟨hx, rfl⟩⟩
  | cons rule rest ih =>
    unfold macLoop matchMacRules
    split
    · exact applyMacRule_spec hx hmatched rule
    · exact ih

theorem calls_applyNameRule (hx : x.Idle) (rule : DeviceNamePrefix) :
    (x.applyNameRule leaves temp rule).calls =
      x.calls ++ (LBeacon.applyNameRule temp rule).toList := by
  obtain ⟨hbutton, hbattery⟩ := hx
  unfold applyNameRule LBeacon.applyNameRule parse
  dsimp only
  split
  · simp [calls_sendToPushDongle, hbutton, hbattery]
  cases eirParseSpecificData temp.payload eirManufactureSpecificData lengthOfAdvertisement with
  | none => simp
  | some text =>
    dsimp only
    split
    · split
      · simp [calls_sendToPushDongle, hbutton, hbattery]
      · split
        · simp [calls_sendToPushDongle, hbattery]
        · simp
    · simp

theorem calls_nameLoop (hx : x.Idle) (rules : List DeviceNamePrefix) :
    (x.nameLoop leaves temp rules).calls =
      x.calls ++ (matchNameRules temp x.payload rules).toList := by
  induction rules with
  | nil => simp [nameLoop, matchNameRules]
  | cons rule rest ih =>
    unfold nameLoop matchNameRules
    split
    · exact calls_applyNameRule hx rule
    · exact ih

theorem calls_matchName (hx : x.Idle) (cfg : Config) :
    (x.matchName cfg leaves temp).calls = x.calls ++
      ((eirParseSpecificData temp.payload eirNameComplete lengthOfAdvertisement).bind fun name =>
        matchNameRules temp name cfg.deviceNamePrefixList).toList := by
  unfold matchName parse
  cases eirParseSpecificData temp.payload eirNameComplete lengthOfAdvertisement with
  | none => simp
  | some name =>
    exact calls_nameLoop (x := { x with payload := name }) ⟨hx.button, hx.battery⟩ _

theorem calls_examine (cfg : Config) (leaves : MatchLocals → Str) {temp : TempBleDevice}
    (hadv : temp.isAdvertising) (hstrong : temp.isWeak cfg = false) (x : MatchLocals) :
    (x.examine cfg leaves temp).calls = x.calls ++ (matchReport cfg temp).toList := by
  obtain ⟨hmatched, htaken, hleft⟩ := macLoop_spec leaves temp
    (x := { x with isButtonPressed := 0, batteryVoltage := 0, isMatched := false })
    ⟨rfl, rfl⟩ rfl cfg.macPrefixList
  unfold examine matchReport
  rw [hstrong, if_neg Bool.false_ne_true, if_pos hadv]
  dsimp only at hmatched htaken hleft ⊢
  rw [hmatched]
  generalize matchMacRules temp cfg.macPrefixList = r at *
  rcases r with ⟨_ | _, call⟩
  · obtain ⟨hidle, hcalls⟩ := hleft rfl
    rw [if_pos rfl, calls_matchName hidle, hcalls]
    cases eirParseSpecificData temp.payload eirNameComplete lengthOfAdvertisement <;> rfl
  · rw [if_neg (by simp)]
    exact htaken rfl

end MatchLocals

/-! ## Fields of a report -/

/-- The bytes, length byte first, whose hex text `eir_parse_specific_data` returns. -/
def FieldIs (temp : TempBleDevice) (eirType : UInt8) (field : List UInt8) : Prop :=
  eirParseSpecificData temp.payload eirType lengthOfAdvertisement =
    some (getPrintableBlePayload field)

/-- The manufacturer field has the identifier behind its fourth byte. -/
def CarriesTag (temp : TempBleDevice) (identifier : Str) (field : List UInt8) : Prop :=
  FieldIs temp eirManufactureSpecificData field ∧
    cstr identifier <+: getPrintableBlePayload (field.drop 4)

theorem fieldIs_iff_finds {temp : TempBleDevice} {eirType : UInt8}
    (htype : eirType = eirNameComplete ∨ eirType = eirManufactureSpecificData)
    (hlen : temp.payload.length ≤ 32) (hends : ¬ EndsShort eirType (Eir.ofPayload temp.payload).bytes)
    (field : List UInt8) :
    FieldIs temp eirType field ↔ ∃ s : LengthPrefixed.Record,
      Finds eirType (Eir.ofPayload temp.payload).bytes s ∧
        getPrintableBlePayload field = getPrintableBlePayload s.bytes := by
  have hbuf : 2 * min (Eir.ofPayload temp.payload).eirLen 256 + 1 ≤ lengthOfAdvertisement := by
    have heq : (Eir.ofPayload temp.payload).eirLen = temp.payload.length := rfl
    rw [heq, lengthOfAdvertisement]
    omega
  have hmatch := (Eir.parses_iff (Eir.ofPayload temp.payload) eirType lengthOfAdvertisement htype
    hbuf).mpr hends
  obtain ⟨result, hresult⟩ := hmatch.ends
  unfold FieldIs
  rw [← Eir.parseSpecificData_text, hresult]
  have hparses := (hmatch.answer result).mp hresult
  cases result with
  | workSuccessfully buf =>
    have hiff : some buf = some (getPrintableBlePayload field) ↔
        EirResult.workSuccessfully buf = .workSuccessfully (getPrintableBlePayload field) := by simp
    have hgoal := hmatch.answer (.workSuccessfully (getPrintableBlePayload field))
    rw [hresult, Option.some.injEq, ← hiff] at hgoal
    exact hgoal
  | eParseUuid =>
    constructor
    · intro h
      simp [EirResult.text?] at h
    · rintro ⟨s, hfinds, -⟩
      exact absurd hfinds (hparses s)

/-! ## What the rules say -/

def TempBleDevice.address (temp : TempBleDevice) : Str := temp.scannedMacAddress.text

/-- The prefix of the rule starts the address. -/
def MacPrefix (temp : TempBleDevice) (rule : PrefixRule) : Prop :=
  cstr rule.rulePrefix <+: temp.address

/-- The prefix of the rule starts the hex text of the complete name. -/
def NamePrefix (temp : TempBleDevice) (rule : DeviceNamePrefix) : Prop :=
  ∃ field, FieldIs temp eirNameComplete field ∧
    cstr rule.rulePrefix <+: getPrintableBlePayload field

def DecidingMac (cfg : Config) (temp : TempBleDevice) : PrefixRule → Prop :=
  FirstOf (MacPrefix temp) cfg.macPrefixList

def DecidingName (cfg : Config) (temp : TempBleDevice) : DeviceNamePrefix → Prop :=
  FirstOf (NamePrefix temp) cfg.deviceNamePrefixList

/-- Four characters are compared with the identifier of a rule. -/
def IsTag (identifier tag : Str) : Prop := tag <+: cstr identifier

/-- The MAC rule that decides, if any, says neither that the report is not parsed nor whose tag
it is. -/
def NoMacMatch (cfg : Config) (temp : TempBleDevice) : Prop :=
  ∀ rule, DecidingMac cfg temp rule → ¬ IsTag rule.identifier blePayloadIdentifierNoParse ∧
    ∀ field, ¬ CarriesTag temp rule.identifier field

/-- The low nibble of byte 6. -/
def panicOf (field : List UInt8) : Int := (field.getD 6 0).toNat % 16

/-- Byte 7. -/
def voltageOf (field : List UInt8) : Int := (field.getD 7 0).toNat

/-- The address in the text from byte 6 on. -/
def embeddedAddress (field : List UInt8) : Str :=
  convertStrToMacAddress (getPrintableBlePayload (field.drop 6))

/-- What the configuration says of a report, case by case. -/
structure RuleMatching (cfg : Config) (temp : TempBleDevice) (call : Option PushArgs) : Prop where
  macNoParse : ∀ rule, DecidingMac cfg temp rule →
    IsTag rule.identifier blePayloadIdentifierNoParse →
    call = some (temp.pushArgs temp.address 0 0 false false)
  mac05C6 : ∀ rule field, DecidingMac cfg temp rule →
    IsTag rule.identifier bidaetechTagIdentifier05C6 → CarriesTag temp rule.identifier field →
    call = some (temp.pushArgs temp.address (panicOf field) (voltageOf field) false false)
  macOther : ∀ rule field, DecidingMac cfg temp rule →
    ¬ IsTag rule.identifier blePayloadIdentifierNoParse →
    ¬ IsTag rule.identifier bidaetechTagIdentifier05C6 → CarriesTag temp rule.identifier field →
    call = none
  nameNoParse : NoMacMatch cfg temp → ∀ rule, DecidingName cfg temp rule →
    IsTag rule.identifier blePayloadIdentifierNoParse →
    call = some (temp.pushArgs temp.address 0 0 rule.isPayloadNeeded rule.isScanRspNeeded)
  name05C7 : NoMacMatch cfg temp → ∀ rule field, DecidingName cfg temp rule →
    IsTag rule.identifier bidaetechTagIdentifier05C7 → CarriesTag temp rule.identifier field →
    call = some (temp.pushArgs (embeddedAddress field) 0 0 rule.isPayloadNeeded
      rule.isScanRspNeeded)
  name4153 : NoMacMatch cfg temp → ∀ rule field, DecidingName cfg temp rule →
    IsTag rule.identifier bidaetechTagIdentifier4153 → CarriesTag temp rule.identifier field →
    call = some (temp.pushArgs temp.address (panicOf field) 0 rule.isPayloadNeeded
      rule.isScanRspNeeded)
  nameOther : NoMacMatch cfg temp → ∀ rule, DecidingName cfg temp rule →
    ¬ IsTag rule.identifier blePayloadIdentifierNoParse →
    ((∀ field, ¬ CarriesTag temp rule.identifier field) ∨
      ¬ IsTag rule.identifier bidaetechTagIdentifier05C7 ∧
        ¬ IsTag rule.identifier bidaetechTagIdentifier4153) → call = none
  noRule : NoMacMatch cfg temp → (∀ rule, ¬ DecidingName cfg temp rule) → call = none

section Rules

variable {cfg : Config} {temp : TempBleDevice}

theorem startsWith_iff (text pattern : Str) :
    startsWith text pattern = true ↔ cstr pattern <+: cstr text := by
  rw [startsWith, decide_eq_true_eq, strncmp_strlen_eq_zero]

theorem nul_notMem_address (temp : TempBleDevice) : NUL ∉ temp.address :=
  (isCompleteMac.full temp.scannedMacAddress.complete).2

theorem cstr_printable (field : List UInt8) :
    cstr (getPrintableBlePayload field) = getPrintableBlePayload field :=
  cstr_eq_self (notMem_printable (by decide) field)

theorem macPrefix_iff (rule : PrefixRule) :
    startsWith temp.scannedMacAddress.text rule.rulePrefix = true ↔ MacPrefix temp rule := by
  rw [startsWith_iff]
  have hself := cstr_eq_self (nul_notMem_address temp)
  unfold TempBleDevice.address at hself
  unfold MacPrefix TempBleDevice.address
  rw [hself]

theorem noParse_iff (identifier : Str) :
    strncmp blePayloadIdentifierNoParse identifier (strlen blePayloadIdentifierNoParse) = 0 ↔
      IsTag identifier blePayloadIdentifierNoParse := by
  have hself : cstr blePayloadIdentifierNoParse = blePayloadIdentifierNoParse := by decide
  rw [strncmp_eq_zero, eq_comm, ← strncmp_eq_zero, strncmp_strlen_eq_zero, hself]
  rfl

theorem isTag_iff {tag : Str} (htag : cstr tag = tag) (identifier : Str) :
    startsWith identifier tag = true ↔ IsTag identifier tag := by
  rw [startsWith_iff, htag]
  rfl

theorem printable_drop (field : List UInt8) (n : Nat) :
    (getPrintableBlePayload field).drop (2 * n) = getPrintableBlePayload (field.drop n) := by
  induction n generalizing field with
  | zero => rfl
  | succ n ih =>
    cases field with
    | nil => simp [getPrintableBlePayload]
    | cons b field =>
      rw [List.drop_succ_cons, ← ih]
      rfl

theorem carries_iff {field : List UInt8} (hfield : FieldIs temp eirManufactureSpecificData field)
    (identifier : Str) :
    carriesIdentifier (getPrintableBlePayload field) identifier = true ↔
      CarriesTag temp identifier field := by
  have hdrop := printable_drop field 4
  unfold carriesIdentifier blePayloadFormatIndexOfIdentifer CarriesTag
  rw [hdrop, startsWith_iff, cstr_printable, and_iff_right hfield]

theorem hexToDecimal_decimalToHex : ∀ n, n < 16 → hexToDecimal (decimalToHex n) = n := by decide

theorem printable_getD (field : List UInt8) {i : Nat} (hi : i < field.length) :
    hexToDecimal ((getPrintableBlePayload field).getD (2 * i) NUL) =
        ((field.getD i 0).toNat / 16 : Nat) ∧
      hexToDecimal ((getPrintableBlePayload field).getD (2 * i + 1) NUL) =
        ((field.getD i 0).toNat % 16 : Nat) := by
  have hdrop := printable_drop field i
  rw [List.drop_eq_getElem_cons hi] at hdrop
  have hlt := (field[i]).toNat_lt
  have hbyte : field.getD i 0 = field[i] := by simp [hi]
  have hget (k : Nat) : (getPrintableBlePayload field).getD (2 * i + k) NUL =
      ((getPrintableBlePayload field).drop (2 * i)).getD k NUL := by
    simp only [List.getD_eq_getElem?_getD, List.getElem?_drop]
  have hhigh := hget 0
  have hlow := hget 1
  rw [hdrop] at hhigh hlow
  rw [hbyte]
  refine ⟨?_, ?_⟩
  · rw [Nat.add_zero] at hhigh
    rw [hhigh]
    exact hexToDecimal_decimalToHex _ (by omega)
  · rw [hlow]
    exact hexToDecimal_decimalToHex _ (by omega)

theorem exists_field {eirType : UInt8} {text : Str}
    (h : eirParseSpecificData temp.payload eirType lengthOfAdvertisement = some text) :
    ∃ field, text = getPrintableBlePayload field ∧ FieldIs temp eirType field ∧
      (eirType = eirManufactureSpecificData → 8 ≤ field.length) := by
  obtain ⟨eir, n, rfl, hn⟩ := eirLoop_some h
  have htext : hexOfField eir n =
      getPrintableBlePayload ((List.range (n + 1)).map fun i => eir.getD i 0) := by
    rw [hexOfField, getPrintableBlePayload, List.flatMap_map]
  refine ⟨_, htext, h.trans (congrArg some htext), fun htype => ?_⟩
  rw [List.length_map, List.length_range]
  have := hn htype
  omega

theorem field_length {field : List UInt8} (h : FieldIs temp eirManufactureSpecificData field) :
    8 ≤ field.length := by
  obtain ⟨field', htext, -, hlen⟩ := exists_field h
  have heq := congrArg List.length htext
  rw [getPrintableBlePayload_length, getPrintableBlePayload_length] at heq
  have := hlen rfl
  omega

theorem isTag_unique {identifier tag tag' : Str} (h : IsTag identifier tag)
    (h' : IsTag identifier tag') (hlen : tag.length = tag'.length) : tag = tag' :=
  (List.prefix_of_prefix_length_le h h' (Nat.le_of_eq hlen)).eq_of_length hlen

/-! ### MAC rules -/

theorem applyMacRule_noParse (temp : TempBleDevice) {rule : PrefixRule}
    (h : IsTag rule.identifier blePayloadIdentifierNoParse) :
    applyMacRule temp rule = (true, some (temp.pushArgs temp.address 0 0 false false)) := by
  unfold applyMacRule
  rw [if_pos ((noParse_iff _).mpr h)]
  rfl

theorem applyMacRule_carries {rule : PrefixRule} {field : List UInt8}
    (hno : ¬ IsTag rule.identifier blePayloadIdentifierNoParse)
    (hcarries : CarriesTag temp rule.identifier field) :
    applyMacRule temp rule = (true, if startsWith rule.identifier bidaetechTagIdentifier05C6 then
      some (temp.pushArgs temp.address (panicOf field) (voltageOf field) false false)
      else none) := by
  have hlen := field_length hcarries.1
  have hpanic := (printable_getD field (i := 6) (by omega)).2
  obtain ⟨hhigh, hlow⟩ := printable_getD field (i := 7) (by omega)
  have hvoltage : hexToDecimal ((getPrintableBlePayload field).getD 14 NUL) * 16 +
      hexToDecimal ((getPrintableBlePayload field).getD 15 NUL) = voltageOf field := by
    have h14 : (14 : Nat) = 2 * 7 := rfl
    have h15 : (15 : Nat) = 2 * 7 + 1 := rfl
    unfold voltageOf
    rw [h15, hlow, h14, hhigh]
    omega
  have hparse : eirParseSpecificData temp.payload eirManufactureSpecificData lengthOfAdvertisement =
      some (getPrintableBlePayload field) := hcarries.1
  unfold applyMacRule
  rw [if_neg (mt (noParse_iff _).mp hno), hparse]
  dsimp only
  rw [if_pos ((carries_iff hcarries.1 _).mpr hcarries)]
  split
  · have hbutton : hexToDecimal ((getPrintableBlePayload field).getD
        blePayloadFormat05C6IndexOfPanic NUL) = panicOf field := hpanic
    have hbattery : hexToDecimal ((getPrintableBlePayload field).getD
        blePayloadFormat05C6IndexOfVoltage NUL) * 16 + hexToDecimal ((getPrintableBlePayload
          field).getD (blePayloadFormat05C6IndexOfVoltage + 1) NUL) = voltageOf field := hvoltage
    rw [hbutton, hbattery]
    rfl
  · rfl

theorem applyMacRule_else {rule : PrefixRule}
    (hno : ¬ IsTag rule.identifier blePayloadIdentifierNoParse)
    (hnone : ∀ field, ¬ CarriesTag temp rule.identifier field) :
    applyMacRule temp rule = (false, none) := by
  unfold applyMacRule
  rw [if_neg (mt (noParse_iff _).mp hno)]
  cases hparse : eirParseSpecificData temp.payload eirManufactureSpecificData
      lengthOfAdvertisement with
  | none => rfl
  | some text =>
    obtain ⟨field, rfl, hfield, -⟩ := exists_field hparse
    dsimp only
    rw [if_neg (mt (carries_iff hfield _).mp (hnone field))]

theorem matchMacRules_eq (temp : TempBleDevice) (rules : List PrefixRule) :
    matchMacRules temp rules = ((rules.find? fun rule =>
      startsWith temp.scannedMacAddress.text rule.rulePrefix).map (applyMacRule temp)).getD
        (false, none) := by
  induction rules with
  | nil => rfl
  | cons rule rest ih =>
    unfold matchMacRules
    rw [List.find?_cons]
    cases startsWith temp.scannedMacAddress.text rule.rulePrefix with
    | true => rfl
    | false => exact ih

theorem matchMacRules_deciding {rule : PrefixRule} (h : DecidingMac cfg temp rule) :
    matchMacRules temp cfg.macPrefixList = applyMacRule temp rule := by
  rw [matchMacRules_eq, (find?_eq_some_iff macPrefix_iff).mpr h]
  rfl

theorem matchMacRules_noMatch (h : NoMacMatch cfg temp) :
    (matchMacRules temp cfg.macPrefixList).1 = false := by
  by_cases hdecide : ∃ rule, DecidingMac cfg temp rule
  · obtain ⟨rule, hrule⟩ := hdecide
    rw [matchMacRules_deciding hrule, applyMacRule_else (h rule hrule).1 (h rule hrule).2]
  · rw [matchMacRules_eq, (find?_eq_none_iff macPrefix_iff).mpr (not_exists.mp hdecide)]
    rfl

/-! ### Name rules -/

theorem applyNameRule_noParse {rule : DeviceNamePrefix}
    (h : IsTag rule.identifier blePayloadIdentifierNoParse) :
    applyNameRule temp rule =
      some (temp.pushArgs temp.address 0 0 rule.isPayloadNeeded rule.isScanRspNeeded) := by
  unfold applyNameRule
  rw [if_pos ((noParse_iff _).mpr h)]
  rfl

theorem applyNameRule_carries {rule : DeviceNamePrefix} {field : List UInt8}
    (hno : ¬ IsTag rule.identifier blePayloadIdentifierNoParse)
    (hcarries : CarriesTag temp rule.identifier field) :
    applyNameRule temp rule =
      if startsWith rule.identifier bidaetechTagIdentifier05C7 then
        some (temp.pushArgs (embeddedAddress field) 0 0 rule.isPayloadNeeded rule.isScanRspNeeded)
      else if startsWith rule.identifier bidaetechTagIdentifier4153 then
        some (temp.pushArgs temp.address (panicOf field) 0 rule.isPayloadNeeded
          rule.isScanRspNeeded)
      else none := by
  have hlen := field_length hcarries.1
  have hpanic := (printable_getD field (i := 6) (by omega)).2
  have hdrop := printable_drop field 6
  have hparse : eirParseSpecificData temp.payload eirManufactureSpecificData lengthOfAdvertisement =
      some (getPrintableBlePayload field) := hcarries.1
  have hbutton : hexToDecimal ((getPrintableBlePayload field).getD
      blePayloadFormat4153IndexOfPanic NUL) = panicOf field := hpanic
  have haddress : (getPrintableBlePayload field).drop blePayloadFormat05C7IndexOfMacAddress =
      getPrintableBlePayload (field.drop 6) := hdrop
  unfold applyNameRule embeddedAddress
  rw [if_neg (mt (noParse_iff _).mp hno), hparse]
  dsimp only
  rw [if_pos ((carries_iff hcarries.1 _).mpr hcarries), hbutton, haddress]
  rfl

theorem applyNameRule_else {rule : DeviceNamePrefix}
    (hno : ¬ IsTag rule.identifier blePayloadIdentifierNoParse)
    (hnone : ∀ field, ¬ CarriesTag temp rule.identifier field) :
    applyNameRule temp rule = none := by
  unfold applyNameRule
  rw [if_neg (mt (noParse_iff _).mp hno)]
  cases hparse : eirParseSpecificData temp.payload eirManufactureSpecificData
      lengthOfAdvertisement with
  | none => rfl
  | some text =>
    obtain ⟨field, rfl, hfield, -⟩ := exists_field hparse
    dsimp only
    rw [if_neg (mt (carries_iff hfield _).mp (hnone field))]

theorem namePrefix_iff {field : List UInt8} (hfield : FieldIs temp eirNameComplete field)
    (rule : DeviceNamePrefix) :
    startsWith (getPrintableBlePayload field) rule.rulePrefix = true ↔ NamePrefix temp rule := by
  rw [startsWith_iff, cstr_printable]
  constructor
  · exact fun h => ⟨field, hfield, h⟩
  · rintro ⟨field', hfield', h⟩
    have heq := Option.some.inj (hfield.symm.trans hfield')
    rwa [heq]

/-- The rule that the search over the names ends at. -/
def searchName (temp : TempBleDevice) (rules : List DeviceNamePrefix) : Option DeviceNamePrefix :=
  (eirParseSpecificData temp.payload eirNameComplete lengthOfAdvertisement).bind fun name =>
    rules.find? fun rule => startsWith name rule.rulePrefix

theorem searchName_eq_some_iff {rules : List DeviceNamePrefix} {rule : DeviceNamePrefix} :
    searchName temp rules = some rule ↔ FirstOf (NamePrefix temp) rules rule := by
  unfold searchName
  cases hparse : eirParseSpecificData temp.payload eirNameComplete lengthOfAdvertisement with
  | none =>
    constructor
    · intro h
      exact absurd h (by simp)
    · rintro ⟨-, -, -, ⟨field, hfield, -⟩, -⟩
      exact absurd (hparse.symm.trans hfield) (by simp)
  | some name =>
    obtain ⟨field, rfl, hfield, -⟩ := exists_field hparse
    exact find?_eq_some_iff (namePrefix_iff hfield)

theorem searchName_of_sameUpTo {rules rules' : List DeviceNamePrefix}
    (h : SameUpTo (NamePrefix temp) rules rules') : searchName temp rules' = searchName temp rules := by
  unfold searchName
  cases hparse : eirParseSpecificData temp.payload eirNameComplete lengthOfAdvertisement with
  | none => rfl
  | some name =>
    obtain ⟨field, rfl, hfield, -⟩ := exists_field hparse
    exact find?_of_sameUpTo (namePrefix_iff hfield) h

theorem matchReport_search (cfg : Config) (temp : TempBleDevice) :
    matchReport cfg temp =
      if (matchMacRules temp cfg.macPrefixList).1 then (matchMacRules temp cfg.macPrefixList).2
      else (searchName temp cfg.deviceNamePrefixList).bind (applyNameRule temp) := by
  rw [matchReport_eq, decidingNameRule]
  split
  · rfl
  · rfl

theorem matchReport_name (h : NoMacMatch cfg temp) :
    matchReport cfg temp =
      (searchName temp cfg.deviceNamePrefixList).bind (applyNameRule temp) := by
  rw [matchReport_search, matchMacRules_noMatch h]
  rfl

/-! ### The decision -/

theorem matchReport_deciding {rule : PrefixRule} (hrule : DecidingMac cfg temp rule)
    (htaken : (applyMacRule temp rule).1 = true) :
    matchReport cfg temp = (applyMacRule temp rule).2 := by
  rw [matchReport_search, matchMacRules_deciding hrule, if_pos htaken]

theorem matchReport_decidingName (h : NoMacMatch cfg temp) {rule : DeviceNamePrefix}
    (hrule : DecidingName cfg temp rule) : matchReport cfg temp = applyNameRule temp rule := by
  rw [matchReport_name h, searchName_eq_some_iff.mpr hrule]
  rfl

theorem ruleMatching_matchReport (cfg : Config) (temp : TempBleDevice) :
    RuleMatching cfg temp (matchReport cfg temp) where
  macNoParse rule hrule htag := by
    have happly := applyMacRule_noParse temp htag
    rw [matchReport_deciding hrule (by rw [happly]), happly]
  mac05C6 rule field hrule htag hcarries := by
    have hno : ¬ IsTag rule.identifier blePayloadIdentifierNoParse := fun h =>
      absurd (isTag_unique h htag (by decide)) (by decide)
    have happly := applyMacRule_carries hno hcarries
    rw [if_pos ((isTag_iff (by decide) _).mpr htag)] at happly
    rw [matchReport_deciding hrule (by rw [happly]), happly]
  macOther rule field hrule hno hother hcarries := by
    have happly := applyMacRule_carries hno hcarries
    rw [if_neg (mt (isTag_iff (by decide) _).mp hother)] at happly
    rw [matchReport_deciding hrule (by rw [happly]), happly]
  nameNoParse hmac rule hrule htag := by
    rw [matchReport_decidingName hmac hrule, applyNameRule_noParse htag]
  name05C7 hmac rule field hrule htag hcarries := by
    have hno : ¬ IsTag rule.identifier blePayloadIdentifierNoParse := fun h =>
      absurd (isTag_unique h htag (by decide)) (by decide)
    rw [matchReport_decidingName hmac hrule, applyNameRule_carries hno hcarries,
      if_pos ((isTag_iff (by decide) _).mpr htag)]
  name4153 hmac rule field hrule htag hcarries := by
    have hno : ¬ IsTag rule.identifier blePayloadIdentifierNoParse := fun h =>
      absurd (isTag_unique h htag (by decide)) (by decide)
    have hother : ¬ IsTag rule.identifier bidaetechTagIdentifier05C7 := fun h =>
      absurd (isTag_unique h htag (by decide)) (by decide)
    rw [matchReport_decidingName hmac hrule, applyNameRule_carries hno hcarries,
      if_neg (mt (isTag_iff (by decide) _).mp hother), if_pos ((isTag_iff (by decide) _).mpr htag)]
  nameOther hmac rule hrule hno hother := by
    rw [matchReport_decidingName hmac hrule]
    by_cases hcarries : ∃ field, CarriesTag temp rule.identifier field
    · obtain ⟨field, hfield⟩ := hcarries
      obtain ⟨h05C7, h4153⟩ := hother.resolve_left fun h => h field hfield
      rw [applyNameRule_carries hno hfield, if_neg (mt (isTag_iff (by decide) _).mp h05C7),
        if_neg (mt (isTag_iff (by decide) _).mp h4153)]
    · exact applyNameRule_else hno (not_exists.mp hcarries)
  noRule hmac hnone := by
    have hsearch : searchName temp cfg.deviceNamePrefixList = none := by
      cases hfind : searchName temp cfg.deviceNamePrefixList with
      | none => rfl
      | some rule => exact absurd (searchName_eq_some_iff.mp hfind) (hnone rule)
    rw [matchReport_name hmac, hsearch]
    rfl

end Rules

/-- The configurations differ at most behind the rules that decide about the report. -/
structure SameRules (temp : TempBleDevice) (cfg cfg' : Config) : Prop where
  coverage : cfg'.scanRssiCoverage = cfg.scanRssiCoverage
  macs : SameUpTo (MacPrefix temp) cfg.macPrefixList cfg'.macPrefixList
  names : SameUpTo (NamePrefix temp) cfg.deviceNamePrefixList cfg'.deviceNamePrefixList

theorem matchReport_sameRules {cfg cfg' : Config} {temp : TempBleDevice}
    (h : SameRules temp cfg cfg') : matchReport cfg' temp = matchReport cfg temp := by
  rw [matchReport_search, matchReport_search, matchMacRules_eq, matchMacRules_eq,
    find?_of_sameUpTo macPrefix_iff h.macs, searchName_of_sameUpTo h.names]

/-- The report and the configuration fix the one call of a round, or that there is none: nothing
that earlier rounds left behind matters, and no rule behind those that decide. -/
theorem rule_matching (cfg : Config) {temp : TempBleDevice} (hadv : temp.isAdvertising)
    (hstrong : cfg.scanRssiCoverage ≤ temp.rssi) :
    ∃ call : Option PushArgs, RuleMatching cfg temp call ∧
      ∀ cfg', SameRules temp cfg cfg' → ∀ (leaves : MatchLocals → Str) (x : MatchLocals),
        (x.examine cfg' leaves temp).calls = x.calls ++ call.toList := by
  refine ⟨matchReport cfg temp, ruleMatching_matchReport cfg temp, fun cfg' hsame leaves x => ?_⟩
  have hweak : temp.isWeak cfg' = false := by
    unfold TempBleDevice.isWeak
    rw [hsame.coverage]
    exact decide_eq_false (Int32.not_lt.mpr hstrong)
  rw [MatchLocals.calls_examine cfg' leaves hadv hweak, matchReport_sameRules hsame]

theorem rule_matching_full_tag : ∃ call : Option PushArgs,
    RuleMatching tagConfig fullTagReport call ∧
      ∀ cfg', SameRules fullTagReport tagConfig cfg' →
        ∀ (leaves : MatchLocals → Str) (x : MatchLocals),
          (x.examine cfg' leaves fullTagReport).calls = x.calls ++ call.toList :=
  rule_matching tagConfig (Or.inl rfl) (by decide)

end LBeacon
