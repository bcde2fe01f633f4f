import LBeacon.Tracking

/-!
# From advertising reports to sightings

The report that `start_ble_scanning` queues, and the loop of `examine_scanned_ble_device`.
-/

open CText

namespace LBeacon

/-! ## Constants -/

def eventTypeAdvInd : UInt8 := 0x00
def eventTypeAdvNonconnInd : UInt8 := 0x03
def eventTypeScanRsp : UInt8 := 0x04
def blePayloadIdentifierNoParse : Str := "0000".toList
def blePayloadFormatIndexOfIdentifer : Nat := 8
def bidaetechTagIdentifier05C6 : Str := "05C6".toList
def blePayloadFormat05C6IndexOfPanic : Nat := 13
def blePayloadFormat05C6IndexOfVoltage : Nat := 14
def bidaetechTagIdentifier05C7 : Str := "05C7".toList
def blePayloadFormat05C7IndexOfMacAddress : Nat := 12
def bidaetechTagIdentifier4153 : Str := "4153".toList
def blePayloadFormat4153IndexOfPanic : Nat := 13

/-! ## Addresses -/

def isHexDigit (c : Char) : Bool := ('0' ≤ c && c ≤ '9') || ('A' ≤ c && c ≤ 'F')

/-- `XX:XX:XX:XX:XX:XX`, seventeen characters. -/
def isCompleteMac (s : Str) : Bool :=
  s.length == 17 &&
    (List.range 17).all fun i =>
      if i % 3 = 2 then s.getD i NUL == ':' else isHexDigit (s.getD i NUL)

/-- What `ba2str` writes. -/
structure Mac where
  text : Str
  complete : isCompleteMac text = true

structure TempBleDevice where
  scannedMacAddress : Mac
  evtType : UInt8
  payload : List UInt8
  rssi : Int32

/-! ## Rules -/

/-- `0 == strncmp(text, pattern, strlen(pattern))` -/
def startsWith (text pattern : Str) : Bool := strncmp text pattern (strlen pattern) = 0

def TempBleDevice.pushArgs (temp : TempBleDevice) (address : Str)
    (isButtonPressed batteryVoltage : Int) (isPayloadNeeded isScanRspNeeded : Bool) : PushArgs :=
  ⟨address, temp.rssi, Int32.ofInt isButtonPressed, Int32.ofInt batteryVoltage, isPayloadNeeded,
    isScanRspNeeded, temp.payload⟩

/-- The manufacturer field carries the rule's identifier. -/
def carriesIdentifier (payload identifier : Str) : Bool :=
  startsWith (payload.drop blePayloadFormatIndexOfIdentifer) identifier

/-- The body for a MAC rule whose prefix matched: `is_matched`, and the call that is made. -/
def applyMacRule (temp : TempBleDevice) (rule : PrefixRule) : Bool × Option PushArgs :=
  let address := temp.scannedMacAddress.text
  if strncmp blePayloadIdentifierNoParse rule.identifier (strlen blePayloadIdentifierNoParse) = 0
  then (true, some (temp.pushArgs address 0 0 false false))
  else
    match eirParseSpecificData temp.payload eirManufactureSpecificData lengthOfAdvertisement with
    | none => (false, none)
    | some payload =>
      if carriesIdentifier payload rule.identifier then
        if startsWith rule.identifier bidaetechTagIdentifier05C6 then
          let isButtonPressed := hexToDecimal (payload.getD blePayloadFormat05C6IndexOfPanic NUL)
          let batteryVoltage :=
            hexToDecimal (payload.getD blePayloadFormat05C6IndexOfVoltage NUL) * 16 +
              hexToDecimal (payload.getD (blePayloadFormat05C6IndexOfVoltage + 1) NUL)
          (true, some (temp.pushArgs address isButtonPressed batteryVoltage false false))
        else (true, none)
      else (false, none)

/-- The loop over the MAC rules ends at the first prefix that matches. -/
def matchMacRules (temp : TempBleDevice) : List PrefixRule → Bool × Option PushArgs
  | [] => (false, none)
  | rule :: rest =>
    if startsWith temp.scannedMacAddress.text rule.rulePrefix then applyMacRule temp rule
    else matchMacRules temp rest

/-- The body for a name rule whose prefix matched. -/
def applyNameRule (temp : TempBleDevice) (rule : DeviceNamePrefix) : Option PushArgs :=
  let address := temp.scannedMacAddress.text
  if strncmp blePayloadIdentifierNoParse rule.identifier (strlen blePayloadIdentifierNoParse) = 0
  then some (temp.pushArgs address 0 0 rule.isPayloadNeeded rule.isScanRspNeeded)
  else
    match eirParseSpecificData temp.payload eirManufactureSpecificData lengthOfAdvertisement with
    | none => none
    | some payload =>
      if carriesIdentifier payload rule.identifier then
        if startsWith rule.identifier bidaetechTagIdentifier05C7 then
          let virtualMacAddress :=
            convertStrToMacAddress (payload.drop blePayloadFormat05C7IndexOfMacAddress)
          some (temp.pushArgs virtualMacAddress 0 0 rule.isPayloadNeeded rule.isScanRspNeeded)
        else if startsWith rule.identifier bidaetechTagIdentifier4153 then
          let isButtonPressed := hexToDecimal (payload.getD blePayloadFormat4153IndexOfPanic NUL)
          some (temp.pushArgs address isButtonPressed 0 rule.isPayloadNeeded rule.isScanRspNeeded)
        else none
      else none

/-- The loop over the name rules, for the hex text of the complete name. -/
def matchNameRules (temp : TempBleDevice) (name : Str) : List DeviceNamePrefix → Option PushArgs
  | [] => none
  | rule :: rest =>
    if startsWith name rule.rulePrefix then applyNameRule temp rule
    else matchNameRules temp name rest

/-- The `send_to_push_dongle` call made for an ADV_IND or ADV_NONCONN_IND report, if any. -/
def matchReport (cfg : Config) (temp : TempBleDevice) : Option PushArgs :=
  match matchMacRules temp cfg.macPrefixList with
  | (true, call) => call
  | (false, _) =>
    match eirParseSpecificData temp.payload eirNameComplete lengthOfAdvertisement with
    | none => none
    | some name => matchNameRules temp name cfg.deviceNamePrefixList

/-! ## The loop -/

/-- The condition of the `continue` at the head of the loop. -/
def TempBleDevice.isWeak (cfg : Config) (temp : TempBleDevice) : Bool :=
  temp.rssi < cfg.scanRssiCoverage

/-- One round of the loop, up to the `mp_free` at its end, for a report that is not weak. -/
def examineReport (cfg : Config) (w : World) (s : Tracker) (temp : TempBleDevice) : Tracker :=
  if temp.evtType = eventTypeAdvInd ∨ temp.evtType = eventTypeAdvNonconnInd then
    match matchReport cfg temp with
    | some args => sendToPushDongle w s .ble args
    | none => s
  else if temp.evtType = eventTypeScanRsp then
    sendToPushDongleScanRsp w s temp.scannedMacAddress.text temp.payload
  else s

structure Scanner where
  tracker : Tracker
  temp : Slot → TempBleDevice
  tempBleDeviceList : List Slot
  tempBleDeviceMempool : Pool

/-- One round of the loop over the local list. A weak report is skipped by `continue`. -/
def examineNode (cfg : Config) (w : World) (s : Scanner) (a : Slot) : Scanner :=
  if (s.temp a).isWeak cfg then s
  else
    { s with
      tracker := examineReport cfg w s.tracker (s.temp a)
      tempBleDeviceMempool := mpFree s.tempBleDeviceMempool a }

/-- One pass of the outer loop: the whole list is taken and each report examined in order. -/
def examineScannedBleDevice (cfg : Config) (w : World) (s : Scanner) : Scanner :=
  s.tempBleDeviceList.foldl (examineNode cfg w) { s with tempBleDeviceList := [] }

/-- What `start_ble_scanning` does with one advertising report. -/
def startBleScanning (w : World) (s : Scanner) (info : TempBleDevice) : Scanner :=
  if info.evtType = eventTypeAdvInd ∨ info.evtType = eventTypeAdvNonconnInd ∨
      info.evtType = eventTypeScanRsp then
    match mpAlloc w.tempOffer s.tempBleDeviceMempool with
    | (none, pool) => { s with tempBleDeviceMempool := pool }
    | (some a, pool) =>
      { s with
        temp := fun x => if x = a then info else s.temp x
        tempBleDeviceList := s.tempBleDeviceList ++ [a]
        tempBleDeviceMempool := pool }
  else s

end LBeacon
