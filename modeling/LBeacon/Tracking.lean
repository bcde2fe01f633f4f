import LBeacon.Payload

/-!
# The tracked lists, as lists

What `send_to_push_dongle`, `check_is_in_list`, `consolidate_tracked_data`,
`handle_tracked_object_data` and `cleanup_lists` do when nothing runs beside them. A ring is
the list of its slots here. `Heap.lean` has the same functions on the pointers.
-/

open CText

namespace LBeacon

/-! ## State -/

structure Tracker where
  dev : Slot → ScannedDevice
  scannedList : List Slot
  brObjectList : List Slot
  bleObjectList : List Slot
  pool : Pool
  readings : Nat
  sent : List Str

/-- After the initialisation in `main`. -/
def Tracker.init : Tracker := ⟨fun _ => .zeroed, [], [], [], .empty, 0, []⟩

inductive ListHead where
  | scanned
  | br
  | ble
  deriving DecidableEq

def Tracker.list (s : Tracker) : ListHead → List Slot
  | .scanned => s.scannedList
  | .br => s.brObjectList
  | .ble => s.bleObjectList

/-- `get_system_time`. -/
def Tracker.tick (s : Tracker) : Tracker := { s with readings := s.readings + 1 }

def Tracker.setDev (s : Tracker) (a : Slot) (d : ScannedDevice) : Tracker :=
  { s with dev := fun x => if x = a then d else s.dev x }

def Tracker.free (s : Tracker) (a : Slot) : Tracker := { s with pool := mpFree s.pool a }

/-- `remove_list_node(&temp->sc_list_entry)`. -/
def Tracker.unlinkSc (s : Tracker) (a : Slot) : Tracker :=
  { s with scannedList := s.scannedList.erase a }

/-- `remove_list_node(&temp->tr_list_entry)`. -/
def Tracker.unlinkTr (s : Tracker) (a : Slot) : Tracker :=
  { s with brObjectList := s.brObjectList.erase a, bleObjectList := s.bleObjectList.erase a }

/-- `is_isolated_node(&temp->tr_list_entry)`. -/
def Tracker.trIsolated (s : Tracker) (a : Slot) : Bool :=
  decide (a ∉ s.brObjectList ∧ a ∉ s.bleObjectList)

/-- `is_isolated_node(&temp->sc_list_entry)`. -/
def Tracker.scIsolated (s : Tracker) (a : Slot) : Bool := decide (a ∉ s.scannedList)

/-! ## check_is_in_list -/

def Tracker.evict (s : Tracker) (a : Slot) : Tracker :=
  let s := s.unlinkSc a
  if s.trIsolated a then s.free a else s

/-- The age test of the BR_EDR loop. -/
def timedOut (now initial : Int32) : Prop :=
  now.toInt - initial.toInt > intervalForCleanupScannedListInSec

instance (now initial : Int32) : Decidable (timedOut now initial) := by
  unfold timedOut; infer_instance

/-- The BR_EDR loop, with `is_to_remove_from_scanned_list`. -/
def searchScanned (w : World) (address : Str) :
    List Slot → Bool → Tracker → Option Slot × Tracker
  | [], _, s => (none, s)
  | a :: rest, true, s => searchScanned w address rest true (s.evict a)
  | a :: rest, false, s =>
    let now := w.clock s.readings
    let s := s.tick
    if timedOut now (s.dev a).initialScannedTime then
      searchScanned w address rest true (s.evict a)
    else if hasMac address (s.dev a) then (some a, s)
    else searchScanned w address rest false s

/-- The lists that the callers of `check_is_in_list` pass. -/
inductive SearchList where
  | scanned
  | ble
  deriving DecidableEq

def checkIsInList (w : World) (s : Tracker) (address : Str) : SearchList → Option Slot × Tracker
  | .scanned => searchScanned w address s.scannedList false s
  | .ble => (s.bleObjectList.find? fun a => hasMac address (s.dev a), s)

/-! ## send_to_push_dongle -/

/-- The fields written through the pointer that `check_is_in_list` returned. -/
def updateDevice (now : Int32) (args : PushArgs) (d : ScannedDevice) : ScannedDevice :=
  { d with
    finalScannedTime := now
    isPayloadNeeded := args.isPayloadNeeded
    isScanRspNeeded := args.isScanRspNeeded
    payload := if args.isPayloadNeeded then args.payload else d.payload
    isButtonPressed :=
      if args.isButtonPressed = 1 then args.isButtonPressed else d.isButtonPressed
    batteryVoltage := args.batteryVoltage
    rssi := if args.rssi > d.rssi then args.rssi else d.rssi }

def newDevice (now : Int32) (args : PushArgs) : ScannedDevice :=
  { ScannedDevice.zeroed with
    scannedMacAddress := strncpy args.macAddress lengthOfMacAddress
    initialScannedTime := now
    finalScannedTime := now
    rssi := args.rssi
    isButtonPressed := args.isButtonPressed
    batteryVoltage := args.batteryVoltage
    isPayloadNeeded := args.isPayloadNeeded
    isScanRspNeeded := args.isScanRspNeeded
    payload := if args.isPayloadNeeded then args.payload else [] }

/-- `insert_list_tail` and `insert_list_first`, under `list_lock`. -/
def Tracker.insert (s : Tracker) (deviceType : DeviceType) (a : Slot) : Tracker :=
  match deviceType with
  | .ble => { s with bleObjectList := s.bleObjectList ++ [a] }
  | .brEdr => { s with scannedList := a :: s.scannedList, brObjectList := s.brObjectList ++ [a] }
  | .maxType => s

/-- After `check_is_in_list` returned `found`. -/
def pushFound (w : World) (deviceType : DeviceType) (args : PushArgs) :
    Option Slot × Tracker → Tracker
  | (some a, s) => (s.setDev a (updateDevice (w.clock s.readings) args (s.dev a))).tick
  | (none, s) =>
    match mpAlloc w.offer s.pool with
    | (none, pool) => { s with pool }
    | (some a, pool) =>
      let s := { s with pool }
      ((s.setDev a (newDevice (w.clock s.readings) args)).tick).insert deviceType a

def sendToPushDongle (w : World) (s : Tracker) (deviceType : DeviceType) (args : PushArgs) :
    Tracker :=
  match deviceType with
  | .ble => pushFound w .ble args (checkIsInList w s args.macAddress .ble)
  | .brEdr => pushFound w .brEdr args (checkIsInList w s args.macAddress .scanned)
  | .maxType => s

/-- Only called for BLE devices. -/
def sendToPushDongleScanRsp (w : World) (s : Tracker) (macAddress : Str) (payload : List UInt8) :
    Tracker :=
  match checkIsInList w s macAddress .ble with
  | (some a, s) =>
    if (s.dev a).isScanRspNeeded then s.setDev a { s.dev a with scanRsp := payload } else s
  | (none, s) => s

/-! ## consolidate_tracked_data -/

/-- The lists that `consolidate_tracked_data` accepts. -/
inductive TrackedList where
  | br
  | ble
  deriving DecidableEq

def TrackedList.deviceType : TrackedList → DeviceType
  | .br => .brEdr
  | .ble => .ble

def Tracker.tracked (s : Tracker) : TrackedList → List Slot
  | .br => s.brObjectList
  | .ble => s.bleObjectList

def Tracker.setTracked (s : Tracker) (list : TrackedList) (slots : List Slot) : Tracker :=
  match list with
  | .br => { s with brObjectList := slots }
  | .ble => { s with bleObjectList := slots }

/-- A value of the 32-bit `size_t`. -/
def sizeT (n : Int) : Nat := (n % 2 ^ 32).toNat

/-- `msg_remain_size` after one more node. -/
def chargeNode (msgRemainSize : Nat) (d : ScannedDevice) : Nat :=
  sizeT (msgRemainSize - maxLengthRespDeviceInfo + (lengthOfAdvertisement - d.payload.length))

/-- The loop that counts the nodes to move to the local list. -/
def numberToSend : List ScannedDevice → Nat → Nat
  | [], _ => 0
  | d :: rest, msgRemainSize =>
    if msgRemainSize > maxLengthRespDeviceInfo then
      numberToSend rest (chargeNode msgRemainSize d) + 1
    else 0

/-- Both payloads are must-have and the scan response has not come. -/
def isDiscarded (d : ScannedDevice) : Bool := d.isScanRspNeeded && d.scanRsp.length == 0

/-- The text after the battery field. -/
def payloadText (d : ScannedDevice) : Str :=
  if d.isPayloadNeeded then getPrintableBlePayload d.payload ++ getPrintableBlePayload d.scanRsp
  else []

/-- `"%s;%d;%d;%d;%d;%d;%s%s;"` -/
def deviceRecord (d : ScannedDevice) : Str :=
  cstr d.scannedMacAddress ++ [';'] ++ intText d.initialScannedTime.toInt ++ [';'] ++
    intText d.finalScannedTime.toInt ++ [';'] ++ intText d.rssi.toInt ++ [';'] ++
    intText d.isButtonPressed.toInt ++ [';'] ++ intText d.batteryVoltage.toInt ++ [';'] ++
    payloadText d ++ [';']

/-- `"%d;%d;"` -/
def listHeader (deviceType : DeviceType) (count : Nat) : Str :=
  intText deviceType.number ++ [';'] ++ intText count ++ [';']

/-- What `consolidate_tracked_data` writes to `msg_buf`. -/
def consolidateText (deviceType : DeviceType) (nodes : List ScannedDevice)
    (msgRemainSize : Nat) : Str :=
  let moved := nodes.take (numberToSend nodes msgRemainSize)
  let printed := moved.filter fun d => !isDiscarded d
  listHeader deviceType printed.length ++ printed.flatMap deviceRecord

/-- The last loop: one node of the local list has been unlinked. -/
def Tracker.release (list : TrackedList) (s : Tracker) (a : Slot) : Tracker :=
  match list with
  | .ble => s.free a
  | .br => if s.scIsolated a then s.free a else s

/-- The input check cannot fail for these lists. `tail_pointer` starts at the first node, so
one node is cut off even when none is selected. -/
def consolidateTrackedData (s : Tracker) (list : TrackedList) (msgRemainSize : Nat) :
    Str × Tracker :=
  let slots := s.tracked list
  let nodes := slots.map s.dev
  let k := numberToSend nodes msgRemainSize
  let s' := s.setTracked list (slots.drop (max k 1))
  (consolidateText list.deviceType nodes msgRemainSize,
    (slots.take k).foldl (Tracker.release list) s')

/-! ## handle_tracked_object_data -/

inductive ErrorCode where
  | workSuccessfully
  | eBufferSize
  | ePrepareResponseBasicInfo
  deriving DecidableEq

/-- `from_beacon;tracked_object_data;BOT_GATEWAY_API_VERSION_LATEST;`, then the UUID, the
time and the address. -/
def basicInfoText (cfg : Config) (now : Int32) : Str :=
  "8;4;1.3;".toList ++ cfg.uuid ++ [';'] ++ (intText now.toInt).take (lengthOfEpochTime - 1) ++
    [';'] ++ cfg.localAddr ++ [';']

def beaconBasicInfo (cfg : Config) (w : World) (s : Tracker) : ErrorCode × Str × Tracker :=
  let message := basicInfoText cfg (w.clock s.readings)
  if message.length > maxLengthRespBasicInfo then (.eBufferSize, message, s.tick)
  else (.workSuccessfully, message, s.tick)

/-- `udp_addpkt`: what is handed over is recorded in `sent`. -/
def Tracker.addpkt (s : Tracker) (message : Str) : Tracker := { s with sent := s.sent ++ [message] }

def handleTrackedObjectData (cfg : Config) (w : World) (s : Tracker) : ErrorCode × Tracker :=
  if s.brObjectList = [] ∧ s.bleObjectList = [] then (.workSuccessfully, s)
  else
    match beaconBasicInfo cfg w s with
    | (.workSuccessfully, message, s) =>
      let (brText, s) := consolidateTrackedData s .br (sizeT (wifiMessageLength - message.length))
      let message := message ++ brText
      let (bleText, s) := consolidateTrackedData s .ble (sizeT (wifiMessageLength - message.length))
      let message := message ++ bleText
      -- `printf` asks for the time once more.
      (.workSuccessfully, (s.addpkt message).tick)
    | (_, _, s) => (.ePrepareResponseBasicInfo, s)

/-! ## cleanup_lists -/

def cleanupNode (list : ListHead) (s : Tracker) (a : Slot) : Tracker :=
  match list with
  | .scanned =>
    let s := s.unlinkSc a
    (if s.trIsolated a then s else s.unlinkTr a).free a
  | .br =>
    let s := s.unlinkTr a
    (if s.scIsolated a then s else s.unlinkSc a).free a
  | .ble => (s.unlinkTr a).free a

/-- Called with `is_scanned_list_head` set for the scanned list only. -/
def cleanupLists (s : Tracker) (list : ListHead) : Tracker :=
  (s.list list).foldl (cleanupNode list) s

/-! ## Runs -/

inductive Op where
  | push (deviceType : DeviceType) (args : PushArgs)
  | scanRsp (macAddress : Str) (payload : List UInt8)
  | check (address : Str) (list : SearchList)
  | poll
  | cleanup (list : ListHead)
  deriving DecidableEq

def step (cfg : Config) (w : World) (s : Tracker) : Op → Tracker
  | .push deviceType args => sendToPushDongle w s deviceType args
  | .scanRsp macAddress payload => sendToPushDongleScanRsp w s macAddress payload
  | .check address list => (checkIsInList w s address list).2
  | .poll => (handleTrackedObjectData cfg w s).2
  | .cleanup list => cleanupLists s list

def run (cfg : Config) (w : World) (ops : List Op) : Tracker := ops.foldl (step cfg w) .init

end LBeacon
