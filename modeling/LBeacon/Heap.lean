import LBeacon.Lib.Rings
import LBeacon.Tracking

/-!
# The tracked lists, on pointers

The same functions as in `Tracking.lean` on the intrusive entries of the nodes. Every access to
an entry or a field of a node records whether the slot of the node is handed out.
-/

open CText Rings

namespace LBeacon

/-! ## Entries -/

/-- The three list heads, and `local_list_head` of `consolidate_tracked_data`. -/
inductive Head where
  | shared (list : ListHead)
  | localList
  deriving DecidableEq

inductive Entry where
  | head (h : Head)
  | sc (a : Slot)
  | tr (a : Slot)
  deriving DecidableEq

/-- The entry by which a node is linked in a list. -/
def Head.entry : Head → Slot → Entry
  | .shared .scanned => .sc
  | _ => .tr

/-- `ListEntry`. A head is part of no node: the loops stop there. -/
def Entry.slot : Entry → Slot
  | .head _ => 0
  | .sc a => a
  | .tr a => a

def Entry.scanned : Entry := .head (.shared .scanned)
def Entry.br : Entry := .head (.shared .br)
def Entry.ble : Entry := .head (.shared .ble)
def Entry.localHead : Entry := .head .localList

def TrackedList.entry : TrackedList → Entry
  | .br => .br
  | .ble => .ble

/-! ## State -/

/-- An access to a slot that is not handed out, or a loop that meets more entries than there
are slots. -/
inductive SlotFault where
  | stale (a : Slot)
  | endless
  deriving DecidableEq

structure Heap where
  links : Links Entry
  dev : Slot → ScannedDevice
  pool : Pool
  readings : Nat
  sent : List Str
  faults : List SlotFault

/-- After `init_entry` of the heads in `main`. -/
def Heap.init : Heap := ⟨⟨id, id⟩, fun _ => .zeroed, .empty, 0, [], []⟩

def Heap.tick (m : Heap) : Heap := { m with readings := m.readings + 1 }

def Heap.hang (m : Heap) : Heap := { m with faults := m.faults ++ [.endless] }

/-- Rounds enough for every ring. -/
def Heap.rounds (m : Heap) : Nat := m.pool.outstanding.length + 1

def Heap.access (m : Heap) (a : Slot) : Heap :=
  if a ∈ m.pool.outstanding then m else { m with faults := m.faults ++ [.stale a] }

def Heap.touch (m : Heap) : Entry → Heap
  | .head _ => m
  | .sc a => m.access a
  | .tr a => m.access a

def Heap.write (m : Heap) (a : Slot) (f : ScannedDevice → ScannedDevice) : Heap :=
  let m := m.access a
  { m with dev := fun x => if x = a then f (m.dev a) else m.dev x }

/-- `mp_free`. -/
def Heap.free (m : Heap) (a : Slot) : Heap :=
  let m := m.access a
  { m with pool := mpFree m.pool a }

/-! ## LinkedList.h -/

/-- `a->next = b; b->prev = a`. -/
def Heap.link (m : Heap) (a b : Entry) : Heap :=
  let m := (m.touch a).touch b
  { m with links := m.links.link a b }

def Heap.initEntry (m : Heap) (entry : Entry) : Heap := m.link entry entry

def Heap.insertEntryList (m : Heap) (newNode prev next : Entry) : Heap :=
  (m.link newNode next).link prev newNode

def Heap.insertListFirst (m : Heap) (newNode head : Entry) : Heap :=
  m.insertEntryList newNode head (m.links.next head)

def Heap.insertListTail (m : Heap) (newNode head : Entry) : Heap :=
  m.insertEntryList newNode (m.links.prev head) head

def Heap.removeListNode (m : Heap) (node : Entry) : Heap :=
  let m := m.touch node
  (m.link (m.links.prev node) (m.links.next node)).link node node

def Heap.isIsolatedNode (m : Heap) (node : Entry) : Bool := m.links.next node = node

/-! ## check_is_in_list -/

/-- A node whose scanned entry is to be removed. -/
def Heap.evict (m : Heap) (a : Slot) : Heap :=
  let m := m.removeListNode (.sc a)
  if m.isIsolatedNode (.tr a) then m.free a else m

/-- The BR_EDR loop, from `pos`, with `is_to_remove_from_scanned_list`. -/
def Heap.searchScanned (w : World) (address : Str) :
    Nat → Entry → Bool → Heap → Option Slot × Heap
  | 0, _, _, m => (none, m.hang)
  | fuel + 1, pos, isToRemove, m =>
    if pos = .scanned then (none, m)
    else
      let m := m.touch pos
      let save := m.links.next pos
      let a := pos.slot
      if isToRemove then Heap.searchScanned w address fuel save true (m.evict a)
      else
        let now := w.clock m.readings
        let m := m.tick
        if timedOut now (m.dev a).initialScannedTime then
          Heap.searchScanned w address fuel save true (m.evict a)
        else if hasMac address (m.dev a) then (some a, m)
        else Heap.searchScanned w address fuel save false m

/-- The BLE loop. -/
def Heap.searchBle (address : Str) : Nat → Entry → Heap → Option Slot × Heap
  | 0, _, m => (none, m.hang)
  | fuel + 1, pos, m =>
    if pos = .ble then (none, m)
    else
      let m := m.touch pos
      if hasMac address (m.dev pos.slot) then (some pos.slot, m)
      else Heap.searchBle address fuel (m.links.next pos) m

/-- The second critical section, for a list that was not empty. -/
def Heap.search (w : World) (m : Heap) (address : Str) : SearchList → Option Slot × Heap
  | .scanned => m.searchScanned w address m.rounds (m.links.next .scanned) false
  | .ble => m.searchBle address m.rounds (m.links.next .ble)

def SearchList.entry : SearchList → Entry
  | .scanned => .scanned
  | .ble => .ble

def Heap.checkIsInList (w : World) (m : Heap) (address : Str) (list : SearchList) :
    Option Slot × Heap :=
  if m.isIsolatedNode list.entry then (none, m) else m.search w address list

/-! ## send_to_push_dongle -/

/-- The last critical section. -/
def Heap.insert (m : Heap) (deviceType : DeviceType) (a : Slot) : Heap :=
  match deviceType with
  | .ble => m.insertListTail (.tr a) .ble
  | .brEdr => (m.insertListFirst (.sc a) .scanned).insertListTail (.tr a) .br
  | .maxType => m

def Heap.pushFound (w : World) (deviceType : DeviceType) (args : PushArgs) :
    Option Slot × Heap → Heap
  | (some a, m) => (m.write a (updateDevice (w.clock m.readings) args)).tick
  | (none, m) =>
    match mpAlloc w.offer m.pool with
    | (none, pool) => { m with pool }
    | (some a, pool) =>
      let m := ({ m with pool }.initEntry (.sc a)).initEntry (.tr a)
      ((m.write a fun _ => newDevice (w.clock m.readings) args).tick).insert deviceType a

def Heap.sendToPushDongle (w : World) (m : Heap) (deviceType : DeviceType) (args : PushArgs) :
    Heap :=
  match deviceType with
  | .ble => pushFound w .ble args (m.checkIsInList w args.macAddress .ble)
  | .brEdr => pushFound w .brEdr args (m.checkIsInList w args.macAddress .scanned)
  | .maxType => m

/-- The access through the pointer that `check_is_in_list` returned. -/
def storeScanRsp (payload : List UInt8) (d : ScannedDevice) : ScannedDevice :=
  if d.isScanRspNeeded then { d with scanRsp := payload } else d

def Heap.sendToPushDongleScanRsp (w : World) (m : Heap) (macAddress : Str)
    (payload : List UInt8) : Heap :=
  match m.checkIsInList w macAddress .ble with
  | (some a, m) => m.write a (storeScanRsp payload)
  | (none, m) => m

/-! ## consolidate_tracked_data -/

/-- `number_to_send` and `tail_pointer`, from `pos`. -/
def Heap.select (list : TrackedList) :
    Nat → Entry → Nat → Nat → Entry → Heap → Nat × Entry × Heap
  | 0, _, _, numberToSend, tailPointer, m => (numberToSend, tailPointer, m.hang)
  | fuel + 1, pos, msgRemainSize, numberToSend, tailPointer, m =>
    if pos = list.entry then (numberToSend, tailPointer, m)
    else if msgRemainSize > maxLengthRespDeviceInfo then
      let m := m.touch pos
      Heap.select list fuel (m.links.next pos) (chargeNode msgRemainSize (m.dev pos.slot))
        (numberToSend + 1) pos m
    else (numberToSend, tailPointer, m)

/-- The section that takes the selected nodes off the list. -/
def Heap.detach (m : Heap) (list : TrackedList) (msgRemainSize : Nat) :
    Nat × Entry × Entry × Heap :=
  let headPointer := m.links.next list.entry
  let (numberToSend, tailPointer, m) :=
    m.select list m.rounds headPointer msgRemainSize 0 headPointer
  let m := m.touch tailPointer
  (numberToSend, headPointer, tailPointer, m.link list.entry (m.links.next tailPointer))

/-- `init_entry(&local_list_head)` and the link to the first node. -/
def Heap.openLocal (m : Heap) (headPointer : Entry) : Heap :=
  (m.initEntry .localHead).link .localHead headPointer

def Heap.closeLocal (m : Heap) (tailPointer : Entry) : Heap := m.link tailPointer .localHead

/-- Both loops that only read the local list: the devices, from `pos`. -/
def Heap.visitLocal : Nat → Entry → Heap → List ScannedDevice × Heap
  | 0, _, m => ([], m.hang)
  | fuel + 1, pos, m =>
    if pos = .localHead then ([], m)
    else
      let m := m.touch pos
      let (nodes, m') := Heap.visitLocal fuel (m.links.next pos) m
      (m.dev pos.slot :: nodes, m')

/-- The end of the last loop's body: the node has been unlinked. -/
def Heap.release (list : TrackedList) (m : Heap) (a : Slot) : Heap :=
  match list with
  | .ble => m.free a
  | .br =>
    let m := m.access a
    if m.isIsolatedNode (.sc a) then m.free a else m

/-- The last loop, from `pos`. -/
def Heap.unlinkLocal (list : TrackedList) : Nat → Entry → Heap → Heap
  | 0, _, m => m.hang
  | fuel + 1, pos, m =>
    if pos = .localHead then m
    else
      let m := m.touch pos
      let save := m.links.next pos
      Heap.unlinkLocal list fuel save ((m.removeListNode pos).release list pos.slot)

def Heap.consolidateTrackedData (m : Heap) (list : TrackedList) (msgRemainSize : Nat) :
    Str × Heap :=
  let (numberToSend, headPointer, tailPointer, m) := m.detach list msgRemainSize
  if numberToSend = 0 then (listHeader list.deviceType 0, m)
  else
    let m := (m.openLocal headPointer).closeLocal tailPointer
    let (counted, m) := m.visitLocal m.rounds (m.links.next .localHead)
    let numberToSend := numberToSend - (counted.filter isDiscarded).length
    let (nodes, m) := m.visitLocal m.rounds (m.links.next .localHead)
    (listHeader list.deviceType numberToSend ++
        (nodes.filter fun d => !isDiscarded d).flatMap deviceRecord,
      m.unlinkLocal list m.rounds (m.links.next .localHead))

/-! ## handle_tracked_object_data -/

def Heap.handleTrackedObjectData (cfg : Config) (w : World) (m : Heap) : ErrorCode × Heap :=
  if m.isIsolatedNode .br ∧ m.isIsolatedNode .ble then (.workSuccessfully, m)
  else
    let message := basicInfoText cfg (w.clock m.readings)
    let m := m.tick
    if message.length > maxLengthRespBasicInfo then (.ePrepareResponseBasicInfo, m)
    else
      let (brText, m) := m.consolidateTrackedData .br (sizeT (wifiMessageLength - message.length))
      let message := message ++ brText
      let (bleText, m) := m.consolidateTrackedData .ble (sizeT (wifiMessageLength - message.length))
      let message := message ++ bleText
      (.workSuccessfully, { m with sent := m.sent ++ [message] }.tick)

/-! ## cleanup_lists -/

def Heap.cleanupNode (list : ListHead) (m : Heap) (a : Slot) : Heap :=
  match list with
  | .scanned =>
    let m := m.removeListNode (.sc a)
    (if m.isIsolatedNode (.tr a) then m else m.removeListNode (.tr a)).free a
  | .br =>
    let m := m.removeListNode (.tr a)
    (if m.isIsolatedNode (.sc a) then m else m.removeListNode (.sc a)).free a
  | .ble => (m.removeListNode (.tr a)).free a

/-- The loop, from `pos`. -/
def Heap.cleanupFrom (list : ListHead) : Nat → Entry → Heap → Heap
  | 0, _, m => m.hang
  | fuel + 1, pos, m =>
    if pos = .head (.shared list) then m
    else
      let m := m.touch pos
      let save := m.links.next pos
      Heap.cleanupFrom list fuel save (m.cleanupNode list pos.slot)

def Heap.cleanupLists (m : Heap) (list : ListHead) : Heap :=
  m.cleanupFrom list m.rounds (m.links.next (.head (.shared list)))

/-! ## Runs -/

def Heap.step (cfg : Config) (w : World) (m : Heap) : Op → Heap
  | .push deviceType args => m.sendToPushDongle w deviceType args
  | .scanRsp macAddress payload => m.sendToPushDongleScanRsp w macAddress payload
  | .check address list => (m.checkIsInList w address list).2
  | .poll => (m.handleTrackedObjectData cfg w).2
  | .cleanup list => m.cleanupLists list

def Heap.run (cfg : Config) (w : World) (ops : List Op) : Heap := ops.foldl (Heap.step cfg w) .init

end LBeacon
