import LBeacon.Heap

/-!
# Threads over the lists

Any number of scanning threads, the communication thread and the timer. One step is a critical
section under `list_lock`, a call of the pool, or an access to one node between two of them.
-/

open CText Rings

namespace LBeacon

/-! ## Scanning threads -/

/-- What a scanning thread calls. -/
inductive Call where
  | push (deviceType : DeviceType) (args : PushArgs)
  | scanRsp (macAddress : Str) (payload : List UInt8)

def Call.macAddress : Call → Str
  | .push _ args => args.macAddress
  | .scanRsp macAddress _ => macAddress

/-- The list that the call passes to `check_is_in_list`. -/
def Call.searchList : Call → Option SearchList
  | .push .ble _ => some .ble
  | .push .brEdr _ => some .scanned
  | .push .maxType _ => none
  | .scanRsp _ _ => some .ble

abbrev Write := ScannedDevice → ScannedDevice

/-- `updateDevice`, field by field. -/
def updateWrites (now : Int32) (args : PushArgs) : List Write :=
  [fun d => { d with finalScannedTime := now },
    fun d => { d with isPayloadNeeded := args.isPayloadNeeded },
    fun d => { d with isScanRspNeeded := args.isScanRspNeeded }] ++
  (if args.isPayloadNeeded then [fun d => { d with payload := args.payload }] else []) ++
  (if args.isButtonPressed = 1 then [fun d => { d with isButtonPressed := args.isButtonPressed }]
    else []) ++
  [fun d => { d with batteryVoltage := args.batteryVoltage },
    fun d => if args.rssi > d.rssi then { d with rssi := args.rssi } else d]

/-- `newDevice`, field by field. -/
def newWrites (now : Int32) (args : PushArgs) : List Write :=
  [fun d => { d with initialScannedTime := now },
    fun d => { d with finalScannedTime := d.initialScannedTime },
    fun d => { d with rssi := args.rssi },
    fun d => { d with isButtonPressed := args.isButtonPressed },
    fun d => { d with batteryVoltage := args.batteryVoltage },
    fun d => { d with payload := [] },
    fun d => { d with isPayloadNeeded := args.isPayloadNeeded },
    fun d => { d with isScanRspNeeded := args.isScanRspNeeded }] ++
  (if args.isPayloadNeeded then [fun d => { d with payload := args.payload }] else []) ++
  [fun d => { d with scannedMacAddress := strncpy args.macAddress lengthOfMacAddress }]

theorem updateWrites_foldl (now : Int32) (args : PushArgs) (d : ScannedDevice) :
    (updateWrites now args).foldl (fun d f => f d) d = updateDevice now args d := by
  unfold updateWrites updateDevice
  by_cases hneed : args.isPayloadNeeded = true <;> by_cases hbutton : args.isButtonPressed = 1 <;>
    by_cases hrssi : args.rssi > d.rssi <;> simp [hneed, hbutton, hrssi]

theorem newWrites_foldl (now : Int32) (args : PushArgs) :
    (newWrites now args).foldl (fun d f => f d) .zeroed = newDevice now args := by
  unfold newWrites newDevice
  by_cases hneed : args.isPayloadNeeded = true <;> simp [hneed, ScannedDevice.zeroed]

/-- Where a scanning thread is. A new node has `todo` entries to initialise or fields to write,
and is linked at the end. -/
inductive ScanThread where
  | idle
  | looking (call : Call)
  | searching (call : Call) (list : SearchList)
  | found (call : Call) (a : Slot)
  | allocating (deviceType : DeviceType) (args : PushArgs)
  | created (deviceType : DeviceType) (args : PushArgs) (a : Slot) (todo : List Entry)
  | writing (a : Slot) (todo : List Write) (linkAs : Option DeviceType)

/-- After `check_is_in_list` returned. -/
def ScanThread.answered (call : Call) : Option Slot → ScanThread
  | some a => .found call a
  | none =>
    match call with
    | .push deviceType args => .allocating deviceType args
    | .scanRsp _ _ => .idle

def ScanThread.step (w : World) : ScanThread → Heap → ScanThread × Heap
  | .idle, m => (.idle, m)
  | .looking call, m =>
    match call.searchList with
    | none => (.idle, m)
    | some list =>
      (if m.isIsolatedNode list.entry then .answered call none else .searching call list, m)
  | .searching call list, m =>
    let (answer, m) := m.search w call.macAddress list
    (.answered call answer, m)
  | .found (.push _ args) a, m => (.writing a (updateWrites (w.clock m.readings) args) none, m.tick)
  | .found (.scanRsp _ payload) a, m =>
    (if (m.dev a).isScanRspNeeded then .writing a [fun d => { d with scanRsp := payload }] none
      else .idle, m.access a)
  | .allocating deviceType args, m =>
    match mpAlloc w.offer m.pool with
    | (none, pool) => (.idle, { m with pool })
    | (some a, pool) => (.created deviceType args a [.sc a, .tr a],
        { m with pool, dev := fun x => if x = a then .zeroed else m.dev x })
  | .created deviceType args a (entry :: todo), m =>
    (.created deviceType args a todo, m.initEntry entry)
  | .created deviceType args a [], m =>
    (.writing a (newWrites (w.clock m.readings) args) (some deviceType), m.tick)
  | .writing a (f :: todo) linkAs, m => (.writing a todo linkAs, m.write a f)
  | .writing _ [] none, m => (.idle, m)
  | .writing a [] (some deviceType), m => (.idle, m.insert deviceType a)

/-! ## The communication thread -/

/-- Where the communication thread is in `consolidate_tracked_data`. -/
inductive CommThread where
  | idle
  | detached (list : TrackedList) (headPointer tailPointer : Entry)
  | opened (list : TrackedList) (tailPointer : Entry)
  | counting (list : TrackedList) (pos : Entry)
  | printing (list : TrackedList) (pos : Entry)
  | advancing (list : TrackedList) (pos : Entry)
  | unlinking (list : TrackedList) (pos save : Entry)
  | releasing (list : TrackedList) (a : Slot) (save : Entry)

/-- The section that detaches the nodes. -/
def CommThread.enter (list : TrackedList) (msgRemainSize : Nat) (m : Heap) : CommThread × Heap :=
  match m.detach list msgRemainSize with
  | (0, _, _, m) => (.idle, m)
  | (_ + 1, headPointer, tailPointer, m) => (.detached list headPointer tailPointer, m)

def CommThread.step : CommThread → Heap → CommThread × Heap
  | .idle, m => (.idle, m)
  | .detached list headPointer tailPointer, m => (.opened list tailPointer, m.openLocal headPointer)
  | .opened list tailPointer, m =>
    let m := m.closeLocal tailPointer
    (.counting list (m.links.next .localHead), m)
  | .counting list pos, m =>
    if pos = .localHead then (.printing list (m.links.next .localHead), m)
    else (.counting list (m.links.next pos), m.touch pos)
  | .printing list pos, m =>
    if pos = .localHead then (.advancing list (m.links.next .localHead), m)
    else (.printing list (m.links.next pos), m.touch pos)
  | .advancing list pos, m =>
    if pos = .localHead then (.idle, m)
    else (.unlinking list pos (m.links.next pos), m.touch pos)
  | .unlinking list pos save, m => (.releasing list pos.slot save, m.removeListNode pos)
  | .releasing list a save, m => (.advancing list save, m.release list a)

/-! ## All threads -/

/-- With `k` scanning threads. -/
structure Threads (k : Nat) where
  heap : Heap
  scan : Fin k → ScanThread
  comm : CommThread

def Threads.init (k : Nat) : Threads k := ⟨.init, fun _ => .idle, .idle⟩

/-- Whose turn it is. `call` and `consolidate` start something in a thread that is idle. -/
inductive Turn (k : Nat) where
  | call (i : Fin k) (call : Call)
  | scan (i : Fin k)
  | consolidate (list : TrackedList) (msgRemainSize : Nat)
  | comm
  | cleanup (list : ListHead)

def Threads.step {k : Nat} (w : World) (s : Threads k) : Turn k → Threads k
  | .call i call =>
    match s.scan i with
    | .idle => { s with scan := Function.update s.scan i (.looking call) }
    | _ => s
  | .scan i =>
    let (thread, m) := (s.scan i).step w s.heap
    { s with heap := m, scan := Function.update s.scan i thread }
  | .consolidate list msgRemainSize =>
    match s.comm with
    | .idle =>
      let (comm, m) := CommThread.enter list msgRemainSize s.heap
      { s with heap := m, comm }
    | _ => s
  | .comm =>
    let (comm, m) := s.comm.step s.heap
    { s with heap := m, comm }
  | .cleanup list => { s with heap := s.heap.cleanupLists list }

def Threads.run {k : Nat} (w : World) (turns : List (Turn k)) : Threads k :=
  turns.foldl (Threads.step w) (.init k)

end LBeacon
