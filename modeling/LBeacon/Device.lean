import LBeacon.Lib.CText

/-!
# Devices, rules and what the program asks of its surroundings

The records of `LBeacon.h`, the two memory pools at the contract of `Mempool.h`, and the
clock. A byte pointer with its length is the list of those bytes.
-/

open CText

namespace LBeacon

/-! ## Constants -/

def lengthOfMacAddress : Nat := 18
def lengthOfAdvertisement : Nat := 65
def numberDigitsToCompare : Nat := 4
def maxLengthRespBasicInfo : Nat := 128
def maxLengthRespDeviceInfo : Nat := 190
def intervalForCleanupScannedListInSec : Int := 600
def wifiMessageLength : Nat := 8192
def lengthOfEpochTime : Nat := 11

/-! ## Records -/

inductive DeviceType where
  | brEdr
  | ble
  | maxType
  deriving DecidableEq

/-- The enumeration's number, as `%d` prints it. -/
def DeviceType.number : DeviceType → Nat
  | .brEdr => 0
  | .ble => 1
  | .maxType => 2

/-- `payload` and `scanRsp` hold the first `payload_length` and `scan_rsp_length` bytes of
their arrays, the only ones that are ever read. -/
structure ScannedDevice where
  scannedMacAddress : Str
  initialScannedTime : Int32
  finalScannedTime : Int32
  rssi : Int32
  isButtonPressed : Int32
  batteryVoltage : Int32
  payload : List UInt8
  isPayloadNeeded : Bool
  isScanRspNeeded : Bool
  scanRsp : List UInt8
  deriving DecidableEq

/-- A slot as `mp_alloc` hands it out. -/
def ScannedDevice.zeroed : ScannedDevice := ⟨[], 0, 0, 0, 0, 0, [], false, false, []⟩

/-- The arguments of `send_to_push_dongle` after the device type. -/
structure PushArgs where
  macAddress : Str
  rssi : Int32
  isButtonPressed : Int32
  batteryVoltage : Int32
  isPayloadNeeded : Bool
  isScanRspNeeded : Bool
  payload : List UInt8
  deriving DecidableEq

structure PrefixRule where
  rulePrefix : Str
  identifier : Str
  deriving DecidableEq

structure DeviceNamePrefix where
  rulePrefix : Str
  identifier : Str
  isPayloadNeeded : Bool
  isScanRspNeeded : Bool
  deriving DecidableEq

/-- The fields of `g_config` that the modelled functions read. -/
structure Config where
  uuid : Str
  localAddr : Str
  scanRssiCoverage : Int32
  macPrefixList : List PrefixRule
  deviceNamePrefixList : List DeviceNamePrefix

/-! ## Addresses -/

def compareMacAddress (address : Str) (node : ScannedDevice) (numberDigitsCompared : Nat) : Int :=
  let retVal := strncmp address node.scannedMacAddress numberDigitsCompared
  if retVal ≠ 0 then retVal
  else strncmp address node.scannedMacAddress (strlen address)

/-- The two calls that `check_is_in_list` makes for a node. -/
def hasMac (address : Str) (node : ScannedDevice) : Bool :=
  compareMacAddress address node numberDigitsToCompare = 0 &&
    compareMacAddress address node lengthOfMacAddress = 0

/-- A string that fits its `char[LENGTH_OF_MAC_ADDRESS]` with the terminator. -/
def FitsMac (s : Str) : Prop := strlen s < lengthOfMacAddress

theorem compareMacAddress_eq_zero (address : Str) (node : ScannedDevice) (n : Nat) :
    compareMacAddress address node n = 0 ↔
      strncmp address node.scannedMacAddress n = 0 ∧
        strncmp address node.scannedMacAddress (strlen address) = 0 := by
  simp only [compareMacAddress]
  split <;> simp_all

theorem hasMac_iff {address : Str} {node : ScannedDevice} (hn : FitsMac node.scannedMacAddress) :
    hasMac address node = true ↔ cstr address = cstr node.scannedMacAddress := by
  simp only [hasMac, Bool.and_eq_true, decide_eq_true_eq, compareMacAddress_eq_zero]
  constructor
  · rintro ⟨-, heq, -⟩
    -- The node's address ends within its field, so it is the one that bounds the comparison.
    have hswap : strncmp node.scannedMacAddress address lengthOfMacAddress = 0 := by
      rw [strncmp_eq_zero] at heq ⊢
      exact heq.symm
    exact ((strncmp_eq_zero_of_lt hn address).mp hswap).symm
  · intro heq
    simp only [strncmp_eq_zero, heq, and_self]

/-! ## Pools -/

abbrev Slot := Nat

/-- A pool at its documented contract: which slots are handed out, how often `mp_alloc` was
called, and the slots passed to `mp_free`, in order. -/
structure Pool where
  outstanding : List Slot
  calls : Nat
  frees : List Slot
  nodup : outstanding.Nodup

def Pool.empty : Pool := ⟨[], 0, [], List.nodup_nil⟩

/-- `mp_alloc`. `offer k` is the slot that the allocator would pick at call `k`, and `none`
when it has none. A slot still handed out is never picked. -/
def mpAlloc (offer : Nat → Option Slot) (p : Pool) : Option Slot × Pool :=
  match offer p.calls with
  | none => (none, { p with calls := p.calls + 1 })
  | some a =>
    if h : a ∈ p.outstanding then (none, { p with calls := p.calls + 1 })
    else (some a, ⟨a :: p.outstanding, p.calls + 1, p.frees, List.nodup_cons.mpr ⟨h, p.nodup⟩⟩)

def mpFree (p : Pool) (a : Slot) : Pool :=
  ⟨p.outstanding.erase a, p.calls, p.frees ++ [a], p.nodup.erase a⟩

@[simp] theorem mpFree_frees (p : Pool) (a : Slot) : (mpFree p a).frees = p.frees ++ [a] := rfl

theorem mem_mpFree {p : Pool} {a b : Slot} :
    b ∈ (mpFree p a).outstanding ↔ b ≠ a ∧ b ∈ p.outstanding := p.nodup.mem_erase_iff

theorem mpAlloc_cases (offer : Nat → Option Slot) (p : Pool) :
    (∃ q, mpAlloc offer p = (none, q) ∧ q.outstanding = p.outstanding ∧ q.frees = p.frees) ∨
    (∃ a q, mpAlloc offer p = (some a, q) ∧ a ∉ p.outstanding ∧
      q.outstanding = a :: p.outstanding ∧ q.frees = p.frees) := by
  unfold mpAlloc
  cases offer p.calls with
  | none => exact Or.inl ⟨_, rfl, rfl, rfl⟩
  | some a =>
    by_cases h : a ∈ p.outstanding
    · exact Or.inl ⟨_, dif_pos h, rfl, rfl⟩
    · exact Or.inr ⟨a, _, dif_neg h, h, rfl, rfl⟩

/-- What the program reads from outside: the `k`-th answer of `get_system_time`, and the
choices of the allocator behind each pool. -/
structure World where
  clock : Nat → Int32
  offer : Nat → Option Slot
  tempOffer : Nat → Option Slot

/-- A clock that never goes back. -/
def World.Nondecreasing (w : World) : Prop := ∀ i j, i ≤ j → (w.clock i).toInt ≤ (w.clock j).toInt

end LBeacon
