import LBeacon.HealthReport
import LBeacon.Lib.Machine
import LBeacon.Lib.SlotMap

/-!
# The address map

The registry of gateways or beacons with the time of their last report. Its entries lie in arrays
of a fixed size, and a released one keeps its texts until it is taken again.
-/

open CText

namespace LBeacon

/-! ## Data -/

inductive AddressMapType where
  | gateway
  | lbeacon
  deriving DecidableEq

inductive MapCode where
  | workSuccessfully
  | eOpenFile
  deriving DecidableEq

@[irreducible] def maxNumberNodes : Nat := 4096
def lengthOfUuid : Nat := 33
def lengthOfApiVersion : Nat := 16

structure AddressMap where
  uuid : Str
  netAddress : Str
  apiVersion : Str

structure AddressMapArray where
  inUse : Fin maxNumberNodes → Bool
  lastReportedTimestamp : Fin maxNumberNodes → Int32
  addressMapList : Fin maxNumberNodes → AddressMap

/-! ## The operations -/

def initAddressMap (m : AddressMapArray) : AddressMapArray :=
  { m with
    addressMapList := fun _ => ⟨[], [], []⟩
    inUse := fun _ => false }

/-- `none` for -1. -/
def isInAddressMap (m : AddressMapArray) (type : AddressMapType) (identifer : Str) :
    Option (Fin maxNumberNodes) :=
  match type with
  | .gateway =>
    (List.finRange maxNumberNodes).find? fun n =>
      m.inUse n && strncmp (m.addressMapList n).netAddress identifer networkAddrLength = 0
  | .lbeacon =>
    (List.finRange maxNumberNodes).find? fun n =>
      m.inUse n && strncmp (m.addressMapList n).uuid identifer lengthOfUuid = 0

/-- Each `strncpy` copies as many characters as its source has, into a field of zeros. -/
def updateEntryInAddressMap (m : AddressMapArray) (index : Fin maxNumberNodes)
    (type : AddressMapType) (address uuid apiVersion : Str) (currentTime : Int32) :
    MapCode × AddressMapArray :=
  let m :=
    { m with
      inUse := Function.update m.inUse index true
      lastReportedTimestamp := Function.update m.lastReportedTimestamp index currentTime }
  let entry :=
    { m.addressMapList index with apiVersion := strncpy apiVersion (strlen apiVersion) }
  let entry :=
    match type with
    | .gateway => { entry with netAddress := strncpy address (strlen address) }
    | .lbeacon =>
      { entry with
        uuid := strncpy uuid (strlen uuid)
        netAddress := strncpy address (strlen address) }
  (.workSuccessfully, { m with addressMapList := Function.update m.addressMapList index entry })

def updateReportTimestampInAddressMap (m : AddressMapArray) (type : AddressMapType)
    (identifer : Str) (currentTime : Int32) : MapCode × AddressMapArray :=
  match isInAddressMap m type identifer with
  | none => (.workSuccessfully, m)
  | some index =>
    (.workSuccessfully,
      { m with
        lastReportedTimestamp := Function.update m.lastReportedTimestamp index currentTime })

/-- Each turn of the loop looks at its own entry alone. -/
def releaseNotUsedEntryFromAddressMap (m : AddressMapArray) (toleranceDuration : Int32)
    (currentTime : Int32) : MapCode × AddressMapArray :=
  (.workSuccessfully,
    { m with
      inUse := fun i =>
        if m.inUse i ∧ currentTime - m.lastReportedTimestamp i > toleranceDuration then false
        else m.inUse i })

/-- The entries that a dump has a line for. -/
def AddressMapArray.active (m : AddressMapArray) (toleranceDuration currentTime : Int32) :
    List (Fin maxNumberNodes) :=
  (List.finRange maxNumberNodes).filter fun i =>
    m.inUse i ∧ currentTime - m.lastReportedTimestamp i < toleranceDuration

/-- The new text of the file. `opens` are the answers of `fopen`. -/
def dumpIpOfActiveEntryFromAddressMap (opens : Nat → Bool) (m : AddressMapArray)
    (toleranceDuration currentTime : Int32) : MapCode × Option Str :=
  if (List.range fileOpenRetry).any opens then
    (.workSuccessfully, some ((m.active toleranceDuration currentTime).flatMap fun i =>
      cstr (m.addressMapList i).netAddress ++ ['\n']))
  else (.eOpenFile, none)

/-! ## What it stands for -/

structure MapEntry where
  address : Str
  version : Str
  time : Int32
  deriving DecidableEq

/-- What is registered under an identifier. -/
abbrev Registry : Type := Str → Option MapEntry

def Registry.register (r : Registry) (identifier : Str) (e : MapEntry) : Registry :=
  Function.update r identifier (some e)

def Registry.report (r : Registry) (identifier : Str) (now : Int32) : Registry :=
  match r identifier with
  | none => r
  | some e => Function.update r identifier (some { e with time := now })

/-- Entries that are older than the tolerance are released. -/
def Registry.release (r : Registry) (tolerance now : Int32) : Registry :=
  fun identifier => (r identifier).filter fun e => ¬ now - e.time > tolerance

/-! ## The entries of a map -/

def identifierLength : AddressMapType → Nat
  | .gateway => networkAddrLength
  | .lbeacon => lengthOfUuid

namespace AddressMapArray

variable {m : AddressMapArray} {type : AddressMapType} {r : Registry}

/-- The field that entries are looked up by. -/
def key (m : AddressMapArray) (type : AddressMapType) (i : Fin maxNumberNodes) : Str :=
  match type with
  | .gateway => (m.addressMapList i).netAddress
  | .lbeacon => (m.addressMapList i).uuid

def entry (m : AddressMapArray) (i : Fin maxNumberNodes) : MapEntry :=
  ⟨cstr (m.addressMapList i).netAddress, cstr (m.addressMapList i).apiVersion,
    m.lastReportedTimestamp i⟩

def slots (m : AddressMapArray) (type : AddressMapType) (i : Fin maxNumberNodes) :
    Option (Str × MapEntry) :=
  if m.inUse i then some (cstr (m.key type i), m.entry i) else none

/-- The map holds the registry, and each identifier ends within its field. -/
structure Keeps (m : AddressMapArray) (type : AddressMapType) (r : Registry) : Prop where
  short : ∀ i, m.inUse i = true → strlen (m.key type i) < identifierLength type
  holds : SlotMap.Holds (m.slots type) r

theorem slots_eq_some_iff {i : Fin maxNumberNodes} {k : Str} {e : MapEntry} :
    m.slots type i = some (k, e) ↔ m.inUse i = true ∧ cstr (m.key type i) = k ∧ m.entry i = e := by
  unfold slots
  split
  · next hused => simp only [hused, Option.some.injEq, Prod.mk.injEq, true_and]
  · next hused => simp only [hused, reduceCtorEq, false_and]

theorem isIn_eq (m : AddressMapArray) (type : AddressMapType) (identifer : Str) :
    isInAddressMap m type identifer = (List.finRange maxNumberNodes).find? fun n =>
      m.inUse n && strncmp (m.key type n) identifer (identifierLength type) = 0 := by
  cases type <;> rfl

theorem Keeps.matches_iff (h : m.Keeps type r) (identifer : Str) (i : Fin maxNumberNodes) :
    (m.inUse i && strncmp (m.key type i) identifer (identifierLength type) = 0) = true ↔
      m.slots type i = some (cstr identifer, m.entry i) := by
  rw [Bool.and_eq_true, decide_eq_true_eq, slots_eq_some_iff]
  constructor
  · rintro ⟨hused, heq⟩
    exact ⟨hused, (strncmp_eq_zero_of_lt (h.short i hused) identifer).mp heq, rfl⟩
  · rintro ⟨hused, heq, -⟩
    exact ⟨hused, (strncmp_eq_zero_of_lt (h.short i hused) identifer).mpr heq⟩

theorem Keeps.of_isIn (h : m.Keeps type r) {identifer : Str} {i : Fin maxNumberNodes}
    (hi : isInAddressMap m type identifer = some i) :
    m.slots type i = some (cstr identifer, m.entry i) := by
  rw [isIn_eq] at hi
  have hmatch := List.find?_some hi
  exact (h.matches_iff identifer i).mp hmatch

theorem Keeps.of_isIn_none (h : m.Keeps type r) {identifer : Str}
    (hnone : isInAddressMap m type identifer = none) (i : Fin maxNumberNodes) (e : MapEntry) :
    m.slots type i ≠ some (cstr identifer, e) := by
  intro hi
  rw [isIn_eq, List.find?_eq_none] at hnone
  have hentry : m.entry i = e := (slots_eq_some_iff.mp hi).2.2
  exact hnone i (List.mem_finRange i) ((h.matches_iff identifer i).mpr (hentry ▸ hi))

theorem Keeps.lookup (h : m.Keeps type r) (identifer : Str) :
    r (cstr identifer) = (isInAddressMap m type identifer).map m.entry := by
  cases hi : isInAddressMap m type identifer with
  | none => exact h.holds.eq_none (h.of_isIn_none hi)
  | some i => exact h.holds.entry.mpr ⟨i, h.of_isIn hi⟩

end AddressMapArray

/-! ## The operations on the registry -/

/-- The arguments of a registration. Each is shorter than the field that it comes to. -/
structure Registration where
  address : Str
  uuid : Str
  version : Str
  address_short : strlen address < networkAddrLength
  uuid_short : strlen uuid < lengthOfUuid
  version_short : strlen version < lengthOfApiVersion

def Registration.identifier (e : Registration) : AddressMapType → Str
  | .gateway => e.address
  | .lbeacon => e.uuid

theorem Registration.identifier_short (e : Registration) (type : AddressMapType) :
    strlen (e.identifier type) < identifierLength type := by
  cases type with
  | gateway => exact e.address_short
  | lbeacon => exact e.uuid_short

theorem strncpy_strlen (s : Str) : strncpy s (strlen s) = cstr s := List.take_length

namespace AddressMapArray

variable {m : AddressMapArray} {type : AddressMapType} {r : Registry}

theorem keeps_init (m : AddressMapArray) (type : AddressMapType) :
    (initAddressMap m).Keeps type fun _ => none :=
  ⟨(fun _ h => nomatch h), SlotMap.holds_empty⟩

/-- The call with the arguments of `e`. -/
def put (m : AddressMapArray) (type : AddressMapType) (index : Fin maxNumberNodes)
    (e : Registration) (now : Int32) : AddressMapArray :=
  (updateEntryInAddressMap m index type e.address e.uuid e.version now).2

theorem put_frame {e : Registration} {now : Int32} {index i : Fin maxNumberNodes}
    (hi : i ≠ index) :
    (m.put type index e now).inUse i = m.inUse i ∧
      (m.put type index e now).lastReportedTimestamp i = m.lastReportedTimestamp i ∧
      (m.put type index e now).addressMapList i = m.addressMapList i := by
  unfold put updateEntryInAddressMap
  simp only [Function.update_of_ne hi, and_self]

theorem put_self (m : AddressMapArray) (type : AddressMapType) (e : Registration) (now : Int32)
    (index : Fin maxNumberNodes) :
    (m.put type index e now).inUse index = true ∧
      (m.put type index e now).key type index = cstr (e.identifier type) ∧
      (m.put type index e now).entry index = ⟨cstr e.address, cstr e.version, now⟩ := by
  unfold put updateEntryInAddressMap key entry Registration.identifier
  cases type <;> simp only [Function.update_self, strncpy_strlen, cstr_cstr, and_self]

theorem slots_congr {m' : AddressMapArray} {i : Fin maxNumberNodes}
    (h : m'.inUse i = m.inUse i ∧ m'.lastReportedTimestamp i = m.lastReportedTimestamp i ∧
      m'.addressMapList i = m.addressMapList i) : m'.slots type i = m.slots type i := by
  unfold slots key entry
  rw [h.1, h.2.1, h.2.2]

theorem slots_put (m : AddressMapArray) (type : AddressMapType) (e : Registration) (now : Int32)
    (index : Fin maxNumberNodes) :
    (m.put type index e now).slots type = Function.update (m.slots type) index
      (some (cstr (e.identifier type), ⟨cstr e.address, cstr e.version, now⟩)) := by
  funext i
  by_cases hi : i = index
  · obtain ⟨hused, hkey, hentry⟩ := m.put_self type e now index
    rw [hi, Function.update_self, slots_eq_some_iff]
    exact ⟨hused, by rw [hkey, cstr_cstr], hentry⟩
  · rw [Function.update_of_ne hi, slots_congr (put_frame hi)]

theorem Keeps.put (h : m.Keeps type r) {e : Registration} {index : Fin maxNumberNodes}
    (hindex : SlotMap.Fits (m.slots type) index (cstr (e.identifier type))) (now : Int32) :
    (m.put type index e now).Keeps type
      (r.register (cstr (e.identifier type)) ⟨cstr e.address, cstr e.version, now⟩) := by
  refine ⟨fun i hused => ?_, ?_⟩
  · by_cases hi : i = index
    · have hshort := e.identifier_short type
      rw [hi, (m.put_self type e now index).2.1, strlen, cstr_cstr]
      exact hshort
    · obtain ⟨hused', -, hlist⟩ : (m.put type index e now).inUse i = m.inUse i ∧ _ ∧
          (m.put type index e now).addressMapList i = m.addressMapList i := put_frame hi
      have hkey : (m.put type index e now).key type i = m.key type i := by
        unfold key
        rw [hlist]
      rw [hkey]
      exact h.short i (hused' ▸ hused)
  · rw [slots_put]
    exact h.holds.put hindex _

theorem Keeps.report (h : m.Keeps type r) (identifer : Str) (now : Int32) :
    (updateReportTimestampInAddressMap m type identifer now).2.Keeps type
      (r.report (cstr identifer) now) := by
  have hlookup := h.lookup identifer
  unfold updateReportTimestampInAddressMap Registry.report
  cases hi : isInAddressMap m type identifer with
  | none =>
    rw [hlookup, hi]
    exact h
  | some index =>
    rw [hlookup, hi]
    have hslot := h.of_isIn hi
    refine ⟨h.short, ?_⟩
    have hslots : slots { m with
        lastReportedTimestamp := Function.update m.lastReportedTimestamp index now } type =
        Function.update (m.slots type) index
          (some (cstr identifer, { m.entry index with time := now })) := by
      funext i
      by_cases hne : i = index
      · obtain ⟨hused, hkey, -⟩ := slots_eq_some_iff.mp hslot
        rw [hne, Function.update_self, slots_eq_some_iff]
        refine ⟨hused, hkey, ?_⟩
        unfold entry
        simp only [Function.update_self]
      · rw [Function.update_of_ne hne]
        exact slots_congr ⟨rfl, Function.update_of_ne hne _ _, rfl⟩
    rw [hslots]
    exact h.holds.put (Or.inl ⟨_, hslot⟩) _

/-- An entry that is older than the tolerance. -/
def outdated (m : AddressMapArray) (tolerance now : Int32) (i : Fin maxNumberNodes) : Prop :=
  now - m.lastReportedTimestamp i > tolerance

instance (m : AddressMapArray) (tolerance now : Int32) (i : Fin maxNumberNodes) :
    Decidable (m.outdated tolerance now i) := inferInstanceAs (Decidable (_ > _))

theorem release_inUse (m : AddressMapArray) (tolerance now : Int32) (i : Fin maxNumberNodes) :
    (releaseNotUsedEntryFromAddressMap m tolerance now).2.inUse i = true ↔
      m.inUse i = true ∧ ¬ m.outdated tolerance now i := by
  unfold releaseNotUsedEntryFromAddressMap outdated
  dsimp only
  split
  · next h => simp only [Bool.false_eq_true, h.2, not_true, and_false]
  · next h =>
    constructor
    · exact fun hused => ⟨hused, fun hold => h ⟨hused, hold⟩⟩
    · exact And.left

theorem Keeps.release (h : m.Keeps type r) (tolerance now : Int32) :
    (releaseNotUsedEntryFromAddressMap m tolerance now).2.Keeps type
      (r.release tolerance now) := by
  have hinUse := m.release_inUse tolerance now
  refine ⟨fun i hused => h.short i ((hinUse i).mp hused).1, ?_⟩
  have hslots : (releaseNotUsedEntryFromAddressMap m tolerance now).2.slots type =
      fun i => (m.slots type i).filter fun e => ¬ now - e.2.time > tolerance := by
    funext i
    apply Option.ext
    rintro ⟨k, e⟩
    rw [slots_eq_some_iff, hinUse, Option.filter_eq_some_iff, slots_eq_some_iff,
      decide_eq_true_eq]
    constructor
    · rintro ⟨⟨hused, hnew⟩, hkey, rfl⟩
      exact ⟨⟨hused, hkey, rfl⟩, hnew⟩
    · rintro ⟨⟨hused, hkey, rfl⟩, hnew⟩
      exact ⟨⟨hused, hnew⟩, hkey, rfl⟩
  rw [hslots]
  exact h.holds.filter fun e => ¬ now - e.time > tolerance

end AddressMapArray

/-! ## Runs -/

/-- A call with its arguments and the time. `unused` is where a registration goes that
`is_in_Address_Map` does not find. -/
inductive MapCall where
  | init
  | update (e : Registration) (unused : Fin maxNumberNodes) (now : Int32)
  | report (identifer : Str) (now : Int32)
  | release (tolerance now : Int32)

/-- The index that the caller updates. -/
def AddressMapArray.indexFor (m : AddressMapArray) (type : AddressMapType) (e : Registration)
    (unused : Fin maxNumberNodes) : Fin maxNumberNodes :=
  (isInAddressMap m type (e.identifier type)).getD unused

def AddressMapArray.call (m : AddressMapArray) (type : AddressMapType) :
    MapCall → AddressMapArray
  | .init => initAddressMap m
  | .update e unused now => m.put type (m.indexFor type e unused) e now
  | .report identifer now => (updateReportTimestampInAddressMap m type identifer now).2
  | .release tolerance now => (releaseNotUsedEntryFromAddressMap m tolerance now).2

/-- What the call means. -/
def Registry.call (r : Registry) (type : AddressMapType) : MapCall → Registry
  | .init => fun _ => none
  | .update e _ now =>
    r.register (cstr (e.identifier type)) ⟨cstr e.address, cstr e.version, now⟩
  | .report identifer now => r.report (cstr identifer) now
  | .release tolerance now => r.release tolerance now

/-- The map, the registry that it should be, and the last call with the map in front of it. -/
structure MapRun where
  map : AddressMapArray
  registry : Registry
  last : Option (AddressMapArray × MapCall)

def MapRun.start (m : AddressMapArray) : MapRun := ⟨initAddressMap m, fun _ => none, none⟩

def MapRun.step (type : AddressMapType) (s : MapRun) (c : MapCall) : MapRun :=
  ⟨s.map.call type c, s.registry.call type c, some (s.map, c)⟩

/-- A new identifier comes to an entry that is not in use. -/
def MapCall.Valid (type : AddressMapType) (s : MapRun) : MapCall → Prop
  | .update e unused _ =>
    isInAddressMap s.map type (e.identifier type) = none → s.map.inUse unused = false
  | _ => True

/-- The entries that a call is about. -/
def MapCall.Concerns (type : AddressMapType) (m : AddressMapArray) (i : Fin maxNumberNodes) :
    MapCall → Prop
  | .init => True
  | .update e unused _ => i = m.indexFor type e unused
  | .report identifer _ => isInAddressMap m type identifer = some i
  | .release tolerance now => m.inUse i = true ∧ m.outdated tolerance now i

/-- The entry is as it was, in all three arrays. -/
def SameEntry (m m' : AddressMapArray) (i : Fin maxNumberNodes) : Prop :=
  m'.inUse i = m.inUse i ∧ m'.lastReportedTimestamp i = m.lastReportedTimestamp i ∧
    m'.addressMapList i = m.addressMapList i

/-- What the map promises after each call. -/
structure MapRun.IsRegistry (type : AddressMapType) (s : MapRun) : Prop where
  unique : ∀ i j, s.map.inUse i = true → s.map.inUse j = true →
    cstr (s.map.key type i) = cstr (s.map.key type j) → i = j
  found : ∀ identifer, (isInAddressMap s.map type identifer).isSome ↔
    (s.registry (cstr identifer)).isSome
  entry : ∀ identifer i, isInAddressMap s.map type identifer = some i →
    s.registry (cstr identifer) = some (s.map.entry i)
  others : ∀ m c, s.last = some (m, c) → ∀ i, ¬ c.Concerns type m i → SameEntry m s.map i
  dumped : ∀ m tolerance now, s.last = some (m, .release tolerance now) →
    ∀ i, s.map.inUse i = true ↔ i ∈ s.map.active tolerance now

/-- No entry in use is exactly as old as the tolerance of a release. -/
def MapCall.NoTie (s : MapRun) : MapCall → Prop
  | .release tolerance now =>
    ∀ i, s.map.inUse i = true → now - s.map.lastReportedTimestamp i ≠ tolerance
  | _ => True

section

variable {type : AddressMapType} {s : MapRun}

theorem fits_indexFor (h : s.map.Keeps type s.registry) {e : Registration}
    {unused : Fin maxNumberNodes} {now : Int32}
    (hvalid : (MapCall.update e unused now).Valid type s) :
    SlotMap.Fits (s.map.slots type) (s.map.indexFor type e unused)
      (cstr (e.identifier type)) := by
  unfold AddressMapArray.indexFor
  cases hi : isInAddressMap s.map type (e.identifier type) with
  | some i => exact Or.inl ⟨_, h.of_isIn hi⟩
  | none =>
    refine Or.inr ⟨?_, h.of_isIn_none hi⟩
    have hunused : s.map.inUse unused = false := hvalid hi
    unfold AddressMapArray.slots
    rw [Option.getD_none, hunused]
    rfl

theorem keeps_call (h : s.map.Keeps type s.registry) {c : MapCall} (hvalid : c.Valid type s) :
    (s.map.call type c).Keeps type (s.registry.call type c) := by
  cases c with
  | init => exact s.map.keeps_init type
  | update e unused now => exact h.put (fits_indexFor h hvalid) now
  | report identifer now => exact h.report identifer now
  | release tolerance now => exact h.release tolerance now

theorem call_frame (m : AddressMapArray) (type : AddressMapType) (c : MapCall)
    {i : Fin maxNumberNodes} (hi : ¬ c.Concerns type m i) : SameEntry m (m.call type c) i := by
  cases c with
  | init => exact absurd trivial hi
  | update e unused now => exact AddressMapArray.put_frame hi
  | report identifer now =>
    unfold AddressMapArray.call updateReportTimestampInAddressMap
    dsimp only
    cases hfound : isInAddressMap m type identifer with
    | none => exact ⟨rfl, rfl, rfl⟩
    | some index =>
      have hne : i ≠ index := fun heq => hi (heq ▸ hfound)
      exact ⟨rfl, Function.update_of_ne hne _ _, rfl⟩
  | release tolerance now => exact ⟨if_neg hi, rfl, rfl⟩

theorem mem_active {m : AddressMapArray} {tolerance now : Int32} {i : Fin maxNumberNodes} :
    i ∈ m.active tolerance now ↔
      m.inUse i = true ∧ now - m.lastReportedTimestamp i < tolerance := by
  unfold AddressMapArray.active
  rw [List.mem_filter, decide_eq_true_eq]
  exact and_iff_right (List.mem_finRange i)

theorem release_dumped_iff (m : AddressMapArray) (tolerance now : Int32) :
    let m' := (releaseNotUsedEntryFromAddressMap m tolerance now).2
    (∀ i, m'.inUse i = true ↔ i ∈ m'.active tolerance now) ↔
      ∀ i, m.inUse i = true → now - m.lastReportedTimestamp i ≠ tolerance := by
  intro m'
  have hinUse : ∀ i, m'.inUse i = true ↔ m.inUse i = true ∧ ¬ m.outdated tolerance now i :=
    m.release_inUse tolerance now
  have hsame : m'.lastReportedTimestamp = m.lastReportedTimestamp := rfl
  simp only [mem_active, hinUse, hsame, AddressMapArray.outdated]
  refine forall_congr' fun i => ?_
  constructor
  · intro h hused htie
    have hlt := (h.mp ⟨hused, htie ▸ Int32.lt_irrefl⟩).2
    exact Int32.lt_irrefl (htie ▸ hlt)
  · intro h
    constructor
    · rintro ⟨hused, hle⟩
      exact ⟨⟨hused, hle⟩, Int32.lt_of_le_of_ne (Int32.not_lt.mp hle) (h hused)⟩
    · exact fun hboth => hboth.1

theorem keeps_isRegistry_iff (h : s.map.Keeps type s.registry)
    (hothers : ∀ m c, s.last = some (m, c) → ∀ i, ¬ c.Concerns type m i → SameEntry m s.map i) :
    s.IsRegistry type ↔ ∀ m tolerance now, s.last = some (m, .release tolerance now) →
      ∀ i, s.map.inUse i = true ↔ i ∈ s.map.active tolerance now := by
  refine ⟨fun hreg => hreg.dumped, fun hdumped => ⟨fun i j hi hj hkey => ?_, fun identifer => ?_,
    fun identifer i hi => ?_, hothers, hdumped⟩⟩
  · exact h.holds.unique (AddressMapArray.slots_eq_some_iff.mpr ⟨hi, hkey, rfl⟩)
      (AddressMapArray.slots_eq_some_iff.mpr ⟨hj, rfl, rfl⟩)
  · rw [h.lookup, Option.isSome_map]
  · rw [h.lookup, hi, Option.map_some]

theorem step_isRegistry_iff {c : MapCall} (hvalid : c.Valid type s)
    (h : s.map.Keeps type s.registry) : (s.step type c).IsRegistry type ↔ c.NoTie s := by
  have hframe : ∀ m d, (s.step type c).last = some (m, d) → ∀ i, ¬ d.Concerns type m i →
      SameEntry m (s.step type c).map i := by
    intro m d hlast i hi
    obtain ⟨rfl, rfl⟩ := Prod.mk.inj (Option.some.inj hlast)
    exact call_frame s.map type c hi
  rw [keeps_isRegistry_iff (keeps_call h hvalid) hframe]
  cases c with
  | release tolerance now =>
    refine Iff.trans ?_ (release_dumped_iff s.map tolerance now)
    constructor
    · exact fun hall => hall s.map tolerance now rfl
    · intro hall m tolerance' now' hlast
      obtain ⟨-, heq⟩ := Prod.mk.inj (Option.some.inj hlast)
      obtain ⟨rfl, rfl⟩ := MapCall.release.inj heq
      exact hall
  | init | update | report =>
    exact iff_of_true (fun m tolerance now hlast => nomatch hlast) trivial

end

/-- In every run the map is the registry of the calls exactly when no release meets an entry in use
that is exactly as old as its tolerance. -/
theorem address_map_registry_iff (type : AddressMapType) (m : AddressMapArray)
    (calls : List MapCall)
    (hvalid : Machine.Along (MapRun.step type) (fun s c => c.Valid type s) (.start m) calls) :
    (∀ n, ((calls.take n).foldl (MapRun.step type) (.start m)).IsRegistry type) ↔
      Machine.Along (MapRun.step type) (fun s c => c.NoTie s) (.start m) calls := by
  have hkeeps : (MapRun.start m).map.Keeps type (MapRun.start m).registry := m.keeps_init type
  apply Machine.along_iff_of_invariant (I := fun s => s.map.Keeps type s.registry) _ hkeeps _ hvalid
  · exact fun s c hvalid h => ⟨keeps_call h hvalid, step_isRegistry_iff hvalid h⟩
  · exact (keeps_isRegistry_iff hkeeps fun m c hlast => nomatch hlast).mpr
      fun m tolerance now hlast => nomatch hlast

def aBeacon : Registration where
  address := "10.0.0.7".toList
  uuid := "00010015000000000010000000000000".toList
  version := "1.0".toList
  address_short := by decide
  uuid_short := by decide
  version_short := by decide

def firstNode : Fin maxNumberNodes := ⟨0, by unfold maxNumberNodes; decide⟩

def blankMap : AddressMapArray := ⟨fun _ => false, fun _ => 0, fun _ => ⟨[], [], []⟩⟩

/-- A beacon is registered at time 0, and a release comes at time 10. -/
def registerAndRelease (tolerance : Int32) : List MapCall :=
  [.update aBeacon firstNode 0, .release tolerance 10]

theorem registerAndRelease_valid (tolerance : Int32) :
    Machine.Along (MapRun.step .lbeacon) (fun s c => c.Valid .lbeacon s) (.start blankMap)
      (registerAndRelease tolerance) :=
  ⟨fun _ => rfl, trivial, trivial⟩

theorem address_map_registry_twenty :
    Machine.Along (MapRun.step .lbeacon) (fun s c => c.Valid .lbeacon s) (.start blankMap)
      (registerAndRelease 20) ∧
    ∀ n, (((registerAndRelease 20).take n).foldl (MapRun.step .lbeacon)
      (.start blankMap)).IsRegistry .lbeacon := by
  refine ⟨registerAndRelease_valid 20,
    (address_map_registry_iff .lbeacon blankMap _ (registerAndRelease_valid 20)).mpr
      ⟨trivial, fun i hused => ?_, trivial⟩⟩
  let index := (initAddressMap blankMap).indexFor .lbeacon aBeacon firstNode
  let m := (initAddressMap blankMap).put .lbeacon index aBeacon 0
  have hself := (initAddressMap blankMap).put_self .lbeacon aBeacon 0 index
  by_cases hi : i = index
  · have htime : m.lastReportedTimestamp i = 0 := by
      rw [hi]
      exact congrArg MapEntry.time hself.2.2
    show 10 - m.lastReportedTimestamp i ≠ 20
    rw [htime]
    decide
  · have hfree : m.inUse i = false := (AddressMapArray.put_frame hi).1
    exact absurd (hused.symm.trans hfree) (by decide)

/-- With a tolerance of 10 the entry stays in use, and a dump leaves it out. -/
theorem address_map_tie :
    Machine.Along (MapRun.step .lbeacon) (fun s c => c.Valid .lbeacon s) (.start blankMap)
      (registerAndRelease 10) ∧
    ¬ ∀ n, (((registerAndRelease 10).take n).foldl (MapRun.step .lbeacon)
      (.start blankMap)).IsRegistry .lbeacon := by
  refine ⟨registerAndRelease_valid 10, fun hall => ?_⟩
  let index := (initAddressMap blankMap).indexFor .lbeacon aBeacon firstNode
  let m := (initAddressMap blankMap).put .lbeacon index aBeacon 0
  have hself := (initAddressMap blankMap).put_self .lbeacon aBeacon 0 index
  have htime : m.lastReportedTimestamp index = 0 := congrArg MapEntry.time hself.2.2
  have htie : ¬ 10 - m.lastReportedTimestamp index > 10 := by
    rw [htime]
    decide
  have hused := (m.release_inUse 10 10 index).mpr ⟨hself.1, htie⟩
  have hlisted := ((hall 2).dumped m 10 10 rfl index).mp hused
  have hyoung : 10 - m.lastReportedTimestamp index < 10 := (mem_active.mp hlisted).2
  rw [htime] at hyoung
  exact absurd hyoung (by decide)

end LBeacon
