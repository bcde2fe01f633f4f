import LBeacon.Ownership
import LBeacon.Reports
import LBeacon.TempPool

/-!
# Shutdown

The six lists of the beacon, the three allocators behind their nodes, and `cleanup_exit`.
-/

open CText

namespace LBeacon

/-! ## Nodes and allocators -/

inductive PoolName where
  | mempool
  | tempBleDeviceMempool
  deriving DecidableEq

/-- A node, under the allocator that it came from: a slot of one of the two pools, or a block of
`malloc`. -/
inductive Block where
  | device (a : Slot)
  | report (a : Slot)
  | rule (n : Nat)
  deriving DecidableEq

/-- What the beacon holds. A rule hangs on its list with its block, and `mallocs` blocks were
handed out so far. -/
structure Beacon where
  scanner : Scanner
  macPrefixList : List (Nat × PrefixRule)
  deviceNamePrefixList : List (Nat × DeviceNamePrefix)
  mallocs : Nat

def Beacon.init : Beacon := ⟨.init, [], [], 0⟩

/-! ## get_config -/

def Beacon.addMacPrefix (s : Beacon) (rule : PrefixRule) : Beacon :=
  { s with macPrefixList := s.macPrefixList ++ [(s.mallocs, rule)], mallocs := s.mallocs + 1 }

def Beacon.addDeviceNamePrefix (s : Beacon) (rule : DeviceNamePrefix) : Beacon :=
  { s with
    deviceNamePrefixList := s.deviceNamePrefixList ++ [(s.mallocs, rule)]
    mallocs := s.mallocs + 1 }

/-- The loops of `get_config` over the rules of the file. -/
def getConfig (cfg : Config) : Beacon :=
  cfg.deviceNamePrefixList.foldl .addDeviceNamePrefix
    (cfg.macPrefixList.foldl .addMacPrefix .init)

/-! ## Until shutdown -/

inductive BeaconEvent where
  | scan (event : ScanEvent)
  | list (op : Op)

def Beacon.setTracker (s : Beacon) (tracker : Tracker) : Beacon :=
  { s with scanner := { s.scanner with tracker } }

def Beacon.step (cfg : Config) (w : World) (s : Beacon) : BeaconEvent → Beacon
  | .scan event => { s with scanner := scanStep cfg w s.scanner event }
  | .list op => s.setTracker (LBeacon.step cfg w s.scanner.tracker op)

def Beacon.run (cfg : Config) (w : World) (events : List BeaconEvent) : Beacon :=
  events.foldl (Beacon.step cfg w) (getConfig cfg)

/-! ## cleanup_exit -/

inductive Release where
  | mpFree (pool : PoolName) (block : Block)
  | mpDestroy (pool : PoolName)
  | free (block : Block)
  deriving DecidableEq

/-- The calls so far, and the blocks that `mp_free` linked into the free list of a pool which they
are not from. -/
structure Exit where
  beacon : Beacon
  foreign : List Block
  releases : List Release

/-- The slots that the call passes to `mp_free`. -/
def Exit.cleanupLists (e : Exit) (list : ListHead) : Exit :=
  let before := e.beacon.scanner.tracker
  let after := LBeacon.cleanupLists before list
  let freed := after.pool.frees.drop before.pool.frees.length
  { e with
    beacon := e.beacon.setTracker after
    releases := e.releases ++ freed.map fun a => .mpFree .mempool (.device a) }

/-- One round of the loop over `mac_prefix_list_head`. `fits` says whether the block happens to lie
where the test in `mp_free` expects a slot. -/
def Exit.freeMacPrefix (fits : Nat → Bool) (e : Exit) (node : Nat × PrefixRule) : Exit :=
  { beacon := { e.beacon with macPrefixList := e.beacon.macPrefixList.erase node }
    foreign := if fits node.1 then e.foreign ++ [.rule node.1] else e.foreign
    releases := e.releases ++ [.mpFree .mempool (.rule node.1)] }

/-- One round of the loop over `temp_ble_device_list_head`. -/
def Exit.freeTempBleNode (e : Exit) (a : Slot) : Exit :=
  let scanner := e.beacon.scanner
  { e with
    beacon := { e.beacon with scanner := { scanner with
      tempBleDeviceList := scanner.tempBleDeviceList.erase a
      tempBleDeviceMempool := mpFree scanner.tempBleDeviceMempool a } }
    releases := e.releases ++ [.mpFree .tempBleDeviceMempool (.report a)] }

def Exit.mpDestroy (e : Exit) (pool : PoolName) : Exit :=
  { e with releases := e.releases ++ [.mpDestroy pool] }

def cleanupExit (fits : Nat → Bool) (s : Beacon) : Exit :=
  let e : Exit := ⟨s, [], []⟩
  let e := ((e.cleanupLists .scanned).cleanupLists .br).cleanupLists .ble
  let e := e.beacon.macPrefixList.foldl (.freeMacPrefix fits) e
  let e := e.mpDestroy .mempool
  let e := e.beacon.scanner.tempBleDeviceList.foldl .freeTempBleNode e
  e.mpDestroy .tempBleDeviceMempool

/-! ## What shutdown should do -/

/-- The pool handed the block out, and has not got it back. -/
def Beacon.Outstanding (s : Beacon) : PoolName → Block → Prop
  | .mempool, .device a => a ∈ s.scanner.tracker.pool.outstanding
  | .tempBleDeviceMempool, .report a => a ∈ s.scanner.tempBleDeviceMempool.outstanding
  | _, _ => False

/-- A block is passed to `mp_free` once, and before its pool is destroyed. -/
def Release.MayPrecede (x : Release) : Release → Prop
  | .mpFree pool block => x ≠ .mpFree pool block ∧ x ≠ .mpDestroy pool
  | _ => True

/-- Of the nodes of the beacon's lists. -/
structure ListsReturned (s : Beacon) (releases : List Release) : Prop where
  devices : ∀ pool a, .mpFree pool (.device a) ∈ releases → s.Outstanding pool (.device a)
  reports : ∀ pool a, .mpFree pool (.report a) ∈ releases → s.Outstanding pool (.report a)
  inTime : releases.Pairwise Release.MayPrecede
  linkedDevices : ∀ a, s.scanner.tracker.Linked a →
    releases.count (.mpFree .mempool (.device a)) = 1
  linkedReports : ∀ a ∈ s.scanner.tempBleDeviceList,
    releases.count (.mpFree .tempBleDeviceMempool (.report a)) = 1

def Beacon.ruleBlocks (s : Beacon) : List Nat :=
  s.macPrefixList.map Prod.fst ++ s.deviceNamePrefixList.map Prod.fst

/-- Of the rules. -/
structure RulesReturned (s : Beacon) (e : Exit) : Prop where
  noPool : ∀ pool n, .mpFree pool (.rule n) ∉ e.releases
  freed : ∀ n ∈ s.ruleBlocks, .free (.rule n) ∈ e.releases
  notForeign : ∀ n ∈ s.ruleBlocks, .rule n ∉ e.foreign

/-- Each node goes back to its own allocator. -/
def ReturnsAll (s : Beacon) (e : Exit) : Prop := ListsReturned s e.releases ∧ RulesReturned s e

/-! ## Reachable states -/

/-- The lists as `get_config` and the operations leave them. -/
structure Beacon.Ok (cfg : Config) (s : Beacon) : Prop where
  macs : s.macPrefixList.map Prod.snd = cfg.macPrefixList
  names : s.deviceNamePrefixList.map Prod.snd = cfg.deviceNamePrefixList
  fresh : (s.macPrefixList.map Prod.fst).Nodup
  placed : Placed s.scanner.tracker
  linked : LinkedAllocated s.scanner

theorem addMacPrefix_foldl (rules : List PrefixRule) (s : Beacon)
    (hold : ∀ n ∈ s.macPrefixList.map Prod.fst, n < s.mallocs)
    (hnodup : (s.macPrefixList.map Prod.fst).Nodup) :
    let s' := rules.foldl Beacon.addMacPrefix s
    s'.macPrefixList.map Prod.snd = s.macPrefixList.map Prod.snd ++ rules ∧
      (s'.macPrefixList.map Prod.fst).Nodup ∧ s'.scanner = s.scanner ∧
      s'.deviceNamePrefixList = s.deviceNamePrefixList := by
  induction rules generalizing s with
  | nil => exact ⟨(List.append_nil _).symm, hnodup, rfl, rfl⟩
  | cons rule rules ih =>
    have hnext := ih (s.addMacPrefix rule) ?_ ?_
    · obtain ⟨hmacs, hblocks, hscanner, hnames⟩ := hnext
      refine ⟨?_, hblocks, hscanner, hnames⟩
      rw [List.foldl_cons, hmacs]
      simp [Beacon.addMacPrefix]
    · intro n hn
      simp only [Beacon.addMacPrefix, List.map_append, List.mem_append, List.map_cons, List.map_nil,
        List.mem_singleton] at hn ⊢
      rcases hn with hn | rfl
      · exact Nat.lt_succ_of_lt (hold n hn)
      · exact Nat.lt_succ_self _
    · simp only [Beacon.addMacPrefix, List.map_append, List.map_cons, List.map_nil]
      rw [← List.concat_eq_append]
      exact hnodup.concat fun hn => absurd (hold _ hn) (Nat.lt_irrefl _)

theorem addDeviceNamePrefix_foldl (rules : List DeviceNamePrefix) (s : Beacon) :
    let s' := rules.foldl Beacon.addDeviceNamePrefix s
    s'.deviceNamePrefixList.map Prod.snd = s.deviceNamePrefixList.map Prod.snd ++ rules ∧
      s'.scanner = s.scanner ∧ s'.macPrefixList = s.macPrefixList := by
  induction rules generalizing s with
  | nil => exact ⟨(List.append_nil _).symm, rfl, rfl⟩
  | cons rule rules ih =>
    obtain ⟨hnames, hscanner, hmacs⟩ := ih (s.addDeviceNamePrefix rule)
    refine ⟨?_, hscanner, hmacs⟩
    rw [List.foldl_cons, hnames]
    simp [Beacon.addDeviceNamePrefix]

theorem getConfig_ok (cfg : Config) : (getConfig cfg).Ok cfg := by
  obtain ⟨hmacs, hblocks, hscanner, hnames⟩ := addMacPrefix_foldl cfg.macPrefixList .init
    (fun n hn => absurd hn List.not_mem_nil) List.nodup_nil
  obtain ⟨hnames', hscanner', hmacs'⟩ := addDeviceNamePrefix_foldl cfg.deviceNamePrefixList
    (cfg.macPrefixList.foldl .addMacPrefix .init)
  unfold getConfig
  constructor
  · rw [hmacs', hmacs]
    rfl
  · rw [hnames', hnames]
    rfl
  · rw [hmacs']
    exact hblocks
  · rw [hscanner', hscanner]
    exact placed_init
  · rw [hscanner', hscanner]
    exact ⟨fun a ha => absurd ha List.not_mem_nil, List.nodup_nil⟩

theorem placed_examineNode {cfg : Config} {w : World} {s : Scanner} (h : Placed s.tracker)
    (a : Slot) : Placed (examineNode cfg w s a).tracker := by
  rw [examineNode_tracker]
  unfold eventStep
  split
  · exact placed_step h cfg w _
  · exact h

theorem placed_scanStep {cfg : Config} {w : World} {s : Scanner} (h : Placed s.tracker)
    (event : ScanEvent) : Placed (scanStep cfg w s event).tracker := by
  cases event with
  | report info =>
    unfold scanStep startBleScanning
    dsimp only
    split
    · split <;> exact h
    · exact h
  | batch =>
    unfold scanStep examineScannedBleDevice
    dsimp only
    have hloop (slots : List Slot) {s : Scanner} (hs : Placed s.tracker) :
        Placed (slots.foldl (examineNode cfg w) s).tracker := by
      induction slots generalizing s with
      | nil => exact hs
      | cons a slots ih => exact ih (placed_examineNode hs a)
    exact hloop s.tempBleDeviceList (s := { s with tempBleDeviceList := [] }) h

theorem beaconStep_ok {cfg : Config} {w : World} {s : Beacon} (h : s.Ok cfg)
    (event : BeaconEvent) : (s.step cfg w event).Ok cfg := by
  obtain ⟨hmacs, hnames, hfresh, hplaced, hlinked⟩ := h
  cases event with
  | scan event =>
    exact ⟨hmacs, hnames, hfresh, placed_scanStep hplaced event,
      linkedAllocated_step cfg w s.scanner event hlinked⟩
  | list op =>
    exact ⟨hmacs, hnames, hfresh, placed_step hplaced cfg w op, ⟨hlinked.allocated, hlinked.nodup⟩⟩

theorem beaconRun_ok (cfg : Config) (w : World) (events : List BeaconEvent) :
    (Beacon.run cfg w events).Ok cfg := by
  apply Machine.foldl_invariant (getConfig_ok cfg)
  intro pre event _ h
  exact beaconStep_ok h event

/-! ## The calls of cleanup_exit -/

theorem exit_cleanupLists {e : Exit} (hs : Placed e.beacon.scanner.tracker) (list : ListHead) :
    let freed := e.beacon.scanner.tracker.list list
    let e' := e.cleanupLists list
    Gives e.beacon.scanner.tracker e'.beacon.scanner.tracker freed ∧
      e'.releases = e.releases ++ freed.map (fun a => .mpFree .mempool (.device a)) ∧
      e'.foreign = e.foreign ∧ e'.beacon.macPrefixList = e.beacon.macPrefixList ∧
      e'.beacon.scanner.tempBleDeviceList = e.beacon.scanner.tempBleDeviceList := by
  intro freed e'
  have hgives := gives_cleanup hs list
  refine ⟨hgives, ?_, rfl, rfl, rfl⟩
  unfold e' Exit.cleanupLists
  dsimp only
  rw [hgives.shrinks.pool, freeAll_frees, List.drop_left]

theorem freeMacPrefix_foldl (fits : Nat → Bool) (nodes : List (Nat × PrefixRule)) (e : Exit) :
    let e' := nodes.foldl (Exit.freeMacPrefix fits) e
    e'.releases = e.releases ++ nodes.map (fun node => .mpFree .mempool (.rule node.1)) ∧
      e'.beacon.scanner = e.beacon.scanner := by
  induction nodes generalizing e with
  | nil => exact ⟨(List.append_nil _).symm, rfl⟩
  | cons node nodes ih =>
    obtain ⟨hreleases, hscanner⟩ := ih (e.freeMacPrefix fits node)
    refine ⟨?_, hscanner⟩
    rw [List.foldl_cons, hreleases]
    simp [Exit.freeMacPrefix]

theorem freeTempBleNode_foldl (nodes : List Slot) (e : Exit) :
    let e' := nodes.foldl Exit.freeTempBleNode e
    e'.releases = e.releases ++ nodes.map (fun a => .mpFree .tempBleDeviceMempool (.report a)) ∧
      e'.foreign = e.foreign := by
  induction nodes generalizing e with
  | nil => exact ⟨(List.append_nil _).symm, rfl⟩
  | cons a nodes ih =>
    obtain ⟨hreleases, hforeign⟩ := ih (e.freeTempBleNode a)
    refine ⟨?_, hforeign⟩
    rw [List.foldl_cons, hreleases]
    simp [Exit.freeTempBleNode]

def freedDevice (a : Slot) : Release := .mpFree .mempool (.device a)

def freedRule (node : Nat × PrefixRule) : Release := .mpFree .mempool (.rule node.1)

def freedReport (a : Slot) : Release := .mpFree .tempBleDeviceMempool (.report a)

/-- All the calls, in order. -/
def exitCalls (devices : List Slot) (rules : List (Nat × PrefixRule)) (reports : List Slot) :
    List Release :=
  devices.map freedDevice ++ (rules.map freedRule ++
    (.mpDestroy .mempool :: (reports.map freedReport ++ [.mpDestroy .tempBleDeviceMempool])))

theorem cleanupExit_releases {s : Beacon} (hs : Placed s.scanner.tracker) (fits : Nat → Bool) :
    ∃ devices : List Slot, devices.Nodup ∧
      (∀ a, a ∈ devices ↔ s.scanner.tracker.Linked a) ∧
      (cleanupExit fits s).releases =
        exitCalls devices s.macPrefixList s.scanner.tempBleDeviceList ∧
      (s.macPrefixList = [] → (cleanupExit fits s).foreign = []) := by
  unfold cleanupExit
  set e₀ : Exit := ⟨s, [], []⟩ with he₀
  obtain ⟨hgives₁, hreleases₁, hforeign₁, hmacs₁, htemps₁⟩ := exit_cleanupLists (e := e₀) hs .scanned
  have hplaced₁ := hs.shrinks hgives₁.shrinks
  obtain ⟨hgives₂, hreleases₂, hforeign₂, hmacs₂, htemps₂⟩ := exit_cleanupLists hplaced₁ .br
  have hplaced₂ := hplaced₁.shrinks hgives₂.shrinks
  obtain ⟨hgives₃, hreleases₃, hforeign₃, hmacs₃, htemps₃⟩ := exit_cleanupLists hplaced₂ .ble
  set e₃ := ((e₀.cleanupLists .scanned).cleanupLists .br).cleanupLists .ble
  have hmacs : e₃.beacon.macPrefixList = s.macPrefixList := hmacs₃.trans (hmacs₂.trans hmacs₁)
  have htemps : e₃.beacon.scanner.tempBleDeviceList = s.scanner.tempBleDeviceList :=
    htemps₃.trans (htemps₂.trans htemps₁)
  have hforeign : e₃.foreign = [] := hforeign₃.trans (hforeign₂.trans hforeign₁)
  have hgives := (hgives₁.trans hgives₂).trans hgives₃
  obtain ⟨hrules, hscanner⟩ := freeMacPrefix_foldl fits e₃.beacon.macPrefixList e₃
  set e₄ := e₃.beacon.macPrefixList.foldl (Exit.freeMacPrefix fits) e₃
  obtain ⟨hreports, hforeign'⟩ := freeTempBleNode_foldl
    (e₄.mpDestroy .mempool).beacon.scanner.tempBleDeviceList (e₄.mpDestroy .mempool)
  refine ⟨_, hgives.shrinks.nodup, fun a => ⟨hgives.shrinks.linked a, fun ha => ?_⟩, ?_, ?_⟩
  · exact hgives.exactly a ha (linked_of_cleanups hgives₁ hgives₂ hgives₃ a)
  · have hlist : (e₄.mpDestroy .mempool).beacon.scanner.tempBleDeviceList =
        s.scanner.tempBleDeviceList := (congrArg Scanner.tempBleDeviceList hscanner).trans htemps
    have hbefore : (e₄.mpDestroy .mempool).releases = e₄.releases ++ [.mpDestroy .mempool] := rfl
    have hafter (e : Exit) : (e.mpDestroy .tempBleDeviceMempool).releases =
        e.releases ++ [.mpDestroy .tempBleDeviceMempool] := rfl
    rw [hafter, hreports, hbefore, hrules, hmacs, hlist, hreleases₃, hreleases₂, hreleases₁, he₀]
    simp only [exitCalls, List.map_append, List.append_assoc, List.nil_append, List.cons_append]
    rfl
  · intro hnil
    have hsame : e₄ = e₃ := by
      unfold e₄
      rw [hmacs, hnil]
      rfl
    exact hforeign'.trans ((congrArg Exit.foreign hsame).trans hforeign)

section ExitCalls

variable {devices reports : List Slot} {rules : List (Nat × PrefixRule)}

theorem freedDevice_mem_exitCalls {a : Slot} :
    freedDevice a ∈ exitCalls devices rules reports ↔ a ∈ devices := by
  simp [exitCalls, freedDevice, freedRule, freedReport]

theorem freedReport_mem_exitCalls {a : Slot} :
    freedReport a ∈ exitCalls devices rules reports ↔ a ∈ reports := by
  simp [exitCalls, freedDevice, freedRule, freedReport]

theorem device_of_exitCalls {pool : PoolName} {a : Slot}
    (h : .mpFree pool (.device a) ∈ exitCalls devices rules reports) :
    pool = .mempool ∧ a ∈ devices := by
  simpa [exitCalls, freedDevice, freedRule, freedReport, eq_comm, and_comm] using h

theorem report_of_exitCalls {pool : PoolName} {a : Slot}
    (h : .mpFree pool (.report a) ∈ exitCalls devices rules reports) :
    pool = .tempBleDeviceMempool ∧ a ∈ reports := by
  simpa [exitCalls, freedDevice, freedRule, freedReport, eq_comm, and_comm] using h

theorem rule_of_exitCalls {pool : PoolName} {n : Nat}
    (h : .mpFree pool (.rule n) ∈ exitCalls devices rules reports) : n ∈ rules.map Prod.fst := by
  simp only [exitCalls, freedDevice, freedRule, freedReport, List.mem_append, List.mem_map,
    List.mem_cons, List.not_mem_nil, Release.mpFree.injEq, reduceCtorEq, and_false,
    exists_false, or_false, false_or] at h
  obtain ⟨⟨m, rule⟩, hmem, -, heq⟩ := h
  rw [← Block.rule.inj heq]
  exact List.mem_map_of_mem hmem

theorem free_notMem_exitCalls {block : Block} : .free block ∉ exitCalls devices rules reports := by
  simp [exitCalls, freedDevice, freedRule, freedReport]

theorem exitCalls_nodup (hdevices : devices.Nodup) (hrules : (rules.map Prod.fst).Nodup)
    (hreports : reports.Nodup) : (exitCalls devices rules reports).Nodup := by
  have hdevice : Function.Injective freedDevice := fun a b heq => by
    unfold freedDevice at heq
    simpa using heq
  have hreport : Function.Injective freedReport := fun a b heq => by
    unfold freedReport at heq
    simpa using heq
  have hrule : (rules.map freedRule).Nodup := by
    have hblocks := hrules.map (f := fun n => Release.mpFree .mempool (.rule n))
      fun a b heq => by simpa using heq
    rwa [List.map_map] at hblocks
  unfold exitCalls
  refine List.nodup_append.mpr ⟨hdevices.map hdevice, List.nodup_append.mpr ⟨hrule,
    List.nodup_cons.mpr ⟨?_, List.nodup_append.mpr ⟨hreports.map hreport,
      List.nodup_singleton _, ?_⟩⟩, ?_⟩, ?_⟩
  · simp [freedReport]
  · rintro x hx y hy rfl
    obtain ⟨a, -, rfl⟩ := List.mem_map.mp hx
    simp [freedReport] at hy
  · rintro x hx y hy rfl
    obtain ⟨node, -, rfl⟩ := List.mem_map.mp hx
    simp [freedReport, freedRule] at hy
  · rintro x hx y hy rfl
    obtain ⟨a, -, rfl⟩ := List.mem_map.mp hx
    simp [freedReport, freedRule, freedDevice] at hy

theorem exitCalls_inTime : (exitCalls devices rules reports).Pairwise
    fun x y => ∀ pool block, y = .mpFree pool block → x ≠ .mpDestroy pool := by
  have hframe {l r : List Release} (hl : ∀ x ∈ l, ∀ pool, x ≠ .mpDestroy pool)
      (hr : r.Pairwise fun x y => ∀ pool block, y = .mpFree pool block → x ≠ .mpDestroy pool) :
      (l ++ r).Pairwise fun x y => ∀ pool block, y = .mpFree pool block → x ≠ .mpDestroy pool :=
    List.pairwise_append.mpr ⟨List.pairwise_of_forall_mem_list fun x hx _ _ pool _ _ => hl x hx pool,
      hr, fun x hx _ _ pool _ _ => hl x hx pool⟩
  unfold exitCalls
  refine hframe ?_ (hframe ?_ (List.pairwise_cons.mpr ⟨?_, hframe ?_ (List.pairwise_singleton _ _)⟩))
  · rintro x hx pool rfl
    simp [freedDevice] at hx
  · rintro x hx pool rfl
    simp [freedRule] at hx
  · rintro y hy pool block rfl
    simp only [freedReport, List.mem_append, List.mem_map, Release.mpFree.injEq, List.mem_singleton,
      reduceCtorEq, or_false] at hy
    obtain ⟨a, -, rfl, -⟩ := hy
    simp
  · rintro x hx pool rfl
    simp [freedReport] at hx

end ExitCalls

theorem lists_returned {s : Beacon} {cfg : Config} (h : s.Ok cfg) (fits : Nat → Bool) :
    ListsReturned s (cleanupExit fits s).releases := by
  obtain ⟨devices, hnodup, hlinked, hreleases, -⟩ := cleanupExit_releases h.placed fits
  rw [hreleases]
  have honce := exitCalls_nodup hnodup h.fresh h.linked.nodup
  constructor
  · intro pool a hmem
    obtain ⟨rfl, ha⟩ := device_of_exitCalls hmem
    exact h.placed.allocated a ((hlinked a).mp ha)
  · intro pool a hmem
    obtain ⟨rfl, ha⟩ := report_of_exitCalls hmem
    exact h.linked.allocated a ha
  · refine (honce.and exitCalls_inTime).imp fun {x y} hxy => ?_
    cases y with
    | mpFree pool block => exact ⟨hxy.1, hxy.2 pool block rfl⟩
    | mpDestroy pool => trivial
    | free block => trivial
  · intro a ha
    exact List.count_eq_one_of_mem honce (freedDevice_mem_exitCalls.mpr ((hlinked a).mpr ha))
  · intro a ha
    exact List.count_eq_one_of_mem honce (freedReport_mem_exitCalls.mpr ha)

/-- Shutdown gives each node on a list of the beacon back once, and in time, whatever the
configuration. All nodes go back to their own allocator exactly when there is no rule. -/
theorem shutdown_returns_iff (cfg : Config) (w : World) (fits : Nat → Bool)
    (events : List BeaconEvent) :
    let s := Beacon.run cfg w events
    let e := cleanupExit fits s
    ListsReturned s e.releases ∧
      (ReturnsAll s e ↔ cfg.macPrefixList = [] ∧ cfg.deviceNamePrefixList = []) := by
  intro s e
  have h : s.Ok cfg := beaconRun_ok cfg w events
  have hlists := lists_returned h fits
  obtain ⟨devices, -, -, hreleases, hforeign⟩ := cleanupExit_releases h.placed fits
  refine ⟨hlists, ?_⟩
  constructor
  · rintro ⟨-, -, hfreed, -⟩
    -- No block is passed to `free`.
    have hnone (n : Nat) : n ∉ s.ruleBlocks := by
      intro hn
      have hmem := hfreed n hn
      rw [hreleases] at hmem
      exact free_notMem_exitCalls hmem
    have hnil := List.eq_nil_iff_forall_not_mem.mpr hnone
    unfold Beacon.ruleBlocks at hnil
    rw [List.append_eq_nil_iff, List.map_eq_nil_iff, List.map_eq_nil_iff] at hnil
    rw [← h.macs, ← h.names, hnil.1, hnil.2]
    exact ⟨rfl, rfl⟩
  · rintro ⟨hmacs, hnames⟩
    have hmacs : s.macPrefixList = [] := List.map_eq_nil_iff.mp (h.macs.trans hmacs)
    have hnames : s.deviceNamePrefixList = [] := List.map_eq_nil_iff.mp (h.names.trans hnames)
    have hblocks : s.ruleBlocks = [] := by
      unfold Beacon.ruleBlocks
      rw [hmacs, hnames]
      rfl
    refine ⟨hlists, ?_, ?_, ?_⟩
    · intro pool n hmem
      rw [hreleases, hmacs] at hmem
      exact absurd (rule_of_exitCalls hmem) List.not_mem_nil
    · intro n hn
      rw [hblocks] at hn
      exact absurd hn List.not_mem_nil
    · intro n hn
      rw [hblocks] at hn
      exact absurd hn List.not_mem_nil

def ruleConfig : Config := ⟨[], [], -80, [⟨"C1:".toList, "C1".toList⟩], []⟩

/-- With one MAC rule its block, which `malloc` gave, is passed to `mp_free(&mempool, ..)`. -/
theorem rule_given_to_pool :
    let s := Beacon.run ruleConfig leakWorld []
    let e := cleanupExit (fun _ => true) s
    0 ∈ s.ruleBlocks ∧ .mpFree .mempool (.rule 0) ∈ e.releases ∧
      ¬ s.Outstanding .mempool (.rule 0) ∧ .free (.rule 0) ∉ e.releases ∧
      .rule 0 ∈ e.foreign ∧ ¬ ReturnsAll s e := by
  intro s e
  have hcall : .mpFree .mempool (.rule 0) ∈ e.releases := by decide
  exact ⟨by decide, hcall, id, by decide, by decide, fun h => h.2.noPool _ _ hcall⟩

end LBeacon
