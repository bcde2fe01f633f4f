import LBeacon.Intervals
import LBeacon.Simulation

/-!
# The shortcut of `check_is_in_list`

The BR_EDR loop tests no node behind the first one that timed out. New nodes are linked at the
front, so everything behind it is at least as old, and the loop does what testing each node does.
-/

open CText

namespace LBeacon

/-! ## Newest first -/

structure NewestFirst (w : World) (s : Tracker) : Prop where
  sorted : s.scannedList.Pairwise fun a b => s.initial b ≤ s.initial a
  past : ∀ a ∈ s.scannedList, ∀ j, s.readings ≤ j → s.initial a ≤ w.time j

section NewestFirst

variable {w : World} {s s' : Tracker}

theorem newestFirst_init (w : World) : NewestFirst w .init := by
  constructor <;> simp [Tracker.init]

theorem NewestFirst.sublist (h : NewestFirst w s) (hsub : s'.scannedList.Sublist s.scannedList)
    (hread : s.readings ≤ s'.readings) (hinit : s'.initial = s.initial) : NewestFirst w s' where
  sorted := by
    rw [hinit]
    exact h.sorted.sublist hsub
  past a ha j hj := by
    rw [hinit]
    exact h.past a (hsub.subset ha) j (by omega)

theorem NewestFirst.shrinks {freed : List Slot} (h : NewestFirst w s) (hshr : Shrinks s s' freed)
    (hread : s.readings ≤ s'.readings) : NewestFirst w s' := by
  apply h.sublist hshr.scanned hread
  unfold Tracker.initial
  rw [hshr.dev]

theorem initial_setDev {a : Slot} {d : ScannedDevice}
    (hd : d.initialScannedTime = (s.dev a).initialScannedTime) :
    (s.setDev a d).initial = s.initial := by
  funext x
  simp only [Tracker.initial, Tracker.setDev]
  split
  next hx => rw [hx, hd]
  next => rfl

theorem NewestFirst.updated (h : NewestFirst w s) (a : Slot) (now : Int32) (args : PushArgs) :
    NewestFirst w (s.updated a now args) :=
  h.sublist (List.Sublist.refl _) (Nat.le_succ _) (initial_setDev (s := s) rfl)

theorem NewestFirst.added (h : NewestFirst w s) (hs : Placed s) (hclock : w.Nondecreasing)
    (deviceType : DeviceType) {q : Pool} {a : Slot} (ha : a ∉ s.pool.outstanding)
    (args : PushArgs) :
    NewestFirst w (s.added q deviceType a (newDevice (w.clock s.readings) args)) := by
  have hself : (s.added q deviceType a (newDevice (w.clock s.readings) args)).initial a =
      w.time s.readings := by
    unfold Tracker.initial
    rw [added_dev]
    simp [newDevice, World.time]
  have hother : ∀ b ∈ s.scannedList,
      (s.added q deviceType a (newDevice (w.clock s.readings) args)).initial b = s.initial b := by
    intro b hb
    have hne : b ≠ a := by
      rintro rfl
      exact ha (hs.allocated b (Or.inl hb))
    unfold Tracker.initial
    rw [added_dev]
    simp [hne]
  have hreadings : (s.added q deviceType a (newDevice (w.clock s.readings) args)).readings =
      s.readings + 1 := by cases deviceType <;> rfl
  have hsorted : s.scannedList.Pairwise fun b c =>
      (s.added q deviceType a (newDevice (w.clock s.readings) args)).initial c ≤
        (s.added q deviceType a (newDevice (w.clock s.readings) args)).initial b := by
    apply h.sorted.imp_of_mem
    intro b c hb hc hle
    rw [hother b hb, hother c hc]
    exact hle
  have hpast : ∀ b ∈ s.scannedList, ∀ j, s.readings + 1 ≤ j →
      (s.added q deviceType a (newDevice (w.clock s.readings) args)).initial b ≤ w.time j := by
    intro b hb j hj
    rw [hother b hb]
    exact h.past b hb j (by omega)
  cases deviceType with
  | brEdr =>
    constructor
    · apply List.pairwise_cons.mpr ⟨_, hsorted⟩
      intro b hb
      rw [hself, hother b hb]
      exact h.past b hb _ (Nat.le_refl _)
    · rw [hreadings]
      intro b hb j hj
      rcases List.mem_cons.mp hb with rfl | hb
      · rw [hself]
        exact World.time_le hclock (by omega)
      · exact hpast b hb j hj
  | ble => exact ⟨hsorted, hpast⟩
  | maxType => exact ⟨hsorted, hpast⟩

theorem NewestFirst.pushNew (h : NewestFirst w s) (hs : Placed s) (hclock : w.Nondecreasing)
    (deviceType : DeviceType) (args : PushArgs) :
    NewestFirst w (pushFound w deviceType args (none, s)) := by
  rcases pushNew_cases w deviceType args s with ⟨q, -, -, heq⟩ | ⟨a, q, ha, -, -, heq⟩
  · rw [heq]
    exact ⟨h.sorted, h.past⟩
  · rw [heq]
    exact h.added hs hclock deviceType ha args

theorem NewestFirst.step (h : NewestFirst w s) (hs : Placed s) (hclock : w.Nondecreasing)
    {cfg : Config} {op : Op} (hstep : StepTo cfg w s op s') : NewestFirst w s' := by
  cases hstep with
  | looked _ n => exact h.sublist (List.Sublist.refl _) (Nat.le_add_right _ n) rfl
  | sighted deviceType args n a =>
    have hread : NewestFirst w { s with readings := s.readings + n } :=
      h.sublist (List.Sublist.refl _) (Nat.le_add_right _ n) rfl
    exact hread.updated a _ args
  | newBle args => exact h.pushNew hs hclock .ble args
  | newBr args kept gone hsplit =>
    have hshr := shrinks_evicted hs (kept.length + min gone.length 1) hsplit
    exact (h.shrinks hshr (Nat.le_add_right _ _)).pushNew (hs.shrinks hshr) hclock .brEdr args
  | responded => exact h.sublist (List.Sublist.refl _) (Nat.le_refl _) (initial_setDev rfl)
  | evicted address kept gone hsplit =>
    exact h.shrinks (shrinks_evicted hs _ hsplit) (Nat.le_add_right _ _)
  | polled => exact h.shrinks (shrinks_polled hs cfg w) (Nat.le_add_right _ 2)
  | cleaned list => exact h.shrinks (shrinks_list hs list) (Nat.le_refl _)

theorem newestFirst_run (cfg : Config) (hclock : w.Nondecreasing) (ops : List Op) :
    NewestFirst w (run cfg w ops) := by
  apply run_invariant (newestFirst_init w)
  intro pre op _ hs h
  exact h.step hs hclock (step_spec hs cfg w op)

end NewestFirst

/-! ## The loop without the shortcut -/

/-- Every node is tested, at a clock reading of its own. -/
def searchEach (w : World) (address : Str) : List Slot → Tracker → Option Slot × Tracker
  | [], s => (none, s)
  | a :: rest, s =>
    let now := w.clock s.readings
    let s := s.tick
    if timedOut now (s.dev a).initialScannedTime then searchEach w address rest (s.evict a)
    else if hasMac address (s.dev a) then (some a, s)
    else searchEach w address rest s

/-- The test that `searchEach` makes for a node of the scanned list. -/
def Tracker.Expired (s : Tracker) (w : World) (a : Slot) : Prop :=
  timedOut (w.clock (s.readings + s.scannedList.idxOf a)) (s.dev a).initialScannedTime

section Each

variable {w : World} {s : Tracker} {address : Str}

theorem timedOut_later (hclock : w.Nondecreasing) {i j : Nat} (hij : i ≤ j) {t u : Int32}
    (htu : u.toInt ≤ t.toInt) (h : timedOut (w.clock i) t) : timedOut (w.clock j) u := by
  have hlater := hclock i j hij
  unfold timedOut at h ⊢
  omega

theorem searchEach_evicts (w : World) (address : Str) (slots : List Slot) (s : Tracker)
    (hold : ∀ a ∈ slots, ∀ j, s.readings ≤ j →
      timedOut (w.clock j) (s.dev a).initialScannedTime) :
    searchEach w address slots s = (none, s.evicted slots slots.length) := by
  induction slots generalizing s with
  | nil => rfl
  | cons a rest ih =>
    have hdev : (s.tick.evict a).dev = s.dev := by
      unfold Tracker.evict
      dsimp only
      split <;> rfl
    have hreadings : (s.tick.evict a).readings = s.readings + 1 := by
      unfold Tracker.evict
      dsimp only
      split <;> rfl
    have hnow := hold a List.mem_cons_self s.readings (Nat.le_refl _)
    rw [searchEach]
    rw [if_pos (show timedOut (w.clock s.readings) (s.tick.dev a).initialScannedTime from hnow),
      ih, evicted_cons]
    · simp only [Tracker.evicted, Tracker.tick, List.length_cons, Prod.mk.injEq, true_and]
      congr 1
      omega
    · intro b hb j hj
      rw [hdev]
      exact hold b (List.mem_cons_of_mem a hb) j (by omega)

theorem searchEach_eq (hclock : w.Nondecreasing) (address : Str) (slots : List Slot) (s : Tracker)
    (hsorted : slots.Pairwise fun a b => s.initial b ≤ s.initial a) :
    ∃ readings, searchEach w address slots s =
      ((searchScanned w address slots false s).1,
        { (searchScanned w address slots false s).2 with readings }) := by
  induction slots generalizing s with
  | nil => exact ⟨s.readings, rfl⟩
  | cons a rest ih =>
    obtain ⟨hnewer, hrest⟩ := List.pairwise_cons.mp hsorted
    by_cases hold : timedOut (w.clock s.readings) (s.dev a).initialScannedTime
    · have hall := searchEach_evicts w address (a :: rest) s fun b hb j hj => by
        rcases List.mem_cons.mp hb with rfl | hb
        · exact timedOut_later hclock hj (Int.le_refl _) hold
        · exact timedOut_later hclock hj (hnewer b hb) hold
      have hshort := searchScanned_evicts w address (a :: rest) s.tick
      rw [searchScanned] at hshort
      rw [searchScanned]
      dsimp only
      rw [if_pos (show timedOut (w.clock s.readings) (s.tick.dev a).initialScannedTime from hold),
        hshort, hall]
      exact ⟨_, rfl⟩
    · rw [searchEach, searchScanned]
      dsimp only
      rw [if_neg (show ¬ timedOut (w.clock s.readings) (s.tick.dev a).initialScannedTime from hold),
        if_neg (show ¬ timedOut (w.clock s.readings) (s.tick.dev a).initialScannedTime from hold)]
      split
      · exact ⟨_, rfl⟩
      · exact ih s.tick hrest

end Each

/-! ## What a lookup does -/

/-- Of a call with the scanned list that returned `r`. A node is as old as at its own test. -/
structure LooksUp (w : World) (s : Tracker) (address : Str) (r : Option Slot × Tracker) : Prop where
  each : ∃ readings, searchEach w address s.scannedList s = (r.1, { r.2 with readings })
  found_iff : r.1 ≠ none ↔
    ∃ a ∈ s.scannedList, hasMac address (s.dev a) = true ∧ ¬ s.Expired w a
  returned : ∀ a, r.1 = some a →
    a ∈ r.2.scannedList ∧ hasMac address (s.dev a) = true ∧ ¬ s.Expired w a
  removed : ∀ a ∈ s.scannedList, a ∉ r.2.scannedList → s.Expired w a ∧
    timedOut (w.clock (r.2.readings - 1)) (s.dev a).initialScannedTime
  clean : r.1 = none → ∀ a ∈ r.2.scannedList, ¬ s.Expired w a
  scanned : r.2.scannedList.Sublist s.scannedList
  others : r.2.brObjectList = s.brObjectList ∧ r.2.bleObjectList = s.bleObjectList ∧
    r.2.dev = s.dev ∧ r.2.sent = s.sent
  freed : ∃ freed : List Slot, r.2.pool.frees = s.pool.frees ++ freed ∧ freed.Nodup ∧
    ∀ a, a ∈ freed ↔ a ∈ s.scannedList ∧ a ∉ r.2.scannedList ∧ a ∉ r.2.brObjectList

section LooksUp

variable {w : World} {s : Tracker} {address : Str}

theorem Tracker.Fresh.not_expired {pre post : List Slot} (h : s.Fresh w pre)
    (hsplit : s.scannedList = pre ++ post) {a : Slot} (ha : a ∈ pre) : ¬ s.Expired w a := by
  have hidx : s.scannedList.idxOf a = pre.idxOf a := by
    rw [hsplit, List.idxOf_append_of_mem ha]
  unfold Tracker.Expired
  rw [hidx]
  exact h _ a (List.getElem?_idxOf ha)

theorem behind_expired (hs : Placed s) (hclock : w.Nondecreasing) {kept gone : List Slot}
    (hsplit : s.scannedList = kept ++ gone)
    (hold : ∀ a ∈ gone, timedOut (w.clock (s.readings + kept.length)) (s.dev a).initialScannedTime)
    {a : Slot} (ha : a ∈ gone) : s.Expired w a := by
  have hnodup : (kept ++ gone).Nodup := hsplit ▸ hs.scanned_nodup
  have hnot : a ∉ kept := fun hk => (List.disjoint_of_nodup_append hnodup) hk ha
  unfold Tracker.Expired
  rw [hsplit, List.idxOf_append_of_notMem hnot]
  exact timedOut_later hclock (by omega) (Int.le_refl _) (hold a ha)

theorem evicted_frees (hs : Placed s) {kept gone : List Slot} (n : Nat)
    (hsplit : s.scannedList = kept ++ gone) :
    ∃ freed, (s.evicted gone n).pool.frees = s.pool.frees ++ freed ∧ freed.Nodup ∧
      ∀ a, a ∈ freed ↔ a ∈ s.scannedList ∧ a ∉ (s.evicted gone n).scannedList ∧
        a ∉ (s.evicted gone n).brObjectList := by
  have hnodup : (kept ++ gone).Nodup := hsplit ▸ hs.scanned_nodup
  refine ⟨gone.filter s.trIsolated, ?_, (shrinks_evicted hs n hsplit).nodup, fun a => ?_⟩
  · unfold Tracker.evicted
    rw [freeAll_frees]
  · rw [evicted_scannedList hs n hsplit, hsplit, List.mem_append, List.mem_filter,
      Tracker.trIsolated, decide_eq_true_eq]
    constructor
    · rintro ⟨ha, hbr, -⟩
      exact ⟨Or.inr ha, fun hk => (List.disjoint_of_nodup_append hnodup) hk ha, hbr⟩
    · rintro ⟨ha, hnot, hbr⟩
      have hgone := ha.resolve_left hnot
      refine ⟨hgone, hbr, fun hble => hs.ble_scanned a hble ?_⟩
      rw [hsplit]
      exact List.mem_append_right kept hgone

theorem NewestFirst.looksUp (h : NewestFirst w s) (hs : Placed s) (hclock : w.Nondecreasing)
    (address : Str) : LooksUp w s address (checkIsInList w s address .scanned) := by
  have heach := searchEach_eq hclock address s.scannedList s h.sorted
  unfold checkIsInList
  dsimp only
  rcases searchScanned_spec w address s.scannedList s with
    ⟨tested, a, rest, hsplit, hfresh, -, hmac, heq⟩ |
      ⟨kept, gone, hsplit, hfresh, hkept, hgone, heq⟩
  · rw [heq] at heach ⊢
    have hmem : a ∈ s.scannedList := by simp [hsplit]
    have hsplit' : s.scannedList = (tested ++ [a]) ++ rest := by simp [hsplit]
    have hyoung : ¬ s.Expired w a := hfresh.not_expired hsplit' (by simp)
    exact {
      each := heach
      found_iff := ⟨fun _ => ⟨a, hmem, hmac, hyoung⟩, fun _ => by simp⟩
      returned := fun b hb => by
        obtain rfl := Option.some.inj hb
        exact ⟨hmem, hmac, hyoung⟩
      removed := fun b hb hnot => absurd hb hnot
      clean := fun hnone => by simp at hnone
      scanned := List.Sublist.refl _
      others := ⟨rfl, rfl, rfl, rfl⟩
      freed := ⟨[], by simp, List.nodup_nil, fun b =>
        ⟨fun hb => absurd hb List.not_mem_nil, fun hb => absurd hb.1 hb.2.1⟩⟩ }
  · rw [heq] at heach ⊢
    have hleft := evicted_scannedList hs (kept.length + min gone.length 1) hsplit
    have hold := timedOut_behind h.sorted hsplit hgone
    have hexpired : ∀ a ∈ gone, s.Expired w a := fun a => behind_expired hs hclock hsplit hold
    have hyoung : ∀ a ∈ kept, ¬ s.Expired w a := fun a => hfresh.not_expired hsplit
    have hsplit_mem (a : Slot) : a ∈ s.scannedList ↔ a ∈ kept ∨ a ∈ gone := by
      rw [hsplit, List.mem_append]
    exact {
      each := heach
      found_iff := by
        refine ⟨fun hne => absurd rfl hne, ?_⟩
        rintro ⟨a, ha, hmac, hnot⟩
        rcases (hsplit_mem a).mp ha with ha | ha
        · rw [hkept a ha] at hmac
          exact absurd hmac Bool.false_ne_true
        · exact absurd (hexpired a ha) hnot
      returned := fun a ha => by simp at ha
      removed := fun a ha hnot => by
        rw [hleft] at hnot
        have hgone := ((hsplit_mem a).mp ha).resolve_left hnot
        have hlast : s.readings + (kept.length + min gone.length 1) - 1 =
            s.readings + kept.length := by
          have hpos := List.length_pos_of_mem hgone
          omega
        refine ⟨hexpired a hgone, ?_⟩
        unfold Tracker.evicted
        dsimp only
        rw [hlast]
        exact hold a hgone
      clean := fun _ a ha => by
        rw [hleft] at ha
        exact hyoung a ha
      scanned := (shrinks_evicted hs (kept.length + min gone.length 1) hsplit).scanned
      others := ⟨rfl, rfl, rfl, rfl⟩
      freed := evicted_frees hs _ hsplit }

end LooksUp

/-- With a clock that never goes back the scanned list is sorted in every reachable state, so
the lookup on the pointers does what testing each node does. -/
theorem eviction_shortcut (cfg : Config) {w : World} (hclock : w.Nondecreasing) (ops : List Op)
    (address : Str) :
    let s := run cfg w ops
    let r := checkIsInList w s address .scanned
    s.scannedList.Pairwise (fun a b => s.initial b ≤ s.initial a) ∧ LooksUp w s address r ∧
      ∃ L, (Heap.run cfg w ops).checkIsInList w address .scanned = (r.1, r.2.heap L) ∧
        r.2.Laid L := by
  intro s r
  have hplaced := placed_run cfg w ops
  have hnewest := newestFirst_run cfg hclock ops
  refine ⟨hnewest.sorted, hnewest.looksUp hplaced hclock address, ?_⟩
  obtain ⟨L, heq, hl⟩ := simulates cfg w ops
  rw [heq]
  exact hl.check hplaced w address .scanned

theorem eviction_shortcut_two :
    let ops := [tickSighting, .push .brEdr ⟨"AA:BB:CC:DD:EE:01".toList, -60, 0, 0, false, false, []⟩]
    let s := run tickConfig tickWorld ops
    let r := checkIsInList tickWorld s "AA:BB:CC:DD:EE:FF".toList .scanned
    (s.scannedList = [1, 0] ∧ r.1 = none ∧ r.2.scannedList = [1]) ∧
      s.scannedList.Pairwise (fun a b => s.initial b ≤ s.initial a) ∧
      LooksUp tickWorld s "AA:BB:CC:DD:EE:FF".toList r ∧
      ∃ L, (Heap.run tickConfig tickWorld ops).checkIsInList tickWorld
          "AA:BB:CC:DD:EE:FF".toList .scanned = (r.1, r.2.heap L) ∧ r.2.Laid L := by
  intro ops s r
  exact ⟨by decide +kernel, eviction_shortcut tickConfig tickWorld_nondecreasing ops _⟩

end LBeacon
