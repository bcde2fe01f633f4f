import LBeacon.Simulation

/-!
# Which nodes leave a tracked list

`consolidate_tracked_data` on any well-formed rings and for any budget: the nodes that leave,
what becomes of them, and when the list that is left is the right one.
-/

open CText Rings

namespace LBeacon

/-! ## The budget -/

/-- The three operations on `msg_remain_size` give what they give on integers. -/
def ExactCharge (m : Nat) (d : ScannedDevice) : Prop :=
  maxLengthRespDeviceInfo ≤ m ∧ d.payload.length ≤ lengthOfAdvertisement ∧
    m - maxLengthRespDeviceInfo + (lengthOfAdvertisement - d.payload.length) < 2 ^ 32 ∧
    chargeNode m d = m - maxLengthRespDeviceInfo + (lengthOfAdvertisement - d.payload.length)

/-- So in every round of the selecting loop. -/
def NeverWraps : List ScannedDevice → Nat → Prop
  | [], _ => True
  | d :: rest, m =>
    m > maxLengthRespDeviceInfo → ExactCharge m d ∧ NeverWraps rest (chargeNode m d)

theorem neverWraps {nodes : List ScannedDevice} {m : Nat}
    (hp : ∀ d ∈ nodes, d.payload.length ≤ lengthOfAdvertisement) (hmax : m < 2 ^ 32) :
    NeverWraps nodes m := by
  induction nodes generalizing m with
  | nil => trivial
  | cons d rest ih =>
    intro hm
    obtain ⟨hd, hrest⟩ := List.forall_mem_cons.mp hp
    have hcharge : ExactCharge m d := by
      unfold ExactCharge chargeNode sizeT
      unfold maxLengthRespDeviceInfo lengthOfAdvertisement at *
      omega
    refine ⟨hcharge, ih hrest ?_⟩
    obtain ⟨-, -, hlt, heq⟩ := hcharge
    rw [heq]
    exact hlt

/-! ## Well-formed lists -/

/-- The three rings, the local list closed. A BR_EDR node that is out of the scanned list has an
isolated scanned entry, and a BLE node was never in it. -/
structure WellFormed (m : Heap) (lists : Lists) : Prop where
  rings : Arranged m lists (· ≠ .localList) fun e => ∃ a ∈ lists (.shared .br), e = .sc a
  closed : lists .localList = []
  bleApart : ∀ a ∈ lists (.shared .ble), a ∉ lists (.shared .scanned)
  payloads : ∀ list : TrackedList, ∀ a ∈ lists list.head,
    (m.dev a).payload.length ≤ lengthOfAdvertisement

/-- The rings after a call that took the first `k` nodes. -/
def Lists.after (lists : Lists) (list : TrackedList) (k : Nat) : Lists :=
  Function.update lists list.head ((lists list.head).drop k)

/-- The first `k` nodes leave and the others stay, as one would have it. -/
structure SplitsAt (m : Heap) (lists : Lists) (list : TrackedList) (size k : Nat) : Prop where
  ring : WellFormed (m.consolidateTrackedData list size).2 (lists.after list k)
  unlinked : ∀ a ∈ (lists list.head).take k,
    (m.consolidateTrackedData list size).2.isIsolatedNode (.tr a) = true
  freed : (m.consolidateTrackedData list size).2.pool =
    freeAll m.pool (((lists list.head).take k).filter fun a => a ∉ lists (.shared .scanned))
  once : (((lists list.head).take k).filter fun a => a ∉ lists (.shared .scanned)).Nodup
  inside : (m.consolidateTrackedData list size).2.faults = m.faults
  printed : (m.consolidateTrackedData list size).1 =
    let nodes := (((lists list.head).take k).map m.dev).filter fun d => !isDiscarded d
    listHeader list.deviceType nodes.length ++ nodes.flatMap deviceRecord
  noWrap : NeverWraps ((lists list.head).map m.dev) size

variable {m : Heap} {lists : Lists}

theorem tracked_active (list : TrackedList) : list.head ≠ .localList := by
  cases list <;> exact Head.noConfusion

theorem WellFormed.bleApart_of (hm : WellFormed m lists) {list : TrackedList} (h : list = .ble) :
    ∀ a ∈ lists list.head, a ∉ lists (.shared .scanned) := by
  subst h
  exact hm.bleApart

theorem WellFormed.neverWraps (hm : WellFormed m lists) (list : TrackedList) {size : Nat}
    (hsize : size < 2 ^ 32) : NeverWraps ((lists list.head).map m.dev) size := by
  refine LBeacon.neverWraps ?_ hsize
  intro d hd
  obtain ⟨a, ha, rfl⟩ := List.mem_map.mp hd
  exact hm.payloads list a ha

theorem after_subset (lists : Lists) (list : TrackedList) (k : Nat) (h : Head) :
    ∀ a ∈ lists.after list k h, a ∈ lists h := by
  intro a ha
  unfold Lists.after at ha
  by_cases hh : h = list.head
  · rw [hh, Function.update_self] at ha
    rw [hh]
    exact List.mem_of_mem_drop ha
  · rwa [Function.update_of_ne hh] at ha

theorem WellFormed.notMem_after (hm : WellFormed m lists) {list : TrackedList} {k : Nat} {a : Slot}
    (ha : a ∈ (lists list.head).take k) (h : Head) :
    .tr a ∉ (lists.after list k).entries h := by
  have hentry : .tr a ∈ lists.entries list.head := by
    rw [← head_entry list]
    exact entry_mem_entries.mpr (List.mem_of_mem_take ha)
  intro hmem
  obtain ⟨b, hb, heq⟩ := List.mem_map.mp hmem
  have hold : .tr a ∈ lists.entries h := heq ▸ entry_mem_entries.mpr (after_subset lists list k h b hb)
  have hh : h = list.head :=
    hm.rings.family.eq_of_mem (List.mem_cons_of_mem _ hold) (List.mem_cons_of_mem _ hentry)
  rw [hh, head_entry, Entry.tr.injEq] at heq
  rw [hh, heq, Lists.after, Function.update_self] at hb
  have hnodup := hm.rings.nodup (tracked_active list)
  rw [← List.take_append_drop k (lists list.head), List.nodup_append] at hnodup
  exact hnodup.2.2 a ha a hb rfl

theorem WellFormed.after (hm : WellFormed m lists) (list : TrackedList) (k : Nat) {m' : Heap}
    (hdev : m'.dev = m.dev) {live : Entry → Prop}
    (hrings : Arranged m' (lists.after list k) (· ≠ .localList) live)
    (hlive : ∀ a ∈ lists.after list k (.shared .br), live (.sc a)) :
    WellFormed m' (lists.after list k) := by
  have hsub := after_subset lists list k
  refine ⟨hrings.mono (fun _ => id) ?_, ?_, ?_, ?_⟩
  · rintro e ⟨a, ha, rfl⟩
    exact hlive a ha
  · unfold Lists.after
    rw [Function.update_of_ne (tracked_active list).symm]
    exact hm.closed
  · intro a ha hsc
    exact hm.bleApart a (hsub _ a ha) (hsub _ a hsc)
  · intro list' a ha
    rw [hdev]
    exact hm.payloads list' a (hsub _ a ha)

/-! ## Enough budget, or nothing to send -/

theorem splits_of_room (hm : WellFormed m lists) (list : TrackedList) {size : Nat}
    (hsize : size < 2 ^ 32) (hroom : lists list.head = [] ∨ maxLengthRespDeviceInfo < size) :
    SplitsAt m lists list size (numberToSend ((lists list.head).map m.dev) size) := by
  -- The entries of this list count as initialised too: they are linked.
  let live : Entry → Prop := fun e =>
    (∃ a ∈ lists (.shared .br), e = .sc a) ∨ ∃ a ∈ lists list.head, e = .tr a
  have hrings : Arranged m lists (· ≠ .localList) live := by
    refine ⟨⟨hm.rings.family.isRing, hm.rings.family.apart, hm.rings.family.linked, ?_⟩,
      hm.rings.allocated⟩
    rintro e (hlive | ⟨a, ha, rfl⟩) hout
    · exact hm.rings.family.isolated e hlive hout
    · have hmem : list.head.entry a ∈ lists.entries list.head := entry_mem_entries.mpr ha
      rw [head_entry] at hmem
      exact absurd (List.mem_cons_of_mem _ hmem) (hout list.head)
  have hcount : lists list.head ≠ [] → 0 < numberToSend ((lists list.head).map m.dev) size :=
    fun hne => numberToSend_pos (hroom.resolve_left hne) (by simpa using hne)
  obtain ⟨L, heq, hafter⟩ := hrings.consolidate list (tracked_active list) (fun h => h rfl) hm.closed
    size hm.bleApart_of (fun h a ha => Or.inl ⟨a, by subst h; exact ha, rfl⟩) fun hzero a ha => by
      have hne : lists list.head ≠ [] := List.ne_nil_of_mem ha
      exact absurd hzero (hcount hne).ne'
  generalize hk : numberToSend ((lists list.head).map m.dev) size = k at *
  have hdrop : Function.update lists list.head ((lists list.head).drop (max k 1)) =
      lists.after list k := by
    unfold Lists.after
    by_cases hnil : lists list.head = []
    · rw [hnil, List.drop_nil, List.drop_nil]
    · rw [Nat.max_eq_left (hcount hnil)]
  rw [hdrop] at hafter
  have hnodup := hrings.nodup (tracked_active list)
  constructor
  · rw [heq]
    refine hm.after list k rfl hafter fun a ha => ?_
    exact Or.inl ⟨a, after_subset lists list k _ a ha, rfl⟩
  · intro a ha
    rw [heq]
    have hlive : live (.tr a) := Or.inr ⟨a, List.mem_of_mem_take ha, rfl⟩
    rw [hafter.isolated_iff hlive fun h => Entry.noConfusion]
    exact hm.notMem_after ha
  · rw [heq]
  · exact ((List.take_sublist k _).nodup hnodup).filter _
  · rw [heq]
  · rw [heq]
    unfold consolidateText
    rw [hk, List.map_take]
  · exact hm.neverWraps list hsize

/-! ## No budget for a node that is there -/

theorem consolidate_tight (hm : WellFormed m lists) {list : TrackedList} {size : Nat} {a : Slot}
    {rest : List Slot} (hlist : lists list.head = a :: rest)
    (hsize : size ≤ maxLengthRespDeviceInfo) :
    ∃ L, (m.consolidateTrackedData list size).2 = { m with links := L } ∧
      L.next (.head list.head) = (rest.map .tr).headD (.head list.head) ∧
      L.next (.tr a) = (rest.map .tr).headD (.head list.head) := by
  have hzero : numberToSend ((lists list.head).map m.dev) size = 0 := by
    rw [hlist, List.map_cons, numberToSend, if_neg (Nat.not_lt.mpr hsize)]
  obtain ⟨L, heq, -, hcut, -, hnext⟩ :=
    hm.rings.detach list (tracked_active list) hm.closed size
  rw [hzero, hlist, Nat.max_eq_right (Nat.zero_le 1), List.take_succ_cons,
    List.take_zero] at heq hnext
  rw [hzero, hlist] at hcut
  refine ⟨L, ?_, ?_, ?_⟩
  · unfold Heap.consolidateTrackedData
    rw [heq]
    rfl
  · have hfirst := hcut.next_head ⟨tracked_active list, tracked_active list⟩
    rw [Function.update_of_ne (tracked_active list), Function.update_self, head_entry] at hfirst
    exact hfirst
  · rw [entry_head]
    exact hnext (List.cons_ne_nil a [])

theorem not_splits_of_tight (hm : WellFormed m lists) {list : TrackedList} {size : Nat}
    (hne : lists list.head ≠ []) (hsize : size ≤ maxLengthRespDeviceInfo) (k : Nat) :
    ¬ SplitsAt m lists list size k := by
  intro h
  obtain ⟨a, rest, hlist⟩ := List.exists_cons_of_ne_nil hne
  obtain ⟨L, heq, hhead, hnode⟩ := consolidate_tight hm hlist hsize
  have hsecond : (rest.map Entry.tr).headD (.head list.head) ≠ .tr a := by
    have hnodup := hm.rings.nodup (tracked_active list)
    rw [hlist, List.nodup_cons] at hnodup
    cases rest with
    | nil => exact Entry.noConfusion
    | cons b rest =>
      rw [List.map_cons, List.headD_cons]
      rintro heq
      exact hnodup.1 (Entry.tr.inj heq ▸ List.mem_cons_self)
  have hring := h.ring.rings.next_head (tracked_active list)
  have hunlinked := h.unlinked a
  rw [heq] at hring hunlinked
  cases k with
  | zero =>
    -- The first node should still be there.
    rw [Lists.after, Function.update_self, hlist, List.drop_zero, head_entry] at hring
    exact hsecond (hhead.symm.trans hring)
  | succ k =>
    -- The first node should be isolated.
    rw [hlist, List.take_succ_cons] at hunlinked
    have hself : L.next (.tr a) = .tr a := of_decide_eq_true (hunlinked List.mem_cons_self)
    exact hsecond (hnode.symm.trans hself)

/-- A list is split as it should be when it is empty or there is budget for one node. -/
theorem consolidate_splits_iff (hm : WellFormed m lists) (list : TrackedList) {size : Nat}
    (hsize : size < 2 ^ 32) :
    (∃ k, SplitsAt m lists list size k) ↔
      lists list.head = [] ∨ maxLengthRespDeviceInfo < size := by
  constructor
  · rintro ⟨k, h⟩
    by_contra hother
    obtain ⟨hne, htight⟩ := not_or.mp hother
    exact not_splits_of_tight hm hne (Nat.not_lt.mp htight) k h
  · intro hroom
    exact ⟨_, splits_of_room hm list hsize hroom⟩

/-! ## Reached heaps -/

theorem wellFormed_run (cfg : Config) (w : World) (ops : List Op)
    (hp : ∀ list : TrackedList, ∀ a ∈ (run cfg w ops).lists list.head,
      ((run cfg w ops).dev a).payload.length ≤ lengthOfAdvertisement) :
    WellFormed (Heap.run cfg w ops) (run cfg w ops).lists := by
  obtain ⟨L, heq, hl⟩ := simulates cfg w ops
  rw [heq]
  refine ⟨hl.arranged.mono (fun _ => id) ?_, rfl, (placed_run cfg w ops).ble_scanned, hp⟩
  rintro e ⟨a, ha, rfl⟩
  exact ha

/-! ## One BLE node -/

def cutConfig : Config := ⟨[], [], -80, [], []⟩

def cutWorld : World := ⟨fun _ => 0, some, some⟩

def cutOps : List Op :=
  [.push .ble ⟨"AA:BB:CC:DD:EE:FF".toList, -50, 0, 0, false, false, []⟩]

theorem cut_lists (list : TrackedList) : (run cutConfig cutWorld cutOps).lists list.head =
    match list with
    | .br => []
    | .ble => [0] := by
  cases list <;> decide

theorem cut_wellFormed :
    WellFormed (Heap.run cutConfig cutWorld cutOps) (run cutConfig cutWorld cutOps).lists := by
  apply wellFormed_run
  intro list a ha
  rw [cut_lists] at ha
  cases list with
  | br => exact absurd ha List.not_mem_nil
  | ble =>
    rw [List.mem_singleton.mp ha]
    decide

theorem consolidate_splits_one : ∃ k, SplitsAt (Heap.run cutConfig cutWorld cutOps)
    (run cutConfig cutWorld cutOps).lists .ble 8000 k :=
  (consolidate_splits_iff cut_wellFormed .ble (by omega)).mpr (Or.inr (by decide))

/-- With no budget left no node is selected, the list loses its node, and no slot is freed. -/
theorem consolidate_loses_unselected :
    let m := Heap.run cutConfig cutWorld cutOps
    let lists := (run cutConfig cutWorld cutOps).lists
    let r := m.consolidateTrackedData .ble 100
    WellFormed m lists ∧ lists (.shared .ble) = [0] ∧
      numberToSend ((lists (.shared .ble)).map m.dev) 100 = 0 ∧
      r.1 = "1;0;".toList ∧ r.2.isIsolatedNode .ble = true ∧ r.2.pool.frees = [] ∧
      ¬ ∃ k, SplitsAt m lists .ble 100 k := by
  refine ⟨cut_wellFormed, cut_lists .ble, by decide, by decide, by decide, by decide, ?_⟩
  rintro ⟨k, hsplits⟩
  refine not_splits_of_tight cut_wellFormed ?_ (by decide) k hsplits
  rw [cut_lists]
  exact List.cons_ne_nil 0 []

end LBeacon
