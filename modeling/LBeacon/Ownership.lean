import LBeacon.Budget
import LBeacon.Simulation

/-!
# Who owns a slot

A slot is handed out exactly while a list holds it: each operation frees the slots that leave
their last list, and links the one slot that it asked for. For a poll this rests on the room
that BR_EDR records leave in the message.
-/

open CText Rings

namespace LBeacon

/-! ## The room for a BLE node -/

/-- What `start_br_scanning` passes: it never asks for the payload. More than 32 bytes of it would
not fit into `hex_payload`. -/
def Op.FromScanner : Op → Prop
  | .push .brEdr args => args.isPayloadNeeded = true → args.payload.length ≤ 32
  | _ => True

/-- What a BR_EDR node can store. -/
structure Quiet (d : ScannedDevice) : Prop where
  mac : strlen d.scannedMacAddress ≤ lengthOfMacAddress
  payload : d.payload.length ≤ 32
  scanRsp : d.scanRsp = []

theorem Quiet.newDevice {args : PushArgs} (now : Int32)
    (h : args.isPayloadNeeded = true → args.payload.length ≤ 32) : Quiet (newDevice now args) := by
  refine ⟨?_, ?_, rfl⟩
  · have hle := (List.takeWhile_prefix (l := strncpy args.macAddress lengthOfMacAddress)
      (· ≠ NUL)).length_le
    exact hle.trans (List.length_take_le _ _)
  · unfold LBeacon.newDevice
    dsimp only
    split
    next hneed => exact h hneed
    next => exact Nat.zero_le _

theorem Quiet.update {d : ScannedDevice} {args : PushArgs} (hd : Quiet d) (now : Int32)
    (h : args.isPayloadNeeded = true → args.payload.length ≤ 32) :
    Quiet (updateDevice now args d) := by
  refine ⟨hd.mac, ?_, hd.scanRsp⟩
  unfold updateDevice
  dsimp only
  split
  next hneed => exact h hneed
  next => exact hd.payload

theorem Quiet.recordLength_le {d : ScannedDevice} (hd : Quiet d) :
    recordLength d + 13 ≤ charge d := by
  obtain ⟨hmac, hpayload, hrsp⟩ := hd
  have h1 := intText_int32_length d.initialScannedTime
  have h2 := intText_int32_length d.finalScannedTime
  have h3 := intText_int32_length d.rssi
  have h4 := intText_int32_length d.isButtonPressed
  have h5 := intText_int32_length d.batteryVoltage
  have hnone : d.scanRsp.length = 0 := by rw [hrsp]; rfl
  simp only [recordLength, charge, maxLengthRespDeviceInfo, lengthOfAdvertisement,
    lengthOfMacAddress] at *
  split <;> omega

theorem quiet_records {taken : List ScannedDevice} (hquiet : ∀ d ∈ taken, Quiet d) :
    Greedy.total printedLength taken + 13 * taken.length ≤ Greedy.total charge taken ∧
      Greedy.total printedLength taken ≤ 144 * taken.length := by
  induction taken with
  | nil => exact ⟨Nat.le_refl 0, Nat.le_refl 0⟩
  | cons d taken ih =>
    obtain ⟨h1, h2⟩ := ih fun e he => hquiet e (List.mem_cons_of_mem d he)
    have hd := hquiet d List.mem_cons_self
    have hrecord := hd.recordLength_le
    have hprinted : printedLength d ≤ recordLength d := by
      rw [printedLength]
      split
      · exact Nat.zero_le _
      · exact Nat.le_refl _
    have hcharge : charge d ≤ 157 := by
      have := hd.payload
      simp only [charge, maxLengthRespDeviceInfo, lengthOfAdvertisement]
      omega
    rw [Greedy.total_cons, Greedy.total_cons, List.length_cons]
    omega

/-- After quiet nodes there is room for one more node of any kind. -/
theorem quiet_text_leaves_room (list : TrackedList) {nodes : List ScannedDevice} {m : Nat}
    (hquiet : ∀ d ∈ nodes, Quiet d) (hm : 8064 ≤ m) (hmax : m < 2 ^ 32) :
    (consolidateText list.deviceType nodes m).length + maxLengthRespDeviceInfo < m := by
  have hp : ∀ d ∈ nodes, d.payload.length ≤ lengthOfAdvertisement := fun d hd =>
    (hquiet d hd).payload.trans (by decide)
  have htaken : Selects m nodes (nodes.take (numberToSend nodes m)) := (selects_iff hp hmax).mpr rfl
  rw [consolidateText_length list hp hmax htaken]
  generalize nodes.take (numberToSend nodes m) = taken at htaken
  have hspent := Greedy.total_lt 157 htaken (fun d hd => by
    have := (hquiet d hd).payload
    simp only [charge, maxLengthRespDeviceInfo, lengthOfAdvertisement]
    omega) (by simp only [maxLengthRespDeviceInfo]; omega)
  obtain ⟨hrecords, hshort⟩ := quiet_records fun d hd => hquiet d (htaken.front.subset hd)
  have hcount : printedCount taken ≤ taken.length := List.length_filter_le _ _
  have hheader : (intText (printedCount taken)).length ≤ 10 := by
    refine intText_length_le_of_nonneg _ 10 (by omega) (by omega) ?_
    simp only [maxLengthRespDeviceInfo] at hspent
    omega
  simp only [textLength, headerLength, maxLengthRespDeviceInfo] at *
  omega

/-- Every BR_EDR node is quiet. -/
def BrQuiet (s : Tracker) : Prop :=
  ∀ a, a ∈ s.scannedList ∨ a ∈ s.brObjectList → Quiet (s.dev a)

section Quiet

variable {s s' : Tracker}

theorem BrQuiet.shrinks (h : BrQuiet s) {freed : List Slot} (hshr : Shrinks s s' freed) :
    BrQuiet s' := by
  intro a ha
  rw [hshr.dev]
  exact h a (ha.imp (fun h => hshr.scanned.subset h) fun h => hshr.br.subset h)

theorem BrQuiet.setDev_ble (h : BrQuiet s) (hs : Placed s) {a : Slot} (ha : a ∈ s.bleObjectList)
    (d : ScannedDevice) : BrQuiet (s.setDev a d) := by
  intro b hb
  have hne : b ≠ a := by
    rintro rfl
    exact hb.elim (hs.ble_scanned b ha) (hs.ble_br b ha)
  exact (congrArg Quiet (if_neg hne)).mpr (h b hb)

theorem BrQuiet.pushNew (h : BrQuiet s) (hs : Placed s) (w : World) (deviceType : DeviceType)
    {args : PushArgs} (hargs : (Op.push deviceType args).FromScanner) :
    BrQuiet (pushFound w deviceType args (none, s)) := by
  rcases pushNew_cases w deviceType args s with ⟨q, -, -, heq⟩ | ⟨a, q, ha, -, -, heq⟩
  · rw [heq]
    exact h
  · rw [heq]
    intro b hb
    rw [added_dev]
    dsimp only
    have hold : b = a ∧ deviceType = .brEdr ∨ b ∈ s.scannedList ∨ b ∈ s.brObjectList := by
      cases deviceType with
      | brEdr =>
        have hmem : b ∈ a :: s.scannedList ∨ b ∈ s.brObjectList ++ [a] := hb
        simp only [List.mem_cons, List.mem_append, List.not_mem_nil, or_false] at hmem
        tauto
      | ble => exact Or.inr hb
      | maxType => exact Or.inr hb
    rcases hold with ⟨rfl, rfl⟩ | hold
    · rw [if_pos rfl]
      exact Quiet.newDevice _ hargs
    · have hne : b ≠ a := by
        rintro rfl
        exact ha (hs.allocated b (hold.imp_right Or.inl))
      rw [if_neg hne]
      exact h b hold

theorem BrQuiet.step (h : BrQuiet s) (hs : Placed s) {cfg : Config} {w : World} {op : Op}
    (hop : op.FromScanner) (hstep : StepTo cfg w s op s') : BrQuiet s' := by
  cases hstep with
  | looked => exact h
  | sighted deviceType args n a ha =>
    rcases ha with ⟨rfl, ha⟩ | ⟨-, ha⟩
    · intro b hb
      by_cases hba : b = a
      · exact (congrArg Quiet (if_pos hba)).mpr ((h a (Or.inl ha)).update _ hop)
      · exact (congrArg Quiet (if_neg hba)).mpr (h b hb)
    · exact h.setDev_ble hs ha _
  | newBle args => exact h.pushNew hs w .ble hop
  | newBr args kept gone hsplit =>
    have hshr := shrinks_evicted hs (kept.length + min gone.length 1) hsplit
    exact (h.shrinks hshr).pushNew (hs.shrinks hshr) w .brEdr hop
  | responded macAddress payload a ha => exact h.setDev_ble hs ha _
  | evicted address kept gone hsplit => exact h.shrinks (shrinks_evicted hs _ hsplit)
  | polled => exact h.shrinks (shrinks_polled hs cfg w)
  | cleaned list => exact h.shrinks (shrinks_list hs list)

end Quiet

/-! ## What an operation frees and links -/

/-- Exactly the slots of `freed` leave their last list, and each goes back to the pool once. -/
structure Gives (s s' : Tracker) (freed : List Slot) : Prop where
  shrinks : Shrinks s s' freed
  exactly : ∀ a, s.Linked a → ¬ s'.Linked a → a ∈ freed

/-- Nothing is freed, and the only slot that may be linked is the one that was asked for. -/
inductive Takes (op : Op) (s s' : Tracker) : Prop where
  | nothing (hlists : s'.lists = s.lists) (hpool : s'.pool.outstanding = s.pool.outstanding)
      (hfrees : s'.pool.frees = s.pool.frees)
  | node (a : Slot) (deviceType : DeviceType) (args : PushArgs) (hop : op = .push deviceType args)
      (hfresh : a ∉ s.pool.outstanding) (hpool : s'.pool.outstanding = a :: s.pool.outstanding)
      (hfrees : s'.pool.frees = s.pool.frees)
      (hlists : s'.lists = s.lists.inserted deviceType a) (htype : deviceType ≠ .maxType)

def Handover (op : Op) (s s' : Tracker) : Prop :=
  ∃ mid freed, Gives s mid freed ∧ Takes op mid s'

section Handover

variable {s s' : Tracker} {a : Slot}

theorem gives_refl (s : Tracker) : Gives s s [] where
  shrinks :=
    ⟨List.Sublist.refl _, List.Sublist.refl _, List.Sublist.refl _, rfl, rfl, List.nodup_nil,
      fun _ h => absurd h List.not_mem_nil, fun _ h => absurd h List.not_mem_nil⟩
  exactly _ ha hgone := absurd ha hgone

theorem gives_evicted (hs : Placed s) {kept gone : List Slot} (n : Nat)
    (hsplit : s.scannedList = kept ++ gone) :
    Gives s (s.evicted gone n) (gone.filter s.trIsolated) := by
  refine ⟨shrinks_evicted hs n hsplit, fun a ha hgone => ?_⟩
  simp only [Tracker.Linked, not_or] at hgone
  obtain ⟨hsc, hbr, hble⟩ := hgone
  rw [evicted_scannedList hs n hsplit] at hsc
  rcases ha with ha | ha | ha
  · rw [hsplit] at ha
    refine List.mem_filter.mpr ⟨(List.mem_append.mp ha).resolve_left hsc, ?_⟩
    exact decide_eq_true ⟨hbr, hble⟩
  · exact absurd ha hbr
  · exact absurd ha hble

theorem gives_list (hs : Placed s) (list : ListHead) :
    Gives s (s.dropped (s.list list)) (s.list list) := by
  refine ⟨shrinks_list hs list, fun a ha hgone => ?_⟩
  by_contra hnot
  refine hgone (ha.imp (fun h => ?_) (Or.imp (fun h => ?_) fun h => ?_))
  · exact hs.scanned_nodup.mem_sdiff_iff.mpr ⟨h, hnot⟩
  · exact hs.br_nodup.mem_sdiff_iff.mpr ⟨h, hnot⟩
  · exact hs.ble_nodup.mem_sdiff_iff.mpr ⟨h, hnot⟩

theorem gives_cleanup (hs : Placed s) (list : ListHead) :
    Gives s (cleanupLists s list) (s.list list) := by
  rw [cleanupLists_eq hs]
  exact gives_list hs list

theorem Gives.trans {s'' : Tracker} {freed freed' : List Slot} (h : Gives s s' freed)
    (h' : Gives s' s'' freed') : Gives s s'' (freed ++ freed') where
  shrinks := by
    obtain ⟨hsc, hbr, hble, hdev, hpool, hnodup, hlinked, hunlinked⟩ := h.shrinks
    obtain ⟨hsc', hbr', hble', hdev', hpool', hnodup', hlinked', hunlinked'⟩ := h'.shrinks
    refine ⟨hsc'.trans hsc, hbr'.trans hbr, hble'.trans hble, hdev'.trans hdev, ?_, ?_, ?_, ?_⟩
    · rw [hpool', hpool, freeAll_append]
    · refine List.nodup_append.mpr ⟨hnodup, hnodup', ?_⟩
      rintro a ha b hb rfl
      exact hunlinked a ha (hlinked' a hb)
    · intro a ha
      rcases List.mem_append.mp ha with ha | ha
      · exact hlinked a ha
      · exact h.shrinks.linked_of_linked (hlinked' a ha)
    · intro a ha hnow
      rcases List.mem_append.mp ha with ha | ha
      · exact hunlinked a ha (h'.shrinks.linked_of_linked hnow)
      · exact hunlinked' a ha hnow
  exactly a ha hgone := by
    by_cases hmid : s'.Linked a
    · exact List.mem_append_right _ (h'.exactly a hmid hgone)
    · exact List.mem_append_left _ (h.exactly a ha hmid)

theorem linked_of_cleanups {s s₁ s₂ s₃ : Tracker} (h₁ : Gives s s₁ s.scannedList)
    (h₂ : Gives s₁ s₂ s₁.brObjectList) (h₃ : Gives s₂ s₃ s₂.bleObjectList) (a : Slot) :
    ¬ s₃.Linked a := by
  rintro (ha | ha | ha)
  · have ha₁ := h₂.shrinks.scanned.subset (h₃.shrinks.scanned.subset ha)
    exact h₁.shrinks.unlinked a (h₁.shrinks.scanned.subset ha₁) (Or.inl ha₁)
  · have ha₂ := h₃.shrinks.br.subset ha
    exact h₂.shrinks.unlinked a (h₂.shrinks.br.subset ha₂) (Or.inr (Or.inl ha₂))
  · exact h₃.shrinks.unlinked a (h₃.shrinks.ble.subset ha) (Or.inr (Or.inr ha))

/-- With room for one node, a poll moves exactly the nodes that it cuts off. -/
theorem moved_or_kept (cfg : Config) (w : World) (list : TrackedList)
    (hroom : s.nodes list ≠ [] → 0 < pollCount cfg w s list) (ha : a ∈ s.tracked list) :
    a ∈ pollMoved cfg w s list ∨ a ∈ pollKept cfg w s list := by
  have hne : s.nodes list ≠ [] := by
    intro h
    rw [List.map_eq_nil_iff.mp h] at ha
    exact List.not_mem_nil ha
  rw [pollMoved, pollKept, max_eq_left (hroom hne), ← List.mem_append, List.take_append_drop]
  exact ha

theorem gives_polled (hs : Placed s) (cfg : Config) (w : World)
    (hroom : ∀ list, s.nodes list ≠ [] → 0 < pollCount cfg w s list) :
    Gives s (s.polled cfg w) (pollFreed cfg w s) := by
  refine ⟨shrinks_polled hs cfg w, fun a ha hgone => ?_⟩
  simp only [Tracker.Linked, not_or] at hgone
  obtain ⟨hsc, hbr, hble⟩ := hgone
  refine List.mem_append.mpr ?_
  rcases ha with ha | ha | ha
  · exact absurd ha hsc
  · have hmoved := (moved_or_kept cfg w .br (hroom .br) ha).resolve_right hbr
    exact Or.inl (List.mem_filter.mpr ⟨hmoved, decide_eq_true hsc⟩)
  · exact Or.inr ((moved_or_kept cfg w .ble (hroom .ble) ha).resolve_right hble)

theorem poll_room {cfg : Config} {w : World} (hquiet : BrQuiet s)
    (hbasic : (basicInfo cfg w s).length ≤ maxLengthRespBasicInfo) (list : TrackedList)
    (hne : s.nodes list ≠ []) : 0 < pollCount cfg w s list := by
  have hbudget := brBudget_eq hbasic
  have hbounds : 8064 ≤ brBudget cfg w s ∧ brBudget cfg w s < 2 ^ 32 := by
    rw [hbudget]
    simp only [wifiMessageLength, maxLengthRespBasicInfo] at *
    omega
  have hnodes : ∀ d ∈ s.nodes .br, Quiet d := by
    intro d hd
    obtain ⟨a, ha, rfl⟩ := List.mem_map.mp hd
    exact hquiet a (Or.inr ha)
  have hroom := quiet_text_leaves_room .br hnodes hbounds.1 hbounds.2
  refine numberToSend_pos ?_ hne
  cases list with
  | br =>
    simp only [pollBudget, maxLengthRespDeviceInfo] at *
    omega
  | ble =>
    have hlt : (brText cfg w s).length < brBudget cfg w s :=
      Nat.lt_of_le_of_lt (Nat.le_add_right _ _) hroom
    rw [pollBudget, bleBudget_eq hbasic hlt]
    have htext : brText cfg w s = consolidateText TrackedList.br.deviceType (s.nodes .br)
      (brBudget cfg w s) := rfl
    rw [← htext] at hroom
    omega

theorem handover_of_gives {op : Op} {freed : List Slot} (h : Gives s s' freed) :
    Handover op s s' := ⟨s', freed, h, .nothing rfl rfl rfl⟩

theorem handover_same {op : Op} (hlists : s'.lists = s.lists) (hpool : s'.pool = s.pool) :
    Handover op s s' := ⟨s, [], gives_refl s, .nothing hlists (by rw [hpool]) (by rw [hpool])⟩

theorem takes_pushNew (w : World) {deviceType : DeviceType} (htype : deviceType ≠ .maxType)
    (args : PushArgs) (s : Tracker) :
    Takes (.push deviceType args) s (pushFound w deviceType args (none, s)) := by
  rcases pushNew_cases w deviceType args s with
    ⟨q, hpool, hfrees, heq⟩ | ⟨a, q, ha, hpool, hfrees, heq⟩
  · rw [heq]
    exact .nothing rfl hpool hfrees
  · rw [heq]
    have hq : (s.added q deviceType a (newDevice (w.clock s.readings) args)).pool = q := by
      cases deviceType <;> rfl
    exact .node a deviceType args rfl ha (by rw [hq]; exact hpool) (by rw [hq]; exact hfrees)
      (lists_added ..) htype

theorem handover_step (hs : Placed s) (hquiet : BrQuiet s) {cfg : Config} {w : World} {op : Op}
    (hstep : StepTo cfg w s op s') : Handover op s s' := by
  cases hstep with
  | looked => exact handover_same rfl rfl
  | sighted => exact handover_same rfl rfl
  | newBle args => exact ⟨s, [], gives_refl s, takes_pushNew w DeviceType.noConfusion args s⟩
  | newBr args kept gone hsplit =>
    exact ⟨_, _, gives_evicted hs _ hsplit, takes_pushNew w DeviceType.noConfusion args _⟩
  | responded => exact handover_same rfl rfl
  | evicted address kept gone hsplit => exact handover_of_gives (gives_evicted hs _ hsplit)
  | polled hfits => exact handover_of_gives (gives_polled hs cfg w (poll_room hquiet hfits))
  | cleaned list => exact handover_of_gives (gives_list hs list)

/-! ## Owned slots -/

/-- The device type that a slot in use stands for. -/
def Tracker.slotType (s : Tracker) (a : Slot) : DeviceType :=
  if a ∈ s.bleObjectList then .ble else .brEdr

/-- The rings are well formed, a slot is handed out exactly while it is in one of them, and
nothing that was not handed out has been accessed. -/
structure Owned (m : Heap) (s : Tracker) : Prop where
  scannedRing : IsRing m.links .scanned (s.scannedList.map .sc)
  brRing : IsRing m.links .br (s.brObjectList.map .tr)
  bleRing : IsRing m.links .ble (s.bleObjectList.map .tr)
  pool : m.pool = s.pool
  linked_iff : ∀ a, a ∈ m.pool.outstanding ↔ s.Linked a
  ble : ∀ a ∈ m.pool.outstanding, s.slotType a = .ble →
    a ∈ s.bleObjectList ∧ a ∉ s.scannedList ∧ a ∉ s.brObjectList
  brEdr : ∀ a ∈ m.pool.outstanding, s.slotType a = .brEdr →
    a ∉ s.bleObjectList ∧ (a ∈ s.scannedList ∨ a ∈ s.brObjectList)
  sound : m.faults = []

/-- A slot keeps its type until it is freed, and gets the type of the push that asks for it. -/
structure KeepsTypes (op : Op) (s mid s' : Tracker) : Prop where
  kept : ∀ a ∈ mid.pool.outstanding, s'.slotType a = s.slotType a
  fresh : ∀ a ∈ s'.pool.outstanding, a ∉ mid.pool.outstanding →
    ∃ args, op = .push (s'.slotType a) args

theorem linked_iff_lists : s.Linked a ↔ ∃ list, a ∈ s.lists (.shared list) := by
  constructor
  · rintro (h | h | h)
    · exact ⟨.scanned, h⟩
    · exact ⟨.br, h⟩
    · exact ⟨.ble, h⟩
  · rintro ⟨_ | _ | _, h⟩
    · exact Or.inl h
    · exact Or.inr (Or.inl h)
    · exact Or.inr (Or.inr h)

theorem mem_inserted {lists : Lists} {deviceType : DeviceType} {b : Slot}
    (hb : ∃ list, b ∈ lists (.shared list)) :
    ∃ list, b ∈ lists.inserted deviceType a (.shared list) := by
  obtain ⟨list, hb⟩ := hb
  refine ⟨list, ?_⟩
  cases deviceType <;> cases list <;> simp_all [Lists.inserted, Function.update]

theorem self_mem_inserted (lists : Lists) {deviceType : DeviceType} (htype : deviceType ≠ .maxType) :
    ∃ list, a ∈ lists.inserted deviceType a (.shared list) := by
  cases deviceType with
  | ble => exact ⟨.ble, by simp [Lists.inserted]⟩
  | brEdr => exact ⟨.br, by simp [Lists.inserted]⟩
  | maxType => exact absurd rfl htype

theorem Gives.linked {mid : Tracker} {freed : List Slot} (h : Gives s mid freed)
    (hlinked : ∀ a ∈ s.pool.outstanding, s.Linked a) :
    ∀ a ∈ mid.pool.outstanding, mid.Linked a := by
  intro a ha
  rw [h.shrinks.pool, mem_freeAll] at ha
  by_contra hnot
  exact ha.2 (h.exactly a (hlinked a ha.1) hnot)

theorem Handover.linked {op : Op} (h : Handover op s s')
    (hlinked : ∀ a ∈ s.pool.outstanding, s.Linked a) : ∀ a ∈ s'.pool.outstanding, s'.Linked a := by
  obtain ⟨mid, freed, hgives, htakes⟩ := h
  have hmid := hgives.linked hlinked
  cases htakes with
  | nothing hlists hpool _ =>
    intro a ha
    rw [linked_iff_lists, hlists, ← linked_iff_lists]
    exact hmid a (hpool ▸ ha)
  | node a deviceType args hop hfresh hpool _ hlists htype =>
    intro b hb
    rw [hpool] at hb
    rw [linked_iff_lists, hlists]
    rcases List.mem_cons.mp hb with rfl | hb
    · exact self_mem_inserted _ htype
    · exact mem_inserted (linked_iff_lists.mp (hmid b hb))

theorem slotType_congr {b : Slot} (h : a ∈ s.bleObjectList ↔ b ∈ s'.bleObjectList) :
    s.slotType a = s'.slotType b := if_congr h rfl rfl

theorem Gives.slotType {mid : Tracker} {freed : List Slot} (h : Gives s mid freed) (hs : Placed s)
    (hmid : mid.Linked a) : mid.slotType a = s.slotType a := by
  refine slotType_congr ⟨fun ha => h.shrinks.ble.subset ha, fun ha => ?_⟩
  rcases hmid with hc | hc | hc
  · exact absurd (h.shrinks.scanned.subset hc) (hs.ble_scanned a ha)
  · exact absurd (h.shrinks.br.subset hc) (hs.ble_br a ha)
  · exact hc

theorem Takes.keepsTypes {op : Op} {mid : Tracker} (h : Takes op mid s') (hmid : Placed mid) :
    (∀ a ∈ mid.pool.outstanding, s'.slotType a = mid.slotType a) ∧
      ∀ a ∈ s'.pool.outstanding, a ∉ mid.pool.outstanding →
        ∃ args, op = .push (s'.slotType a) args := by
  cases h with
  | nothing hlists hpool _ =>
    have hble : s'.bleObjectList = mid.bleObjectList := congrFun hlists (.shared .ble)
    refine ⟨fun a _ => slotType_congr (by rw [hble]), fun a ha hnot => ?_⟩
    rw [hpool] at ha
    exact absurd ha hnot
  | node a deviceType args hop hfresh hpool _ hlists htype =>
    have hble : s'.bleObjectList = mid.lists.inserted deviceType a (.shared .ble) :=
      congrFun hlists (.shared .ble)
    have hout : a ∉ mid.bleObjectList := fun h => hfresh (hmid.allocated a (Or.inr (Or.inr h)))
    refine ⟨fun b hb => slotType_congr ?_, fun b hb hnot => ?_⟩
    · have hne : b ≠ a := by
        rintro rfl
        exact hfresh hb
      rw [hble]
      cases deviceType with
      | ble => simp [Lists.inserted, Tracker.lists, Tracker.list, hne]
      | brEdr => exact Iff.rfl
      | maxType => exact Iff.rfl
    · rw [hpool] at hb
      obtain rfl := (List.mem_cons.mp hb).resolve_right hnot
      have hkind : s'.slotType b = deviceType := by
        rw [Tracker.slotType, hble]
        cases deviceType with
        | ble => exact if_pos (by simp [Lists.inserted])
        | brEdr => exact if_neg hout
        | maxType => exact absurd rfl htype
      exact ⟨args, by rw [hkind]; exact hop⟩

/-- What one operation hands back and asks for. -/
def HandsOver (op : Op) (s s' : Tracker) : Prop :=
  ∃ mid freed, Gives s mid freed ∧ Takes op mid s' ∧ KeepsTypes op s mid s'

theorem Handover.handsOver {op : Op} (h : Handover op s s') (hs : Placed s)
    (hlinked : ∀ a ∈ s.pool.outstanding, s.Linked a) : HandsOver op s s' := by
  obtain ⟨mid, freed, hgives, htakes⟩ := h
  obtain ⟨hkept, hfresh⟩ := htakes.keepsTypes (hs.shrinks hgives.shrinks)
  refine ⟨mid, freed, hgives, htakes, fun a ha => ?_, hfresh⟩
  rw [hkept a ha]
  exact hgives.slotType hs (hgives.linked hlinked a ha)

/-! ## Runs -/

theorem owned_run (cfg : Config) (w : World) {ops : List Op} (hops : ∀ op ∈ ops, op.FromScanner) :
    BrQuiet (run cfg w ops) ∧
      ∀ a ∈ (run cfg w ops).pool.outstanding, (run cfg w ops).Linked a := by
  apply run_invariant (P := fun s => BrQuiet s ∧ ∀ a ∈ s.pool.outstanding, s.Linked a)
  · exact ⟨fun a ha => by simp [Tracker.init] at ha, fun a ha => absurd ha List.not_mem_nil⟩
  · rintro pre op hpre hplaced ⟨hquiet, hlinked⟩
    have hstep := step_spec hplaced cfg w op
    exact ⟨hquiet.step hplaced (hops op (Machine.mem_of_step hpre)) hstep,
      (handover_step hplaced hquiet hstep).linked hlinked⟩

end Handover

theorem owned_of_laid {s : Tracker} {L : Links Entry} (hs : Placed s) (hl : s.Laid L)
    (hlinked : ∀ a ∈ s.pool.outstanding, s.Linked a) : Owned (s.heap L) s where
  scannedRing := hl.arranged.family.isRing _ (shared_active .scanned)
  brRing := hl.arranged.family.isRing _ (shared_active .br)
  bleRing := hl.arranged.family.isRing _ (shared_active .ble)
  pool := rfl
  linked_iff a := ⟨hlinked a, hs.allocated a⟩
  ble a _ htype := by
    have ha : a ∈ s.bleObjectList := by
      by_contra hnot
      exact DeviceType.noConfusion ((if_neg hnot).symm.trans htype)
    exact ⟨ha, hs.ble_scanned a ha, hs.ble_br a ha⟩
  brEdr a ha htype := by
    have hnot : a ∉ s.bleObjectList := fun h =>
      DeviceType.noConfusion ((if_pos h).symm.trans htype)
    refine ⟨hnot, ?_⟩
    rcases hlinked a ha with h | h | h
    · exact Or.inl h
    · exact Or.inr h
    · exact absurd h hnot
  sound := rfl

/-- After every run the slots are owned, and every operation that may follow frees exactly the
slots that leave their last list, each once, and links the slot that it asked for. -/
theorem slots_owned (cfg : Config) (w : World) {ops : List Op}
    (hops : ∀ op ∈ ops, op.FromScanner) :
    Owned (Heap.run cfg w ops) (run cfg w ops) ∧
      ∀ op, HandsOver op (run cfg w ops) (run cfg w (ops ++ [op])) := by
  obtain ⟨hquiet, hlinked⟩ := owned_run cfg w hops
  have hplaced := placed_run cfg w ops
  obtain ⟨L, heq, hl⟩ := simulates cfg w ops
  rw [heq]
  refine ⟨owned_of_laid hplaced hl hlinked, fun op => ?_⟩
  rw [run_snoc]
  exact (handover_step hplaced hquiet (step_spec hplaced cfg w op)).handsOver hplaced hlinked

def ownershipConfig : Config := ⟨"0000".toList, "192.168.0.2".toList, -100, [], []⟩

def ownershipWorld : World := ⟨fun _ => 1600000000, some, some⟩

/-- A phone and a tag are seen, uploaded, and the phone is forgotten. -/
def ownershipOps : List Op :=
  [.push .brEdr ⟨"AA:BB:CC:DD:EE:01".toList, -60, 0, 0, false, false, []⟩,
    .push .ble ⟨"AA:BB:CC:DD:EE:02".toList, -70, 0, 3, true, false, [2, 1, 6]⟩,
    .poll, .cleanup .scanned]

theorem slots_owned_upload :
    (run ownershipConfig ownershipWorld ownershipOps).pool.frees = [1, 0] ∧
      Owned (Heap.run ownershipConfig ownershipWorld ownershipOps)
        (run ownershipConfig ownershipWorld ownershipOps) ∧
      ∀ op, HandsOver op (run ownershipConfig ownershipWorld ownershipOps)
        (run ownershipConfig ownershipWorld (ownershipOps ++ [op])) := by
  refine ⟨by decide +kernel, slots_owned ownershipConfig ownershipWorld ?_⟩
  intro op hop
  simp only [ownershipOps, List.mem_cons, List.not_mem_nil, or_false] at hop
  rcases hop with rfl | rfl | rfl | rfl
  · exact fun h => Bool.noConfusion h
  all_goals trivial

end LBeacon
