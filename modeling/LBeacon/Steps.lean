import LBeacon.Lib.Machine
import LBeacon.Poll
import Mathlib.Data.List.Nodup

/-!
# What each operation does to the lists

Every operation either only shortens lists and frees what it unlinked, or writes one device,
or links one fresh slot. From this, where a slot can be linked.
-/

open CText

namespace LBeacon

/-! ## Linked slots -/

def Tracker.Linked (s : Tracker) (a : Slot) : Prop :=
  a ∈ s.scannedList ∨ a ∈ s.brObjectList ∨ a ∈ s.bleObjectList

structure Placed (s : Tracker) : Prop where
  scanned_nodup : s.scannedList.Nodup
  br_nodup : s.brObjectList.Nodup
  ble_nodup : s.bleObjectList.Nodup
  ble_scanned : ∀ a ∈ s.bleObjectList, a ∉ s.scannedList
  ble_br : ∀ a ∈ s.bleObjectList, a ∉ s.brObjectList
  allocated : ∀ a, s.Linked a → a ∈ s.pool.outstanding

theorem placed_init : Placed .init := by
  constructor <;> simp [Tracker.init, Tracker.Linked]

/-- `s'` has the lists of `s`, some of them shorter, and `freed` went back to the pool. -/
structure Shrinks (s s' : Tracker) (freed : List Slot) : Prop where
  scanned : s'.scannedList.Sublist s.scannedList
  br : s'.brObjectList.Sublist s.brObjectList
  ble : s'.bleObjectList.Sublist s.bleObjectList
  dev : s'.dev = s.dev
  pool : s'.pool = freeAll s.pool freed
  nodup : freed.Nodup
  linked : ∀ a ∈ freed, s.Linked a
  unlinked : ∀ a ∈ freed, ¬ s'.Linked a

theorem Shrinks.linked_of_linked {s s' : Tracker} {freed : List Slot} (h : Shrinks s s' freed)
    {a : Slot} (ha : s'.Linked a) : s.Linked a := by
  rcases ha with ha | ha | ha
  · exact Or.inl (h.scanned.subset ha)
  · exact Or.inr (Or.inl (h.br.subset ha))
  · exact Or.inr (Or.inr (h.ble.subset ha))

theorem Placed.shrinks {s s' : Tracker} {freed : List Slot} (hs : Placed s)
    (h : Shrinks s s' freed) : Placed s' where
  scanned_nodup := h.scanned.nodup hs.scanned_nodup
  br_nodup := h.br.nodup hs.br_nodup
  ble_nodup := h.ble.nodup hs.ble_nodup
  ble_scanned a ha hc := hs.ble_scanned a (h.ble.subset ha) (h.scanned.subset hc)
  ble_br a ha hc := hs.ble_br a (h.ble.subset ha) (h.br.subset hc)
  allocated a ha := by
    rw [h.pool, mem_freeAll]
    refine ⟨hs.allocated a (h.linked_of_linked ha), ?_⟩
    intro hc
    exact h.unlinked a hc ha

theorem Placed.congr {s s' : Tracker} (hs : Placed s) (hsc : s'.scannedList = s.scannedList)
    (hbr : s'.brObjectList = s.brObjectList) (hble : s'.bleObjectList = s.bleObjectList)
    (hpool : s'.pool.outstanding = s.pool.outstanding) : Placed s' := by
  obtain ⟨h1, h2, h3, h4, h5, h6⟩ := hs
  constructor
  all_goals simp only [Tracker.Linked, hsc, hbr, hble, hpool] at *
  all_goals assumption

/-! ## check_is_in_list -/

/-- After the nodes of `gone` were evicted, and `n` clock readings. -/
def Tracker.evicted (s : Tracker) (gone : List Slot) (n : Nat) : Tracker :=
  { s with
    readings := s.readings + n
    scannedList := s.scannedList.diff gone
    pool := freeAll s.pool (gone.filter s.trIsolated) }

theorem evicted_cons (s : Tracker) (a : Slot) (rest : List Slot) (n : Nat) :
    (s.evict a).evicted rest n = s.evicted (a :: rest) n := by
  simp only [Tracker.evicted, Tracker.evict, List.filter_cons]
  split
  next h =>
    rw [if_pos (show s.trIsolated a = true from h)]
    simp only [Tracker.free, freeAll_cons, List.diff_cons]
    rfl
  next h =>
    rw [if_neg (show ¬ s.trIsolated a = true from h)]
    simp only [Tracker.unlinkSc, List.diff_cons]
    rfl

theorem searchScanned_evicts (w : World) (address : Str) (slots : List Slot) (s : Tracker) :
    searchScanned w address slots true s = (none, s.evicted slots 0) := by
  induction slots generalizing s with
  | nil => rfl
  | cons a rest ih => rw [searchScanned, ih, evicted_cons]

/-- Tested one after the other from now on, none of `slots` has timed out. -/
def Tracker.Fresh (s : Tracker) (w : World) (slots : List Slot) : Prop :=
  ∀ i a, slots[i]? = some a → ¬ timedOut (w.clock (s.readings + i)) (s.dev a).initialScannedTime

theorem fresh_nil (s : Tracker) (w : World) : s.Fresh w [] := by simp [Tracker.Fresh]

theorem fresh_cons {s : Tracker} {w : World} {a : Slot} {slots : List Slot}
    (ha : ¬ timedOut (w.clock s.readings) (s.dev a).initialScannedTime)
    (h : s.tick.Fresh w slots) : s.Fresh w (a :: slots) := by
  rintro (_ | i) b hb
  · simp only [List.getElem?_cons_zero, Option.some.injEq] at hb
    rw [← hb]
    exact ha
  · have hi := h i b (by simpa using hb)
    simp only [Tracker.tick] at hi
    rw [Nat.add_comm i 1, ← Nat.add_assoc]
    exact hi

/-- Either the first node that matches is returned and nothing is evicted, or the list is cut
where the first node timed out. Nothing that is tested before has timed out or matches. -/
theorem searchScanned_spec (w : World) (address : Str) (slots : List Slot) (s : Tracker) :
    (∃ tested a rest, slots = tested ++ a :: rest ∧ s.Fresh w (tested ++ [a]) ∧
      (∀ b ∈ tested, hasMac address (s.dev b) = false) ∧ hasMac address (s.dev a) = true ∧
      searchScanned w address slots false s =
        (some a, { s with readings := s.readings + (tested.length + 1) })) ∨
    (∃ kept gone, slots = kept ++ gone ∧ s.Fresh w kept ∧
      (∀ b ∈ kept, hasMac address (s.dev b) = false) ∧
      (∀ b rest, gone = b :: rest →
        timedOut (w.clock (s.readings + kept.length)) (s.dev b).initialScannedTime) ∧
      searchScanned w address slots false s =
        (none, s.evicted gone (kept.length + min gone.length 1))) := by
  induction slots generalizing s with
  | nil => exact Or.inr ⟨[], [], rfl, fresh_nil s w, by simp, by simp, rfl⟩
  | cons a rest ih =>
    simp only [searchScanned]
    split
    next hold =>
      refine Or.inr ⟨[], a :: rest, rfl, fresh_nil s w, by simp, ?_, ?_⟩
      · intro b rest' heq
        obtain ⟨rfl, -⟩ := List.cons.inj heq
        exact hold
      · have hall := searchScanned_evicts w address (a :: rest) s.tick
        rw [searchScanned] at hall
        have hcount : ([] : List Slot).length + min (a :: rest).length 1 = 1 := by simp
        rw [hall, hcount]
        rfl
    next hold =>
      have hnew {tested : List Slot} (h : ∀ b ∈ tested, hasMac address (s.dev b) = false)
          (hmac : ¬ hasMac address (s.dev a) = true) :
          ∀ b ∈ a :: tested, hasMac address (s.dev b) = false := by
        intro b hb
        rcases List.mem_cons.mp hb with rfl | hb
        · exact Bool.eq_false_iff.mpr hmac
        · exact h b hb
      split
      next hmac =>
        exact Or.inl ⟨[], a, rest, rfl, fresh_cons hold (fresh_nil _ w), by simp, hmac, rfl⟩
      next hmac =>
        rcases ih s.tick with ⟨tested, b, rest', rfl, hfresh, htested, hbm, heq⟩ |
          ⟨kept, gone, rfl, hfresh, hkept, hgone, heq⟩
        · refine Or.inl ⟨a :: tested, b, rest', rfl, fresh_cons hold hfresh, hnew htested hmac,
            hbm, ?_⟩
          rw [heq]
          simp only [Tracker.tick, List.length_cons, Prod.mk.injEq, true_and]
          congr 1
          omega
        · refine Or.inr ⟨a :: kept, gone, rfl, fresh_cons hold hfresh, hnew hkept hmac, ?_, ?_⟩
          · intro b rest' hb
            have := hgone b rest' hb
            simp only [Tracker.tick] at this
            rw [List.length_cons, Nat.add_comm kept.length 1, ← Nat.add_assoc]
            exact this
          · rw [heq]
            simp only [Tracker.evicted, Tracker.tick, List.length_cons, Prod.mk.injEq, true_and]
            congr 1
            omega

theorem searchScanned_cases (w : World) (address : Str) (slots : List Slot) (s : Tracker) :
    (∃ a n, a ∈ slots ∧ 0 < n ∧ hasMac address (s.dev a) = true ∧
      searchScanned w address slots false s = (some a, { s with readings := s.readings + n })) ∨
    (∃ kept gone, slots = kept ++ gone ∧ (∀ b ∈ kept, hasMac address (s.dev b) = false) ∧
      (∀ b rest, gone = b :: rest →
        timedOut (w.clock (s.readings + kept.length)) (s.dev b).initialScannedTime) ∧
      searchScanned w address slots false s =
        (none, s.evicted gone (kept.length + min gone.length 1))) := by
  rcases searchScanned_spec w address slots s with ⟨tested, a, rest, rfl, -, -, hmac, heq⟩ |
    ⟨kept, gone, hsplit, -, hkept, hgone, heq⟩
  · exact Or.inl ⟨a, tested.length + 1, by simp, Nat.succ_pos _, hmac, heq⟩
  · exact Or.inr ⟨kept, gone, hsplit, hkept, hgone, heq⟩

theorem check_ble_cases (w : World) (s : Tracker) (address : Str) :
    (∃ a ∈ s.bleObjectList, hasMac address (s.dev a) = true ∧
      checkIsInList w s address .ble = (some a, s)) ∨
    ((∀ a ∈ s.bleObjectList, hasMac address (s.dev a) = false) ∧
      checkIsInList w s address .ble = (none, s)) := by
  rw [checkIsInList]
  cases hfind : s.bleObjectList.find? fun a => hasMac address (s.dev a) with
  | none =>
    right
    rw [List.find?_eq_none] at hfind
    exact ⟨fun a ha => by simpa using hfind a ha, rfl⟩
  | some a =>
    have hmac : hasMac address (s.dev a) = true := by simpa using List.find?_some hfind
    exact Or.inl ⟨a, List.mem_of_find?_eq_some hfind, hmac, rfl⟩

theorem shrinks_evicted {s : Tracker} (hs : Placed s) {kept gone : List Slot} (n : Nat)
    (hsplit : s.scannedList = kept ++ gone) :
    Shrinks s (s.evicted gone n) (gone.filter s.trIsolated) where
  scanned := List.diff_sublist _ _
  br := List.Sublist.refl _
  ble := List.Sublist.refl _
  dev := rfl
  pool := rfl
  nodup := by
    have := hs.scanned_nodup
    rw [hsplit] at this
    exact (List.nodup_append.mp this).2.1.filter _
  linked a ha := by
    refine Or.inl ?_
    rw [hsplit]
    exact List.mem_append_right kept (List.mem_filter.mp ha).1
  unlinked a ha := by
    obtain ⟨hgone, hiso⟩ := List.mem_filter.mp ha
    simp only [Tracker.trIsolated, decide_eq_true_eq] at hiso
    rintro (h | h | h)
    · rw [Tracker.evicted, hs.scanned_nodup.mem_sdiff_iff] at h
      exact h.2 hgone
    · exact hiso.1 h
    · exact hiso.2 h

theorem filter_of_split {slots moved kept : List Slot} (hnodup : slots.Nodup)
    (hsplit : moved ++ kept = slots) : (slots.filter fun a => a ∉ kept) = moved := by
  rw [← hsplit] at hnodup ⊢
  obtain ⟨-, -, hdisj⟩ := List.nodup_append.mp hnodup
  rw [List.filter_append, List.filter_eq_self.mpr, List.filter_eq_nil_iff.mpr, List.append_nil]
  · intro a ha
    simp [ha]
  · intro a ha
    simpa using fun hc => hdisj a ha a hc rfl

theorem evicted_scannedList {s : Tracker} (hs : Placed s) {kept gone : List Slot} (n : Nat)
    (hsplit : s.scannedList = kept ++ gone) : (s.evicted gone n).scannedList = kept := by
  rw [Tracker.evicted, hs.scanned_nodup.sdiff_eq_filter]
  exact filter_of_split hs.scanned_nodup hsplit.symm

/-! ## cleanup_lists -/

/-- All slots of `slots` taken out of every list and freed. -/
def Tracker.dropped (s : Tracker) (slots : List Slot) : Tracker :=
  { s with
    scannedList := s.scannedList.diff slots
    brObjectList := s.brObjectList.diff slots
    bleObjectList := s.bleObjectList.diff slots
    pool := freeAll s.pool slots }

theorem unlinkTr_of_trIsolated {s : Tracker} {a : Slot} :
    (if s.trIsolated a then s else s.unlinkTr a) = s.unlinkTr a := by
  split
  next h =>
    simp only [Tracker.trIsolated, decide_eq_true_eq] at h
    rw [Tracker.unlinkTr, List.erase_of_not_mem h.1, List.erase_of_not_mem h.2]
  next => rfl

theorem unlinkSc_of_scIsolated {s : Tracker} {a : Slot} :
    (if s.scIsolated a then s else s.unlinkSc a) = s.unlinkSc a := by
  split
  next h =>
    simp only [Tracker.scIsolated, decide_eq_true_eq] at h
    rw [Tracker.unlinkSc, List.erase_of_not_mem h]
  next => rfl

/-- Both branches for the BR_EDR lists take a slot out of every list, and a BLE slot is in
no other list anyway. -/
theorem cleanupNode_eq {s : Tracker} (list : ListHead) (a : Slot)
    (h : list = .ble → a ∉ s.scannedList) : cleanupNode list s a = s.dropped [a] := by
  cases list with
  | scanned =>
    rw [cleanupNode, unlinkTr_of_trIsolated]
    simp only [Tracker.dropped, List.diff_cons, List.diff_nil]
    rfl
  | br =>
    rw [cleanupNode, unlinkSc_of_scIsolated]
    simp only [Tracker.dropped, List.diff_cons, List.diff_nil]
    rfl
  | ble =>
    simp only [cleanupNode, Tracker.dropped, List.diff_cons, List.diff_nil,
      List.erase_of_not_mem (h rfl)]
    rfl

theorem cleanup_foldl (list : ListHead) (slots : List Slot) (s : Tracker)
    (h : list = .ble → ∀ a ∈ slots, a ∉ s.scannedList) :
    slots.foldl (cleanupNode list) s = s.dropped slots := by
  induction slots generalizing s with
  | nil => rfl
  | cons a rest ih =>
    rw [List.foldl_cons, cleanupNode_eq list a fun hb => h hb a List.mem_cons_self, ih]
    · simp only [Tracker.dropped, List.diff_cons, List.diff_nil]
      rfl
    · intro hb b hmem hc
      exact h hb b (List.mem_cons_of_mem a hmem) ((List.diff_sublist _ _).subset hc)

theorem cleanupLists_eq {s : Tracker} (hs : Placed s) (list : ListHead) :
    cleanupLists s list = s.dropped (s.list list) := by
  refine cleanup_foldl list _ s ?_
  rintro rfl
  exact hs.ble_scanned

theorem shrinks_dropped {s : Tracker} (hs : Placed s) {slots : List Slot} (hnodup : slots.Nodup)
    (hlinked : ∀ a ∈ slots, s.Linked a) : Shrinks s (s.dropped slots) slots where
  scanned := List.diff_sublist _ _
  br := List.diff_sublist _ _
  ble := List.diff_sublist _ _
  dev := rfl
  pool := rfl
  nodup := hnodup
  linked := hlinked
  unlinked a ha := by
    rintro (h | h | h)
    · exact (hs.scanned_nodup.mem_sdiff_iff.mp h).2 ha
    · exact (hs.br_nodup.mem_sdiff_iff.mp h).2 ha
    · exact (hs.ble_nodup.mem_sdiff_iff.mp h).2 ha

theorem shrinks_list {s : Tracker} (hs : Placed s) (list : ListHead) :
    Shrinks s (s.dropped (s.list list)) (s.list list) := by
  cases list with
  | scanned => exact shrinks_dropped hs hs.scanned_nodup fun a => Or.inl
  | br => exact shrinks_dropped hs hs.br_nodup fun a ha => Or.inr (Or.inl ha)
  | ble => exact shrinks_dropped hs hs.ble_nodup fun a ha => Or.inr (Or.inr ha)

/-! ## handle_tracked_object_data -/

theorem shrinks_polled {s : Tracker} (hs : Placed s) (cfg : Config) (w : World) :
    Shrinks s (s.polled cfg w) (pollFreed cfg w s) where
  scanned := List.Sublist.refl _
  br := List.drop_sublist _ _
  ble := List.drop_sublist _ _
  dev := rfl
  pool := rfl
  nodup := by
    refine List.nodup_append.mpr ⟨?_, (List.take_sublist _ _).nodup hs.ble_nodup, ?_⟩
    · exact ((List.take_sublist _ _).nodup hs.br_nodup).filter _
    · rintro a ha b hb rfl
      exact hs.ble_br a (List.mem_of_mem_take hb) (List.mem_of_mem_take (List.mem_filter.mp ha).1)
  linked a ha := by
    rcases List.mem_append.mp ha with ha | ha
    · exact Or.inr (Or.inl (List.mem_of_mem_take (List.mem_filter.mp ha).1))
    · exact Or.inr (Or.inr (List.mem_of_mem_take ha))
  unlinked a ha := by
    rcases List.mem_append.mp ha with ha | ha
    · obtain ⟨hmoved, hiso⟩ := List.mem_filter.mp ha
      simp only [Tracker.scIsolated, decide_eq_true_eq] at hiso
      rintro (h | h | h)
      · exact hiso h
      · exact List.disjoint_take_drop hs.br_nodup (le_max_left _ 1) hmoved h
      · exact hs.ble_br a (List.mem_of_mem_drop h) (List.mem_of_mem_take hmoved)
    · rintro (h | h | h)
      · exact hs.ble_scanned a (List.mem_of_mem_take ha) h
      · exact hs.ble_br a (List.mem_of_mem_take ha) (List.mem_of_mem_drop h)
      · exact List.disjoint_take_drop hs.ble_nodup (le_max_left _ 1) ha h

/-! ## send_to_push_dongle -/

/-- A node found again: its fields are written and the clock is read once. -/
def Tracker.updated (s : Tracker) (a : Slot) (now : Int32) (args : PushArgs) : Tracker :=
  (s.setDev a (updateDevice now args (s.dev a))).tick

/-- A new node: written, stamped and linked. -/
def Tracker.added (s : Tracker) (pool : Pool) (deviceType : DeviceType) (a : Slot)
    (d : ScannedDevice) : Tracker :=
  (({ s with pool }.setDev a d).tick).insert deviceType a

theorem added_dev (s : Tracker) (pool : Pool) (deviceType : DeviceType) (a : Slot)
    (d : ScannedDevice) :
    (s.added pool deviceType a d).dev = fun x => if x = a then d else s.dev x := by
  cases deviceType <;> rfl

theorem pushNew_cases (w : World) (deviceType : DeviceType) (args : PushArgs) (s : Tracker) :
    (∃ q : Pool, q.outstanding = s.pool.outstanding ∧ q.frees = s.pool.frees ∧
      pushFound w deviceType args (none, s) = { s with pool := q }) ∨
    (∃ a q, a ∉ s.pool.outstanding ∧ q.outstanding = a :: s.pool.outstanding ∧
      q.frees = s.pool.frees ∧ pushFound w deviceType args (none, s) =
        s.added q deviceType a (newDevice (w.clock s.readings) args)) := by
  rw [pushFound]
  rcases mpAlloc_cases w.offer s.pool with ⟨q, hq, ho, hf⟩ | ⟨a, q, hq, ha, ho, hf⟩
  · rw [hq]
    exact Or.inl ⟨q, ho, hf, rfl⟩
  · rw [hq]
    exact Or.inr ⟨a, q, ha, ho, hf, rfl⟩

theorem push_ble_cases (w : World) (s : Tracker) (args : PushArgs) :
    (∃ a ∈ s.bleObjectList, hasMac args.macAddress (s.dev a) = true ∧
      sendToPushDongle w s .ble args = s.updated a (w.clock s.readings) args) ∨
    ((∀ a ∈ s.bleObjectList, hasMac args.macAddress (s.dev a) = false) ∧
      sendToPushDongle w s .ble args = pushFound w .ble args (none, s)) := by
  rw [sendToPushDongle]
  rcases check_ble_cases w s args.macAddress with ⟨a, ha, hmac, heq⟩ | ⟨hnone, heq⟩
  · rw [heq]
    exact Or.inl ⟨a, ha, hmac, rfl⟩
  · rw [heq]
    exact Or.inr ⟨hnone, rfl⟩

theorem push_br_cases (w : World) (s : Tracker) (args : PushArgs) :
    (∃ a n, a ∈ s.scannedList ∧ hasMac args.macAddress (s.dev a) = true ∧
      sendToPushDongle w s .brEdr args =
        { s with readings := s.readings + n }.updated a (w.clock (s.readings + n)) args) ∨
    (∃ kept gone, s.scannedList = kept ++ gone ∧
      (∀ b ∈ kept, hasMac args.macAddress (s.dev b) = false) ∧
      (∀ b rest, gone = b :: rest →
        timedOut (w.clock (s.readings + kept.length)) (s.dev b).initialScannedTime) ∧
      sendToPushDongle w s .brEdr args = pushFound w .brEdr args
        (none, s.evicted gone (kept.length + min gone.length 1))) := by
  rw [sendToPushDongle, checkIsInList]
  rcases searchScanned_cases w args.macAddress s.scannedList s with
    ⟨a, n, ha, -, hmac, heq⟩ | ⟨kept, gone, hsplit, hkept, hgone, heq⟩
  · rw [heq]
    exact Or.inl ⟨a, n, ha, hmac, rfl⟩
  · rw [heq]
    exact Or.inr ⟨kept, gone, hsplit, hkept, hgone, rfl⟩

theorem scanRsp_cases (w : World) (s : Tracker) (macAddress : Str) (payload : List UInt8) :
    (∃ a ∈ s.bleObjectList, hasMac macAddress (s.dev a) = true ∧ (s.dev a).isScanRspNeeded = true ∧
      sendToPushDongleScanRsp w s macAddress payload =
        s.setDev a { s.dev a with scanRsp := payload }) ∨
    ((∀ a ∈ s.bleObjectList, hasMac macAddress (s.dev a) = true →
        (∃ b ∈ s.bleObjectList, hasMac macAddress (s.dev b) = true ∧
          (s.dev b).isScanRspNeeded = false)) ∧
      sendToPushDongleScanRsp w s macAddress payload = s) := by
  rw [sendToPushDongleScanRsp]
  rcases check_ble_cases w s macAddress with ⟨a, ha, hmac, heq⟩ | ⟨hnone, heq⟩
  · rw [heq]
    cases hneed : (s.dev a).isScanRspNeeded with
    | true => exact Or.inl ⟨a, ha, hmac, hneed, by simp [hneed]⟩
    | false => exact Or.inr ⟨fun _ _ _ => ⟨a, ha, hmac, hneed⟩, by simp [hneed]⟩
  · rw [heq]
    exact Or.inr ⟨fun a ha hmac => absurd hmac (by simp [hnone a ha]), rfl⟩

/-! ## One operation -/

/-- All that an operation can do. -/
inductive StepTo (cfg : Config) (w : World) (s : Tracker) : Op → Tracker → Prop where
  | looked (op : Op) (n : Nat) : StepTo cfg w s op { s with readings := s.readings + n }
  | sighted (deviceType : DeviceType) (args : PushArgs) (n : Nat) (a : Slot)
      (ha : deviceType = .brEdr ∧ a ∈ s.scannedList ∨ deviceType = .ble ∧ a ∈ s.bleObjectList)
      (hmac : hasMac args.macAddress (s.dev a) = true) :
      StepTo cfg w s (.push deviceType args)
        ({ s with readings := s.readings + n }.updated a (w.clock (s.readings + n)) args)
  | newBle (args : PushArgs)
      (hnone : ∀ a ∈ s.bleObjectList, hasMac args.macAddress (s.dev a) = false) :
      StepTo cfg w s (.push .ble args) (pushFound w .ble args (none, s))
  | newBr (args : PushArgs) (kept gone : List Slot) (hsplit : s.scannedList = kept ++ gone)
      (hkept : ∀ b ∈ kept, hasMac args.macAddress (s.dev b) = false)
      (hgone : ∀ b rest, gone = b :: rest →
        timedOut (w.clock (s.readings + kept.length)) (s.dev b).initialScannedTime) :
      StepTo cfg w s (.push .brEdr args)
        (pushFound w .brEdr args (none, s.evicted gone (kept.length + min gone.length 1)))
  | responded (macAddress : Str) (payload : List UInt8) (a : Slot) (ha : a ∈ s.bleObjectList)
      (hmac : hasMac macAddress (s.dev a) = true) (hneed : (s.dev a).isScanRspNeeded = true) :
      StepTo cfg w s (.scanRsp macAddress payload)
        (s.setDev a { s.dev a with scanRsp := payload })
  | evicted (address : Str) (kept gone : List Slot) (hsplit : s.scannedList = kept ++ gone)
      (hgone : ∀ b rest, gone = b :: rest →
        timedOut (w.clock (s.readings + kept.length)) (s.dev b).initialScannedTime) :
      StepTo cfg w s (.check address .scanned)
        (s.evicted gone (kept.length + min gone.length 1))
  | polled (hfits : (basicInfo cfg w s).length ≤ maxLengthRespBasicInfo) :
      StepTo cfg w s .poll (s.polled cfg w)
  | cleaned (list : ListHead) : StepTo cfg w s (.cleanup list) (s.dropped (s.list list))

theorem step_spec {s : Tracker} (hs : Placed s) (cfg : Config) (w : World) (op : Op) :
    StepTo cfg w s op (step cfg w s op) := by
  cases op with
  | push deviceType args =>
    rw [step]
    cases deviceType with
    | maxType => exact .looked _ 0
    | ble =>
      rcases push_ble_cases w s args with ⟨a, ha, hmac, heq⟩ | ⟨hnone, heq⟩
      · rw [heq]
        exact .sighted .ble args 0 a (Or.inr ⟨rfl, ha⟩) hmac
      · rw [heq]
        exact .newBle args hnone
    | brEdr =>
      rcases push_br_cases w s args with
        ⟨a, n, ha, hmac, heq⟩ | ⟨kept, gone, hsplit, hkept, hgone, heq⟩
      · rw [heq]
        exact .sighted .brEdr args n a (Or.inl ⟨rfl, ha⟩) hmac
      · rw [heq]
        exact .newBr args kept gone hsplit hkept hgone
  | scanRsp macAddress payload =>
    rw [step]
    rcases scanRsp_cases w s macAddress payload with ⟨a, ha, hmac, hneed, heq⟩ | ⟨-, heq⟩
    · rw [heq]
      exact .responded macAddress payload a ha hmac hneed
    · rw [heq]
      exact .looked _ 0
  | check address list =>
    cases list with
    | ble => exact .looked _ 0
    | scanned =>
      rw [step, checkIsInList]
      rcases searchScanned_cases w address s.scannedList s with
        ⟨a, n, -, -, -, heq⟩ | ⟨kept, gone, hsplit, -, hgone, heq⟩
      · rw [heq]
        exact .looked _ n
      · rw [heq]
        exact .evicted address kept gone hsplit hgone
  | poll =>
    rw [step]
    rcases handle_cases cfg w s with ⟨-, -, heq⟩ | ⟨-, -, heq⟩ | ⟨-, hfits, heq⟩
    · rw [heq]
      exact .looked _ 0
    · rw [heq]
      exact .looked _ 1
    · rw [heq]
      exact .polled hfits
  | cleanup list =>
    rw [step, cleanupLists_eq hs]
    exact .cleaned list

/-! ## Where a step links slots -/

theorem placed_added {s : Tracker} (hs : Placed s) {q : Pool} {a : Slot} {d : ScannedDevice}
    (deviceType : DeviceType) (ha : a ∉ s.pool.outstanding)
    (hq : q.outstanding = a :: s.pool.outstanding) : Placed (s.added q deviceType a d) := by
  have hfresh : ¬ s.Linked a := fun h => ha (hs.allocated a h)
  simp only [Tracker.Linked, not_or] at hfresh
  obtain ⟨hsc, hbr, hble⟩ := hfresh
  obtain ⟨h1, h2, h3, h4, h5, h6⟩ := hs
  simp only [Tracker.Linked] at h6
  cases deviceType with
  | ble =>
    constructor <;> simp only [Tracker.added, Tracker.insert, Tracker.tick, Tracker.setDev,
      Tracker.Linked, hq, List.mem_append, List.mem_cons, List.not_mem_nil, or_false]
    · exact h1
    · exact h2
    · exact List.concat_eq_append ▸ h3.concat hble
    · rintro b (hb | rfl)
      · exact h4 b hb
      · exact hsc
    · rintro b (hb | rfl)
      · exact h5 b hb
      · exact hbr
    · rintro b (hb | hb | hb | hb)
      · exact Or.inr (h6 b (Or.inl hb))
      · exact Or.inr (h6 b (Or.inr (Or.inl hb)))
      · exact Or.inr (h6 b (Or.inr (Or.inr hb)))
      · exact Or.inl hb
  | brEdr =>
    constructor <;> simp only [Tracker.added, Tracker.insert, Tracker.tick, Tracker.setDev,
      Tracker.Linked, hq, List.mem_append, List.mem_cons, List.not_mem_nil, or_false]
    · exact List.nodup_cons.mpr ⟨hsc, h1⟩
    · exact List.concat_eq_append ▸ h2.concat hbr
    · exact h3
    · rintro b hb (rfl | hc)
      · exact hble hb
      · exact h4 b hb hc
    · rintro b hb (hc | rfl)
      · exact h5 b hb hc
      · exact hble hb
    · rintro b ((hb | hb) | (hb | hb) | hb)
      · exact Or.inl hb
      · exact Or.inr (h6 b (Or.inl hb))
      · exact Or.inr (h6 b (Or.inr (Or.inl hb)))
      · exact Or.inl hb
      · exact Or.inr (h6 b (Or.inr (Or.inr hb)))
  | maxType =>
    constructor <;> simp only [Tracker.added, Tracker.insert, Tracker.tick, Tracker.setDev,
      Tracker.Linked, hq, List.mem_cons]
    · exact h1
    · exact h2
    · exact h3
    · exact h4
    · exact h5
    · exact fun b hb => Or.inr (h6 b hb)

theorem placed_pushNew {s : Tracker} (hs : Placed s) (w : World) (deviceType : DeviceType)
    (args : PushArgs) : Placed (pushFound w deviceType args (none, s)) := by
  rcases pushNew_cases w deviceType args s with ⟨q, ho, -, heq⟩ | ⟨a, q, ha, ho, -, heq⟩
  · rw [heq]
    exact hs.congr rfl rfl rfl ho
  · rw [heq]
    exact placed_added hs deviceType ha ho

theorem placed_check {s : Tracker} (hs : Placed s) (w : World) (address : Str) (list : SearchList) :
    Placed (checkIsInList w s address list).2 := by
  cases list with
  | ble => exact hs
  | scanned =>
    rw [checkIsInList]
    rcases searchScanned_cases w address s.scannedList s with
      ⟨a, n, -, -, -, heq⟩ | ⟨kept, gone, hsplit, -, -, heq⟩
    · rw [heq]
      exact hs.congr rfl rfl rfl rfl
    · rw [heq]
      exact hs.shrinks (shrinks_evicted hs _ hsplit)

theorem StepTo.placed {cfg : Config} {w : World} {s s' : Tracker} {op : Op}
    (h : StepTo cfg w s op s') (hs : Placed s) : Placed s' := by
  cases h with
  | looked => exact hs.congr rfl rfl rfl rfl
  | sighted => exact hs.congr rfl rfl rfl rfl
  | newBle args => exact placed_pushNew hs w .ble args
  | newBr args kept gone hsplit =>
    exact placed_pushNew (hs.shrinks (shrinks_evicted hs _ hsplit)) w .brEdr args
  | responded => exact hs.congr rfl rfl rfl rfl
  | evicted address kept gone hsplit => exact hs.shrinks (shrinks_evicted hs _ hsplit)
  | polled => exact hs.shrinks (shrinks_polled hs cfg w)
  | cleaned list => exact hs.shrinks (shrinks_list hs list)

theorem placed_step {s : Tracker} (hs : Placed s) (cfg : Config) (w : World) (op : Op) :
    Placed (step cfg w s op) :=
  (step_spec hs cfg w op).placed hs

/-! ## What a step does to a linked node -/

/-- How the record of a node came about in one operation. -/
inductive Writes (op : Op) (d d' : ScannedDevice) : Prop where
  | same (heq : d' = d)
  | sighted (deviceType : DeviceType) (args : PushArgs) (now : Int32)
      (hop : op = .push deviceType args) (hmac : hasMac args.macAddress d = true)
      (heq : d' = updateDevice now args d)
  | responded (macAddress : Str) (payload : List UInt8) (hop : op = .scanRsp macAddress payload)
      (hmac : hasMac macAddress d = true) (hneed : d.isScanRspNeeded = true)
      (heq : d' = { d with scanRsp := payload })

theorem pushNew_dev {s s₁ : Tracker} (w : World) (deviceType : DeviceType) (args : PushArgs)
    (hdev : s₁.dev = s.dev) (hlinked : ∀ a, s₁.Linked a → s.Linked a) {a : Slot}
    (ha : (pushFound w deviceType args (none, s₁)).Linked a) :
    (s.Linked a ∧ (pushFound w deviceType args (none, s₁)).dev a = s.dev a) ∨
      (∃ now, (pushFound w deviceType args (none, s₁)).dev a = newDevice now args) := by
  rcases pushNew_cases w deviceType args s₁ with ⟨q, -, -, heq⟩ | ⟨b, q, hb, -, -, heq⟩
  · rw [heq] at ha ⊢
    exact Or.inl ⟨hlinked a ha, by rw [← hdev]⟩
  · rw [heq] at ha ⊢
    rw [added_dev]
    by_cases hab : a = b
    · exact Or.inr ⟨_, if_pos hab⟩
    · left
      refine ⟨hlinked a ?_, (if_neg hab).trans (congrFun hdev a)⟩
      cases deviceType <;>
        simpa [Tracker.added, Tracker.insert, Tracker.tick, Tracker.setDev, Tracker.Linked, hab]
          using ha

theorem StepTo.dev {cfg : Config} {w : World} {s s' : Tracker} {op : Op}
    (h : StepTo cfg w s op s') (hs : Placed s) {a : Slot} (ha : s'.Linked a) :
    (s.Linked a ∧ Writes op (s.dev a) (s'.dev a)) ∨
      ∃ deviceType args now, op = .push deviceType args ∧ s'.dev a = newDevice now args := by
  have hshrinks {s' : Tracker} {freed : List Slot} (hshr : Shrinks s s' freed) (hl : s'.Linked a) :
      s.Linked a ∧ Writes op (s.dev a) (s'.dev a) :=
    ⟨hshr.linked_of_linked hl, .same (by rw [hshr.dev])⟩
  cases h with
  | looked => exact Or.inl ⟨ha, .same rfl⟩
  | sighted deviceType args n b hb hmac =>
    refine Or.inl ⟨ha, ?_⟩
    simp only [Tracker.updated, Tracker.tick, Tracker.setDev]
    split
    next hab =>
      rw [hab]
      exact .sighted deviceType args _ rfl hmac rfl
    next => exact .same rfl
  | newBle args =>
    rcases pushNew_dev w .ble args rfl (fun _ => id) ha with ⟨hl, heq⟩ | ⟨now, heq⟩
    · exact Or.inl ⟨hl, .same heq⟩
    · exact Or.inr ⟨.ble, args, now, rfl, heq⟩
  | newBr args kept gone hsplit =>
    have hshr := shrinks_evicted hs (kept.length + min gone.length 1) hsplit
    rcases pushNew_dev w .brEdr args hshr.dev (fun _ => hshr.linked_of_linked) ha with
      ⟨hl, heq⟩ | ⟨now, heq⟩
    · exact Or.inl ⟨hl, .same heq⟩
    · exact Or.inr ⟨.brEdr, args, now, rfl, heq⟩
  | responded macAddress payload b hb hmac hneed =>
    refine Or.inl ⟨ha, ?_⟩
    simp only [Tracker.setDev]
    split
    next hab =>
      rw [hab]
      exact .responded macAddress payload rfl hmac hneed rfl
    next => exact .same rfl
  | evicted address kept gone hsplit => exact Or.inl (hshrinks (shrinks_evicted hs _ hsplit) ha)
  | polled => exact Or.inl (hshrinks (shrinks_polled hs cfg w) ha)
  | cleaned list => exact Or.inl (hshrinks (shrinks_list hs list) ha)

/-! ## Runs -/

theorem run_snoc (cfg : Config) (w : World) (ops : List Op) (op : Op) :
    run cfg w (ops ++ [op]) = step cfg w (run cfg w ops) op := by
  rw [run, run, List.foldl_append]
  rfl

theorem placed_run (cfg : Config) (w : World) (ops : List Op) : Placed (run cfg w ops) := by
  apply Machine.foldl_invariant placed_init
  intro pre op _ h
  exact placed_step h cfg w op

theorem run_invariant {cfg : Config} {w : World} {P : Tracker → Prop} {ops : List Op}
    (hinit : P .init)
    (hstep : ∀ pre op, pre ++ [op] <+: ops → Placed (run cfg w pre) → P (run cfg w pre) →
      P (step cfg w (run cfg w pre) op)) : P (run cfg w ops) := by
  apply Machine.foldl_invariant hinit
  intro pre op hpre
  exact hstep pre op hpre (placed_run cfg w pre)

end LBeacon
