import LBeacon.Sections

/-!
# The pointers do what the lists do

A tracker laid out over rings takes every operation to the next tracker, laid out again, without
an access to a slot that is not handed out.
-/

open CText Rings

namespace LBeacon

/-! ## Trackers over rings -/

def Tracker.lists (s : Tracker) : Lists
  | .shared list => s.list list
  | .localList => []

/-- The entries whose isolation is asked about: the other entry of a BR_EDR node. -/
def Tracker.Live (s : Tracker) : Entry → Prop
  | .head _ => False
  | .sc a => a ∈ s.brObjectList
  | .tr a => a ∈ s.scannedList

def Tracker.heap (s : Tracker) (L : Links Entry) : Heap :=
  ⟨L, s.dev, s.pool, s.readings, s.sent, []⟩

/-- The three rings are well formed and hold the lists. -/
def Tracker.Laid (s : Tracker) (L : Links Entry) : Prop :=
  Arranged (s.heap L) s.lists (· ≠ .localList) s.Live

theorem shared_active (list : ListHead) : Head.shared list ≠ .localList := Head.noConfusion

section Simulation

variable {s s' : Tracker} {L : Links Entry} {a : Slot}

theorem Tracker.Laid.arranged (hl : s.Laid L) :
    Arranged (s.heap L) s.lists (· ≠ .localList) s.Live := hl

theorem Tracker.Laid.congr (hl : s.Laid L) (hlists : s'.lists = s.lists)
    (hpool : s'.pool.outstanding = s.pool.outstanding) : s'.Laid L := by
  have hlive : s'.Live = s.Live := by
    have hbr : s'.brObjectList = s.brObjectList := congrFun hlists (.shared .br)
    have hsc : s'.scannedList = s.scannedList := congrFun hlists (.shared .scanned)
    funext e
    cases e with
    | head h => rfl
    | sc a => exact congrArg (a ∈ ·) hbr
    | tr a => exact congrArg (a ∈ ·) hsc
  rw [Tracker.Laid, hlists, hlive]
  exact Arranged.congr hl.arranged rfl hpool

theorem tracked_lists (s : Tracker) (a : Slot) : s.lists.tracked a = !s.trIsolated a := by
  simp [Lists.tracked, Tracker.lists, Tracker.list, Tracker.trIsolated]

theorem live_evicted (hs : Placed s) {kept gone : List Slot} (n : Nat)
    (hsplit : s.scannedList = kept ++ gone) (x : Entry) (hx : (s.evicted gone n).Live x) :
    s.Live x := by
  cases x with
  | head h => exact hx
  | sc a => exact hx
  | tr a => exact (shrinks_evicted hs n hsplit).scanned.subset hx

theorem lists_evicted (hs : Placed s) {kept gone : List Slot} (n : Nat)
    (hsplit : s.scannedList = kept ++ gone) :
    (s.evicted gone n).lists = Function.update s.lists (.shared .scanned) kept := by
  funext h
  rcases h with ⟨_ | _ | _⟩ | _
  · rw [Function.update_self]
    exact evicted_scannedList hs n hsplit
  all_goals rfl

theorem heap_evicted (s : Tracker) (L L' : Links Entry) (gone : List Slot) (n : Nat) :
    (s.heap L).evicted s.lists L' gone n = Tracker.heap { s.evicted gone 0 with readings := n } L' := by
  have hfilter : (fun a => !s.lists.tracked a) = s.trIsolated := by
    funext a
    rw [tracked_lists, Bool.not_not]
  rw [Heap.evicted, hfilter]
  rfl

/-! ## check_is_in_list -/

theorem searchScanned_outcome (w : World) (address : Str) (slots : List Slot) (s : Tracker) :
    let o := scanOutcome w address s.dev slots s.readings
    searchScanned w address slots false s =
      (o.1, { s.evicted o.2.1 0 with readings := o.2.2 }) := by
  induction slots generalizing s with
  | nil => rfl
  | cons a rest ih =>
    rw [scanOutcome, searchScanned]
    dsimp only
    have hdev : s.tick.dev = s.dev := rfl
    rw [hdev]
    by_cases hold : timedOut (w.clock s.readings) (s.dev a).initialScannedTime
    · have hall := searchScanned_evicts w address (a :: rest) s.tick
      rw [searchScanned] at hall
      rw [if_pos hold, if_pos hold, hall]
      rfl
    · rw [if_neg hold, if_neg hold]
      by_cases hmac : hasMac address (s.dev a) = true
      · rw [if_pos hmac, if_pos hmac]
        rfl
      · rw [if_neg hmac, if_neg hmac, ih]
        rfl

theorem Tracker.Laid.check (hs : Placed s) (hl : s.Laid L) (w : World) (address : Str)
    (list : SearchList) :
    ∃ L', (s.heap L).checkIsInList w address list =
        ((checkIsInList w s address list).1, (checkIsInList w s address list).2.heap L') ∧
      (checkIsInList w s address list).2.Laid L' := by
  rw [Heap.checkIsInList]
  cases list with
  | ble =>
    by_cases hempty : (s.heap L).isIsolatedNode SearchList.ble.entry = true
    · have hnil : s.bleObjectList = [] := (hl.arranged.empty_iff (shared_active .ble)).mp hempty
      rw [if_pos hempty, checkIsInList, hnil]
      exact ⟨L, rfl, hl⟩
    · rw [if_neg hempty, hl.arranged.search_ble w address (shared_active .ble)]
      exact ⟨L, rfl, hl⟩
  | scanned =>
    have houtcome := searchScanned_outcome w address s.scannedList s
    by_cases hempty : (s.heap L).isIsolatedNode SearchList.scanned.entry = true
    · have hnil : s.scannedList = [] := (hl.arranged.empty_iff (shared_active .scanned)).mp hempty
      rw [if_pos hempty, checkIsInList, hnil]
      exact ⟨L, rfl, hl⟩
    · obtain ⟨L', kept, hsplit, heq, -, hm⟩ :=
        hl.arranged.search_scanned w address (shared_active .scanned) fun a ha => ha
      rw [if_neg hempty, heq, checkIsInList, houtcome]
      rw [heap_evicted] at hm ⊢
      refine ⟨L', rfl, ?_⟩
      have hlists := lists_evicted hs 0 hsplit
      rw [← hlists] at hm
      exact hm.mono (fun _ => id) (live_evicted hs 0 hsplit)

/-! ## send_to_push_dongle -/

theorem found_linked {w : World} {address : Str} {list : SearchList}
    (hfound : (checkIsInList w s address list).1 = some a) :
    (checkIsInList w s address list).2.Linked a := by
  cases list with
  | ble =>
    rcases check_ble_cases w s address with ⟨b, hb, -, heq⟩ | ⟨-, heq⟩
    · rw [heq] at hfound ⊢
      obtain rfl := Option.some.inj hfound
      exact Or.inr (Or.inr hb)
    · rw [heq] at hfound
      exact absurd hfound (by simp)
  | scanned =>
    rw [checkIsInList] at hfound ⊢
    rcases searchScanned_cases w address s.scannedList s with ⟨b, n, hb, -, -, heq⟩ | ⟨_, _, -, -, -, heq⟩
    · rw [heq] at hfound ⊢
      obtain rfl := Option.some.inj hfound
      exact Or.inl hb
    · rw [heq] at hfound
      exact absurd hfound (by simp)

theorem Tracker.Laid.write (hl : s.Laid L) (halloc : a ∈ s.pool.outstanding)
    (f : ScannedDevice → ScannedDevice) :
    (s.heap L).write a f = (s.setDev a (f (s.dev a))).heap L ∧ (s.setDev a (f (s.dev a))).Laid L :=
  ⟨write_eq (m := s.heap L) halloc f, hl.congr rfl rfl⟩

theorem not_listed (hs : Placed s) (ha : a ∉ s.pool.outstanding) (h : Head) : a ∉ s.lists h := by
  rcases h with ⟨_ | _ | _⟩ | _
  · exact fun h => ha (hs.allocated a (Or.inl h))
  · exact fun h => ha (hs.allocated a (Or.inr (Or.inl h)))
  · exact fun h => ha (hs.allocated a (Or.inr (Or.inr h)))
  · exact List.not_mem_nil

theorem lists_added (s : Tracker) (q : Pool) (deviceType : DeviceType) (a : Slot)
    (d : ScannedDevice) : (s.added q deviceType a d).lists = s.lists.inserted deviceType a := by
  funext h
  cases deviceType <;> rcases h with ⟨_ | _ | _⟩ | _ <;> rfl

theorem Tracker.Laid.added (hs : Placed s) (hl : s.Laid L) (deviceType : DeviceType) {q : Pool}
    (ha : a ∉ s.pool.outstanding) (hq : q.outstanding = a :: s.pool.outstanding)
    (d : ScannedDevice) :
    ∃ L', (((({ s.heap L with pool := q }.initEntry (.sc a)).initEntry (.tr a)).write a
          fun _ => d).tick).insert deviceType a = (s.added q deviceType a d).heap L' ∧
      (s.added q deviceType a d).Laid L' := by
  have hout := not_listed hs ha
  have halloc : a ∈ q.outstanding := by rw [hq]; exact List.mem_cons_self
  have hm : Arranged { s.heap L with pool := q } s.lists (· ≠ .localList) s.Live :=
    ⟨hl.arranged.family, fun h b hb => by
      rw [hq]
      exact List.mem_cons_of_mem a (hl.arranged.allocated h b hb)⟩
  obtain ⟨L₁, heq₁, -, hsc, hm₁⟩ := hm.initEntry (.shared .scanned) halloc hout
  obtain ⟨L₂, heq₂, hs₂, htr, hm₂⟩ := hm₁.initEntry (.shared .br) halloc hout
  have hsc₂ : L₂.next (.sc a) = .sc a := (hs₂ (.sc a) (by simp [Head.entry])).1.trans hsc
  -- Both entries of the new node are isolated, so they may be asked about from now on.
  have hlive : ∀ x, (s.added q deviceType a d).Live x → s.Live x ∨ L₂.next x = x := by
    have hmem : ∀ h b, b ∈ (s.added q deviceType a d).lists h → b ∈ s.lists h ∨ b = a := by
      intro h b hb
      rw [lists_added] at hb
      exact mem_of_inserted hb
    rintro (h | b | b) hb
    · exact False.elim hb
    · rcases hmem (.shared .br) b hb with hb | rfl
      · exact Or.inl hb
      · exact Or.inr hsc₂
    · rcases hmem (.shared .scanned) b hb with hb | rfl
      · exact Or.inl hb
      · exact Or.inr htr
  have hm₃ : Arranged ((({ s with pool := q }.setDev a d).tick).heap L₂) s.lists (· ≠ .localList)
      (s.added q deviceType a d).Live :=
    (hm₂.of_live hlive).congr rfl rfl
  obtain ⟨L₃, heq₃, -, hm₄⟩ := hm₃.insertNew shared_active deviceType halloc hout
  rw [← lists_added s q deviceType a d] at hm₄
  have hwrite : (({ s with pool := q } : Tracker).heap L₂).write a (fun _ => d) =
      ({ s with pool := q }.setDev a d).heap L₂ := write_eq (m := Tracker.heap _ L₂) halloc _
  have hinit₁ : Heap.initEntry { s.heap L with pool := q } (.sc a) =
    ({ s with pool := q } : Tracker).heap L₁ := heq₁
  have hinit₂ : (({ s with pool := q } : Tracker).heap L₁).initEntry (.tr a) =
    ({ s with pool := q } : Tracker).heap L₂ := heq₂
  refine ⟨L₃, ?_, ?_⟩
  · rw [hinit₁, hinit₂, hwrite]
    refine heq₃.trans ?_
    cases deviceType <;> rfl
  · cases deviceType <;> exact hm₄

theorem Tracker.Laid.pushFound (hs : Placed s) (hl : s.Laid L) (w : World)
    (deviceType : DeviceType) (args : PushArgs) {found : Option Slot}
    (hfound : ∀ a, found = some a → s.Linked a) :
    ∃ L', Heap.pushFound w deviceType args (found, s.heap L) =
        (pushFound w deviceType args (found, s)).heap L' ∧
      (LBeacon.pushFound w deviceType args (found, s)).Laid L' := by
  cases found with
  | some a =>
    obtain ⟨heq, hl'⟩ := hl.write (hs.allocated a (hfound a rfl))
      (updateDevice (w.clock s.readings) args)
    refine ⟨L, ?_, hl'.congr rfl rfl⟩
    rw [Heap.pushFound]
    exact congrArg Heap.tick heq
  | none =>
    rw [Heap.pushFound, LBeacon.pushFound]
    have hpool : (s.heap L).pool = s.pool := rfl
    rw [hpool]
    rcases mpAlloc_cases w.offer s.pool with ⟨q, hq, ho, -⟩ | ⟨a, q, hq, ha, ho, -⟩
    · rw [hq]
      exact ⟨L, rfl, hl.congr rfl ho⟩
    · rw [hq]
      dsimp only
      rw [initEntry_readings, initEntry_readings]
      exact hl.added hs deviceType ha ho (newDevice (w.clock s.readings) args)

theorem Tracker.Laid.push (hs : Placed s) (hl : s.Laid L) (w : World) (deviceType : DeviceType)
    (args : PushArgs) :
    ∃ L', (s.heap L).sendToPushDongle w deviceType args =
        (sendToPushDongle w s deviceType args).heap L' ∧
      (sendToPushDongle w s deviceType args).Laid L' := by
  have hfind : ∀ list : SearchList, ∃ L',
      Heap.pushFound w deviceType args ((s.heap L).checkIsInList w args.macAddress list) =
        (LBeacon.pushFound w deviceType args (checkIsInList w s args.macAddress list)).heap L' ∧
      (LBeacon.pushFound w deviceType args (checkIsInList w s args.macAddress list)).Laid L' := by
    intro list
    obtain ⟨L', heq, hl'⟩ := hl.check hs w args.macAddress list
    rw [heq]
    exact hl'.pushFound (placed_check hs w args.macAddress list) w deviceType args
      fun a => found_linked
  cases deviceType with
  | ble => exact hfind .ble
  | brEdr => exact hfind .scanned
  | maxType => exact ⟨L, rfl, hl⟩

theorem setDev_self (s : Tracker) (a : Slot) : s.setDev a (s.dev a) = s := by
  have hdev : (fun x => if x = a then s.dev a else s.dev x) = s.dev := by
    funext x
    split
    next h => rw [h]
    next => rfl
  rw [Tracker.setDev, hdev]

theorem Tracker.Laid.scanRsp (hs : Placed s) (hl : s.Laid L) (w : World) (macAddress : Str)
    (payload : List UInt8) :
    ∃ L', (s.heap L).sendToPushDongleScanRsp w macAddress payload =
        (sendToPushDongleScanRsp w s macAddress payload).heap L' ∧
      (sendToPushDongleScanRsp w s macAddress payload).Laid L' := by
  obtain ⟨L', heq, hl'⟩ := hl.check hs w macAddress .ble
  rw [Heap.sendToPushDongleScanRsp, sendToPushDongleScanRsp, heq]
  have hfound : ∀ a, (checkIsInList w s macAddress .ble).1 = some a →
      (checkIsInList w s macAddress .ble).2.Linked a := fun a => found_linked
  have hplaced := placed_check hs w macAddress .ble
  generalize checkIsInList w s macAddress .ble = found at *
  rcases found with ⟨_ | a, s'⟩
  · exact ⟨L', rfl, hl'⟩
  · obtain ⟨hwrite, hl''⟩ := hl'.write (hplaced.allocated a (hfound a rfl)) (storeScanRsp payload)
    have hstate : s'.setDev a (storeScanRsp payload (s'.dev a)) =
        if (s'.dev a).isScanRspNeeded then s'.setDev a { s'.dev a with scanRsp := payload }
        else s' := by
      rw [storeScanRsp]
      split
      · rfl
      · exact setDev_self s' a
    dsimp only at hwrite hl'' ⊢
    rw [hstate] at hwrite hl''
    exact ⟨L', hwrite, hl''⟩

/-! ## handle_tracked_object_data -/

theorem lists_setTracked (s : Tracker) (list : TrackedList) (slots : List Slot) :
    (s.setTracked list slots).lists = Function.update s.lists list.head slots := by
  funext h
  cases list <;> rcases h with ⟨_ | _ | _⟩ | _ <;> rfl

theorem released_eq (hble : ∀ a ∈ s.bleObjectList, a ∉ s.scannedList) (list : TrackedList)
    (n : Nat) : s.released list ((s.tracked list).take n) =
      ((s.lists list.head).take n).filter fun a => a ∉ s.lists (.shared .scanned) := by
  cases list with
  | br => rfl
  | ble =>
    exact (List.filter_eq_self.mpr fun a ha =>
      decide_eq_true (hble a (List.mem_of_mem_take ha))).symm

theorem Tracker.Laid.consolidate (hl : s.Laid L)
    (hble : ∀ a ∈ s.bleObjectList, a ∉ s.scannedList) (list : TrackedList) (size : Nat)
    (hsize : list = .br → maxLengthRespDeviceInfo < size) :
    ∃ L', (s.heap L).consolidateTrackedData list size =
        ((consolidateTrackedData s list size).1, (consolidateTrackedData s list size).2.heap L') ∧
      (consolidateTrackedData s list size).2.Laid L' := by
  have hlocal : ¬ Head.localList ≠ .localList := fun h => h rfl
  rw [consolidate_eq, released_eq hble]
  cases list with
  | br =>
    obtain ⟨L', heq, hm⟩ := hl.arranged.consolidate .br (shared_active .br) hlocal rfl size
      TrackedList.noConfusion (fun _ a ha => ha) fun hzero a ha => by
        have hne : s.nodes .br ≠ [] := by
          intro h
          have hnil : s.brObjectList = [] := List.map_eq_nil_iff.mp h
          have hmem : a ∈ s.brObjectList := ha
          rw [hnil] at hmem
          exact List.not_mem_nil hmem
        exact absurd hzero (Nat.ne_of_gt (numberToSend_pos (hsize rfl) hne))
    rw [← lists_setTracked] at hm
    refine ⟨L', heq, hm.mono (fun _ => id) ?_⟩
    rintro (h | a | a) ha
    · exact ha
    · exact List.mem_of_mem_drop ha
    · exact ha
  | ble =>
    obtain ⟨L', heq, hm⟩ := hl.arranged.consolidate .ble (shared_active .ble) hlocal rfl size
      (fun _ => hble) TrackedList.noConfusion fun _ => hble
    rw [← lists_setTracked] at hm
    exact ⟨L', heq, hm⟩

theorem Tracker.Laid.sent (hl : s.Laid L) (message : Str) : (s.addpkt message).tick.Laid L :=
  hl.congr rfl rfl

theorem Tracker.Laid.handle (hs : Placed s) (hl : s.Laid L) (cfg : Config) (w : World) :
    ∃ L', (s.heap L).handleTrackedObjectData cfg w =
        ((handleTrackedObjectData cfg w s).1, (handleTrackedObjectData cfg w s).2.heap L') ∧
      (handleTrackedObjectData cfg w s).2.Laid L' := by
  have hempty : ∀ list, (s.heap L).isIsolatedNode (.head (.shared list)) = true ↔ s.list list = [] :=
    fun list => hl.arranged.empty_iff (shared_active list)
  rw [Heap.handleTrackedObjectData, handleTrackedObjectData]
  by_cases hboth : s.brObjectList = [] ∧ s.bleObjectList = []
  · rw [if_pos ⟨(hempty .br).mpr hboth.1, (hempty .ble).mpr hboth.2⟩, if_pos hboth]
    exact ⟨L, rfl, hl⟩
  · rw [if_neg fun h => hboth ⟨(hempty .br).mp h.1, (hempty .ble).mp h.2⟩, if_neg hboth]
    rcases Nat.lt_or_ge maxLengthRespBasicInfo (basicInfo cfg w s).length with hlong | hfits
    · rw [beaconBasicInfo_long hlong]
      refine ⟨L, if_pos hlong, hl.congr rfl rfl⟩
    · have hsize : maxLengthRespDeviceInfo <
          sizeT (wifiMessageLength - (basicInfo cfg w s).length) := by
        simp only [sizeT, wifiMessageLength, maxLengthRespDeviceInfo, maxLengthRespBasicInfo] at *
        omega
      have htick : s.tick.Laid L := hl.congr rfl rfl
      obtain ⟨L₁, heq₁, hl₁⟩ := htick.consolidate hs.ble_scanned .br _ fun _ => hsize
      have hble₁ : ∀ size, ∀ a ∈ (consolidateTrackedData s.tick .br size).2.bleObjectList,
          a ∉ (consolidateTrackedData s.tick .br size).2.scannedList := by
        intro size
        rw [consolidate_eq]
        exact hs.ble_scanned
      obtain ⟨L₂, heq₂, hl₂⟩ := hl₁.consolidate (hble₁ _) .ble
        (sizeT (wifiMessageLength - (basicInfo cfg w s ++ (consolidateTrackedData s.tick .br
          (sizeT (wifiMessageLength - (basicInfo cfg w s).length))).1).length))
        TrackedList.noConfusion
      have hinfo : basicInfoText cfg (w.clock (s.heap L).readings) = basicInfo cfg w s := rfl
      have hfold : (s.heap L).tick = s.tick.heap L := rfl
      refine ⟨L₂, ?_, ?_⟩
      · rw [beaconBasicInfo_fits hfits, hinfo, if_neg (Nat.not_lt.mpr hfits), hfold]
        dsimp only
        rw [heq₁]
        dsimp only
        rw [heq₂]
        rfl
      · rw [beaconBasicInfo_fits hfits]
        exact hl₂.sent _

/-! ## cleanup_lists -/

theorem lists_dropped (s : Tracker) (slots : List Slot) :
    (s.dropped slots).lists = s.lists.dropped slots := by
  funext h
  rcases h with ⟨_ | _ | _⟩ | _
  · rfl
  · rfl
  · rfl
  · exact (List.nil_diff slots).symm

theorem Tracker.Laid.cleanup (hs : Placed s) (hl : s.Laid L) (list : ListHead) :
    ∃ L', (s.heap L).cleanupLists list = (cleanupLists s list).heap L' ∧
      (cleanupLists s list).Laid L' := by
  have hlive : ∀ a ∈ s.lists (.shared list), CrossLive s.Live list a := by
    cases list with
    | scanned => exact fun a ha => ha
    | br => exact fun a ha => ha
    | ble => exact fun _ _ => trivial
  obtain ⟨L', heq, -, hm⟩ := hl.arranged.cleanupLists shared_active list
    (fun _ _ => List.not_mem_nil) hs.ble_scanned hlive
  rw [cleanupLists_eq hs]
  refine ⟨L', heq, ?_⟩
  rw [Tracker.Laid, lists_dropped]
  refine hm.mono (fun _ => id) ?_
  rintro (h | a | a) ha
  · exact ha
  · exact (List.diff_sublist _ _).subset ha
  · exact (List.diff_sublist _ _).subset ha

/-! ## Runs -/

theorem Tracker.Laid.step (hs : Placed s) (hl : s.Laid L) (cfg : Config) (w : World) (op : Op) :
    ∃ L', (s.heap L).step cfg w op = (step cfg w s op).heap L' ∧ (step cfg w s op).Laid L' := by
  cases op with
  | push deviceType args => exact hl.push hs w deviceType args
  | scanRsp macAddress payload => exact hl.scanRsp hs w macAddress payload
  | check address list =>
    obtain ⟨L', heq, hl'⟩ := hl.check hs w address list
    exact ⟨L', congrArg Prod.snd heq, hl'⟩
  | poll =>
    obtain ⟨L', heq, hl'⟩ := hl.handle hs cfg w
    exact ⟨L', congrArg Prod.snd heq, hl'⟩
  | cleanup list => exact hl.cleanup hs list

theorem laid_init : Tracker.init.Laid ⟨id, id⟩ := by
  have hlists : Tracker.init.lists = fun _ => [] := by
    funext h
    rcases h with ⟨_ | _ | _⟩ | _ <;> rfl
  rw [Tracker.Laid, hlists]
  exact arranged_init _ _

theorem simulates (cfg : Config) (w : World) (ops : List Op) :
    ∃ L, Heap.run cfg w ops = (run cfg w ops).heap L ∧ (run cfg w ops).Laid L := by
  apply Machine.foldl_induction
    (P := fun pre m => ∃ L, m = (run cfg w pre).heap L ∧ (run cfg w pre).Laid L)
  · exact ⟨⟨id, id⟩, rfl, laid_init⟩
  · rintro pre op - ⟨L, heq, hl⟩
    rw [run_snoc, heq]
    exact hl.step (placed_run cfg w pre) cfg w op

end Simulation

end LBeacon
