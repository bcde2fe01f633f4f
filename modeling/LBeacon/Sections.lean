import LBeacon.Shape

/-!
# Every section on the pointers

What each critical section, and each access between two of them, does to well-formed rings.
-/

open CText Rings

namespace LBeacon

section Sections

variable {m : Heap} {lists : Lists} {active : Head → Prop} {live : Entry → Prop} {h i : Head}
  {a b : Slot} {e : Entry}

/-! ## check_is_in_list -/

theorem Arranged.searchBle (hm : Arranged m lists active live) (address : Str)
    (hi : active (.shared .ble)) {slots before : List Slot} {fuel : Nat}
    (hsplit : lists (.shared .ble) = before ++ slots) (hfuel : slots.length < fuel) :
    m.searchBle address fuel ((slots.map .tr).headD .ble) =
      (slots.find? fun a => hasMac address (m.dev a), m) := by
  induction slots generalizing before fuel with
  | nil =>
    obtain ⟨n, rfl⟩ := Nat.exists_eq_succ_of_ne_zero (Nat.ne_of_gt hfuel)
    exact if_pos rfl
  | cons a rest ih =>
    obtain ⟨n, rfl⟩ := Nat.exists_eq_succ_of_ne_zero (Nat.ne_of_gt (Nat.zero_lt_of_lt hfuel))
    have ha : a ∈ lists (.shared .ble) := by rw [hsplit]; simp
    have htouch : m.touch (.tr a) = m := touch_eq (hm.allocated _ a ha)
    have hnext : m.links.next (.tr a) = (rest.map .tr).headD .ble := hm.next_of_append hi hsplit
    have hpos : ((a :: rest).map Entry.tr).headD .ble = .tr a := rfl
    have hslot : (Entry.tr a).slot = a := rfl
    rw [hpos, Heap.searchBle, if_neg Entry.noConfusion, htouch, hslot]
    dsimp only
    rw [hnext, List.find?_cons]
    by_cases hmac : hasMac address (m.dev a) = true
    · rw [if_pos hmac, hmac]
    · have hsplit' : lists (.shared .ble) = (before ++ [a]) ++ rest := by
        rw [hsplit, List.append_assoc, List.singleton_append]
      rw [if_neg hmac, Bool.eq_false_iff.mpr hmac]
      exact ih hsplit' (Nat.lt_of_succ_lt_succ hfuel)

theorem Arranged.search_ble (hm : Arranged m lists active live) (w : World) (address : Str)
    (hi : active (.shared .ble)) : m.search w address .ble =
      ((lists (.shared .ble)).find? fun a => hasMac address (m.dev a), m) := by
  have hnext : m.links.next .ble = ((lists (.shared .ble)).map .tr).headD .ble := hm.next_head hi
  rw [Heap.search, hnext]
  exact hm.searchBle address hi (List.nil_append _).symm (hm.length_lt_rounds hi)

theorem Arranged.search_scanned (hm : Arranged m lists active live) (w : World) (address : Str)
    (hi : active (.shared .scanned)) (hlive : ∀ a ∈ lists (.shared .scanned), live (.tr a)) :
    let o := scanOutcome w address m.dev (lists (.shared .scanned)) m.readings
    ∃ L kept, lists (.shared .scanned) = kept ++ o.2.1 ∧
      m.search w address .scanned = (o.1, m.evicted lists L o.2.1 o.2.2) ∧
      SameOutside lists.scannedRing m.links L ∧
      Arranged (m.evicted lists L o.2.1 o.2.2)
        (Function.update lists (.shared .scanned) kept) active live := by
  have hnext : m.links.next .scanned = ((lists (.shared .scanned)).map .sc).headD .scanned :=
    hm.next_head hi
  rw [Heap.search, hnext]
  exact hm.searchScanned w address hi (List.nil_append _).symm hlive (hm.length_lt_rounds hi)

/-! ## The shared rings -/

/-- The addresses of the three shared rings. -/
def Lists.sharedRings (lists : Lists) : List Entry :=
  [ListHead.scanned, .br, .ble].flatMap fun list =>
    .head (.shared list) :: lists.entries (.shared list)

theorem mem_sharedRings : e ∈ lists.sharedRings ↔
    ∃ list, e ∈ Entry.head (.shared list) :: lists.entries (.shared list) := by
  rw [Lists.sharedRings, List.mem_flatMap]
  constructor
  · rintro ⟨list, -, he⟩
    exact ⟨list, he⟩
  · rintro ⟨list, he⟩
    exact ⟨list, by cases list <;> simp, he⟩

theorem ring_sub_sharedRings (lists : Lists) (list : ListHead) :
    ∀ x ∈ Entry.head (.shared list) :: lists.entries (.shared list), x ∈ lists.sharedRings :=
  fun _ hx => mem_sharedRings.mpr ⟨list, hx⟩

theorem sharedRings_mono {lists' : Lists}
    (hsub : ∀ list, ∀ b ∈ lists' (.shared list), b ∈ lists (.shared list)) :
    ∀ x ∈ lists'.sharedRings, x ∈ lists.sharedRings := by
  intro x hx
  obtain ⟨list, hx⟩ := mem_sharedRings.mp hx
  refine mem_sharedRings.mpr ⟨list, ?_⟩
  rcases List.mem_cons.mp hx with rfl | hx
  · exact List.mem_cons_self
  · obtain ⟨b, hb, rfl⟩ := List.mem_map.mp hx
    exact List.mem_cons_of_mem _ (entry_mem_entries.mpr (hsub list b hb))

theorem slot_mem (he : e ∈ lists.entries h) : e.slot ∈ lists h := by
  obtain ⟨b, hb, rfl⟩ := List.mem_map.mp he
  rwa [slot_entry]

/-! ## Linking a new node -/

theorem unlisted_entry (hout : ∀ h, a ∉ lists h) (i j : Head) :
    i.entry a ∉ Entry.head j :: lists.entries j := by
  intro hmem
  rcases List.mem_cons.mp hmem with heq | hmem
  · exact entry_ne_head i j a heq
  · have := slot_mem hmem
    rw [slot_entry] at this
    exact hout j this

theorem Arranged.initEntry (hm : Arranged m lists active live) (i : Head)
    (halloc : a ∈ m.pool.outstanding) (hout : ∀ h, a ∉ lists h) :
    ∃ L, m.initEntry (i.entry a) = { m with links := L } ∧
      SameOutside [i.entry a] m.links L ∧ L.next (i.entry a) = i.entry a ∧
      Arranged { m with links := L } lists active live := by
  have hself : Sound m.pool (i.entry a) := (sound_entry i).mpr halloc
  have hnotin := fun j => unlisted_entry hout i j
  obtain ⟨hs, hfamily⟩ := hm.family.init hnotin
  exact ⟨m.links.link (i.entry a) (i.entry a), link_eq hself hself, hs, if_pos rfl,
    hfamily.mono (fun _ => id) fun _ => Or.inl, hm.allocated⟩

/-- The lists after the last section of `send_to_push_dongle`. -/
def Lists.inserted (lists : Lists) : DeviceType → Slot → Lists
  | .ble, a => Function.update lists (.shared .ble) (lists (.shared .ble) ++ [a])
  | .brEdr, a =>
    Function.update (Function.update lists (.shared .scanned) (a :: lists (.shared .scanned)))
      (.shared .br) (lists (.shared .br) ++ [a])
  | .maxType, _ => lists

theorem mem_of_inserted {deviceType : DeviceType} (hb : b ∈ lists.inserted deviceType a h) :
    b ∈ lists h ∨ b = a := by
  cases deviceType <;> rcases h with ⟨_ | _ | _⟩ | _ <;>
    simp [Lists.inserted, Function.update] at hb ⊢ <;> tauto

theorem newRing_sub (lists : Lists) (list : ListHead) (he : e = .sc a ∨ e = .tr a) :
    ∀ x ∈ e :: .head (.shared list) :: lists.entries (.shared list),
      x ∈ .sc a :: .tr a :: lists.sharedRings := by
  intro x hx
  rcases List.mem_cons.mp hx with rfl | hx
  · rcases he with rfl | rfl
    · exact List.mem_cons_self
    · exact List.mem_cons_of_mem _ List.mem_cons_self
  · exact List.mem_cons_of_mem _ (List.mem_cons_of_mem _ (ring_sub_sharedRings lists list x hx))

theorem Arranged.insertNew (hm : Arranged m lists active live)
    (hshared : ∀ list, active (.shared list)) (deviceType : DeviceType)
    (halloc : a ∈ m.pool.outstanding) (hout : ∀ h, a ∉ lists h) :
    ∃ L, m.insert deviceType a = { m with links := L } ∧
      SameOutside (.sc a :: .tr a :: lists.sharedRings) m.links L ∧
      Arranged { m with links := L } (lists.inserted deviceType a) active live := by
  have hnotin : ∀ i j : Head, i.entry a ∉ lists.entries j := fun i j hmem =>
    unlisted_entry hout i j (List.mem_cons_of_mem _ hmem)
  cases deviceType with
  | maxType => exact ⟨m.links, rfl, SameOutside.refl _ _, hm⟩
  | ble =>
    obtain ⟨L, heq, hs, hm'⟩ :=
      hm.insertTail (i := .shared .ble) (hshared .ble) halloc (hnotin (.shared .ble))
    exact ⟨L, heq, hs.mono (newRing_sub lists .ble (Or.inr rfl)), hm'⟩
  | brEdr =>
    obtain ⟨L, heq, hs, hm'⟩ :=
      hm.insertFirst (i := .shared .scanned) (hshared .scanned) halloc (hnotin (.shared .scanned))
    have hfresh : ∀ j, (Head.shared .br).entry a ∉ Lists.entries
        (Function.update lists (.shared .scanned) (a :: lists (.shared .scanned))) j := by
      intro j hmem
      by_cases hj : j = .shared .scanned
      · rw [hj] at hmem
        obtain ⟨b, -, hb⟩ := List.mem_map.mp hmem
        exact Entry.noConfusion hb
      · rw [Lists.entries, Function.update_of_ne hj] at hmem
        exact hnotin (.shared .br) j hmem
    obtain ⟨L', heq', hs', hm''⟩ := hm'.insertTail (i := .shared .br) (hshared .br) halloc hfresh
    have heq₁ : m.insertListFirst (.sc a) .scanned = { m with links := L } := heq
    have heq₂ : Heap.insertListTail { m with links := L } (.tr a) .br = { m with links := L' } := heq'
    -- The second insertion finds the ring of tracked devices as it was.
    have hsame : Lists.entries (Function.update lists (.shared .scanned)
      (a :: lists (.shared .scanned))) (.shared .br) = lists.entries (.shared .br) := rfl
    rw [hsame] at hs'
    exact ⟨L', by rw [Heap.insert, heq₁, heq₂],
      (hs.mono (newRing_sub lists .scanned (Or.inl rfl))).trans hs'
        (newRing_sub lists .br (Or.inr rfl)), hm''⟩

/-! ## cleanup_lists -/

/-- The lists without the slots of `slots`. -/
def Lists.dropped (lists : Lists) (slots : List Slot) : Lists := fun h => (lists h).diff slots

/-- The entry that `cleanup_lists` asks about after it has removed the other one. -/
def CrossLive (live : Entry → Prop) (list : ListHead) (a : Slot) : Prop :=
  match list with
  | .scanned => live (.tr a)
  | .br => live (.sc a)
  | .ble => True

theorem dropped_singleton (lists : Lists) (a : Slot) (h : Head) :
    lists.dropped [a] h = (lists h).erase a := by
  rw [Lists.dropped, List.diff_cons, List.diff_nil]

theorem dropped_of_update (hout : ∀ j, j ≠ h → a ∉ lists j) :
    Function.update lists h ((lists h).erase a) = lists.dropped [a] := by
  funext j
  rw [dropped_singleton]
  by_cases hj : j = h
  · rw [hj, Function.update_self]
  · rw [Function.update_of_ne hj, List.erase_of_not_mem (hout j hj)]

theorem dropped_of_updates (hhi : i ≠ h) (hout : ∀ j, j ≠ h → j ≠ i → a ∉ lists j) :
    let lists₁ : Lists := Function.update lists h ((lists h).erase a)
    Function.update lists₁ i ((lists₁ i).erase a) = lists.dropped [a] := by
  dsimp only
  funext j
  rw [dropped_singleton]
  by_cases hi : j = i
  · rw [hi, Function.update_self, Function.update_of_ne hhi]
  · rw [Function.update_of_ne hi]
    by_cases hj : j = h
    · rw [hj, Function.update_self]
    · rw [Function.update_of_ne hj, List.erase_of_not_mem (hout j hj hi)]

theorem Arranged.not_both (hm : Arranged m lists active live) {j : Head} (hij : i ≠ j)
    (hentry : i.entry = j.entry) (ha : a ∈ lists i) : a ∉ lists j := by
  intro hb
  have hmem : i.entry a ∈ lists.entries j := by rw [hentry]; exact entry_mem_entries.mpr hb
  exact hm.family.apart i j hij (i.entry a)
    (List.mem_cons_of_mem _ (entry_mem_entries.mpr ha)) (List.mem_cons_of_mem _ hmem)

theorem Arranged.cleaned (hm : Arranged m lists active live) {L : Links Entry}
    {lists' : Lists} (heq : lists' = lists.dropped [a]) (ha : a ∈ m.pool.outstanding)
    (hm' : Arranged { m with links := L } lists' active live)
    (hshared : ∀ list, active (.shared list)) (hlocal : a ∉ lists .localList) :
    Heap.free { m with links := L } a = { m with links := L, pool := mpFree m.pool a } ∧
      Arranged { m with links := L, pool := mpFree m.pool a } (lists.dropped [a]) active live := by
  subst heq
  refine ⟨free_eq (m := { m with links := L }) ha, hm'.freed (m := { m with links := L }) fun h => ?_⟩
  rw [dropped_singleton]
  cases h with
  | shared list => exact (hm.nodup (hshared list)).not_mem_erase
  | localList => exact fun hmem => hlocal (List.mem_of_mem_erase hmem)

theorem Arranged.cleanOther (hm : Arranged m lists active live)
    (hshared : ∀ list, active (.shared list)) (list other : ListHead)
    (hne : Head.shared other ≠ .shared list) (ha : a ∈ lists (.shared list))
    (hout : ∀ j, j ≠ .shared list → j ≠ .shared other → a ∉ lists j) {L : Links Entry}
    (hs : SameOutside lists.sharedRings m.links L)
    (hm₁ : Arranged { m with links := L }
      (Function.update lists (.shared list) ((lists (.shared list)).erase a)) active live)
    (hiso : Heap.isIsolatedNode { m with links := L } ((Head.shared other).entry a) = true ↔
      a ∉ lists (.shared other)) :
    let m₁ : Heap := { m with links := L }
    let e := (Head.shared other).entry a
    ∃ L', Heap.free (if m₁.isIsolatedNode e then m₁ else m₁.removeListNode e) a =
        { m with links := L', pool := mpFree m.pool a } ∧
      SameOutside lists.sharedRings m.links L' ∧
      Arranged { m with links := L', pool := mpFree m.pool a } (lists.dropped [a]) active live := by
  intro m₁ e
  have halloc := hm.allocated _ a ha
  have hlocal : a ∉ lists .localList := hout _ Head.noConfusion Head.noConfusion
  by_cases hother : a ∈ lists (.shared other)
  · have hother₁ : a ∈ Function.update lists (.shared list)
        ((lists (.shared list)).erase a) (.shared other) := by
      rwa [Function.update_of_ne hne]
    obtain ⟨L', heq, hs', hm₂⟩ := hm₁.remove (hshared other) hother₁
    have hentries : Lists.entries (Function.update lists (.shared list)
        ((lists (.shared list)).erase a)) (.shared other) = lists.entries (.shared other) := by
      rw [Lists.entries, Lists.entries, Function.update_of_ne hne]
    rw [hentries] at hs'
    obtain ⟨hfree, hm₃⟩ := hm.cleaned (dropped_of_updates hne hout) halloc hm₂ hshared hlocal
    rw [if_neg fun h => hiso.mp h hother, heq]
    exact ⟨L', hfree, hs.trans hs' (ring_sub_sharedRings lists _), hm₃⟩
  · have hnone : ∀ j, j ≠ .shared list → a ∉ lists j := by
      intro j hj
      by_cases hjo : j = .shared other
      · rwa [hjo]
      · exact hout j hj hjo
    obtain ⟨hfree, hm₂⟩ := hm.cleaned (dropped_of_update hnone) halloc hm₁ hshared hlocal
    rw [if_pos (hiso.mpr hother)]
    exact ⟨L, hfree, hs, hm₂⟩

theorem Arranged.cleanupNode (hm : Arranged m lists active live)
    (hshared : ∀ list, active (.shared list)) (list : ListHead) (ha : a ∈ lists (.shared list))
    (hlocal : a ∉ lists .localList)
    (hble : ∀ b ∈ lists (.shared .ble), b ∉ lists (.shared .scanned))
    (hlive : CrossLive live list a) :
    ∃ L, m.cleanupNode list a = { m with links := L, pool := mpFree m.pool a } ∧
      SameOutside lists.sharedRings m.links L ∧
      Arranged { m with links := L, pool := mpFree m.pool a } (lists.dropped [a]) active live := by
  obtain ⟨L, heq, hs, hm₁⟩ := hm.remove (hshared list) ha
  have hs₁ := hs.mono (ring_sub_sharedRings lists list)
  cases list with
  | scanned =>
    have hnble : a ∉ lists (.shared .ble) := fun h => hble a h ha
    have heq₁ : m.removeListNode (.sc a) = { m with links := L } := heq
    have hiso := hm₁.tr_isolated_iff hlive
    have htr : lists.tracked a = true ↔ a ∈ lists (.shared .br) := by
      rw [Lists.tracked, decide_eq_true_eq]
      tauto
    rw [tracked_update_scanned, htr] at hiso
    rw [Heap.cleanupNode, heq₁]
    refine hm.cleanOther hshared .scanned .br (by simp) ha ?_ hs₁ hm₁ hiso
    rintro (⟨_ | _ | _⟩ | _) hsc hbr
    · exact absurd rfl hsc
    · exact absurd rfl hbr
    · exact hnble
    · exact hlocal
  | br =>
    have hnble : a ∉ lists (.shared .ble) := hm.not_both (i := .shared .br) (by simp) rfl ha
    have heq₁ : m.removeListNode (.tr a) = { m with links := L } := heq
    rw [Heap.cleanupNode, heq₁]
    refine hm.cleanOther hshared .br .scanned (by simp) ha ?_ hs₁ hm₁
      (hm₁.sc_isolated_iff hlive)
    rintro (⟨_ | _ | _⟩ | _) hbr hsc
    · exact absurd rfl hsc
    · exact absurd rfl hbr
    · exact hnble
    · exact hlocal
  | ble =>
    have hnbr : a ∉ lists (.shared .br) := hm.not_both (i := .shared .ble) (by simp) rfl ha
    have hout : ∀ j, j ≠ .shared .ble → a ∉ lists j := by
      rintro (⟨_ | _ | _⟩ | _) hj
      · exact hble a ha
      · exact hnbr
      · exact absurd rfl hj
      · exact hlocal
    have heq₁ : m.removeListNode (.tr a) = { m with links := L } := heq
    obtain ⟨hfree, hm₂⟩ := hm.cleaned (dropped_of_update hout) (hm.allocated _ a ha) hm₁ hshared hlocal
    rw [Heap.cleanupNode, heq₁]
    exact ⟨L, hfree, hs₁, hm₂⟩

theorem dropped_cons (lists : Lists) (a : Slot) (slots : List Slot) :
    (lists.dropped [a]).dropped slots = lists.dropped (a :: slots) := by
  funext h
  rw [Lists.dropped, Lists.dropped, Lists.dropped, List.diff_cons, List.diff_cons, List.diff_nil]

theorem Arranged.cleanupFrom (hm : Arranged m lists active live)
    (hshared : ∀ list, active (.shared list)) (list : ListHead) {slots : List Slot} {fuel : Nat}
    (hslots : lists (.shared list) = slots) (hlocal : ∀ a ∈ slots, a ∉ lists .localList)
    (hble : ∀ b ∈ lists (.shared .ble), b ∉ lists (.shared .scanned))
    (hlive : ∀ a ∈ slots, CrossLive live list a) (hfuel : slots.length < fuel) :
    ∃ L, m.cleanupFrom list fuel
          ((slots.map (Head.shared list).entry).headD (.head (.shared list))) =
        { m with links := L, pool := freeAll m.pool slots } ∧
      SameOutside lists.sharedRings m.links L ∧
      Arranged { m with links := L, pool := freeAll m.pool slots } (lists.dropped slots)
        active live := by
  induction slots generalizing m lists fuel with
  | nil =>
    obtain ⟨n, rfl⟩ := Nat.exists_eq_succ_of_ne_zero (Nat.ne_of_gt hfuel)
    exact ⟨m.links, if_pos rfl, SameOutside.refl _ _, hm⟩
  | cons a rest ih =>
    obtain ⟨n, rfl⟩ := Nat.exists_eq_succ_of_ne_zero (Nat.ne_of_gt (Nat.zero_lt_of_lt hfuel))
    have ha : a ∈ lists (.shared list) := by rw [hslots]; exact List.mem_cons_self
    obtain ⟨L, heq, hsame, hm'⟩ := hm.cleanupNode hshared list ha (hlocal a List.mem_cons_self) hble
      (hlive a List.mem_cons_self)
    have hrest : lists.dropped [a] (.shared list) = rest := by
      rw [dropped_singleton, hslots, List.erase_cons_head]
    have hsub : ∀ {h b}, b ∈ lists.dropped [a] h → b ∈ lists h := fun hb =>
      (List.diff_sublist _ _).subset hb
    obtain ⟨L', heq', hsame', hm''⟩ := ih hm' hrest
      (fun b hb hc => hlocal b (List.mem_cons_of_mem a hb) (hsub hc))
      (fun b hb hc => hble b (hsub hb) (hsub hc))
      (fun b hb => hlive b (List.mem_cons_of_mem a hb)) (Nat.lt_of_succ_lt_succ hfuel)
    have hpos : ((a :: rest).map (Head.shared list).entry).headD (.head (.shared list)) =
      (Head.shared list).entry a := rfl
    have htouch : m.touch ((Head.shared list).entry a) = m := touch_eq (hm.sound (h := .shared list)
      (List.mem_cons_of_mem _ (entry_mem_entries.mpr ha)))
    have hnext : m.links.next ((Head.shared list).entry a) =
        (rest.map (Head.shared list).entry).headD (.head (.shared list)) :=
      hm.next_of_append (hshared list) (l := []) hslots
    rw [dropped_cons] at hm''
    refine ⟨L', ?_, hsame.trans hsame' (sharedRings_mono fun list b => hsub), hm''⟩
    rw [hpos, Heap.cleanupFrom, if_neg (entry_ne_head _ _ _), htouch]
    dsimp only
    rw [slot_entry, heq, hnext]
    exact heq'

theorem Arranged.cleanupLists (hm : Arranged m lists active live)
    (hshared : ∀ list, active (.shared list)) (list : ListHead)
    (hlocal : ∀ a ∈ lists (.shared list), a ∉ lists .localList)
    (hble : ∀ b ∈ lists (.shared .ble), b ∉ lists (.shared .scanned))
    (hlive : ∀ a ∈ lists (.shared list), CrossLive live list a) :
    ∃ L, m.cleanupLists list =
        { m with links := L, pool := freeAll m.pool (lists (.shared list)) } ∧
      SameOutside lists.sharedRings m.links L ∧
      Arranged { m with links := L, pool := freeAll m.pool (lists (.shared list)) }
        (lists.dropped (lists (.shared list))) active live := by
  rw [Heap.cleanupLists, hm.next_head (hshared list)]
  exact hm.cleanupFrom hshared list rfl hlocal hble hlive (hm.length_lt_rounds (hshared list))

/-! ## Taking nodes off a tracked list -/

def TrackedList.head : TrackedList → Head
  | .br => .shared .br
  | .ble => .shared .ble

theorem head_entry (list : TrackedList) : list.head.entry = .tr := by cases list <;> rfl

theorem entry_head (list : TrackedList) : Entry.head list.head = list.entry := by cases list <;> rfl

theorem head_ne_local (list : TrackedList) : list.head ≠ .localList := by
  cases list <;> exact Head.noConfusion

theorem Arranged.select (hm : Arranged m lists active live) (list : TrackedList)
    (hi : active list.head) {slots before : List Slot} {fuel : Nat} (size k : Nat) (tail : Entry)
    (hsplit : lists list.head = before ++ slots) (hfuel : slots.length < fuel) :
    m.select list fuel ((slots.map .tr).headD list.entry) size k tail =
      (k + numberToSend (slots.map m.dev) size,
        ((slots.take (numberToSend (slots.map m.dev) size)).map .tr).getLastD tail, m) := by
  induction slots generalizing before fuel size k tail with
  | nil =>
    obtain ⟨n, rfl⟩ := Nat.exists_eq_succ_of_ne_zero (Nat.ne_of_gt hfuel)
    exact if_pos rfl
  | cons a rest ih =>
    obtain ⟨n, rfl⟩ := Nat.exists_eq_succ_of_ne_zero (Nat.ne_of_gt (Nat.zero_lt_of_lt hfuel))
    have ha : a ∈ lists list.head := by rw [hsplit]; simp
    have htouch : m.touch (.tr a) = m := touch_eq (hm.allocated _ a ha)
    have hnext : m.links.next (.tr a) = (rest.map .tr).headD list.entry := by
      have := hm.next_of_append hi hsplit
      rwa [head_entry, entry_head] at this
    have hpos : ((a :: rest).map Entry.tr).headD list.entry = .tr a := rfl
    have hne : Entry.tr a ≠ list.entry := by cases list <;> exact Entry.noConfusion
    rw [hpos, Heap.select, if_neg hne, List.map_cons, numberToSend]
    by_cases hsize : size > maxLengthRespDeviceInfo
    · have hsplit' : lists list.head = (before ++ [a]) ++ rest := by
        rw [hsplit, List.append_assoc, List.singleton_append]
      rw [if_pos hsize, if_pos hsize, htouch]
      dsimp only
      rw [hnext, ih _ _ _ hsplit' (Nat.lt_of_succ_lt_succ hfuel), List.take_succ_cons, List.map_cons,
        List.getLastD_cons, Nat.add_assoc, Nat.add_comm 1]
      rfl
    · rw [if_neg hsize, if_neg hsize]
      rfl

theorem getLastD_take (slots : List Slot) (n : Nat) (d : Entry) :
    ((slots.take n).map Entry.tr).getLastD ((slots.map .tr).headD d) =
      ((slots.take (max n 1)).map .tr).getLastD d := by
  cases slots with
  | nil => simp
  | cons a rest =>
    cases n with
    | zero => simp
    | succ n =>
      rw [Nat.max_eq_left (Nat.le_add_left 1 n), List.take_succ_cons, List.map_cons,
        List.getLastD_cons, List.getLastD_cons]

theorem Arranged.cutOff (hm : Arranged m lists active live) (list : TrackedList)
    (hi : active list.head) (hempty : lists .localList = []) {moved kept : List Slot}
    (hsplit : lists list.head = moved ++ kept) (hmoved : moved = [] → kept = []) :
    ∃ L, (m.touch ((moved.map .tr).getLastD list.entry)).link list.entry
          (m.links.next ((moved.map .tr).getLastD list.entry)) = { m with links := L } ∧
      SameOutside (.head list.head :: lists.entries list.head) m.links L ∧
      Arranged { m with links := L }
        (Function.update (Function.update lists list.head kept) .localList moved)
        (fun h => active h ∧ h ≠ .localList) live ∧
      Path L (moved.map .tr) ∧
      (moved ≠ [] → L.next ((moved.map .tr).getLastD list.entry) =
        (kept.map .tr).headD list.entry) := by
  have hentries : lists.entries list.head = moved.map .tr ++ kept.map .tr := by
    rw [Lists.entries, hsplit, List.map_append, head_entry]
  have hlocal : lists.entries .localList = [] := by rw [Lists.entries, hempty]; rfl
  obtain ⟨hs, hfamily, hpath⟩ := hm.family.cut hi (head_ne_local list) hentries hlocal
  have hmem : ∀ x, x ∈ .head list.head :: moved.map Entry.tr ∨
      x ∈ .head list.head :: kept.map Entry.tr → x ∈ .head list.head :: lists.entries list.head := by
    intro x hx
    rw [hentries]
    simp only [List.mem_cons, List.mem_append] at hx ⊢
    tauto
  have htail := hm.sound (hmem _ (Or.inl (getLastD_mem_cons _ (moved.map Entry.tr))))
  have hfirst := hm.sound (hmem _ (Or.inr (headD_mem_cons _ (kept.map Entry.tr))))
  have hnext : m.links.next ((moved.map .tr).getLastD (.head list.head)) =
      (kept.map .tr).headD (.head list.head) := by
    rcases List.eq_nil_or_concat' moved with rfl | ⟨l, x, rfl⟩
    · have := hm.next_head hi
      rwa [hsplit, head_entry] at this
    · have := hm.next_of_append (a := x) (l := l) (r := kept) hi (by rw [hsplit]; simp)
      rw [head_entry] at this
      simpa using this
  rw [← entry_head, touch_eq htail, hnext]
  refine ⟨_, link_eq trivial hfirst, hs, ⟨?_, ?_⟩, hpath, fun hne => ?_⟩
  · rw [entries_update, entries_update, head_entry]
    exact hfamily
  · intro h b hb
    have hmem : b ∈ lists list.head → b ∈ m.pool.outstanding := hm.allocated _ b
    rw [hsplit] at hmem
    by_cases hlocal : h = .localList
    · rw [hlocal, Function.update_self] at hb
      exact hmem (List.mem_append_left kept hb)
    · rw [Function.update_of_ne hlocal] at hb
      by_cases hhead : h = list.head
      · rw [hhead, Function.update_self] at hb
        exact hmem (List.mem_append_right moved hb)
      · rw [Function.update_of_ne hhead] at hb
        exact hm.allocated h b hb
  · rw [link_next, if_neg, hnext]
    obtain ⟨l, x, rfl⟩ := (List.eq_nil_or_concat' moved).resolve_left hne
    simp

theorem Arranged.detach (hm : Arranged m lists active live) (list : TrackedList)
    (hi : active list.head) (hempty : lists .localList = []) (size : Nat) :
    let n := numberToSend ((lists list.head).map m.dev) size
    let moved := (lists list.head).take (max n 1)
    let kept := (lists list.head).drop (max n 1)
    ∃ L, m.detach list size = (n, ((lists list.head).map .tr).headD list.entry,
          (moved.map .tr).getLastD list.entry, { m with links := L }) ∧
      SameOutside (.head list.head :: lists.entries list.head) m.links L ∧
      Arranged { m with links := L }
        (Function.update (Function.update lists list.head kept) .localList moved)
        (fun h => active h ∧ h ≠ .localList) live ∧
      Path L (moved.map .tr) ∧
      (moved ≠ [] → L.next ((moved.map .tr).getLastD list.entry) =
        (kept.map .tr).headD list.entry) := by
  have hheadPointer : m.links.next list.entry = ((lists list.head).map .tr).headD list.entry := by
    have := hm.next_head hi
    rwa [head_entry, entry_head] at this
  have hselect := hm.select list hi size 0 (((lists list.head).map .tr).headD list.entry)
    (List.nil_append _).symm (hm.length_lt_rounds hi)
  have hmoved : (lists list.head).take (max (numberToSend ((lists list.head).map m.dev) size) 1) = [] →
      (lists list.head).drop (max (numberToSend ((lists list.head).map m.dev) size) 1) = [] := by
    intro h
    rcases List.take_eq_nil_iff.mp h with h | h
    · omega
    · rw [h, List.drop_nil]
  obtain ⟨L, heq, hs, hm', hpath, hnext⟩ :=
    hm.cutOff list hi hempty (List.take_append_drop _ _).symm hmoved
  refine ⟨L, ?_, hs, hm', hpath, hnext⟩
  rw [Heap.detach, hheadPointer]
  dsimp only
  rw [hselect, getLastD_take, Nat.zero_add]
  dsimp only
  rw [touch_links, heq]

/-! ## The local list -/

theorem Arranged.openLocal (hm : Arranged m lists active live) (hlocal : ¬ active .localList)
    (hpath : Path m.links (lists.entries .localList)) (hnodup : (lists .localList).Nodup)
    (hne : lists .localList ≠ []) :
    ∃ L, m.openLocal (((lists .localList).map .tr).headD .localHead) = { m with links := L } ∧
      SameOutside (.localHead :: lists.entries .localList) m.links L ∧
      Arranged { m with links := L } lists active live ∧
      Path L (.localHead :: lists.entries .localList) ∧
      ∀ x, x ≠ .localHead → L.next x = m.links.next x := by
  have hfirst : ((lists .localList).map .tr).headD .localHead ∈
      .localHead :: lists.entries .localList := headD_mem_cons _ _
  have hself : Sound m.pool .localHead := trivial
  have hs := ((SameOutside.refl (.localHead :: lists.entries .localList) m.links).link
    List.mem_cons_self List.mem_cons_self).link List.mem_cons_self hfirst
  refine ⟨_, ?_, hs, ⟨hm.family.relink hlocal hs fun x hx => ?_, hm.allocated⟩, ?_, ?_⟩
  · rw [Heap.openLocal, Heap.initEntry, link_eq hself hself]
    exact link_eq (m := { m with links := _ }) hself (hm.sound (h := .localList) hfirst)
  · have hne : x ≠ .localHead := by
      rintro rfl
      exact head_notMem_entries lists .localList .localList hx
    rw [link_next, if_neg hne, link_next, if_neg hne]
    exact hm.family.next_ne hx
  · exact hpath.open (ring_nodup hnodup) (by simpa [Lists.entries] using hne)
  · intro x hx
    rw [link_next, if_neg hx, link_next, if_neg hx]

theorem Arranged.closeLocal (hm : Arranged m lists active live) (hlocal : ¬ active .localList)
    (hpath : Path m.links (.localHead :: lists.entries .localList))
    (hnodup : (lists .localList).Nodup) :
    ∃ L, m.closeLocal (((lists .localList).map .tr).getLastD .localHead) = { m with links := L } ∧
      SameOutside (.localHead :: lists.entries .localList) m.links L ∧
      Arranged { m with links := L } lists (fun h => active h ∨ h = .localList) live := by
  have hlast : ((lists .localList).map .tr).getLastD .localHead ∈
      .localHead :: lists.entries .localList := getLastD_mem_cons _ _
  have hs := (SameOutside.refl (.localHead :: lists.entries .localList) m.links).link hlast
    List.mem_cons_self
  have hring := hpath.close (ring_nodup (h := .localList) hnodup)
  have hfamily := hm.family.relink hlocal hs fun x => hring.next_ne
  exact ⟨_, link_eq (hm.sound (h := .localList) hlast) trivial, hs, hfamily.activate hring,
    hm.allocated⟩

theorem Arranged.visitLocal (hm : Arranged m lists active live) (hi : active .localList)
    {slots before : List Slot} {fuel : Nat} (hsplit : lists .localList = before ++ slots)
    (hfuel : slots.length < fuel) :
    m.visitLocal fuel ((slots.map .tr).headD .localHead) = (slots.map m.dev, m) := by
  induction slots generalizing before fuel with
  | nil =>
    obtain ⟨n, rfl⟩ := Nat.exists_eq_succ_of_ne_zero (Nat.ne_of_gt hfuel)
    exact if_pos rfl
  | cons a rest ih =>
    obtain ⟨n, rfl⟩ := Nat.exists_eq_succ_of_ne_zero (Nat.ne_of_gt (Nat.zero_lt_of_lt hfuel))
    have ha : a ∈ lists .localList := by rw [hsplit]; simp
    have htouch : m.touch (.tr a) = m := touch_eq (hm.allocated _ a ha)
    have hnext : m.links.next (.tr a) = (rest.map .tr).headD .localHead := hm.next_of_append hi hsplit
    have hpos : ((a :: rest).map Entry.tr).headD .localHead = .tr a := rfl
    have hsplit' : lists .localList = (before ++ [a]) ++ rest := by
      rw [hsplit, List.append_assoc, List.singleton_append]
    rw [hpos, Heap.visitLocal, if_neg Entry.noConfusion, htouch]
    dsimp only
    rw [hnext, ih hsplit' (Nat.lt_of_succ_lt_succ hfuel)]
    rfl


/-- Whether the last loop frees a slot: BLE slots are in no scanned list. -/
def Lists.freeIfUnlisted (lists : Lists) (p : Pool) (a : Slot) : Pool :=
  if a ∈ lists (.shared .scanned) then p else mpFree p a

theorem Arranged.release (hm : Arranged m lists active live) (list : TrackedList)
    (halloc : a ∈ m.pool.outstanding) (hout : ∀ h, h ≠ .shared .scanned → a ∉ lists h)
    (hble : list = .ble → a ∉ lists (.shared .scanned)) (hbr : list = .br → live (.sc a)) :
    m.release list a = { m with pool := lists.freeIfUnlisted m.pool a } ∧
      Arranged { m with pool := lists.freeIfUnlisted m.pool a } lists active live := by
  have hfree := free_eq halloc
  have hcases : list = .br ∧ a ∈ lists (.shared .scanned) ∨ a ∉ lists (.shared .scanned) := by
    cases list with
    | br => exact (em _).imp (fun h => ⟨rfl, h⟩) id
    | ble => exact Or.inr (hble rfl)
  rcases hcases with ⟨rfl, hsc⟩ | hsc
  · have hnot : ¬ m.isIsolatedNode (.sc a) = true := fun h =>
      (hm.sc_isolated_iff (hbr rfl)).mp h hsc
    rw [Heap.release, access_eq halloc, Lists.freeIfUnlisted, if_pos hsc]
    exact ⟨if_neg hnot, hm⟩
  · rw [Lists.freeIfUnlisted, if_neg hsc]
    refine ⟨?_, hm.freed fun h => ?_⟩
    · cases list with
      | ble => exact hfree
      | br =>
        rw [Heap.release, access_eq halloc]
        exact (if_pos ((hm.sc_isolated_iff (hbr rfl)).mpr hsc)).trans hfree
    · by_cases hh : h = .shared .scanned
      · rwa [hh]
      · exact hout h hh

theorem Arranged.unlinkNode (hm : Arranged m lists active live) (hi : active .localList)
    (ha : a ∈ lists .localList) :
    ∃ L, m.removeListNode (.tr a) = { m with links := L } ∧
      SameOutside (.localHead :: lists.entries .localList) m.links L ∧
      Arranged { m with links := L }
        (Function.update lists .localList ((lists .localList).erase a)) active live :=
  hm.remove hi ha

theorem Arranged.notMem_unlinked (hm : Arranged m lists active live) (hi : active .localList)
    {rest : List Slot} (hslots : lists .localList = a :: rest) :
    ∀ h, h ≠ .shared .scanned → a ∉ Function.update lists .localList rest h := by
  have ha : a ∈ lists .localList := by rw [hslots]; exact List.mem_cons_self
  have hnodup := hm.nodup hi
  rw [hslots, List.nodup_cons] at hnodup
  rintro (⟨_ | _ | _⟩ | _) hne
  · exact absurd rfl hne
  · exact hm.not_both (i := .localList) (j := .shared .br) (by simp) rfl ha
  · exact hm.not_both (i := .localList) (j := .shared .ble) (by simp) rfl ha
  · rw [Function.update_self]
    exact hnodup.1

theorem freeAll_freeIfUnlisted (lists : Lists) (p : Pool) (a : Slot) (rest : List Slot) :
    freeAll (lists.freeIfUnlisted p a) (rest.filter fun a => a ∉ lists (.shared .scanned)) =
      freeAll p ((a :: rest).filter fun a => a ∉ lists (.shared .scanned)) := by
  rw [Lists.freeIfUnlisted]
  by_cases h : a ∈ lists (.shared .scanned)
  · rw [if_pos h, List.filter_cons_of_neg (by simpa using h)]
  · rw [if_neg h, List.filter_cons_of_pos (by simpa using h), freeAll_cons]

theorem Arranged.unlinkLocal (hm : Arranged m lists active live) (hi : active .localList)
    (list : TrackedList) {slots : List Slot} {fuel : Nat} (hslots : lists .localList = slots)
    (hble : list = .ble → ∀ a ∈ slots, a ∉ lists (.shared .scanned))
    (hbr : list = .br → ∀ a ∈ slots, live (.sc a)) (hfuel : slots.length < fuel) :
    ∃ L, m.unlinkLocal list fuel ((slots.map .tr).headD .localHead) =
        { m with
          links := L
          pool := freeAll m.pool (slots.filter fun a => a ∉ lists (.shared .scanned)) } ∧
      Arranged
        { m with
          links := L
          pool := freeAll m.pool (slots.filter fun a => a ∉ lists (.shared .scanned)) }
        (Function.update lists .localList []) active live := by
  induction slots generalizing m lists fuel with
  | nil =>
    obtain ⟨n, rfl⟩ := Nat.exists_eq_succ_of_ne_zero (Nat.ne_of_gt hfuel)
    have hsame : Function.update lists .localList [] = lists := by
      rw [← hslots, Function.update_eq_self]
    refine ⟨m.links, if_pos rfl, ?_⟩
    rw [hsame]
    exact hm
  | cons a rest ih =>
    obtain ⟨n, rfl⟩ := Nat.exists_eq_succ_of_ne_zero (Nat.ne_of_gt (Nat.zero_lt_of_lt hfuel))
    have ha : a ∈ lists .localList := by rw [hslots]; exact List.mem_cons_self
    have halloc := hm.allocated _ a ha
    have htouch : m.touch (.tr a) = m := touch_eq halloc
    have hnext : m.links.next (.tr a) = (rest.map .tr).headD .localHead :=
      hm.next_of_append hi (l := []) hslots
    have hpos : ((a :: rest).map Entry.tr).headD .localHead = .tr a := rfl
    have hslot : (Entry.tr a).slot = a := rfl
    obtain ⟨L, heq, -, hm₁⟩ := hm.unlinkNode hi ha
    have hrest : (lists .localList).erase a = rest := by rw [hslots, List.erase_cons_head]
    rw [hrest] at hm₁
    have hout := hm.notMem_unlinked hi hslots
    obtain ⟨hrel, hm₂⟩ := hm₁.release list halloc hout (fun h => hble h a List.mem_cons_self)
      fun h => hbr h a List.mem_cons_self
    obtain ⟨L', heq', hm₃⟩ := ih hm₂ (Function.update_self ..)
      (fun h b hb => hble h b (List.mem_cons_of_mem a hb))
      (fun h b hb => hbr h b (List.mem_cons_of_mem a hb)) (Nat.lt_of_succ_lt_succ hfuel)
    have hsc : Function.update lists .localList rest (.shared .scanned) = lists (.shared .scanned) :=
      rfl
    have hpool := freeAll_freeIfUnlisted (Function.update lists .localList rest) m.pool a rest
    rw [Function.update_idem] at hm₃
    rw [hpool, hsc] at heq' hm₃
    refine ⟨L', ?_, hm₃⟩
    rw [hpos, Heap.unlinkLocal, if_neg Entry.noConfusion, htouch]
    dsimp only
    rw [hslot, heq, hrel, hnext]
    exact heq'

/-! ## consolidate_tracked_data -/

theorem numberToSend_le_length (nodes : List ScannedDevice) (size : Nat) :
    numberToSend nodes size ≤ nodes.length := by
  induction nodes generalizing size with
  | nil => exact Nat.le_refl 0
  | cons d rest ih =>
    rw [numberToSend]
    split
    · exact Nat.succ_le_succ (ih _)
    · exact Nat.zero_le _

theorem count_printed (nodes : List ScannedDevice) :
    nodes.length - (nodes.filter isDiscarded).length =
      (nodes.filter fun d => !isDiscarded d).length := by
  have := List.length_eq_length_filter_add (l := nodes) isDiscarded
  omega

theorem numberToSend_pos {nodes : List ScannedDevice} {size : Nat}
    (hsize : maxLengthRespDeviceInfo < size) (hne : nodes ≠ []) : 0 < numberToSend nodes size := by
  obtain ⟨d, rest, rfl⟩ := List.exists_cons_of_ne_nil hne
  rw [numberToSend, if_pos hsize]
  exact Nat.succ_pos _

theorem Arranged.forget (hm : Arranged m lists active live) (hlocal : ¬ active .localList)
    (hlive : ∀ a ∈ lists .localList, ¬ live (.tr a)) :
    Arranged m (Function.update lists .localList []) active live := by
  have hentries : ∀ x ∈ lists.entries .localList, ¬ live x := by
    intro x hx
    obtain ⟨a, ha, rfl⟩ := List.mem_map.mp hx
    exact hlive a ha
  refine ⟨by rw [entries_update]; exact hm.family.forget hlocal hentries, ?_⟩
  intro h a ha
  by_cases hh : h = .localList
  · rw [hh, Function.update_self] at ha
    exact absurd ha List.not_mem_nil
  · rw [Function.update_of_ne hh] at ha
    exact hm.allocated h a ha

theorem headD_map_of_ne_nil {slots : List Slot} (hne : slots ≠ []) (d d' : Entry) :
    (slots.map Entry.tr).headD d = (slots.map .tr).headD d' := by
  obtain ⟨a, rest, rfl⟩ := List.exists_cons_of_ne_nil hne
  rfl

theorem getLastD_map_of_ne_nil {slots : List Slot} (hne : slots ≠ []) (d d' : Entry) :
    (slots.map Entry.tr).getLastD d = (slots.map .tr).getLastD d' := by
  obtain ⟨a, rest, rfl⟩ := List.exists_cons_of_ne_nil hne
  rw [List.map_cons, List.getLastD_cons, List.getLastD_cons]

theorem Arranged.sendLocal (hm : Arranged m lists active live) (list : TrackedList)
    (hlocal : ¬ active .localList) (hnodup : (lists .localList).Nodup) (hne : lists .localList ≠ [])
    (hpath : Path m.links (lists.entries .localList))
    (hble : list = .ble → ∀ a ∈ lists .localList, a ∉ lists (.shared .scanned))
    (hbr : list = .br → ∀ a ∈ lists .localList, live (.sc a)) (d : Entry) :
    let m₁ := (m.openLocal (((lists .localList).map .tr).headD d)).closeLocal
      (((lists .localList).map .tr).getLastD d)
    let freed := (lists .localList).filter fun a => a ∉ lists (.shared .scanned)
    m₁.visitLocal m₁.rounds (m₁.links.next .localHead) = ((lists .localList).map m.dev, m₁) ∧
    ∃ L, m₁.unlinkLocal list m₁.rounds (m₁.links.next .localHead) =
        { m with links := L, pool := freeAll m.pool freed } ∧
      Arranged { m with links := L, pool := freeAll m.pool freed }
        (Function.update lists .localList []) active live := by
  rw [headD_map_of_ne_nil hne d .localHead, getLastD_map_of_ne_nil hne d .localHead]
  obtain ⟨L, heq, -, hm₁, hpath₁, -⟩ := hm.openLocal hlocal hpath hnodup hne
  obtain ⟨L', heq', -, hm₂⟩ := hm₁.closeLocal hlocal hpath₁ hnodup
  have hi : active .localList ∨ Head.localList = .localList := Or.inr rfl
  have hnext : Links.next L' .localHead = ((lists .localList).map .tr).headD .localHead :=
    hm₂.next_head hi
  have hrounds := hm₂.length_lt_rounds hi
  have hvisit := hm₂.visitLocal hi (List.nil_append _).symm hrounds
  obtain ⟨L'', hunlink, hm₃⟩ := hm₂.unlinkLocal hi list rfl hble hbr hrounds
  dsimp only
  rw [heq, heq']
  refine ⟨?_, L'', ?_, hm₃.mono (fun _ => Or.inl) fun _ => id⟩
  · rw [hnext]
    exact hvisit
  · rw [hnext]
    exact hunlink

theorem headD_map_take {n : Nat} (hn : n ≠ 0) (slots : List Slot) (d : Entry) :
    ((slots.take n).map Entry.tr).headD d = (slots.map .tr).headD d := by
  obtain ⟨k, rfl⟩ := Nat.exists_eq_succ_of_ne_zero hn
  cases slots <;> rfl

theorem update_back (list : TrackedList) (hempty : lists .localList = []) (slots moved : List Slot) :
    Function.update (Function.update (Function.update lists list.head slots) .localList moved)
      .localList [] = Function.update lists list.head slots := by
  rw [Function.update_idem, ← hempty, ← Function.update_of_ne (head_ne_local list).symm slots lists,
    Function.update_eq_self]

theorem take_sent_ne_nil {slots : List Slot} {dev : Slot → ScannedDevice} {size : Nat}
    (h : numberToSend (slots.map dev) size ≠ 0) :
    slots.take (numberToSend (slots.map dev) size) ≠ [] := by
  have hle := numberToSend_le_length (slots.map dev) size
  rw [List.length_map] at hle
  rw [ne_eq, List.take_eq_nil_iff, not_or]
  refine ⟨h, ?_⟩
  rintro hnil
  rw [hnil, List.length_nil] at hle
  rw [hnil] at h
  omega

theorem count_sent (slots : List Slot) (dev : Slot → ScannedDevice) (size : Nat) :
    let n := numberToSend (slots.map dev) size
    n - (((slots.take n).map dev).filter isDiscarded).length =
      (((slots.take n).map dev).filter fun d => !isDiscarded d).length := by
  have hle := numberToSend_le_length (slots.map dev) size
  rw [List.length_map] at hle
  intro n
  rw [← count_printed, List.length_map, List.length_take, Nat.min_eq_left hle]

theorem Arranged.consolidate (hm : Arranged m lists active live) (list : TrackedList)
    (hi : active list.head) (hlocal : ¬ active .localList) (hempty : lists .localList = [])
    (size : Nat) (hble : list = .ble → ∀ a ∈ lists list.head, a ∉ lists (.shared .scanned))
    (hbr : list = .br → ∀ a ∈ lists list.head, live (.sc a))
    (hlive : numberToSend ((lists list.head).map m.dev) size = 0 →
      ∀ a ∈ lists list.head, ¬ live (.tr a)) :
    let n := numberToSend ((lists list.head).map m.dev) size
    let freed := ((lists list.head).take n).filter fun a => a ∉ lists (.shared .scanned)
    ∃ L, m.consolidateTrackedData list size =
        (consolidateText list.deviceType ((lists list.head).map m.dev) size,
          { m with links := L, pool := freeAll m.pool freed }) ∧
      Arranged { m with links := L, pool := freeAll m.pool freed }
        (Function.update lists list.head ((lists list.head).drop (max n 1))) active live := by
  obtain ⟨L, heq, -, hm₁, hpath, -⟩ := hm.detach list hi hempty size
  have hrest : ∀ h, active h → active h ∧ h ≠ .localList := fun h hh =>
    ⟨hh, fun heq => hlocal (heq ▸ hh)⟩
  have hdetached := hm₁.mono hrest fun _ => id
  have hne := @take_sent_ne_nil (lists list.head) m.dev size
  have hcount := count_sent (lists list.head) m.dev size
  dsimp only at heq hdetached hpath hcount ⊢
  rw [Heap.consolidateTrackedData, heq]
  dsimp only
  rw [consolidateText]
  generalize numberToSend ((lists list.head).map m.dev) size = n at *
  have hmem : ∀ a ∈ (lists list.head).take (max n 1), a ∈ lists list.head :=
    fun a => List.mem_of_mem_take
  by_cases hzero : n = 0
  · subst hzero
    have hforget := hdetached.forget hlocal fun a ha => by
      rw [Function.update_self] at ha
      exact hlive rfl a (hmem a ha)
    rw [update_back list hempty] at hforget
    refine ⟨L, ?_, hforget⟩
    rw [if_pos rfl]
    simp
  · have hmax : max n 1 = n := by omega
    rw [hmax] at hdetached hpath hmem ⊢
    have hscanned : Function.update (Function.update lists list.head ((lists list.head).drop n))
        .localList ((lists list.head).take n) (.shared .scanned) = lists (.shared .scanned) := by
      cases list <;> rfl
    have hmoved : Function.update (Function.update lists list.head ((lists list.head).drop n))
        .localList ((lists list.head).take n) .localList = (lists list.head).take n :=
      Function.update_self ..
    have hsend := hdetached.sendLocal list hlocal
    rw [hmoved, hscanned, update_back list hempty] at hsend
    obtain ⟨hvisit, L', hunlink, hm₂⟩ := hsend ((List.take_sublist _ _).nodup (hm.nodup hi))
      (hne hzero) (by rw [Lists.entries, hmoved]; exact hpath)
      (fun h a ha => hble h a (hmem a ha)) (fun h a ha => hbr h a (hmem a ha)) list.entry
    refine ⟨L', ?_, hm₂⟩
    rw [if_neg hzero, ← headD_map_take hzero, hvisit]
    dsimp only
    rw [hvisit, hunlink]
    dsimp only
    rw [hcount, List.map_take]

end Sections

end LBeacon
