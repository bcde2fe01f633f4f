import LBeacon.Heap
import LBeacon.Steps

/-!
# Well-formed heaps

Which slots each ring holds, and what every operation on the pointers does to these lists. The
local ring may be open: `consolidate_tracked_data` builds it outside the lock.
-/

open CText Rings

namespace LBeacon

/-! ## Lists behind the rings -/

abbrev Lists := Head → List Slot

/-- The entries of a ring, its head left out. -/
def Lists.entries (lists : Lists) (h : Head) : List Entry := (lists h).map h.entry

structure Arranged (m : Heap) (lists : Lists) (active : Head → Prop) (live : Entry → Prop) :
    Prop where
  family : Family m.links .head lists.entries active live
  allocated : ∀ h, ∀ a ∈ lists h, a ∈ m.pool.outstanding

@[simp] theorem slot_entry (h : Head) (a : Slot) : (h.entry a).slot = a := by
  rcases h with ⟨_ | _ | _⟩ | _ <;> rfl

theorem entry_injective (h : Head) : Function.Injective h.entry := fun a b hab => by
  rw [← slot_entry h a, hab, slot_entry]

@[simp] theorem entry_ne_head (h h' : Head) (a : Slot) : h.entry a ≠ .head h' := by
  rcases h with ⟨_ | _ | _⟩ | _ <;> exact Entry.noConfusion

@[simp] theorem entry_mem_entries {lists : Lists} {h : Head} {a : Slot} :
    h.entry a ∈ lists.entries h ↔ a ∈ lists h := by
  unfold Lists.entries
  rw [List.mem_map_of_injective (entry_injective h)]

theorem head_notMem_entries (lists : Lists) (h i : Head) : .head h ∉ lists.entries i := by
  intro hmem
  obtain ⟨a, -, ha⟩ := List.mem_map.mp hmem
  exact entry_ne_head i h a ha

theorem ring_nodup {lists : Lists} {h : Head} (hnodup : (lists h).Nodup) :
    (.head h :: lists.entries h).Nodup :=
  List.nodup_cons.mpr ⟨head_notMem_entries lists h h, hnodup.map (entry_injective h)⟩

theorem entries_update (lists : Lists) (h : Head) (slots : List Slot) :
    Lists.entries (Function.update lists h slots) =
      Function.update lists.entries h (slots.map h.entry) := by
  funext h'
  by_cases heq : h' = h
  · subst heq
    rw [Function.update_self, Lists.entries, Function.update_self]
  · rw [Function.update_of_ne heq, Lists.entries, Function.update_of_ne heq]
    rfl

section Ops

variable {m : Heap} {lists : Lists} {active : Head → Prop} {live : Entry → Prop} {h i : Head}
  {a b : Slot} {e e' : Entry}

/-! ## Accesses -/

/-- The slot that an entry is part of is handed out. -/
def Sound (p : Pool) : Entry → Prop
  | .head _ => True
  | .sc a => a ∈ p.outstanding
  | .tr a => a ∈ p.outstanding

theorem sound_entry {p : Pool} (h : Head) : Sound p (h.entry a) ↔ a ∈ p.outstanding := by
  rcases h with ⟨_ | _ | _⟩ | _ <;> exact Iff.rfl

theorem access_eq (ha : a ∈ m.pool.outstanding) : m.access a = m := if_pos ha

theorem touch_eq (he : Sound m.pool e) : m.touch e = m := by
  cases e with
  | head h => rfl
  | sc a => exact access_eq he
  | tr a => exact access_eq he

@[simp] theorem touch_links (m : Heap) (e : Entry) : (m.touch e).links = m.links := by
  cases e with
  | head h => rfl
  | sc a => exact (apply_ite Heap.links _ _ _).trans (ite_self _)
  | tr a => exact (apply_ite Heap.links _ _ _).trans (ite_self _)

@[simp] theorem touch_readings (m : Heap) (e : Entry) : (m.touch e).readings = m.readings := by
  cases e with
  | head h => rfl
  | sc a => exact (apply_ite Heap.readings _ _ _).trans (ite_self _)
  | tr a => exact (apply_ite Heap.readings _ _ _).trans (ite_self _)

@[simp] theorem initEntry_readings (m : Heap) (e : Entry) :
    (m.initEntry e).readings = m.readings := by
  simp [Heap.initEntry, Heap.link]

theorem link_eq (he : Sound m.pool e) (he' : Sound m.pool e') :
    m.link e e' = { m with links := m.links.link e e' } := by
  rw [Heap.link, touch_eq he, touch_eq he']

theorem free_eq (ha : a ∈ m.pool.outstanding) : m.free a = { m with pool := mpFree m.pool a } := by
  rw [Heap.free, access_eq ha]

theorem write_eq (ha : a ∈ m.pool.outstanding) (f : ScannedDevice → ScannedDevice) :
    m.write a f = { m with dev := fun x => if x = a then f (m.dev a) else m.dev x } := by
  rw [Heap.write, access_eq ha]

theorem Arranged.sound (hm : Arranged m lists active live) (he : e ∈ .head h :: lists.entries h) :
    Sound m.pool e := by
  rcases List.mem_cons.mp he with rfl | he
  · exact trivial
  · obtain ⟨a, ha, rfl⟩ := List.mem_map.mp he
    exact (sound_entry h).mpr (hm.allocated h a ha)

/-! ## Rings of slots -/

theorem Arranged.nodup (hm : Arranged m lists active live) (hi : active i) : (lists i).Nodup := by
  have := (hm.family.isRing i hi).nodup
  exact List.Nodup.of_map _ (List.nodup_cons.mp this).2

theorem Arranged.next_head (hm : Arranged m lists active live) (hi : active i) :
    m.links.next (.head i) = ((lists i).map i.entry).headD (.head i) :=
  (hm.family.isRing i hi).next_head

theorem Arranged.prev_head (hm : Arranged m lists active live) (hi : active i) :
    m.links.prev (.head i) = ((lists i).map i.entry).getLastD (.head i) :=
  (hm.family.isRing i hi).prev_head

theorem Arranged.next_of_append (hm : Arranged m lists active live) (hi : active i)
    {l r : List Slot} (hsplit : lists i = l ++ a :: r) :
    m.links.next (i.entry a) = (r.map i.entry).headD (.head i) := by
  have hring := hm.family.isRing i hi
  rw [Lists.entries, hsplit, List.map_append, List.map_cons] at hring
  exact hring.next_of_append

theorem Arranged.empty_iff (hm : Arranged m lists active live) (hi : active i) :
    m.isIsolatedNode (.head i) = true ↔ lists i = [] := by
  rw [Heap.isIsolatedNode, decide_eq_true_eq, (hm.family.isRing i hi).isolated_iff, Lists.entries,
    List.map_eq_nil_iff]

theorem Arranged.isolated_iff (hm : Arranged m lists active live) (he : live e)
    (hhead : ∀ h, e ≠ .head h) : m.isIsolatedNode e = true ↔ ∀ h, e ∉ lists.entries h := by
  rw [Heap.isIsolatedNode, decide_eq_true_eq, hm.family.isolated_iff he hhead]

theorem arranged_init (active : Head → Prop) (live : Entry → Prop) :
    Arranged .init (fun _ => []) active live := by
  refine ⟨⟨?_, ?_, ?_, fun _ _ _ => rfl⟩, fun _ _ h => absurd h List.not_mem_nil⟩
  · exact fun h _ => isRing_nil.mpr ⟨rfl, rfl⟩
  · intro i j hij x hx hx'
    exact hij (Entry.head.inj ((List.mem_singleton.mp hx).symm.trans (List.mem_singleton.mp hx')))
  · exact fun _ _ _ hx => absurd hx List.not_mem_nil

theorem Arranged.of_family (hm : Arranged m lists active live) {L : Links Entry}
    {slots : List Slot} {active' : Head → Prop}
    (hf : Family L .head (Function.update lists.entries i (slots.map i.entry)) active' live)
    (hslots : ∀ a ∈ slots, a ∈ m.pool.outstanding) :
    Arranged { m with links := L } (Function.update lists i slots) active' live := by
  refine ⟨by rw [entries_update]; exact hf, ?_⟩
  intro j a ha
  by_cases hji : j = i
  · subst hji
    rw [Function.update_self] at ha
    exact hslots a ha
  · rw [Function.update_of_ne hji] at ha
    exact hm.allocated j a ha

/-! ## Removing and inserting -/

theorem Arranged.remove (hm : Arranged m lists active live) (hi : active i) (ha : a ∈ lists i) :
    ∃ L, m.removeListNode (i.entry a) = { m with links := L } ∧
      SameOutside (.head i :: lists.entries i) m.links L ∧
      Arranged { m with links := L } (Function.update lists i ((lists i).erase a)) active live := by
  obtain ⟨l, r, hsplit⟩ := List.append_of_mem ha
  have hnodup := hm.nodup hi
  have hal : a ∉ l := by
    rw [hsplit, List.nodup_append] at hnodup
    intro hal
    exact hnodup.2.2 a hal a List.mem_cons_self rfl
  have herase : (lists i).erase a = l ++ r := by
    rw [hsplit, List.erase_append_right _ hal, List.erase_cons_head]
  have hentries : lists.entries i = l.map i.entry ++ i.entry a :: r.map i.entry := by
    rw [Lists.entries, hsplit, List.map_append, List.map_cons]
  obtain ⟨hsame, hfamily⟩ := hm.family.remove hi hentries
  have hring := hm.family.isRing i hi
  rw [hentries] at hring
  have hsound : ∀ e ∈ .head i :: lists.entries i, Sound m.pool e := fun e he => hm.sound he
  have hself : Sound m.pool (i.entry a) := (sound_entry i).mpr (hm.allocated i a ha)
  have hprev : Sound m.pool (m.links.prev (i.entry a)) := by
    refine hsound _ ?_
    rw [hring.prev_of_append, hentries]
    have := getLastD_mem_cons (Entry.head i) (l.map i.entry)
    simp only [List.mem_cons, List.mem_append] at this ⊢
    tauto
  have hnext : Sound m.pool (m.links.next (i.entry a)) := by
    refine hsound _ ?_
    rw [hring.next_of_append, hentries]
    have := headD_mem_cons (Entry.head i) (r.map i.entry)
    simp only [List.mem_cons, List.mem_append] at this ⊢
    tauto
  refine ⟨_, ?_, hsame, ?_⟩
  · rw [Heap.removeListNode, touch_eq hself, link_eq hprev hnext]
    exact link_eq hself hself
  · rw [herase]
    rw [← List.map_append] at hfamily
    refine hm.of_family hfamily fun b hb => hm.allocated i b ?_
    rw [hsplit]
    simp only [List.mem_append, List.mem_cons] at hb ⊢
    tauto

theorem Arranged.insertEntry (hm : Arranged m lists active live) (hi : active i) {l r : List Slot}
    (hsplit : lists i = l ++ r) (halloc : a ∈ m.pool.outstanding)
    (hfresh : ∀ j, i.entry a ∉ lists.entries j) :
    ∃ L, m.insertEntryList (i.entry a) ((l.map i.entry).getLastD (.head i))
          ((r.map i.entry).headD (.head i)) = { m with links := L } ∧
      SameOutside (i.entry a :: .head i :: lists.entries i) m.links L ∧
      Arranged { m with links := L } (Function.update lists i (l ++ a :: r)) active live := by
  have hentries : lists.entries i = l.map i.entry ++ r.map i.entry := by
    rw [Lists.entries, hsplit, List.map_append]
  have hfresh' : ∀ j, i.entry a ∉ Entry.head j :: lists.entries j := fun j hj =>
    (List.mem_cons.mp hj).elim (entry_ne_head i j a) (hfresh j)
  obtain ⟨hsame, hfamily⟩ := hm.family.insert hi hentries hfresh'
  have hself : Sound m.pool (i.entry a) := (sound_entry i).mpr halloc
  have hprev : Sound m.pool ((l.map i.entry).getLastD (.head i)) := by
    refine hm.sound (h := i) ?_
    rw [hentries]
    have := getLastD_mem_cons (Entry.head i) (l.map i.entry)
    simp only [List.mem_cons, List.mem_append] at this ⊢
    tauto
  have hnext : Sound m.pool ((r.map i.entry).headD (.head i)) := by
    refine hm.sound (h := i) ?_
    rw [hentries]
    have := headD_mem_cons (Entry.head i) (r.map i.entry)
    simp only [List.mem_cons, List.mem_append] at this ⊢
    tauto
  refine ⟨_, ?_, hsame, ?_⟩
  · rw [Heap.insertEntryList, link_eq hself hnext]
    exact link_eq hprev hself
  · rw [← List.map_cons, ← List.map_append] at hfamily
    refine hm.of_family hfamily fun b hb => ?_
    rcases List.mem_append.mp hb with hb | hb
    · exact hm.allocated i b (hsplit ▸ List.mem_append_left r hb)
    · rcases List.mem_cons.mp hb with rfl | hb
      · exact halloc
      · exact hm.allocated i b (hsplit ▸ List.mem_append_right l hb)

theorem Arranged.insertFirst (hm : Arranged m lists active live) (hi : active i)
    (halloc : a ∈ m.pool.outstanding) (hfresh : ∀ j, i.entry a ∉ lists.entries j) :
    ∃ L, m.insertListFirst (i.entry a) (.head i) = { m with links := L } ∧
      SameOutside (i.entry a :: .head i :: lists.entries i) m.links L ∧
      Arranged { m with links := L } (Function.update lists i (a :: lists i)) active live := by
  obtain ⟨L, heq, hsame, hm'⟩ := hm.insertEntry hi (List.nil_append (lists i)).symm halloc hfresh
  rw [← hm.next_head hi] at heq
  exact ⟨L, heq, hsame, hm'⟩

theorem Arranged.insertTail (hm : Arranged m lists active live) (hi : active i)
    (halloc : a ∈ m.pool.outstanding) (hfresh : ∀ j, i.entry a ∉ lists.entries j) :
    ∃ L, m.insertListTail (i.entry a) (.head i) = { m with links := L } ∧
      SameOutside (i.entry a :: .head i :: lists.entries i) m.links L ∧
      Arranged { m with links := L } (Function.update lists i (lists i ++ [a])) active live := by
  obtain ⟨L, heq, hsame, hm'⟩ := hm.insertEntry hi (List.append_nil (lists i)).symm halloc hfresh
  rw [← hm.prev_head hi] at heq
  exact ⟨L, heq, hsame, hm'⟩

/-! ## Freeing -/

theorem Arranged.freed (hm : Arranged m lists active live) (hout : ∀ h, a ∉ lists h) :
    Arranged { m with pool := mpFree m.pool a } lists active live := by
  refine ⟨hm.family, fun h b hb => mem_mpFree.mpr ⟨?_, hm.allocated h b hb⟩⟩
  rintro rfl
  exact hout h hb

theorem Arranged.congr (hm : Arranged m lists active live) {m' : Heap} (hlinks : m'.links = m.links)
    (hpool : m'.pool.outstanding = m.pool.outstanding) : Arranged m' lists active live :=
  ⟨hlinks ▸ hm.family, fun h b hb => hpool ▸ hm.allocated h b hb⟩

theorem Arranged.of_live (hm : Arranged m lists active live) {live' : Entry → Prop}
    (hlive : ∀ x, live' x → live x ∨ m.links.next x = x) : Arranged m lists active live' :=
  ⟨hm.family.of_live hlive, hm.allocated⟩

theorem Arranged.mono (hm : Arranged m lists active live) {active' : Head → Prop}
    {live' : Entry → Prop} (hactive : ∀ h, active' h → active h) (hlive : ∀ x, live' x → live x) :
    Arranged m lists active' live' := ⟨hm.family.mono hactive hlive, hm.allocated⟩

theorem Arranged.length_lt_rounds (hm : Arranged m lists active live) (hi : active i) :
    (lists i).length < m.rounds := by
  have hle : (lists i).length ≤ m.pool.outstanding.length :=
    (hm.nodup hi).length_le_of_subset fun a ha => hm.allocated i a ha
  exact Nat.lt_succ_of_le hle

/-- The lists that a node is linked in by its tracked entry. -/
def Lists.tracked (lists : Lists) (a : Slot) : Bool :=
  a ∈ lists (.shared .br) ∨ a ∈ lists (.shared .ble) ∨ a ∈ lists .localList

theorem tr_mem_entries : (∃ h, Entry.tr a ∈ lists.entries h) ↔ lists.tracked a = true := by
  rw [Lists.tracked, decide_eq_true_eq]
  constructor
  · rintro ⟨⟨_ | _ | _⟩ | _, hmem⟩
    · obtain ⟨b, -, hb⟩ := List.mem_map.mp hmem
      exact Entry.noConfusion hb
    · exact Or.inl ((entry_mem_entries (h := .shared .br)).mp hmem)
    · exact Or.inr (Or.inl ((entry_mem_entries (h := .shared .ble)).mp hmem))
    · exact Or.inr (Or.inr ((entry_mem_entries (h := .localList)).mp hmem))
  · rintro (h | h | h)
    · exact ⟨.shared .br, (entry_mem_entries (h := .shared .br)).mpr h⟩
    · exact ⟨.shared .ble, (entry_mem_entries (h := .shared .ble)).mpr h⟩
    · exact ⟨.localList, (entry_mem_entries (h := .localList)).mpr h⟩

theorem sc_mem_entries : (∃ h, Entry.sc a ∈ lists.entries h) ↔ a ∈ lists (.shared .scanned) := by
  constructor
  · rintro ⟨⟨_ | _ | _⟩ | _, hmem⟩
    · exact (entry_mem_entries (h := .shared .scanned)).mp hmem
    all_goals
      obtain ⟨b, -, hb⟩ := List.mem_map.mp hmem
      exact Entry.noConfusion hb
  · exact fun h => ⟨.shared .scanned, (entry_mem_entries (h := .shared .scanned)).mpr h⟩

theorem Arranged.tr_isolated_iff (hm : Arranged m lists active live) (he : live (.tr a)) :
    m.isIsolatedNode (.tr a) = true ↔ ¬ lists.tracked a = true := by
  rw [hm.isolated_iff he fun h => Entry.noConfusion, ← tr_mem_entries, not_exists]

theorem Arranged.sc_isolated_iff (hm : Arranged m lists active live) (he : live (.sc a)) :
    m.isIsolatedNode (.sc a) = true ↔ a ∉ lists (.shared .scanned) := by
  rw [hm.isolated_iff he fun h => Entry.noConfusion, ← sc_mem_entries, not_exists]

/-! ## check_is_in_list -/

/-- The addresses of the scanned ring. -/
def Lists.scannedRing (lists : Lists) : List Entry :=
  .scanned :: lists.entries (.shared .scanned)

theorem tracked_update_scanned (lists : Lists) (slots : List Slot) :
    Lists.tracked (Function.update lists (.shared .scanned) slots) = lists.tracked := by
  funext a
  simp only [Lists.tracked, Function.update_of_ne, ne_eq, reduceCtorEq, not_false_eq_true,
    Head.shared.injEq]

theorem Arranged.evict (hm : Arranged m lists active live) (hi : active (.shared .scanned))
    (ha : a ∈ lists (.shared .scanned)) (hlive : live (.tr a)) :
    ∃ L, m.evict a =
        { m with links := L, pool := if lists.tracked a then m.pool else mpFree m.pool a } ∧
      SameOutside lists.scannedRing m.links L ∧
      Arranged (m.evict a)
        (Function.update lists (.shared .scanned) ((lists (.shared .scanned)).erase a))
        active live := by
  obtain ⟨L, heq, hsame, hm'⟩ := hm.remove hi ha
  have htracked : Lists.tracked (Function.update lists (.shared .scanned)
      ((lists (.shared .scanned)).erase a)) a = lists.tracked a := by
    rw [tracked_update_scanned]
  have hiso := hm'.tr_isolated_iff hlive
  rw [htracked] at hiso
  have heq' : m.removeListNode (.sc a) = { m with links := L } := heq
  rw [Heap.evict, heq']
  by_cases htr : lists.tracked a = true
  · have hnot : ¬ Heap.isIsolatedNode { m with links := L } (.tr a) = true := fun h =>
      (hiso.mp h) htr
    rw [if_neg hnot]
    exact ⟨L, by rw [if_pos htr], hsame, hm'⟩
  · have hfree : Heap.free { m with links := L } a = { m with links := L, pool := mpFree m.pool a } :=
      free_eq (hm.allocated _ a ha)
    rw [if_pos (hiso.mpr htr), hfree, if_neg htr]
    refine ⟨L, rfl, hsame, hm'.freed (m := { m with links := L }) ?_⟩
    rintro (⟨_ | _ | _⟩ | _) hmem
    · rw [Function.update_self] at hmem
      exact (hm.nodup hi).not_mem_erase hmem
    · exact htr (tr_mem_entries.mp ⟨.shared .br, entry_mem_entries.mpr hmem⟩)
    · exact htr (tr_mem_entries.mp ⟨.shared .ble, entry_mem_entries.mpr hmem⟩)
    · exact htr (tr_mem_entries.mp ⟨.localList, entry_mem_entries.mpr hmem⟩)

theorem Arranged.searchScanned_evicts (w : World) (address : Str) (hi : active (.shared .scanned))
    {kept gone : List Slot} {fuel : Nat} (hm : Arranged m lists active live)
    (hsplit : lists (.shared .scanned) = kept ++ gone) (hlive : ∀ a ∈ gone, live (.tr a))
    (hfuel : gone.length < fuel) :
    ∃ L, m.searchScanned w address fuel ((gone.map .sc).headD .scanned) true =
        (none, { m with
          links := L
          pool := freeAll m.pool (gone.filter fun a => !lists.tracked a) }) ∧
      SameOutside lists.scannedRing m.links L ∧
      Arranged
        { m with
          links := L
          pool := freeAll m.pool (gone.filter fun a => !lists.tracked a) }
        (Function.update lists (.shared .scanned) kept) active live := by
  induction gone generalizing m lists fuel with
  | nil =>
    obtain ⟨n, rfl⟩ := Nat.exists_eq_succ_of_ne_zero (Nat.ne_of_gt hfuel)
    rw [List.append_nil] at hsplit
    refine ⟨m.links, ?_, SameOutside.refl _ _, ?_⟩
    · exact if_pos rfl
    · rw [← hsplit, Function.update_eq_self]
      exact hm
  | cons a gone ih =>
    obtain ⟨n, rfl⟩ := Nat.exists_eq_succ_of_ne_zero (Nat.ne_of_gt (Nat.zero_lt_of_lt hfuel))
    have ha : a ∈ lists (.shared .scanned) := by rw [hsplit]; simp
    obtain ⟨L, heq, hsame, hm'⟩ := hm.evict hi ha (hlive a List.mem_cons_self)
    have htouch : m.touch (.sc a) = m := touch_eq (hm.allocated _ a ha)
    have hnext : m.links.next (.sc a) = (gone.map .sc).headD .scanned := hm.next_of_append hi hsplit
    have herase : (lists (.shared .scanned)).erase a = kept ++ gone := by
      have hnodup := hm.nodup hi
      rw [hsplit] at hnodup ⊢
      have hkept : a ∉ kept := fun h =>
        (List.nodup_append.mp hnodup).2.2 a h a List.mem_cons_self rfl
      rw [List.erase_append_right _ hkept, List.erase_cons_head]
    rw [herase] at hm'
    obtain ⟨L', heq', hsame', hm''⟩ := ih hm' (by rw [Function.update_self])
      (fun b hb => hlive b (List.mem_cons_of_mem a hb)) (Nat.lt_of_succ_lt_succ hfuel)
    rw [tracked_update_scanned] at heq' hm''
    rw [Function.update_idem] at hm''
    have hpool : freeAll (if lists.tracked a then m.pool else mpFree m.pool a)
        (gone.filter fun a => !lists.tracked a) =
          freeAll m.pool ((a :: gone).filter fun a => !lists.tracked a) := by
      by_cases htr : lists.tracked a = true
      · rw [if_pos htr, List.filter_cons_of_neg (by simpa using htr)]
      · rw [if_neg htr, List.filter_cons_of_pos (by simpa using htr), freeAll_cons]
    rw [heq] at heq' hm'' hsame'
    simp only [hpool] at heq' hm'' hsame'
    refine ⟨L', ?_, hsame.trans hsame' ?_, hm''⟩
    · have hpos : ((a :: gone).map Entry.sc).headD .scanned = .sc a := rfl
      rw [hpos, Heap.searchScanned, if_neg Entry.noConfusion, htouch, if_pos rfl, hnext]
      have hslot : (Entry.sc a).slot = a := rfl
      rw [hslot, heq]
      exact heq'
    · intro x hx
      rw [Lists.scannedRing, Lists.entries, Function.update_self] at hx
      rw [Lists.scannedRing, Lists.entries, hsplit]
      simp only [List.map_append, List.map_cons, List.mem_cons, List.mem_append] at hx ⊢
      tauto

/-- The outcome of the BR_EDR loop: the node found, the nodes evicted, the clock readings. -/
def scanOutcome (w : World) (address : Str) (dev : Slot → ScannedDevice) :
    List Slot → Nat → Option Slot × List Slot × Nat
  | [], n => (none, [], n)
  | a :: rest, n =>
    if timedOut (w.clock n) (dev a).initialScannedTime then (none, a :: rest, n + 1)
    else if hasMac address (dev a) then (some a, [], n + 1)
    else scanOutcome w address dev rest (n + 1)

theorem searchScanned_sc (w : World) (address : Str) (n : Nat) (ha : a ∈ m.pool.outstanding) :
    m.searchScanned w address (n + 1) (.sc a) false =
      if timedOut (w.clock m.readings) (m.dev a).initialScannedTime then
        m.tick.evict a |>.searchScanned w address n (m.links.next (.sc a)) true
      else if hasMac address (m.dev a) then (some a, m.tick)
      else m.tick.searchScanned w address n (m.links.next (.sc a)) false := by
  have htouch : m.touch (.sc a) = m := touch_eq ha
  rw [Heap.searchScanned, if_neg Entry.noConfusion, htouch, if_neg Bool.false_ne_true]
  rfl

/-- The heap after the loop: `gone` was evicted. -/
def Heap.evicted (m : Heap) (lists : Lists) (L : Links Entry) (gone : List Slot) (n : Nat) : Heap :=
  { m with
    links := L
    pool := freeAll m.pool (gone.filter fun a => !lists.tracked a)
    readings := n }

theorem Arranged.searchScanned (w : World) (address : Str) (hi : active (.shared .scanned))
    {slots before : List Slot} {fuel : Nat} (hm : Arranged m lists active live)
    (hsplit : lists (.shared .scanned) = before ++ slots) (hlive : ∀ a ∈ slots, live (.tr a))
    (hfuel : slots.length < fuel) :
    let o := scanOutcome w address m.dev slots m.readings
    ∃ L kept, lists (.shared .scanned) = kept ++ o.2.1 ∧
      m.searchScanned w address fuel ((slots.map .sc).headD .scanned) false =
        (o.1, m.evicted lists L o.2.1 o.2.2) ∧
      SameOutside lists.scannedRing m.links L ∧
      Arranged (m.evicted lists L o.2.1 o.2.2)
        (Function.update lists (.shared .scanned) kept) active live := by
  induction slots generalizing m before fuel with
  | nil =>
    obtain ⟨n, rfl⟩ := Nat.exists_eq_succ_of_ne_zero (Nat.ne_of_gt hfuel)
    refine ⟨m.links, before, hsplit, if_pos rfl, SameOutside.refl _ _, ?_⟩
    rw [List.append_nil] at hsplit
    rw [← hsplit, Function.update_eq_self]
    exact hm
  | cons a rest ih =>
    obtain ⟨n, rfl⟩ := Nat.exists_eq_succ_of_ne_zero (Nat.ne_of_gt (Nat.zero_lt_of_lt hfuel))
    have ha : a ∈ lists (.shared .scanned) := by rw [hsplit]; simp
    have hnext : m.links.next (.sc a) = (rest.map .sc).headD .scanned := hm.next_of_append hi hsplit
    have hpos : ((a :: rest).map Entry.sc).headD .scanned = .sc a := rfl
    rw [hpos, searchScanned_sc w address n (hm.allocated _ a ha), hnext]
    have htick : Arranged m.tick lists active live := hm.congr rfl rfl
    rw [scanOutcome]
    by_cases hold : timedOut (w.clock m.readings) (m.dev a).initialScannedTime
    · -- From here on every node is evicted.
      obtain ⟨L, heq, hsame, hm'⟩ := htick.searchScanned_evicts w address hi hsplit hlive hfuel
      have htouch' : m.tick.touch (.sc a) = m.tick :=
        touch_eq (m := m.tick) (hm.allocated _ a ha)
      have hnext' : m.tick.links.next (.sc a) = (rest.map .sc).headD .scanned := hnext
      rw [hpos, Heap.searchScanned, if_neg Entry.noConfusion, htouch', if_pos rfl, hnext'] at heq
      rw [if_pos hold, if_pos hold]
      exact ⟨L, before, hsplit, heq, hsame, hm'⟩
    · rw [if_neg hold, if_neg hold]
      by_cases hmac : hasMac address (m.dev a) = true
      · rw [if_pos hmac, if_pos hmac]
        refine ⟨m.links, before ++ a :: rest, by rw [hsplit, List.append_nil], rfl,
          SameOutside.refl _ _, ?_⟩
        rw [← hsplit, Function.update_eq_self]
        exact htick
      · rw [if_neg hmac, if_neg hmac]
        have hsplit' : lists (.shared .scanned) = (before ++ [a]) ++ rest := by
          rw [hsplit, List.append_assoc, List.singleton_append]
        exact ih htick hsplit' (fun b hb => hlive b (List.mem_cons_of_mem a hb))
          (Nat.lt_of_succ_lt_succ hfuel)

end Ops

end LBeacon
