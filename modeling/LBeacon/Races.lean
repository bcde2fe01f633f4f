import LBeacon.Sections
import LBeacon.Threads

/-!
# When the threads keep off freed slots

A pointer that `check_is_in_list` returned, or the detached list of `consolidate_tracked_data`,
is used after the lock was given back. As long as nobody frees a slot that such a pointer still
leads to, every access of every interleaving is to a slot that is handed out.
-/

open CText Rings

namespace LBeacon

/-! ## Pointers in the hands of a thread -/

/-- The nodes from `pos` on, up to `stop`. -/
def Heap.walk (m : Heap) (stop : Entry) : Nat → Entry → List Slot
  | 0, _ => []
  | fuel + 1, pos =>
    if pos = stop then [] else pos.slot :: m.walk stop fuel (m.links.next pos)

/-- The nodes that are linked behind a head. -/
def Heap.slots (m : Heap) (h : Head) : List Slot :=
  m.walk (.head h) m.rounds (m.links.next (.head h))

/-- The node that a scanning thread got from `check_is_in_list` and is not done with. -/
def ScanThread.uses : ScanThread → Option Slot
  | .found _ a => some a
  | .writing a (_ :: _) none => some a
  | _ => none

/-- The nodes that the communication thread took and has not released. -/
def CommThread.nodes (m : Heap) : CommThread → List Slot
  | .idle => []
  | .detached _ headPointer tailPointer => m.walk (m.links.next tailPointer) m.rounds headPointer
  | .opened _ tailPointer => m.walk (m.links.next tailPointer) m.rounds (m.links.next .localHead)
  | .releasing _ a _ => a :: m.slots .localList
  | _ => m.slots .localList

/-- The nodes that a lookup is about to free: everything behind the first node that is too old,
as far as no tracked list holds it. -/
def ScanThread.evicts (w : World) (m : Heap) : ScanThread → List Slot
  | .searching call .scanned =>
    (scanOutcome w call.macAddress m.dev (m.slots (.shared .scanned)) m.readings).2.1.filter
      fun a => m.isIsolatedNode (.tr a)
  | _ => []

/-- The node that the last loop of `consolidate_tracked_data` is about to free. -/
def CommThread.frees (m : Heap) : CommThread → List Slot
  | .releasing .ble a _ => [a]
  | .releasing .br a _ => if m.isIsolatedNode (.sc a) then [a] else []
  | _ => []

/-- Some scanning thread still uses the node. -/
def Threads.Used {k : Nat} (s : Threads k) (a : Slot) : Prop := ∃ i, (s.scan i).uses = some a

/-- The step frees no node that another thread has a pointer to. And `consolidate_tracked_data`
gets room for one node, as it does for the BR_EDR list from `handle_tracked_object_data`. -/
def Threads.Careful {k : Nat} (w : World) (s : Threads k) : Turn k → Prop
  | .call _ _ => True
  | .scan i => ∀ a ∈ (s.scan i).evicts w s.heap, ¬ s.Used a ∧ a ∉ s.comm.nodes s.heap
  | .consolidate list msgRemainSize =>
    list = .br → s.heap.slots (.shared .br) ≠ [] → maxLengthRespDeviceInfo < msgRemainSize
  | .comm => ∀ a ∈ s.comm.frees s.heap, ¬ s.Used a
  | .cleanup list => ∀ a ∈ s.heap.slots (.shared list), ¬ s.Used a ∧ a ∉ s.comm.nodes s.heap

/-- Every step of a run is careful. -/
def CarefulRun {k : Nat} (w : World) : Threads k → List (Turn k) → Prop
  | _, [] => True
  | s, turn :: turns => s.Careful w turn ∧ CarefulRun w (s.step w turn) turns

instance {k : Nat} (s : Threads k) (a : Slot) : Decidable (s.Used a) :=
  inferInstanceAs (Decidable (∃ i, (s.scan i).uses = some a))

instance {k : Nat} (w : World) (s : Threads k) : (turn : Turn k) → Decidable (s.Careful w turn)
  | .call _ _ => inferInstanceAs (Decidable True)
  | .scan i => inferInstanceAs
    (Decidable (∀ a ∈ (s.scan i).evicts w s.heap, ¬ s.Used a ∧ a ∉ s.comm.nodes s.heap))
  | .consolidate list msgRemainSize => inferInstanceAs (Decidable
    (list = .br → s.heap.slots (.shared .br) ≠ [] → maxLengthRespDeviceInfo < msgRemainSize))
  | .comm => inferInstanceAs (Decidable (∀ a ∈ s.comm.frees s.heap, ¬ s.Used a))
  | .cleanup list => inferInstanceAs
    (Decidable (∀ a ∈ s.heap.slots (.shared list), ¬ s.Used a ∧ a ∉ s.comm.nodes s.heap))

instance CarefulRun.decidable {k : Nat} (w : World) :
    (turns : List (Turn k)) → (s : Threads k) → Decidable (CarefulRun w s turns)
  | [], _ => inferInstanceAs (Decidable True)
  | turn :: turns, s =>
    have := CarefulRun.decidable w turns (s.step w turn)
    inferInstanceAs (Decidable (s.Careful w turn ∧ CarefulRun w (s.step w turn) turns))

section Walk

variable {m : Heap} {lists : Lists} {active : Head → Prop} {live : Entry → Prop} {h : Head}

theorem walk_eq {p : List Entry} {stop : Entry} {fuel : Nat}
    (hchain : (p ++ [stop]).IsChain fun a b => m.links.next a = b) (hstop : stop ∉ p)
    (hfuel : p.length < fuel) : m.walk stop fuel (p.headD stop) = p.map Entry.slot := by
  induction p generalizing fuel with
  | nil =>
    obtain ⟨n, rfl⟩ := Nat.exists_eq_succ_of_ne_zero (Nat.ne_of_gt hfuel)
    exact if_pos rfl
  | cons e p ih =>
    obtain ⟨n, rfl⟩ := Nat.exists_eq_succ_of_ne_zero (Nat.ne_of_gt (Nat.zero_lt_of_lt hfuel))
    rw [List.mem_cons, not_or] at hstop
    have hnext : m.links.next e = p.headD stop := by
      cases p with
      | nil => simpa using hchain
      | cons e' p => exact (List.isChain_cons_cons.mp hchain).1
    have hrest : (p ++ [stop]).IsChain fun a b => m.links.next a = b := by
      cases p with
      | nil => exact List.isChain_singleton _
      | cons e' p => exact (List.isChain_cons_cons.mp hchain).2
    rw [List.headD_cons, Heap.walk, if_neg (Ne.symm hstop.1), hnext, List.map_cons]
    rw [ih hrest hstop.2 (Nat.lt_of_succ_lt_succ hfuel)]

theorem map_slot_entry (h : Head) (slots : List Slot) :
    (slots.map h.entry).map Entry.slot = slots := by
  rw [List.map_map]
  conv_rhs => rw [← List.map_id slots]
  exact List.map_congr_left fun a _ => slot_entry h a

theorem Arranged.slots (hm : Arranged m lists active live) (hi : active h) :
    m.slots h = lists h := by
  have hring := hm.family.isRing h hi
  have hpath : Path m.links (lists.entries h ++ [.head h]) := by
    have := hring.path
    rw [List.cons_append] at this
    exact path_right (l := [Entry.head h]) this
  rw [Heap.slots, hring.next_head, walk_eq (hpath.imp fun _ _ hl => hl.1) (List.nodup_cons.mp hring.nodup).1]
  · exact map_slot_entry h (lists h)
  · rw [Lists.entries, List.length_map]
    exact hm.length_lt_rounds hi

end Walk

/-! ## What holds between the steps -/

/-- The local ring is closed from here on. -/
def CommThread.closed : CommThread → Bool
  | .idle | .detached _ _ _ | .opened _ _ => false
  | _ => true

/-- The list that the nodes were taken from. -/
def CommThread.list : CommThread → Option TrackedList
  | .idle => none
  | .detached list _ _ | .opened list _ | .counting list _ | .printing list _ | .advancing list _
  | .unlinking list _ _ | .releasing list _ _ => some list

/-- The node that was unlinked and not yet released. -/
def CommThread.unlinked : CommThread → Option Slot
  | .releasing _ a _ => some a
  | _ => none

/-- A node that `mp_alloc` returned and no list holds yet. -/
def ScanThread.fresh : ScanThread → Option Slot
  | .created _ _ a _ => some a
  | .writing a _ (some _) => some a
  | _ => none

/-- The entries of such a node that `init_entry` has not reached. -/
def ScanThread.todo : ScanThread → List Entry
  | .created _ _ _ todo => todo
  | _ => []

def Active (comm : CommThread) (h : Head) : Prop := h ≠ .localList ∨ comm.closed = true

/-- The communication thread has the node, linked or unlinked. -/
def Taken (lists : Lists) (comm : CommThread) (a : Slot) : Prop :=
  a ∈ lists .localList ∨ comm.unlinked = some a

/-- The entries that `is_isolated_node` may be asked about. -/
def Asked (lists : Lists) (comm : CommThread) : Entry → Prop
  | .head _ => False
  | .sc a => a ∈ lists (.shared .br) ∨ comm.list = some .br ∧ Taken lists comm a
  | .tr a => a ∈ lists (.shared .scanned)

/-- Nobody else touches the local list, so its pointers stay as the thread left them. -/
def Pointers (L : Links Entry) (slots : List Slot) : CommThread → Prop
  | .idle => slots = []
  | .detached _ headPointer tailPointer =>
    slots ≠ [] ∧ slots.Nodup ∧ Path L (slots.map .tr) ∧
      headPointer = (slots.map .tr).headD .localHead ∧
      tailPointer = (slots.map .tr).getLastD .localHead ∧
      L.next tailPointer ∉ .localHead :: slots.map .tr
  | .opened _ tailPointer =>
    slots ≠ [] ∧ slots.Nodup ∧ Path L (.localHead :: slots.map .tr) ∧
      tailPointer = (slots.map .tr).getLastD .localHead ∧
      L.next tailPointer ∉ .localHead :: slots.map .tr
  | .counting _ pos | .printing _ pos =>
    ∃ before rest, slots = before ++ rest ∧ pos = (rest.map .tr).headD .localHead
  | .advancing _ pos => pos = (slots.map .tr).headD .localHead
  | .unlinking _ pos save =>
    ∃ a rest, slots = a :: rest ∧ pos = .tr a ∧ save = (rest.map .tr).headD .localHead
  | .releasing _ _ save => save = (slots.map .tr).headD .localHead

/-- The rings, the pool and the communication thread. -/
structure Base (m : Heap) (lists : Lists) (comm : CommThread) : Prop where
  arranged : Arranged m lists (Active comm) (Asked lists comm)
  sound : m.faults = []
  ble : ∀ a ∈ lists (.shared .ble), a ∉ lists (.shared .scanned)
  takenBle : comm.list = some .ble → ∀ a, Taken lists comm a → a ∉ lists (.shared .scanned)
  pointers : Pointers m.links (lists .localList) comm
  unlinked : ∀ a, comm.unlinked = some a →
    a ∈ m.pool.outstanding ∧ ∀ h, h ≠ .shared .scanned → a ∉ lists h

/-- One scanning thread. -/
structure ThreadOk (m : Heap) (lists : Lists) (t : ScanThread) : Prop where
  uses : ∀ a, t.uses = some a → a ∈ m.pool.outstanding
  allocated : ∀ a, t.fresh = some a → a ∈ m.pool.outstanding
  unlisted : ∀ a, t.fresh = some a → ∀ h, a ∉ lists h
  isolated : ∀ a, t.fresh = some a → ∀ e, e = .sc a ∨ e = .tr a →
    e ∈ t.todo ∨ m.links.next e = e
  todo : ∀ a, t.fresh = some a → ∀ e ∈ t.todo, e = .sc a ∨ e = .tr a

structure Inv {k : Nat} (s : Threads k) (lists : Lists) : Prop where
  base : Base s.heap lists s.comm
  threads : ∀ i, ThreadOk s.heap lists (s.scan i)
  distinct : ∀ i j a, i ≠ j → (s.scan i).fresh = some a → (s.scan j).fresh ≠ some a
  apart : ∀ i a, (s.scan i).fresh = some a → s.comm.unlinked ≠ some a

section Steps

variable {k : Nat} {w : World} {s : Threads k} {m m' : Heap} {lists lists' : Lists} {comm : CommThread}
  {t : ScanThread} {a b : Slot} {e : Entry}

/-! ## What a thread has -/

theorem isChain_concat_next {L : Links Entry} {p : List Entry} (hp : Path L p) (hne : p ≠ [])
    (d : Entry) : (p ++ [L.next (p.getLastD d)]).IsChain fun a b => L.next a = b := by
  obtain ⟨l, x, rfl⟩ := (List.eq_nil_or_concat' p).resolve_left hne
  rw [List.isChain_append]
  refine ⟨hp.imp fun _ _ hl => hl.1, List.isChain_singleton _, ?_⟩
  simp

theorem Base.walk_local (hb : Base m lists comm) (hne : lists .localList ≠ [])
    (hnodup : (lists .localList).Nodup) (hpath : Path m.links ((lists .localList).map .tr))
    (d : Entry) (hstop : m.links.next (((lists .localList).map .tr).getLastD d) ∉
      (lists .localList).map Entry.tr) :
    m.walk (m.links.next (((lists .localList).map .tr).getLastD d)) m.rounds
      (((lists .localList).map .tr).headD d) = lists .localList := by
  have hmap : (lists .localList).map Entry.tr ≠ [] := by simpa using hne
  have hrounds : ((lists .localList).map Entry.tr).length < m.rounds := by
    rw [List.length_map]
    exact Nat.lt_succ_of_le
      (hnodup.length_le_of_subset fun a ha => hb.arranged.allocated _ a ha)
  rw [headD_map_of_ne_nil hne d (m.links.next (((lists .localList).map .tr).getLastD d)),
    walk_eq (isChain_concat_next hpath hmap d) hstop hrounds]
  exact map_slot_entry .localList (lists .localList)

theorem Base.mem_nodes (hb : Base m lists comm) (ha : Taken lists comm a) : a ∈ comm.nodes m := by
  have hclosed : comm.closed = true → m.slots .localList = lists .localList := fun h =>
    hb.arranged.slots (Or.inr h)
  have hlocal : comm.unlinked = none → a ∈ lists .localList := fun h =>
    ha.resolve_right (by simp [h])
  have hpointers := hb.pointers
  cases comm with
  | idle =>
    have hnil : lists .localList = [] := hpointers
    rw [hnil] at hlocal
    exact hlocal rfl
  | detached list headPointer tailPointer =>
    obtain ⟨hne, hnodup, hpath, rfl, rfl, hstop⟩ := hpointers
    rw [CommThread.nodes, hb.walk_local hne hnodup hpath .localHead
      fun h => hstop (List.mem_cons_of_mem _ h)]
    exact hlocal rfl
  | opened list tailPointer =>
    obtain ⟨hne, hnodup, hpath, rfl, hstop⟩ := hpointers
    have hfirst : m.links.next .localHead = ((lists .localList).map .tr).headD .localHead := by
      obtain ⟨b, rest, hcons⟩ := List.exists_cons_of_ne_nil hne
      rw [hcons] at hpath ⊢
      exact (path_cons_cons.mp hpath).1.1
    rw [CommThread.nodes, hfirst, hb.walk_local hne hnodup (path_right (l := [_]) hpath) .localHead
      fun h => hstop (List.mem_cons_of_mem _ h)]
    exact hlocal rfl
  | releasing list b save =>
    rw [CommThread.nodes, hclosed rfl]
    rcases ha with ha | ha
    · exact List.mem_cons_of_mem b ha
    · obtain rfl := Option.some.inj ha
      exact List.mem_cons_self
  | counting | printing | advancing | unlinking =>
    have hmem := hlocal rfl
    rw [← hclosed rfl] at hmem
    exact hmem

/-! ## What the other threads leave alone -/

/-- Nothing happened to the links of the local list. -/
def SameLocal (lists : Lists) (L L' : Links Entry) : Prop :=
  ∀ x ∈ Entry.localHead :: lists.entries .localList, L'.next x = L.next x ∧ L'.prev x = L.prev x

theorem Base.sameLocal (hb : Base m lists comm) {S : List Entry} {L : Links Entry}
    (hs : SameOutside S m.links L)
    (hS : ∀ x ∈ S, x ∈ lists.sharedRings ∨ ∀ h, x ∉ Entry.head h :: lists.entries h) :
    SameLocal lists m.links L := by
  intro x hx
  refine hs x fun hxS => ?_
  rcases hS x hxS with hshared | hout
  · obtain ⟨list, hx'⟩ := mem_sharedRings.mp hshared
    exact hb.arranged.family.apart _ _ Head.noConfusion x hx' hx
  · exact hout .localList hx

theorem SameLocal.path {L L' : Links Entry} {p : List Entry} (h : SameLocal lists L L')
    (hp : Path L p) (hsub : ∀ x ∈ p, x ∈ Entry.localHead :: lists.entries .localList) :
    Path L' p := by
  refine List.IsChain.imp_of_mem_imp ?_ hp
  intro x y hx hy hxy
  exact ⟨(h x (hsub x hx)).1.trans hxy.1, (h y (hsub y hy)).2.trans hxy.2⟩

theorem Pointers.frame {L L' : Links Entry} (hp : Pointers L (lists .localList) comm)
    (h : SameLocal lists L L') : Pointers L' (lists .localList) comm := by
  have hlast : ∀ d, d = Entry.localHead → L'.next (((lists .localList).map .tr).getLastD d) =
      L.next (((lists .localList).map .tr).getLastD d) := by
    rintro d rfl
    exact (h _ (getLastD_mem_cons _ _)).1
  cases comm with
  | detached list headPointer tailPointer =>
    obtain ⟨hne, hnodup, hpath, rfl, rfl, hstop⟩ := hp
    refine ⟨hne, hnodup, h.path hpath fun x => List.mem_cons_of_mem _, rfl, rfl, ?_⟩
    rw [hlast _ rfl]
    exact hstop
  | opened list tailPointer =>
    obtain ⟨hne, hnodup, hpath, rfl, hstop⟩ := hp
    refine ⟨hne, hnodup, h.path hpath fun _ => id, rfl, ?_⟩
    rw [hlast _ rfl]
    exact hstop
  | _ => exact hp

theorem ThreadOk.frame (ht : ThreadOk m lists t)
    (huses : ∀ a, t.uses = some a → a ∈ m'.pool.outstanding)
    (hfresh : ∀ a, t.fresh = some a → a ∈ m'.pool.outstanding ∧ (∀ h, a ∉ lists' h) ∧
      ∀ e, e = .sc a ∨ e = .tr a → m'.links.next e = m.links.next e) :
    ThreadOk m' lists' t where
  uses := huses
  allocated a ha := (hfresh a ha).1
  unlisted a ha := (hfresh a ha).2.1
  isolated a ha e he := by
    rw [(hfresh a ha).2.2 e he]
    exact ht.isolated a ha e he
  todo := ht.todo

/-- Shared lists may get shorter when nobody holds what is freed. -/
structure Freed (s : Threads k) (m' : Heap) (lists lists' : Lists) (freed : List Slot) : Prop where
  arranged : Arranged m' lists' (Active s.comm) (Asked lists s.comm)
  outside : SameOutside lists.sharedRings s.heap.links m'.links
  sub : ∀ h, ∀ a ∈ lists' h, a ∈ lists h
  localList : lists' .localList = lists .localList
  pool : m'.pool = freeAll s.heap.pool freed
  faults : m'.faults = s.heap.faults
  listed : ∀ a ∈ freed, ∃ h, a ∈ lists h
  unused : ∀ a ∈ freed, ¬ s.Used a
  untaken : ∀ a ∈ freed, ¬ Taken lists s.comm a

theorem not_in_rings (hout : ∀ h, a ∉ lists h) (he : e = .sc a ∨ e = .tr a) (h : Head) :
    e ∉ Entry.head h :: lists.entries h := by
  rcases he with rfl | rfl
  · exact unlisted_entry hout (.shared .scanned) h
  · exact unlisted_entry hout (.shared .br) h

theorem not_in_sharedRings (hout : ∀ h, a ∉ lists h) (he : e = .sc a ∨ e = .tr a) :
    e ∉ lists.sharedRings := by
  intro hmem
  obtain ⟨list, hmem⟩ := mem_sharedRings.mp hmem
  exact not_in_rings hout he _ hmem

section Freed

variable {freed : List Slot}

theorem Freed.taken (hf : Freed s m' lists lists' freed) (ha : Taken lists' s.comm a) :
    Taken lists s.comm a := by
  rw [Taken, hf.localList] at ha
  exact ha

theorem Freed.mem_outstanding (hf : Freed s m' lists lists' freed) (ha : a ∈ s.heap.pool.outstanding)
    (hnot : a ∉ freed) : a ∈ m'.pool.outstanding := by
  rw [hf.pool, mem_freeAll]
  exact ⟨ha, hnot⟩

theorem Freed.base (hf : Freed s m' lists lists' freed) (hb : Base s.heap lists s.comm) :
    Base m' lists' s.comm := by
  have hlocal := hb.sameLocal hf.outside fun x => Or.inl
  refine ⟨hf.arranged.mono (fun _ => id) ?_, hf.faults.trans hb.sound, ?_, ?_, ?_, ?_⟩
  · rintro (h | a | a) ha
    · exact ha
    · exact ha.imp (hf.sub _ a) fun h => ⟨h.1, hf.taken h.2⟩
    · exact hf.sub _ a ha
  · exact fun a ha hc => hb.ble a (hf.sub _ a ha) (hf.sub _ a hc)
  · exact fun hlist a ha hc => hb.takenBle hlist a (hf.taken ha) (hf.sub _ a hc)
  · rw [hf.localList]
    exact hb.pointers.frame hlocal
  · intro a ha
    obtain ⟨halloc, hout⟩ := hb.unlinked a ha
    refine ⟨hf.mem_outstanding halloc fun h => hf.untaken a h (Or.inr ha), ?_⟩
    exact fun h hh hmem => hout h hh (hf.sub h a hmem)

theorem Freed.threadOk (hf : Freed s m' lists lists' freed) {i : Fin k}
    (ht : ThreadOk s.heap lists (s.scan i)) : ThreadOk m' lists' (s.scan i) := by
  refine ht.frame (fun a ha => ?_) fun a ha => ⟨?_, ?_, ?_⟩
  · exact hf.mem_outstanding (ht.uses a ha) fun h => hf.unused a h ⟨i, ha⟩
  · refine hf.mem_outstanding (ht.allocated a ha) fun h => ?_
    obtain ⟨h, hmem⟩ := hf.listed a h
    exact ht.unlisted a ha h hmem
  · exact fun h hmem => ht.unlisted a ha h (hf.sub h a hmem)
  · exact fun e he => (hf.outside e (not_in_sharedRings (ht.unlisted a ha) he)).1

end Freed

theorem Inv.ofScan (hinv : Inv s lists) {i : Fin k} (hb : Base m' lists' s.comm)
    (hothers : ∀ j, j ≠ i → ThreadOk m' lists' (s.scan j)) (hself : ThreadOk m' lists' t)
    (hfresh : ∀ a, t.fresh = some a →
      (s.scan i).fresh = some a ∨ a ∉ s.heap.pool.outstanding) :
    Inv ⟨m', Function.update s.scan i t, s.comm⟩ lists' := by
  have hother : ∀ {a j}, t.fresh = some a → j ≠ i → (s.scan j).fresh ≠ some a := by
    intro a j ha hj h
    rcases hfresh a ha with hold | hnew
    · exact hinv.distinct j i a hj h hold
    · exact hnew ((hinv.threads j).allocated a h)
  refine ⟨hb, ?_, ?_, ?_⟩
  · intro j
    by_cases hj : j = i
    · subst hj
      dsimp only
      rw [Function.update_self]
      exact hself
    · dsimp only
      rw [Function.update_of_ne hj]
      exact hothers j hj
  · intro j k a hjk hj hk
    dsimp only at hj hk
    by_cases hji : j = i
    · rw [hji, Function.update_self] at hj
      rw [Function.update_of_ne (fun h => hjk (hji.trans h.symm))] at hk
      exact hother hj (fun h => hjk (hji.trans h.symm)) hk
    · rw [Function.update_of_ne hji] at hj
      by_cases hki : k = i
      · rw [hki, Function.update_self] at hk
        exact hother hk hji hj
      · rw [Function.update_of_ne hki] at hk
        exact hinv.distinct j k a hjk hj hk
  · intro j a hj hun
    dsimp only at hj hun
    by_cases hji : j = i
    · rw [hji, Function.update_self] at hj
      rcases hfresh a hj with hold | hnew
      · exact hinv.apart i a hold hun
      · exact hnew (hinv.base.unlinked a hun).1
    · rw [Function.update_of_ne hji] at hj
      exact hinv.apart j a hj hun

theorem Base.congr (hb : Base m lists comm) (hlinks : m'.links = m.links)
    (hpool : m'.pool.outstanding = m.pool.outstanding) (hfaults : m'.faults = m.faults) :
    Base m' lists comm :=
  ⟨hb.arranged.congr hlinks hpool, hfaults.trans hb.sound, hb.ble, hb.takenBle,
    hlinks ▸ hb.pointers, fun a ha => hpool ▸ hb.unlinked a ha⟩

theorem ThreadOk.congr (ht : ThreadOk m lists t) (hlinks : m'.links = m.links)
    (hpool : m'.pool.outstanding = m.pool.outstanding) : ThreadOk m' lists t :=
  ht.frame (fun a ha => hpool ▸ ht.uses a ha) fun a ha =>
    ⟨hpool ▸ ht.allocated a ha, ht.unlisted a ha, fun e _ => by rw [hlinks]⟩

theorem ThreadOk.linked (hfresh : t.fresh = none)
    (huses : ∀ a, t.uses = some a → a ∈ m.pool.outstanding) : ThreadOk m lists t where
  uses := huses
  allocated a ha := absurd (hfresh.symm.trans ha) (by simp)
  unlisted a ha := absurd (hfresh.symm.trans ha) (by simp)
  isolated a ha := absurd (hfresh.symm.trans ha) (by simp)
  todo a ha := absurd (hfresh.symm.trans ha) (by simp)

theorem ThreadOk.ofFresh (hfresh : t.fresh = some a) (huses : t.uses = none)
    (halloc : a ∈ m.pool.outstanding) (hout : ∀ h, a ∉ lists h)
    (hiso : ∀ e, e = .sc a ∨ e = .tr a → e ∈ t.todo ∨ m.links.next e = e)
    (htodo : ∀ e ∈ t.todo, e = .sc a ∨ e = .tr a) : ThreadOk m lists t := by
  have heq : ∀ b, t.fresh = some b → b = a := fun b hb =>
    (Option.some.inj (hfresh.symm.trans hb)).symm
  refine ⟨fun b hb => absurd (huses.symm.trans hb) (by simp), ?_, ?_, ?_, ?_⟩
  all_goals
    intro b hb
    obtain rfl := heq b hb
  · exact halloc
  · exact hout
  · exact hiso
  · exact htodo

theorem ThreadOk.other (ht : ThreadOk m lists t) {S : List Entry}
    (hs : SameOutside S m.links m'.links)
    (hS : ∀ b, t.fresh = some b → ∀ e, e = .sc b ∨ e = .tr b → e ∉ S)
    (hpool : ∀ b ∈ m.pool.outstanding, b ∈ m'.pool.outstanding)
    (hlists : ∀ b, t.fresh = some b → ∀ h, b ∉ lists' h) : ThreadOk m' lists' t :=
  ht.frame (fun b hb => hpool b (ht.uses b hb)) fun b hb =>
    ⟨hpool b (ht.allocated b hb), hlists b hb, fun e he => (hs e (hS b hb e he)).1⟩

theorem active_shared (comm : CommThread) (list : ListHead) : Active comm (.shared list) :=
  Or.inl Head.noConfusion

/-! ## The timer -/

theorem diff_of_disjoint {l slots : List Slot} (h : ∀ a ∈ slots, a ∉ l) : l.diff slots = l := by
  induction slots with
  | nil => rfl
  | cons a slots ih =>
    rw [List.diff_cons, List.erase_of_not_mem (h a List.mem_cons_self)]
    exact ih fun b hb => h b (List.mem_cons_of_mem a hb)

theorem Inv.cleanup (hinv : Inv s lists) (list : ListHead) (hcare : s.Careful w (.cleanup list)) :
    Inv (s.step w (.cleanup list)) (lists.dropped (lists (.shared list))) := by
  have hb := hinv.base
  have hslots := hb.arranged.slots (active_shared s.comm list)
  have hcare' : ∀ a ∈ lists (.shared list), ¬ s.Used a ∧ ¬ Taken lists s.comm a := by
    intro a ha
    obtain ⟨hused, hnodes⟩ := hcare a (hslots ▸ ha)
    exact ⟨hused, fun h => hnodes (hb.mem_nodes h)⟩
  have hlocal : ∀ a ∈ lists (.shared list), a ∉ lists .localList := fun a ha h =>
    (hcare' a ha).2 (Or.inl h)
  obtain ⟨L, heq, hs, hm⟩ := hb.arranged.cleanupLists (active_shared s.comm) list hlocal hb.ble
    fun a ha => by
      cases list with
      | scanned => exact ha
      | br => exact Or.inl ha
      | ble => trivial
  have hfreed : Freed s { s.heap with links := L, pool := freeAll s.heap.pool (lists (.shared list)) }
      lists (lists.dropped (lists (.shared list))) (lists (.shared list)) :=
    ⟨hm, hs, fun h a ha => (List.diff_sublist _ _).subset ha, diff_of_disjoint hlocal, rfl, rfl,
      fun a ha => ⟨_, ha⟩, fun a ha => (hcare' a ha).1, fun a ha => (hcare' a ha).2⟩
  rw [Threads.step, heq]
  exact ⟨hfreed.base hb, fun i => hfreed.threadOk (hinv.threads i), hinv.distinct, hinv.apart⟩

/-! ## The scanning threads -/

theorem scanOutcome_found {address : Str} {dev : Slot → ScannedDevice} {slots : List Slot} {n : Nat}
    (h : (scanOutcome w address dev slots n).1 = some a) :
    a ∈ slots ∧ (scanOutcome w address dev slots n).2.1 = [] := by
  induction slots generalizing n with
  | nil => exact absurd h (by simp [scanOutcome])
  | cons b rest ih =>
    rw [scanOutcome] at h ⊢
    by_cases hold : timedOut (w.clock n) (dev b).initialScannedTime
    · rw [if_pos hold] at h
      exact absurd h (by simp)
    · rw [if_neg hold] at h ⊢
      by_cases hmac : hasMac address (dev b) = true
      · rw [if_pos hmac] at h ⊢
        exact ⟨by simp_all, rfl⟩
      · rw [if_neg hmac] at h ⊢
        obtain ⟨hmem, hnil⟩ := ih h
        exact ⟨List.mem_cons_of_mem b hmem, hnil⟩

theorem answered_none (call : Call) : (ScanThread.answered call none).uses = none ∧
    (ScanThread.answered call none).fresh = none := by
  cases call <;> exact ⟨rfl, rfl⟩

theorem Inv.searched (hinv : Inv s lists) {i : Fin k} {call : Call} {found : Option Slot}
    (hb : Base m' lists' s.comm) (hothers : ∀ j, ThreadOk m' lists' (s.scan j))
    (hfound : ∀ a, found = some a → a ∈ m'.pool.outstanding) :
    Inv ⟨m', Function.update s.scan i (.answered call found), s.comm⟩ lists' := by
  cases found with
  | some a =>
    exact hinv.ofScan hb (fun j _ => hothers j) (.linked rfl fun b hb => hfound b hb) fun b hb =>
      absurd hb (by simp [ScanThread.answered, ScanThread.fresh])
  | none =>
    obtain ⟨huses, hfresh⟩ := answered_none call
    exact hinv.ofScan hb (fun j _ => hothers j)
      (.linked hfresh fun b hb => absurd (huses.symm.trans hb) (by simp)) fun b hb =>
        absurd (hfresh.symm.trans hb) (by simp)

theorem Base.freed (hb : Base s.heap lists s.comm) {L : Links Entry} {gone kept : List Slot} {n : Nat}
    (hsplit : lists (.shared .scanned) = kept ++ gone)
    (hs : SameOutside lists.scannedRing s.heap.links L)
    (hm : Arranged (s.heap.evicted lists L gone n) (Function.update lists (.shared .scanned) kept)
      (Active s.comm) (Asked lists s.comm))
    (hcare : ∀ a ∈ gone.filter fun a => s.heap.isIsolatedNode (.tr a),
      ¬ s.Used a ∧ a ∉ s.comm.nodes s.heap) :
    Freed s (s.heap.evicted lists L gone n) lists (Function.update lists (.shared .scanned) kept)
      (gone.filter fun a => !lists.tracked a) := by
  have hevicted : ∀ a ∈ gone.filter fun a => !lists.tracked a,
      a ∈ lists (.shared .scanned) ∧ ¬ s.Used a ∧ a ∉ s.comm.nodes s.heap := by
    intro a ha
    obtain ⟨hmem, htracked⟩ := List.mem_filter.mp ha
    have hsc : a ∈ lists (.shared .scanned) := by
      rw [hsplit]
      exact List.mem_append_right kept hmem
    refine ⟨hsc, hcare a (List.mem_filter.mpr ⟨hmem, ?_⟩)⟩
    exact (hb.arranged.tr_isolated_iff hsc).mpr (by simpa using htracked)
  refine ⟨hm, hs.mono (ring_sub_sharedRings lists .scanned), ?_, rfl, rfl, rfl,
    fun a ha => ⟨_, (hevicted a ha).1⟩, fun a ha => (hevicted a ha).2.1,
    fun a ha h => (hevicted a ha).2.2 (hb.mem_nodes h)⟩
  intro h a ha
  by_cases hh : h = .shared .scanned
  · rw [hh, Function.update_self] at ha
    rw [hh, hsplit]
    exact List.mem_append_left _ ha
  · rwa [Function.update_of_ne hh] at ha

theorem Inv.search (hinv : Inv s lists) {i : Fin k} {call : Call} {list : SearchList}
    (hscan : s.scan i = .searching call list) (hcare : s.Careful w (.scan i)) :
    ∃ lists', Inv (s.step w (.scan i)) lists' := by
  have hb := hinv.base
  rw [Threads.step, hscan, ScanThread.step]
  cases list with
  | ble =>
    rw [hb.arranged.search_ble w call.macAddress (active_shared s.comm .ble)]
    refine ⟨lists, hinv.searched hb hinv.threads fun a ha => ?_⟩
    exact hb.arranged.allocated _ a (List.mem_of_find?_eq_some ha)
  | scanned =>
    obtain ⟨L, kept, hsplit, heq, hs, hm⟩ := hb.arranged.search_scanned w call.macAddress
      (active_shared s.comm .scanned) fun a ha => ha
    rw [heq]
    rw [Threads.Careful, hscan, ScanThread.evicts,
      hb.arranged.slots (active_shared s.comm .scanned)] at hcare
    have hfound := fun a => @scanOutcome_found w a call.macAddress s.heap.dev (lists (.shared .scanned))
      s.heap.readings
    have hfreed := hb.freed hsplit hs hm hcare
    refine ⟨_, hinv.searched (hfreed.base hb) (fun j => hfreed.threadOk (hinv.threads j)) ?_⟩
    intro a ha
    obtain ⟨hmem, hnil⟩ := hfound a ha
    refine hfreed.mem_outstanding (hb.arranged.allocated _ a hmem) ?_
    rw [hnil]
    exact List.not_mem_nil

theorem Inv.accessed (hinv : Inv s lists) {i : Fin k} (hlinks : m'.links = s.heap.links)
    (hpool : m'.pool.outstanding = s.heap.pool.outstanding) (hfaults : m'.faults = s.heap.faults)
    (hfresh : t.fresh = none) (huses : ∀ a, t.uses = some a → (s.scan i).uses = some a) :
    Inv ⟨m', Function.update s.scan i t, s.comm⟩ lists :=
  hinv.ofScan (hinv.base.congr hlinks hpool hfaults)
    (fun j _ => (hinv.threads j).congr hlinks hpool)
    (.linked hfresh fun a ha => by
      rw [hpool]
      exact (hinv.threads i).uses a (huses a ha))
    fun a ha => absurd (hfresh.symm.trans ha) (by simp)

theorem Inv.filled (hinv : Inv s lists) {i : Fin k} (hlinks : m'.links = s.heap.links)
    (hpool : m'.pool.outstanding = s.heap.pool.outstanding) (hfaults : m'.faults = s.heap.faults)
    (hold : (s.scan i).fresh = some a) (hdone : (s.scan i).todo = []) (hfresh : t.fresh = some a)
    (huses : t.uses = none) (htodo : t.todo = []) :
    Inv ⟨m', Function.update s.scan i t, s.comm⟩ lists := by
  have ht := hinv.threads i
  refine hinv.ofScan (hinv.base.congr hlinks hpool hfaults)
    (fun j _ => (hinv.threads j).congr hlinks hpool) ?_ fun b hb => ?_
  · refine .ofFresh hfresh huses (hpool ▸ ht.allocated a hold) (ht.unlisted a hold) ?_ ?_
    · intro e he
      have := ht.isolated a hold e he
      rw [hdone] at this
      rw [hlinks]
      exact Or.inr (this.resolve_left List.not_mem_nil)
    · rw [htodo]
      exact fun e he => absurd he List.not_mem_nil
  · obtain rfl := Option.some.inj (hfresh.symm.trans hb)
    exact Or.inl hold

theorem Inv.allocate (hinv : Inv s lists) {i : Fin k} (w : World) (deviceType : DeviceType)
    (args : PushArgs) (hscan : s.scan i = .allocating deviceType args) :
    Inv (s.step w (.scan i)) lists := by
  have hb := hinv.base
  rw [Threads.step, hscan, ScanThread.step]
  rcases mpAlloc_cases w.offer s.heap.pool with ⟨q, hq, ho, -⟩ | ⟨a, q, hq, ha, ho, -⟩
  · rw [hq]
    exact hinv.accessed rfl ho rfl rfl fun a ha => absurd ha (by simp [ScanThread.uses])
  · rw [hq]
    have hgrows : ∀ b ∈ s.heap.pool.outstanding, b ∈ q.outstanding := fun b hb => by
      rw [ho]
      exact List.mem_cons_of_mem a hb
    refine hinv.ofScan ⟨⟨hb.arranged.family, fun h b hmem => hgrows b (hb.arranged.allocated h b hmem)⟩,
      hb.sound, hb.ble, hb.takenBle, hb.pointers, fun b hun =>
        ⟨hgrows b (hb.unlinked b hun).1, (hb.unlinked b hun).2⟩⟩ ?_ ?_ ?_
    · exact fun j _ => (hinv.threads j).other (SameOutside.refl [] _) (fun _ _ _ _ => List.not_mem_nil)
        hgrows (hinv.threads j).unlisted
    · refine .ofFresh (a := a) rfl rfl ?_ (fun h hmem => ha (hb.arranged.allocated h a hmem)) ?_ ?_
      · show a ∈ q.outstanding
        rw [ho]
        exact List.mem_cons_self
      · rintro e (rfl | rfl)
        · exact Or.inl (by simp [ScanThread.todo])
        · exact Or.inl (by simp [ScanThread.todo])
      · intro e he
        simpa [ScanThread.todo] using he
    · intro b hfresh
      obtain rfl := Option.some.inj hfresh
      exact Or.inr ha

theorem entry_of_eq (he : e = .sc a ∨ e = .tr a) : ∃ i : Head, e = i.entry a := by
  rcases he with rfl | rfl
  · exact ⟨.shared .scanned, rfl⟩
  · exact ⟨.shared .br, rfl⟩

theorem slot_of_eq (he : e = .sc a ∨ e = .tr a) : e.slot = a := by
  rcases he with rfl | rfl <;> rfl

theorem Inv.initEntry (hinv : Inv s lists) {i : Fin k} {deviceType : DeviceType} {args : PushArgs}
    {todo : List Entry} (hscan : s.scan i = .created deviceType args a (e :: todo)) :
    Inv ⟨s.heap.initEntry e, Function.update s.scan i (.created deviceType args a todo), s.comm⟩
      lists := by
  have hb := hinv.base
  have ht := hinv.threads i
  have hfresh : (s.scan i).fresh = some a := by rw [hscan]; rfl
  have htodo : (s.scan i).todo = e :: todo := by rw [hscan]; rfl
  have halloc := ht.allocated a hfresh
  have hout := ht.unlisted a hfresh
  have hentry : ∀ x ∈ e :: todo, x = .sc a ∨ x = .tr a := fun x hx =>
    ht.todo a hfresh x (htodo ▸ hx)
  have he := hentry e List.mem_cons_self
  obtain ⟨k, hk⟩ := entry_of_eq he
  obtain ⟨L, heq, hs, hself, hm⟩ := hb.arranged.initEntry k halloc hout
  rw [← hk] at heq hs hself
  have hrings : ∀ x ∈ [e], ∀ h, x ∉ Entry.head h :: lists.entries h := fun x hx => by
    rw [List.mem_singleton.mp hx]
    exact not_in_rings hout he
  have hlocal := hb.sameLocal hs fun x hx => Or.inr (hrings x hx)
  rw [heq]
  refine hinv.ofScan ⟨hm, hb.sound, hb.ble, hb.takenBle, hb.pointers.frame hlocal, hb.unlinked⟩
    ?_ ?_ ?_
  · intro j hj
    refine (hinv.threads j).other hs ?_ (fun _ => id) (hinv.threads j).unlisted
    intro b hfb x hx hmem
    rw [List.mem_singleton.mp hmem] at hx
    have hab : a = b := (slot_of_eq he).symm.trans (slot_of_eq hx)
    exact hinv.distinct j i b hj hfb (hab ▸ hfresh)
  · refine .ofFresh (a := a) rfl rfl halloc hout ?_ fun x hx => hentry x (List.mem_cons_of_mem e hx)
    intro x hx
    by_cases hxe : x = e
    · rw [hxe]
      exact Or.inr hself
    · have hnext : L.next x = s.heap.links.next x := (hs x (by simpa using hxe)).1
      have hold := ht.isolated a hfresh x hx
      rw [htodo, List.mem_cons] at hold
      rcases hold with (h | h) | h
      · exact absurd h hxe
      · exact Or.inl h
      · exact Or.inr (hnext.trans h)
  · intro b hfb
    obtain rfl := Option.some.inj hfb
    exact Or.inl hfresh

theorem inserted_local (lists : Lists) (deviceType : DeviceType) (a : Slot) :
    lists.inserted deviceType a .localList = lists .localList := by
  cases deviceType <;> rfl

theorem inserted_ble (hble : ∀ b ∈ lists (.shared .ble), b ∉ lists (.shared .scanned))
    (hout : ∀ h, a ∉ lists h) (deviceType : DeviceType) :
    ∀ b ∈ lists.inserted deviceType a (.shared .ble),
      b ∉ lists.inserted deviceType a (.shared .scanned) := by
  intro b hb hc
  have hble' := hble b
  have hsc := hout (.shared .scanned)
  have hbl := hout (.shared .ble)
  cases deviceType <;> simp [Lists.inserted, Function.update] at hb hc
  · rcases hc with rfl | hc
    · exact hbl hb
    · exact hble' hb hc
  · rcases hb with hb | rfl
    · exact hble' hb hc
    · exact hsc hc
  · exact hble' hb hc

theorem taken_inserted {deviceType : DeviceType} (h : Taken (lists.inserted deviceType a) comm b) :
    Taken lists comm b := by
  rwa [Taken, inserted_local] at h

theorem asked_inserted {L : Links Entry} (hisolated : ∀ e, e = .sc a ∨ e = .tr a → L.next e = e)
    {deviceType : DeviceType} (h : Asked (lists.inserted deviceType a) comm e) :
    Asked lists comm e ∨ L.next e = e := by
  cases e with
  | head h' => exact False.elim h
  | sc b =>
    rcases h with h | h
    · rcases mem_of_inserted h with h | rfl
      · exact Or.inl (Or.inl h)
      · exact Or.inr (hisolated _ (Or.inl rfl))
    · exact Or.inl (Or.inr ⟨h.1, taken_inserted h.2⟩)
  | tr b =>
    rcases mem_of_inserted h with h | rfl
    · exact Or.inl h
    · exact Or.inr (hisolated _ (Or.inr rfl))

section Inserted

variable {L : Links Entry} {deviceType : DeviceType} (hout : ∀ h, a ∉ lists h)
  (hs : SameOutside (.sc a :: .tr a :: lists.sharedRings) m.links L)
include hout hs

theorem Base.inserted (hb : Base m lists comm) (hun : comm.unlinked ≠ some a)
    (hm : Arranged { m with links := L } (lists.inserted deviceType a) (Active comm)
      (Asked (lists.inserted deviceType a) comm)) :
    Base { m with links := L } (lists.inserted deviceType a) comm := by
  have hS : ∀ x ∈ .sc a :: .tr a :: lists.sharedRings,
      x ∈ lists.sharedRings ∨ ∀ h, x ∉ Entry.head h :: lists.entries h := by
    intro x hx
    simp only [List.mem_cons] at hx
    rcases hx with rfl | rfl | hx
    · exact Or.inr (not_in_rings hout (Or.inl rfl))
    · exact Or.inr (not_in_rings hout (Or.inr rfl))
    · exact Or.inl hx
  refine ⟨hm, hb.sound, inserted_ble hb.ble hout deviceType, ?_, ?_, ?_⟩
  · intro hlist b htaken hsc
    have hold := taken_inserted htaken
    rcases mem_of_inserted hsc with hsc | rfl
    · exact hb.takenBle hlist b hold hsc
    · exact hold.elim (hout .localList) hun
  · rw [inserted_local]
    exact hb.pointers.frame (hb.sameLocal hs hS)
  · intro b hunlinked
    obtain ⟨halloc, hout'⟩ := hb.unlinked b hunlinked
    refine ⟨halloc, fun h hh hmem => ?_⟩
    rcases mem_of_inserted hmem with hmem | rfl
    · exact hout' h hh hmem
    · exact hun hunlinked

theorem ThreadOk.inserted (ht : ThreadOk m lists t) (hfresh : t.fresh ≠ some a) :
    ThreadOk { m with links := L } (lists.inserted deviceType a) t := by
  have hne : ∀ b, t.fresh = some b → b ≠ a := by
    rintro b hb rfl
    exact hfresh hb
  refine ht.other hs ?_ (fun _ => id) ?_
  · intro b hb x hx hmem
    have hslot := slot_of_eq hx
    simp only [List.mem_cons] at hmem
    rcases hmem with rfl | rfl | hmem
    · exact hne b hb hslot.symm
    · exact hne b hb hslot.symm
    · exact not_in_sharedRings (ht.unlisted b hb) hx hmem
  · intro b hb h hmem
    rcases mem_of_inserted hmem with hmem | rfl
    · exact ht.unlisted b hb h hmem
    · exact hne b hb rfl

end Inserted

theorem Inv.insert (hinv : Inv s lists) {i : Fin k} {deviceType : DeviceType}
    (hscan : s.scan i = .writing a [] (some deviceType)) :
    Inv ⟨s.heap.insert deviceType a, Function.update s.scan i .idle, s.comm⟩
      (lists.inserted deviceType a) := by
  have hb := hinv.base
  have ht := hinv.threads i
  have hfresh : (s.scan i).fresh = some a := by rw [hscan]; rfl
  have htodo : (s.scan i).todo = [] := by rw [hscan]; rfl
  have hout := ht.unlisted a hfresh
  have hisolated : ∀ e, e = .sc a ∨ e = .tr a → s.heap.links.next e = e := by
    intro e he
    have := ht.isolated a hfresh e he
    rw [htodo] at this
    exact this.resolve_left List.not_mem_nil
  obtain ⟨L, heq, hs, hm⟩ := (hb.arranged.of_live fun _ => asked_inserted hisolated).insertNew
    (active_shared s.comm) deviceType (ht.allocated a hfresh) hout
  rw [heq]
  refine hinv.ofScan (hb.inserted hout hs (hinv.apart i a hfresh) hm) ?_ ?_ ?_
  · intro j hj
    exact (hinv.threads j).inserted hout hs fun hother => hinv.distinct j i a hj hother hfresh
  · exact .linked rfl fun b hb => absurd hb (by simp [ScanThread.uses])
  · exact fun b hfb => absurd hfb (by simp [ScanThread.fresh])

theorem writing_uses {todo : List Write} (h : (ScanThread.writing a todo none).uses = some b) :
    b = a := by
  cases todo with
  | nil => exact absurd h (by simp [ScanThread.uses])
  | cons f todo => exact (Option.some.inj h).symm

theorem Inv.look (hinv : Inv s lists) {i : Fin k} {call : Call} (hscan : s.scan i = .looking call) :
    Inv (s.step w (.scan i)) lists := by
  rw [Threads.step, hscan, ScanThread.step]
  obtain ⟨huses, hfresh⟩ := answered_none call
  cases call.searchList with
  | none => exact hinv.accessed rfl rfl rfl rfl fun a ha => absurd ha (by simp [ScanThread.uses])
  | some list =>
    dsimp only
    split
    · exact hinv.accessed rfl rfl rfl hfresh fun a ha => absurd (huses.symm.trans ha) (by simp)
    · exact hinv.accessed rfl rfl rfl rfl fun a ha => absurd ha (by simp [ScanThread.uses])

theorem Inv.useFound (hinv : Inv s lists) {i : Fin k} {call : Call}
    (hscan : s.scan i = .found call a) : Inv (s.step w (.scan i)) lists := by
  have huses : (s.scan i).uses = some a := by rw [hscan]; rfl
  have halloc := (hinv.threads i).uses a huses
  rw [Threads.step, hscan]
  cases call with
  | push deviceType args =>
    refine hinv.accessed rfl rfl rfl rfl fun b hb => ?_
    rw [huses, writing_uses hb]
  | scanRsp macAddress payload =>
    rw [ScanThread.step, access_eq halloc]
    dsimp only
    split
    · refine hinv.accessed rfl rfl rfl rfl fun b hb => ?_
      rw [huses, writing_uses hb]
    · exact hinv.accessed rfl rfl rfl rfl fun b hb => absurd hb (by simp [ScanThread.uses])

theorem Inv.writeField (hinv : Inv s lists) {i : Fin k} {f : Write} {todo : List Write}
    {linkAs : Option DeviceType} (hscan : s.scan i = .writing a (f :: todo) linkAs) :
    Inv (s.step w (.scan i)) lists := by
  rw [Threads.step, hscan]
  cases linkAs with
  | none =>
    have huses : (s.scan i).uses = some a := by rw [hscan]; rfl
    rw [ScanThread.step, write_eq ((hinv.threads i).uses a huses)]
    refine hinv.accessed rfl rfl rfl rfl fun b hb => ?_
    rw [huses, writing_uses hb]
  | some deviceType =>
    have hfresh : (s.scan i).fresh = some a := by rw [hscan]; rfl
    rw [ScanThread.step, write_eq ((hinv.threads i).allocated a hfresh)]
    exact hinv.filled rfl rfl rfl hfresh (by rw [hscan]; rfl) rfl (by cases todo <;> rfl) rfl

theorem Inv.scanStep (hinv : Inv s lists) (i : Fin k) (hcare : s.Careful w (.scan i)) :
    ∃ lists', Inv (s.step w (.scan i)) lists' := by
  cases hscan : s.scan i with
  | searching call list => exact hinv.search hscan hcare
  | allocating deviceType args => exact ⟨lists, hinv.allocate w deviceType args hscan⟩
  | looking call => exact ⟨lists, hinv.look hscan⟩
  | found call a => exact ⟨lists, hinv.useFound hscan⟩
  | idle =>
    rw [Threads.step, hscan]
    exact ⟨lists, hinv.accessed rfl rfl rfl rfl fun a ha => absurd ha (by simp [ScanThread.uses])⟩
  | created deviceType args a todo =>
    have hfresh : (s.scan i).fresh = some a := by rw [hscan]; rfl
    rw [Threads.step, hscan]
    cases todo with
    | cons e todo => exact ⟨lists, hinv.initEntry hscan⟩
    | nil => exact ⟨lists, hinv.filled rfl rfl rfl hfresh (by rw [hscan]; rfl) rfl rfl rfl⟩
  | writing a todo linkAs =>
    cases todo with
    | cons f todo => exact ⟨lists, hinv.writeField hscan⟩
    | nil =>
      rw [Threads.step, hscan]
      cases linkAs with
      | none =>
        exact ⟨lists, hinv.accessed rfl rfl rfl rfl fun b hb =>
          absurd hb (by simp [ScanThread.uses])⟩
      | some deviceType => exact ⟨_, hinv.insert hscan⟩

end Steps

end LBeacon
