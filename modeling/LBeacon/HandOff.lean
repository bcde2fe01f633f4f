import LBeacon.LinkedList
import LBeacon.TempPool

/-!
# From the scanning threads to the examining thread

`temp_ble_device_list_head` on pointers. The scanning threads append to it under its lock. The
examining thread takes the whole chain under the lock, and links it to its own head afterwards.
-/

open CText Rings

namespace LBeacon

/-! ## Entries -/

inductive ReportEntry where
  | null
  | globalHead
  | localHead
  | node (a : Slot)
  deriving DecidableEq

/-- `ListEntry`. The loop stops at the head. -/
def ReportEntry.slot : ReportEntry → Slot
  | .node a => a
  | _ => 0

/-- `memset` of a node. -/
def wipe (L : Links ReportEntry) (a : Slot) : Links ReportEntry :=
  ⟨fun x => if x = .node a then .null else L.next x,
    fun x => if x = .node a then .null else L.prev x⟩

/-! ## Threads -/

/-- Where a scanning thread is with its report. -/
inductive ReportThread where
  | idle
  | allocated (info : TempBleDevice) (a : Slot)
  | ready (a : Slot)

/-- Where `examine_scanned_ble_device` is. -/
inductive Examiner where
  | idle
  | detached (headPointer tailPointer : ReportEntry)
  | opened (tailPointer : ReportEntry)
  | walking (pos : ReportEntry)
  | examining (a : Slot) (save : ReportEntry)

/-- A node, with what was reported in it. -/
abbrev Report := Slot × TempBleDevice

/-- `inserted`, `batches` and `batch` are what happened so far: the nodes that were inserted, and
those that were visited, in the batches before and in the last one. -/
structure HandOff (k : Nat) where
  links : Links ReportEntry
  temp : Slot → TempBleDevice
  pool : Pool
  scan : Fin k → ReportThread
  examiner : Examiner
  inserted : List Report
  batches : List (List Report)
  batch : List Report

variable {k : Nat}

/-- After `init_entry` of the global head in `main`. -/
def HandOff.init (k : Nat) (links : Links ReportEntry) : HandOff k :=
  ⟨links.link .globalHead .globalHead, fun _ => .blank, .empty, fun _ => .idle, .idle, [], [], []⟩

def HandOff.report (s : HandOff k) (a : Slot) : Report := (a, s.temp a)

def HandOff.visited (s : HandOff k) : List Report := (s.batches ++ [s.batch]).flatten

def HandOff.setScan (s : HandOff k) (i : Fin k) (thread : ReportThread) : HandOff k :=
  { s with scan := Function.update s.scan i thread }

/-- `mp_free(&temp_ble_device_mempool, temp)` -/
def HandOff.free (s : HandOff k) (a : Slot) : HandOff k :=
  { s with pool := mpFree s.pool a, links := wipe s.links a }

/-! ## Steps -/

def HandOff.insertListTail (s : HandOff k) (newNode head : ReportEntry) : HandOff k :=
  { s with links := (s.links.link newNode head).link (s.links.prev head) newNode }

/-- `mp_alloc` for a report. -/
def HandOff.allocate (w : World) (s : HandOff k) (i : Fin k) (info : TempBleDevice) : HandOff k :=
  match s.scan i with
  | .idle =>
    match mpAlloc w.tempOffer s.pool with
    | (none, pool) => { s with pool }
    | (some a, pool) => { s with pool }.setScan i (.allocated info a)
  | _ => s

/-- `memset`, `init_entry` and the fields of a node that is not linked yet. -/
def HandOff.fill (s : HandOff k) (info : TempBleDevice) (a : Slot) : HandOff k :=
  { s with
    links := (wipe s.links a).link (.node a) (.node a)
    temp := fun x => if x = a then info else s.temp x }

/-- The section under `temp_ble_device_list_lock`. -/
def HandOff.insert (s : HandOff k) (a : Slot) : HandOff k :=
  { s.insertListTail (.node a) .globalHead with inserted := s.inserted ++ [s.report a] }

def HandOff.scanStep (s : HandOff k) (i : Fin k) : HandOff k :=
  match s.scan i with
  | .idle => s
  | .allocated info a => (s.fill info a).setScan i (.ready a)
  | .ready a => (s.insert a).setScan i .idle

def HandOff.examine (cfg : Config) (s : HandOff k) : HandOff k :=
  match s.examiner with
  | .idle =>
    -- The other section under the lock.
    if s.links.next .globalHead = .globalHead then s
    else
      let headPointer := s.links.next .globalHead
      let tailPointer := s.links.prev .globalHead
      { s with
        links := s.links.link .globalHead (s.links.next tailPointer)
        examiner := .detached headPointer tailPointer
        batches := s.batches ++ [s.batch]
        batch := [] }
  | .detached headPointer tailPointer =>
    { s with
      links := (s.links.link .localHead .localHead).link .localHead headPointer
      examiner := .opened tailPointer }
  | .opened tailPointer =>
    let links := s.links.link tailPointer .localHead
    { s with links, examiner := .walking (links.next .localHead) }
  | .walking pos =>
    if pos = .localHead then { s with examiner := .idle }
    else
      { s with
        examiner := .examining pos.slot (s.links.next pos)
        batch := s.batch ++ [s.report pos.slot] }
  | .examining a save =>
    -- A weak report is skipped by `continue`, and not freed.
    if (s.temp a).isWeak cfg then { s with examiner := .walking save }
    else { s.free a with examiner := .walking save }

/-- Whose turn it is. -/
inductive ReportTurn (k : Nat) where
  | report (i : Fin k) (info : TempBleDevice)
  | scan (i : Fin k)
  | examine

def HandOff.step (cfg : Config) (w : World) (s : HandOff k) : ReportTurn k → HandOff k
  | .report i info => s.allocate w i info
  | .scan i => s.scanStep i
  | .examine => s.examine cfg

def HandOff.run (cfg : Config) (w : World) (links : Links ReportEntry)
    (turns : List (ReportTurn k)) : HandOff k :=
  turns.foldl (HandOff.step cfg w) (.init k links)

/-! ## The invariant -/

def ReportThread.slot : ReportThread → Option Slot
  | .idle => none
  | .allocated _ a => some a
  | .ready a => some a

def Examiner.Relinked : Examiner → Prop
  | .walking _ => True
  | .examining _ _ => True
  | _ => False

/-- Where the examining thread is, when the slots of `pending` wait for it. -/
def HandOff.Place (s : HandOff k) (kept pending : List Slot) : Prop :=
  let nodes := pending.map ReportEntry.node
  match s.examiner with
  | .idle => pending = []
  | .detached headPointer tailPointer =>
    s.batch = [] ∧ pending ≠ [] ∧ headPointer = nodes.headD .localHead ∧
      tailPointer = nodes.getLastD .localHead ∧ Path s.links nodes
  | .opened tailPointer =>
    s.batch = [] ∧ tailPointer = nodes.getLastD .localHead ∧ Path s.links (.localHead :: nodes)
  | .walking pos => Walks s.links .localHead nodes pos
  | .examining a save => a ∈ kept ∧ s.report a ∈ s.batch ∧ Walks s.links .localHead nodes save

/-- The slots of `ring` are in the global ring, those of `pending` wait to be visited, and those
of `kept` were visited in this batch and not freed. -/
structure HandOff.Inv (cfg : Config) (s : HandOff k) (kept pending ring : List Slot) : Prop where
  history : s.visited ++ (pending ++ ring).map s.report = s.inserted
  isRing : IsRing s.links .globalHead (ring.map .node)
  nodup : (kept ++ (pending ++ ring)).Nodup
  allocated : ∀ a ∈ kept ++ (pending ++ ring), a ∈ s.pool.outstanding
  fresh : ∀ i a, (s.scan i).slot = some a →
    a ∈ s.pool.outstanding ∧ a ∉ kept ++ (pending ++ ring)
  apart : ∀ i j a, (s.scan i).slot = some a → (s.scan j).slot = some a → i = j
  place : s.Place kept pending
  path : s.examiner.Relinked → Path s.links (pending.map .node ++ [.localHead])
  intact : s.examiner.Relinked → (∀ r ∈ s.batch, r.2.isWeak cfg) →
    s.batch.map Prod.fst = kept ∧ IsRing s.links .localHead ((kept ++ pending).map .node)

theorem handOff_init_inv (cfg : Config) (k : Nat) (links : Links ReportEntry) :
    (HandOff.init k links).Inv cfg [] [] [] := by
  constructor
  · rfl
  · exact isRing_init links .globalHead
  · exact List.nodup_nil
  · exact fun a ha => absurd ha List.not_mem_nil
  · exact fun i a ha => absurd ha (Option.some_ne_none a).symm
  · exact fun i j a ha => absurd ha (Option.some_ne_none a).symm
  · rfl
  · exact fun h => h.elim
  · exact fun h => h.elim

/-! ## Frames -/

theorem wipe_sameOutside (L : Links ReportEntry) (a : Slot) : SameOutside [.node a] L (wipe L a) := by
  intro x hx
  rw [List.mem_singleton] at hx
  exact ⟨if_neg hx, if_neg hx⟩

theorem node_mem_map {a : Slot} {slots : List Slot} :
    ReportEntry.node a ∈ slots.map .node ↔ a ∈ slots := by
  simp

theorem node_notMem_of_ne {x : ReportEntry} (h : ∀ a, x ≠ .node a) (slots : List Slot) :
    x ∉ slots.map ReportEntry.node := by
  intro hx
  obtain ⟨a, -, ha⟩ := List.mem_map.mp hx
  exact h a ha.symm

theorem HandOff.Inv.batch_frame {cfg : Config} {s : HandOff k} {kept pending ring : List Slot}
    (h : s.Inv cfg kept pending ring) (s' : HandOff k) {S : List ReportEntry}
    (hexaminer : s'.examiner = s.examiner)
    (hbatch : s'.batch = s.batch) (hs : SameOutside S s.links s'.links)
    (hS : ∀ x ∈ ReportEntry.localHead :: (kept ++ pending).map .node, x ∉ S)
    (htemp : ∀ a ∈ kept, s'.temp a = s.temp a) :
    s'.Place kept pending ∧
      (s'.examiner.Relinked → Path s'.links (pending.map .node ++ [.localHead])) ∧
      (s'.examiner.Relinked → (∀ r ∈ s'.batch, r.2.isWeak cfg) →
        s'.batch.map Prod.fst = kept ∧ IsRing s'.links .localHead ((kept ++ pending).map .node)) := by
  have hlocal : ReportEntry.localHead ∉ S := hS _ List.mem_cons_self
  have hnodes : ∀ x ∈ pending.map ReportEntry.node, x ∉ S := by
    intro x hx
    apply hS
    rw [List.map_append]
    exact List.mem_cons_of_mem _ (List.mem_append_right _ hx)
  have hwalk : ∀ x ∈ pending.map ReportEntry.node ++ [.localHead], x ∉ S := by
    intro x hx
    rcases List.mem_append.mp hx with hx | hx
    · exact hnodes x hx
    · rwa [List.mem_singleton.mp hx]
  have hnext : ∀ x ∈ pending.map ReportEntry.node, s'.links.next x = s.links.next x :=
    fun x hx => (hs x (hnodes x hx)).1
  refine ⟨?_, fun hlinked => hs.path (h.path (hexaminer ▸ hlinked)) hwalk, ?_⟩
  · have hplace := h.place
    unfold HandOff.Place at hplace ⊢
    rw [hexaminer, hbatch]
    cases hexam : s.examiner with
    | idle =>
      rw [hexam] at hplace
      exact hplace
    | detached headPointer tailPointer =>
      rw [hexam] at hplace
      obtain ⟨hstart, hne, hhead, htail, hpath⟩ := hplace
      exact ⟨hstart, hne, hhead, htail, hs.path hpath hnodes⟩
    | opened tailPointer =>
      rw [hexam] at hplace
      obtain ⟨hstart, htail, hpath⟩ := hplace
      exact ⟨hstart, htail, hs.path hpath (List.forall_mem_cons.mpr ⟨hlocal, hnodes⟩)⟩
    | walking pos =>
      rw [hexam] at hplace
      exact hplace.keep hnext
    | examining a save =>
      rw [hexam] at hplace
      obtain ⟨ha, hreport, hwalks⟩ := hplace
      refine ⟨ha, ?_, hwalks.keep hnext⟩
      unfold HandOff.report at hreport ⊢
      rwa [htemp a ha]
  · rw [hexaminer, hbatch]
    intro hlinked hweak
    obtain ⟨hkept, hring⟩ := h.intact hlinked hweak
    exact ⟨hkept, hs.isRing hring hS⟩

/-! ## The scanning threads -/

@[simp] theorem setScan_scan (s : HandOff k) (i : Fin k) (thread : ReportThread) :
    (s.setScan i thread).scan = Function.update s.scan i thread := rfl

theorem setScan_slot {s : HandOff k} {i j : Fin k} {thread : ReportThread} {a : Slot}
    (h : ((s.setScan i thread).scan j).slot = some a) :
    j = i ∧ thread.slot = some a ∨ j ≠ i ∧ (s.scan j).slot = some a := by
  rw [setScan_scan] at h
  by_cases hj : j = i
  · subst hj
    rw [Function.update_self] at h
    exact Or.inl ⟨rfl, h⟩
  · rw [Function.update_of_ne hj] at h
    exact Or.inr ⟨hj, h⟩

theorem allocate_inv {cfg : Config} {s : HandOff k} {kept pending ring : List Slot}
    (h : s.Inv cfg kept pending ring) (w : World) (i : Fin k) (info : TempBleDevice) :
    (s.allocate w i info).Inv cfg kept pending ring := by
  unfold HandOff.allocate
  cases s.scan i with
  | allocated info a => exact h
  | ready a => exact h
  | idle =>
    rcases mpAlloc_cases w.tempOffer s.pool with
      ⟨pool, hpool, hsame, -⟩ | ⟨a, pool, hpool, hnew, hmore, -⟩
    · rw [hpool]
      refine ⟨h.history, h.isRing, h.nodup, ?_, ?_, h.apart, h.place, h.path, h.intact⟩
      · rw [hsame]
        exact h.allocated
      · rw [hsame]
        exact h.fresh
    · rw [hpool]
      refine ⟨h.history, h.isRing, h.nodup, ?_, ?_, ?_, h.place, h.path, h.intact⟩
      · intro b hb
        exact hmore ▸ List.mem_cons_of_mem a (h.allocated b hb)
      · intro j b hb
        rcases setScan_slot hb with ⟨-, hslot⟩ | ⟨-, hslot⟩
        · obtain rfl := Option.some.inj hslot
          exact ⟨hmore ▸ List.mem_cons_self, fun hmem => hnew (h.allocated _ hmem)⟩
        · obtain ⟨hout, hnot⟩ := h.fresh j b hslot
          exact ⟨hmore ▸ List.mem_cons_of_mem a hout, hnot⟩
      · -- The new slot was not handed out, so no other thread has it.
        have hother (j : Fin k) (hslot : (s.scan j).slot = some a) : False :=
          hnew (h.fresh j a hslot).1
        intro j l b hj hl
        rcases setScan_slot hj with ⟨rfl, hslot⟩ | ⟨-, hslot⟩ <;>
          rcases setScan_slot hl with ⟨rfl, hslot'⟩ | ⟨-, hslot'⟩
        · rfl
        · obtain rfl := Option.some.inj hslot
          exact (hother l hslot').elim
        · obtain rfl := Option.some.inj hslot'
          exact (hother j hslot).elim
        · exact h.apart j l b hslot hslot'

theorem setScan_apart {s : HandOff k} {i : Fin k} {thread : ReportThread}
    (h : ∀ i j a, (s.scan i).slot = some a → (s.scan j).slot = some a → i = j)
    (hslot : ∀ a, thread.slot = some a → (s.scan i).slot = some a) (j l : Fin k) (a : Slot)
    (hj : ((s.setScan i thread).scan j).slot = some a)
    (hl : ((s.setScan i thread).scan l).slot = some a) : j = l := by
  have hsame {j : Fin k} (hj : ((s.setScan i thread).scan j).slot = some a) :
      (s.scan j).slot = some a := by
    rcases setScan_slot hj with ⟨rfl, hnew⟩ | ⟨-, hold⟩
    · exact hslot a hnew
    · exact hold
  exact h j l a (hsame hj) (hsame hl)

theorem fill_inv {cfg : Config} {s : HandOff k} {kept pending ring : List Slot}
    (h : s.Inv cfg kept pending ring) {i : Fin k} {a : Slot} (hslot : (s.scan i).slot = some a)
    (info : TempBleDevice) : ((s.fill info a).setScan i (.ready a)).Inv cfg kept pending ring := by
  obtain ⟨hout, hnot⟩ := h.fresh i a hslot
  have htemp (b : Slot) (hb : b ∈ kept ++ (pending ++ ring)) :
      (s.fill info a).temp b = s.temp b := if_neg fun heq : b = a => hnot (heq ▸ hb)
  have hs : SameOutside [.node a] s.links (s.fill info a).links :=
    (wipe_sameOutside s.links a).link (List.mem_singleton_self _) (List.mem_singleton_self _)
  have hapart (b : Slot) (hb : b ∈ kept ++ (pending ++ ring)) :
      ReportEntry.node b ∉ [ReportEntry.node a] := by
    intro heq
    obtain rfl := ReportEntry.node.inj (List.mem_singleton.mp heq)
    exact hnot hb
  have hbatch := h.batch_frame (s.fill info a) rfl rfl hs (by
      intro x hx
      rcases List.mem_cons.mp hx with rfl | hx
      · simp
      · obtain ⟨b, hb, rfl⟩ := List.mem_map.mp hx
        apply hapart
        rw [List.mem_append] at hb ⊢
        exact hb.imp_right (List.mem_append_left _))
    fun b hb => htemp b (List.mem_append_left _ hb)
  refine ⟨?_, ?_, h.nodup, h.allocated, ?_, ?_, hbatch.1, hbatch.2.1, hbatch.2.2⟩
  · refine Eq.trans (congrArg (s.visited ++ ·) ?_) h.history
    apply List.map_congr_left
    intro b hb
    exact congrArg (b, ·) (htemp b (List.mem_append_right _ hb))
  · refine hs.isRing h.isRing ?_
    intro x hx
    rcases List.mem_cons.mp hx with rfl | hx
    · simp
    · obtain ⟨b, hb, rfl⟩ := List.mem_map.mp hx
      exact hapart b (List.mem_append_right _ (List.mem_append_right _ hb))
  · intro j b hb
    rcases setScan_slot hb with ⟨-, hb⟩ | ⟨-, hb⟩
    · obtain rfl := Option.some.inj hb
      exact ⟨hout, hnot⟩
    · exact h.fresh j b hb
  · exact setScan_apart (s := s.fill info a) h.apart fun b hb => Option.some.inj hb ▸ hslot

theorem HandOff.Inv.notMem_ring {cfg : Config} {s : HandOff k} {kept pending ring : List Slot}
    (h : s.Inv cfg kept pending ring) {a : Slot} (ha : a ∈ kept ++ pending) : a ∉ ring := by
  have hnodup := h.nodup
  rw [← List.append_assoc] at hnodup
  exact fun hring => (List.nodup_append.mp hnodup).2.2 a ha a hring rfl

theorem insert_inv {cfg : Config} {s : HandOff k} {kept pending ring : List Slot}
    (h : s.Inv cfg kept pending ring) {i : Fin k} {a : Slot} (hslot : (s.scan i).slot = some a) :
    ((s.insert a).setScan i .idle).Inv cfg kept pending (ring ++ [a]) := by
  obtain ⟨hout, hnot⟩ := h.fresh i a hslot
  have hlast : s.links.prev .globalHead = (ring.map ReportEntry.node).getLastD .globalHead :=
    h.isRing.prev_head
  have hs : SameOutside (.node a :: .globalHead :: ring.map .node) s.links (s.insert a).links := by
    have hmem := getLastD_mem_cons ReportEntry.globalHead (ring.map .node)
    rw [← hlast] at hmem
    exact ((SameOutside.refl _ s.links).link (by simp) (by simp)).link
      (List.mem_cons_of_mem _ hmem) (by simp)
  have hbatch := h.batch_frame (s.insert a) rfl rfl hs (by
      intro x hx
      rcases List.mem_cons.mp hx with rfl | hx
      · simp
      · obtain ⟨b, hb, rfl⟩ := List.mem_map.mp hx
        have hne : b ≠ a := by
          rintro rfl
          exact hnot (by rw [← List.append_assoc]; exact List.mem_append_left _ hb)
        simpa [hne] using h.notMem_ring hb)
    fun b hb => rfl
  have hmore : kept ++ (pending ++ (ring ++ [a])) = kept ++ (pending ++ ring) ++ [a] := by
    simp only [List.append_assoc]
  refine ⟨?_, ?_, ?_, ?_, ?_, ?_, hbatch.1, hbatch.2.1, hbatch.2.2⟩
  · have hsame : s.visited ++ (pending ++ (ring ++ [a])).map s.report =
        s.visited ++ (pending ++ ring).map s.report ++ [s.report a] := by simp
    rw [h.history] at hsame
    exact hsame
  · have hbefore : IsRing s.links .globalHead (ring.map ReportEntry.node ++ []) := by
      rw [List.append_nil]
      exact h.isRing
    have hfresh : ReportEntry.node a ∉ .globalHead :: (ring.map ReportEntry.node ++ []) := by
      simp only [List.mem_append, not_or] at hnot
      simpa using hnot.2.2
    have hafter := hbefore.insert hfresh
    rw [← hlast] at hafter
    rw [List.map_append]
    exact hafter
  · rw [hmore]
    exact List.concat_eq_append ▸ h.nodup.concat hnot
  · rw [hmore]
    intro b hb
    rcases List.mem_append.mp hb with hb | hb
    · exact h.allocated b hb
    · exact List.mem_singleton.mp hb ▸ hout
  · intro j b hb
    rcases setScan_slot hb with ⟨-, hb⟩ | ⟨hj, hb⟩
    · exact absurd hb (Option.some_ne_none b).symm
    · obtain ⟨hout', hnot'⟩ := h.fresh j b hb
      refine ⟨hout', ?_⟩
      rw [hmore, List.mem_append, List.mem_singleton, not_or]
      refine ⟨hnot', ?_⟩
      rintro rfl
      exact hj (h.apart j i b hb hslot)
  · exact setScan_apart (s := s.insert a) h.apart fun b hb => absurd hb (Option.some_ne_none b).symm

theorem scanStep_inv {cfg : Config} {s : HandOff k} {kept pending ring : List Slot}
    (h : s.Inv cfg kept pending ring) (i : Fin k) :
    ∃ ring', (s.scanStep i).Inv cfg kept pending ring' := by
  unfold HandOff.scanStep
  cases hi : s.scan i with
  | idle => exact ⟨ring, h⟩
  | allocated info a => exact ⟨ring, fill_inv h (by rw [hi]; rfl) info⟩
  | ready a => exact ⟨ring ++ [a], insert_inv h (by rw [hi]; rfl)⟩

/-! ## The examining thread -/

theorem notMem_globalRing {x : ReportEntry} {ring : List Slot} (hhead : x ≠ .globalHead)
    (hnode : ∀ a ∈ ring, x ≠ .node a) : x ∉ ReportEntry.globalHead :: ring.map .node := by
  intro hx
  rcases List.mem_cons.mp hx with rfl | hx
  · exact hhead rfl
  · obtain ⟨a, ha, rfl⟩ := List.mem_map.mp hx
    exact hnode a ha rfl

theorem HandOff.Inv.isRing_frame {cfg : Config} {s : HandOff k} {kept pending ring : List Slot}
    (h : s.Inv cfg kept pending ring) {L : Links ReportEntry}
    (hs : SameOutside (.localHead :: (kept ++ pending).map .node) s.links L) :
    IsRing L .globalHead (ring.map .node) := by
  refine hs.isRing h.isRing fun x hx hmem => ?_
  rcases List.mem_cons.mp hmem with rfl | hmem
  · exact notMem_globalRing (by simp) (by simp) hx
  · obtain ⟨a, ha, rfl⟩ := List.mem_map.mp hmem
    refine notMem_globalRing (by simp) ?_ hx
    intro b hb heq
    exact h.notMem_ring ha (ReportEntry.node.inj heq ▸ hb)

theorem HandOff.Inv.pending_nodup {cfg : Config} {s : HandOff k} {kept pending ring : List Slot}
    (h : s.Inv cfg kept pending ring) : (ReportEntry.localHead :: pending.map .node).Nodup := by
  have hnodup := (List.nodup_append.mp (List.nodup_append.mp h.nodup).2.1).1
  refine List.nodup_cons.mpr ⟨node_notMem_of_ne (by simp) pending, ?_⟩
  exact hnodup.map fun a b heq => ReportEntry.node.inj heq

theorem detach_inv {cfg : Config} {s : HandOff k} {kept pending ring : List Slot}
    (h : s.Inv cfg kept pending ring) (hidle : s.examiner = .idle) :
    ∃ kept' pending' ring', (s.examine cfg).Inv cfg kept' pending' ring' := by
  have hpending : pending = [] := by
    have := h.place
    unfold HandOff.Place at this
    rwa [hidle] at this
  subst hpending
  simp only [HandOff.examine, hidle]
  by_cases hempty : s.links.next .globalHead = .globalHead
  · rw [if_pos hempty]
    exact ⟨kept, [], ring, h⟩
  rw [if_neg hempty]
  have hne : ring.map ReportEntry.node ≠ [] := fun hnil => hempty (h.isRing.isolated_iff.mpr hnil)
  have hnext : s.links.next (s.links.prev .globalHead) = .globalHead := by
    obtain ⟨nodes, last, hsplit⟩ := (List.eq_nil_or_concat' _).resolve_left hne
    have hring := h.isRing
    rw [hsplit] at hring
    rw [hring.prev_head, List.getLastD_concat]
    exact hring.next_of_append
  have hcut : IsRing s.links .globalHead (ring.map ReportEntry.node ++ []) := by
    rw [List.append_nil]
    exact h.isRing
  obtain ⟨hring, hpath⟩ := hcut.cut
  refine ⟨[], ring, [], ?_⟩
  rw [hnext]
  have hnodup := (List.nodup_append.mp h.nodup).2.1
  refine ⟨?_, hring, by simpa using hnodup, ?_, ?_, h.apart, ?_, fun h => h.elim, fun h => h.elim⟩
  · rw [← h.history]
    simp [HandOff.visited, HandOff.report]
  · intro a ha
    exact h.allocated a (List.mem_append_right _ (by simpa using ha))
  · intro i a ha
    obtain ⟨hout, hnot⟩ := h.fresh i a ha
    exact ⟨hout, fun hmem => hnot (List.mem_append_right _ (by simpa using hmem))⟩
  · refine ⟨rfl, by simpa using hne, ?_, ?_, hpath⟩
    · rw [h.isRing.next_head]
      obtain ⟨x, nodes, hsplit⟩ := List.exists_cons_of_ne_nil hne
      rw [hsplit, List.headD_cons, List.headD_cons]
    · rw [h.isRing.prev_head]
      obtain ⟨nodes, x, hsplit⟩ := (List.eq_nil_or_concat' _).resolve_left hne
      rw [hsplit, List.getLastD_concat, List.getLastD_concat]

theorem mem_local_of_pending {kept pending : List Slot} {x : ReportEntry}
    (hx : x ∈ ReportEntry.localHead :: pending.map .node) :
    x ∈ ReportEntry.localHead :: (kept ++ pending).map .node := by
  rw [List.map_append]
  rw [List.mem_cons] at hx ⊢
  exact hx.imp_right (List.mem_append_right _)

theorem open_inv {cfg : Config} {s : HandOff k} {kept pending ring : List Slot}
    (h : s.Inv cfg kept pending ring) {headPointer tailPointer : ReportEntry}
    (hexam : s.examiner = .detached headPointer tailPointer) :
    (s.examine cfg).Inv cfg kept pending ring := by
  have hplace := h.place
  unfold HandOff.Place at hplace
  simp only [hexam] at hplace
  obtain ⟨hstart, hne, hhead, htail, hpath⟩ := hplace
  have hmem := headD_mem_cons ReportEntry.localHead (pending.map .node)
  rw [← hhead] at hmem
  have hs := ((SameOutside.refl (.localHead :: (kept ++ pending).map .node) s.links).link
    List.mem_cons_self List.mem_cons_self).link List.mem_cons_self (mem_local_of_pending hmem)
  have hopen := hpath.open h.pending_nodup (by simpa using hne)
  rw [← hhead] at hopen
  simp only [HandOff.examine, hexam]
  exact ⟨h.history, h.isRing_frame hs, h.nodup, h.allocated, h.fresh, h.apart,
    ⟨hstart, htail, hopen⟩, fun h => h.elim, fun h => h.elim⟩

theorem close_inv {cfg : Config} {s : HandOff k} {kept pending ring : List Slot}
    (h : s.Inv cfg kept pending ring) {tailPointer : ReportEntry}
    (hexam : s.examiner = .opened tailPointer) :
    (s.examine cfg).Inv cfg [] pending ring := by
  have hplace := h.place
  unfold HandOff.Place at hplace
  simp only [hexam] at hplace
  obtain ⟨hstart, htail, hpath⟩ := hplace
  have hmem := getLastD_mem_cons ReportEntry.localHead (pending.map .node)
  rw [← htail] at hmem
  have hs := (SameOutside.refl (.localHead :: (kept ++ pending).map .node) s.links).link
    (mem_local_of_pending hmem) List.mem_cons_self
  have hring := hpath.close h.pending_nodup
  rw [← htail] at hring
  simp only [HandOff.examine, hexam]
  refine ⟨h.history, h.isRing_frame hs, (List.nodup_append.mp h.nodup).2.1, ?_, ?_, h.apart,
    hring.walks, fun _ => path_right (l := [.localHead]) hring.path, ?_⟩
  · exact fun a ha => h.allocated a (List.mem_append_right _ ha)
  · intro i a ha
    obtain ⟨hout, hnot⟩ := h.fresh i a ha
    exact ⟨hout, fun hmem => hnot (List.mem_append_right _ hmem)⟩
  · intro _ _
    exact ⟨congrArg (List.map Prod.fst) hstart, hring⟩

theorem visit_inv {cfg : Config} {s : HandOff k} {kept pending ring : List Slot}
    (h : s.Inv cfg kept pending ring) {pos : ReportEntry} (hexam : s.examiner = .walking pos) :
    ∃ kept' pending', (s.examine cfg).Inv cfg kept' pending' ring := by
  have hwalks := h.place
  unfold HandOff.Place at hwalks
  simp only [hexam] at hwalks
  simp only [HandOff.examine, hexam]
  cases pending with
  | nil =>
    obtain rfl : pos = .localHead := hwalks.nil
    rw [if_pos rfl]
    exact ⟨kept, [], h.history, h.isRing, h.nodup, h.allocated, h.fresh, h.apart, rfl,
      fun h => h.elim, fun h => h.elim⟩
  | cons a pending =>
    obtain ⟨rfl, hne, hnext⟩ := hwalks.cons
    rw [if_neg hne]
    have htail : Path s.links (pending.map ReportEntry.node ++ [.localHead]) :=
      path_right (l := [ReportEntry.node a]) (h.path (by rw [hexam]; trivial))
    have hmove : (s.batches ++ [s.batch ++ [s.report a]]).flatten ++ (pending ++ ring).map s.report =
        s.visited ++ (a :: pending ++ ring).map s.report := by simp [HandOff.visited]
    have hsame : kept ++ [a] ++ (pending ++ ring) = kept ++ (a :: pending ++ ring) := by simp
    refine ⟨kept ++ [a], pending, hmove.trans h.history, h.isRing, hsame ▸ h.nodup,
      hsame ▸ h.allocated, fun i b hb => hsame ▸ h.fresh i b hb, h.apart, ?_, fun _ => htail, ?_⟩
    · exact ⟨by simp [ReportEntry.slot], by simp [HandOff.report, ReportEntry.slot], hnext⟩
    · intro _ hweak
      obtain ⟨hkept, hring⟩ := h.intact (by rw [hexam]; trivial)
        fun r hr => hweak r (List.mem_append_left _ hr)
      refine ⟨?_, ?_⟩
      · rw [List.map_append, hkept]
        rfl
      · rwa [List.append_assoc, List.singleton_append]

theorem finish_inv {cfg : Config} {s : HandOff k} {kept pending ring : List Slot}
    (h : s.Inv cfg kept pending ring) {a : Slot} {save : ReportEntry}
    (hexam : s.examiner = .examining a save) :
    ∃ kept', (s.examine cfg).Inv cfg kept' pending ring := by
  have hplace := h.place
  unfold HandOff.Place at hplace
  simp only [hexam] at hplace
  obtain ⟨ha, hreport, hwalks⟩ := hplace
  have hpath := h.path (by rw [hexam]; trivial)
  simp only [HandOff.examine, hexam]
  by_cases hweak : (s.temp a).isWeak cfg = true
  · rw [if_pos hweak]
    refine ⟨kept, h.history, h.isRing, h.nodup, h.allocated, h.fresh, h.apart, hwalks,
      fun _ => hpath, ?_⟩
    exact fun _ => h.intact (by rw [hexam]; trivial)
  rw [if_neg hweak]
  have hs := wipe_sameOutside s.links a
  have hnodup := List.nodup_append.mp h.nodup
  have hout : ∀ b ∈ pending ++ ring, b ≠ a := fun b hb => (hnodup.2.2 a ha b hb).symm
  have hsub : ∀ b ∈ kept.erase a ++ (pending ++ ring), b ≠ a ∧ b ∈ kept ++ (pending ++ ring) := by
    intro b hb
    rcases List.mem_append.mp hb with hb | hb
    · obtain ⟨hne, hb⟩ := hnodup.1.mem_erase_iff.mp hb
      exact ⟨hne, List.mem_append_left _ hb⟩
    · exact ⟨hout b hb, List.mem_append_right _ hb⟩
  have hahead : ∀ x ∈ pending.map ReportEntry.node ++ [.localHead], x ∉ [ReportEntry.node a] := by
    intro x hx hmem
    rw [List.mem_singleton] at hmem
    subst hmem
    rcases List.mem_append.mp hx with hx | hx
    · exact hout a (List.mem_append_left _ (node_mem_map.mp hx)) rfl
    · simp at hx
  refine ⟨kept.erase a, h.history, ?_, ?_, ?_, ?_, h.apart, ?_, fun _ => hs.path hpath hahead, ?_⟩
  · refine hs.isRing h.isRing fun x hx hmem => ?_
    rw [List.mem_singleton] at hmem
    subst hmem
    refine notMem_globalRing (by simp) ?_ hx
    intro b hb heq
    exact hout b (List.mem_append_right _ hb) (ReportEntry.node.inj heq).symm
  · exact h.nodup.sublist (List.Sublist.append_right List.erase_sublist _)
  · intro b hb
    obtain ⟨hne, hb⟩ := hsub b hb
    exact mem_mpFree.mpr ⟨hne, h.allocated b hb⟩
  · intro i b hb
    obtain ⟨hb', hnot⟩ := h.fresh i b hb
    refine ⟨mem_mpFree.mpr ⟨?_, hb'⟩, fun hmem => hnot (hsub b hmem).2⟩
    rintro rfl
    exact hnot (List.mem_append_left _ ha)
  · exact hwalks.keep fun x hx => (hs x (hahead x (List.mem_append_left _ hx))).1
  · -- The record of a node that is freed is not weak.
    exact fun _ hall => absurd (hall _ hreport) hweak

theorem examine_inv {cfg : Config} {s : HandOff k} {kept pending ring : List Slot}
    (h : s.Inv cfg kept pending ring) :
    ∃ kept' pending' ring', (s.examine cfg).Inv cfg kept' pending' ring' := by
  cases hexam : s.examiner with
  | idle => exact detach_inv h hexam
  | detached headPointer tailPointer => exact ⟨kept, pending, ring, open_inv h hexam⟩
  | opened tailPointer => exact ⟨[], pending, ring, close_inv h hexam⟩
  | walking pos =>
    obtain ⟨kept', pending', hnext⟩ := visit_inv h hexam
    exact ⟨kept', pending', ring, hnext⟩
  | examining a save =>
    obtain ⟨kept', hnext⟩ := finish_inv h hexam
    exact ⟨kept', pending, ring, hnext⟩

/-! ## Runs -/

theorem handOff_step_inv {cfg : Config} {s : HandOff k} {kept pending ring : List Slot}
    (h : s.Inv cfg kept pending ring) (w : World) (turn : ReportTurn k) :
    ∃ kept' pending' ring', (s.step cfg w turn).Inv cfg kept' pending' ring' := by
  cases turn with
  | report i info => exact ⟨kept, pending, ring, allocate_inv h w i info⟩
  | scan i =>
    obtain ⟨ring', hnext⟩ := scanStep_inv h i
    exact ⟨kept, pending, ring', hnext⟩
  | examine => exact examine_inv h

theorem handOff_run_inv (cfg : Config) (w : World) (links : Links ReportEntry)
    (turns : List (ReportTurn k)) :
    ∃ kept pending ring, (HandOff.run cfg w links turns).Inv cfg kept pending ring := by
  apply Machine.foldl_invariant
    (P := fun s : HandOff k => ∃ kept pending ring, s.Inv cfg kept pending ring)
  · exact ⟨[], [], [], handOff_init_inv cfg k links⟩
  · rintro pre turn - ⟨kept, pending, ring, h⟩
    exact handOff_step_inv h w turn

/-- Whatever the order of the turns, the nodes that were visited, those of the batch that still
wait and those of the global ring are the inserted ones, in order. The global ring is well
formed; the local one is from the end of the relinking until a node of it is freed, and what is
left to visit still leads to its head after that. No node is in both. -/
theorem reports_handed_off (k : Nat) (cfg : Config) (w : World) (links : Links ReportEntry)
    (turns : List (ReportTurn k)) :
    let s := HandOff.run cfg w links turns
    ∃ pending ring : List Slot,
      s.visited ++ (pending ++ ring).map s.report = s.inserted ∧
      (s.examiner = .idle → pending = []) ∧
      IsRing s.links .globalHead (ring.map .node) ∧
      (pending ++ ring).Nodup ∧
      (s.examiner.Relinked →
        Path s.links (pending.map .node ++ [.localHead]) ∧
        ((∀ r ∈ s.batch, r.2.isWeak cfg) →
          IsRing s.links .localHead ((s.batch.map Prod.fst ++ pending).map .node) ∧
          ∀ a ∈ s.batch.map Prod.fst, a ∉ ring)) := by
  intro s
  obtain ⟨kept, pending, ring, h⟩ := handOff_run_inv cfg w links turns
  have hplace := h.place
  unfold HandOff.Place at hplace
  refine ⟨pending, ring, h.history, ?_, h.isRing, (List.nodup_append.mp h.nodup).2.1, ?_⟩
  · intro hidle
    rw [hidle] at hplace
    exact hplace
  · intro hlinked
    refine ⟨h.path hlinked, fun hweak => ?_⟩
    · obtain ⟨hkept, hring⟩ := h.intact hlinked hweak
      rw [hkept]
      exact ⟨hring, fun a ha => h.notMem_ring (List.mem_append_left _ ha)⟩

/-! ## The loop by itself -/

/-- The body of the loop. -/
def HandOff.examineEntry (cfg : Config) (listPointer : ReportEntry) (s : HandOff k) : HandOff k :=
  let a := listPointer.slot
  let s := { s with batch := s.batch ++ [s.report a] }
  if (s.temp a).isWeak cfg then s else s.free a

variable {cfg : Config} {s : HandOff k} {pending : List Slot}

theorem examineEntry_keepsAhead (cfg : Config) :
    KeepsAhead HandOff.links (HandOff.examineEntry (k := k) cfg) .localHead
      fun rest _ => ∃ pending : List Slot, rest = pending.map .node := by
  refine KeepsAhead.of_sameOutside fun pos rest s ⟨pending, hrest⟩ => ?_
  cases pending with
  | nil => cases hrest
  | cons a pending =>
    obtain ⟨rfl, rfl⟩ := List.cons.inj hrest
    refine ⟨⟨pending, rfl⟩, ?_⟩
    unfold HandOff.examineEntry
    dsimp only
    split
    · exact SameOutside.refl _ _
    · exact wipe_sameOutside s.links a

theorem examine_round {a : Slot} (hexam : s.examiner = .walking (.node a)) :
    (s.examine cfg).examine cfg =
      { s.examineEntry cfg (.node a) with examiner := .walking (s.links.next (.node a)) } := by
  have hvisit : s.examine cfg =
      { s with
        examiner := .examining a (s.links.next (.node a))
        batch := s.batch ++ [s.report a] } := by
    unfold HandOff.examine
    rw [hexam]
    exact if_neg ReportEntry.noConfusion
  rw [hvisit]
  unfold HandOff.examine HandOff.examineEntry ReportEntry.slot
  dsimp only
  split <;> rfl

theorem foldl_examiner (examiner : Examiner) (entries : List ReportEntry) (s : HandOff k) :
    entries.foldl (fun s x => s.examineEntry cfg x) { s with examiner } =
      { entries.foldl (fun s x => s.examineEntry cfg x) s with examiner } := by
  induction entries generalizing s with
  | nil => rfl
  | cons x entries ih =>
    have hround : HandOff.examineEntry cfg x { s with examiner } =
        { s.examineEntry cfg x with examiner } := by
      unfold HandOff.examineEntry
      dsimp only
      split <;> rfl
    rw [List.foldl_cons, List.foldl_cons, hround, ih]

theorem examine_walk {pos : ReportEntry} (hexam : s.examiner = .walking pos)
    (hwalks : Walks s.links .localHead (pending.map .node) pos) :
    (HandOff.examine cfg)^[2 * pending.length + 1] s =
      { (pending.map ReportEntry.node).foldl (fun s x => s.examineEntry cfg x) s with
        examiner := .idle } := by
  induction pending generalizing s pos with
  | nil =>
    obtain rfl : pos = .localHead := hwalks.nil
    show s.examine cfg = _
    unfold HandOff.examine
    rw [hexam]
    rfl
  | cons a pending ih =>
    obtain ⟨rfl, -, hnext⟩ := hwalks.cons
    obtain ⟨-, hkeeps⟩ := examineEntry_keepsAhead cfg (.node a) (pending.map .node) s
      ⟨a :: pending, rfl⟩ hwalks.leads
    let t : HandOff k := { s.examineEntry cfg (.node a) with
      examiner := .walking (s.links.next (.node a)) }
    have hrest : (HandOff.examine cfg)^[2 * pending.length + 1] t =
        { (pending.map ReportEntry.node).foldl (fun s x => s.examineEntry cfg x) t with
          examiner := .idle } := ih rfl (hnext.keep hkeeps)
    have hturns : 2 * (a :: pending).length + 1 = 2 * pending.length + 1 + 1 + 1 := by
      rw [List.length_cons]
      omega
    rw [hturns, Function.iterate_succ_apply, Function.iterate_succ_apply, examine_round hexam]
    refine hrest.trans ?_
    rw [List.map_cons, List.foldl_cons, foldl_examiner]

theorem examineEntries (pending : List Slot) (s : HandOff k) :
    let s' := (pending.map ReportEntry.node).foldl (fun s x => s.examineEntry cfg x) s
    s'.temp = s.temp ∧ s'.batch = s.batch ++ pending.map s.report ∧
      s'.pool.frees = s.pool.frees ++ pending.filter fun a => !(s.temp a).isWeak cfg := by
  induction pending generalizing s with
  | nil => simp
  | cons a pending ih =>
    have hround : (s.examineEntry cfg (.node a)).temp = s.temp ∧
        (s.examineEntry cfg (.node a)).batch = s.batch ++ [s.report a] ∧
        (s.examineEntry cfg (.node a)).pool.frees =
          s.pool.frees ++ if (s.temp a).isWeak cfg then [] else [a] := by
      unfold HandOff.examineEntry ReportEntry.slot
      dsimp only
      split
      · exact ⟨rfl, rfl, (List.append_nil _).symm⟩
      · exact ⟨rfl, rfl, rfl⟩
    obtain ⟨htemp, hbatch, hfrees⟩ := hround
    obtain ⟨ih1, ih2, ih3⟩ := ih (s.examineEntry cfg (.node a))
    refine ⟨ih1.trans htemp, ?_, ?_⟩
    · refine ih2.trans ?_
      unfold HandOff.report at hbatch ⊢
      rw [hbatch, htemp, List.append_assoc]
      rfl
    · refine ih3.trans ?_
      rw [hfrees, htemp, List.append_assoc, List.filter_cons]
      cases (s.temp a).isWeak cfg <;> rfl

/-- When the local ring has been closed, the thread does what `list_for_each_safe` does, and comes to
the end: it visits each node of the ring once, in order, although it frees each that is not weak
where it is linked. -/
theorem batch_examined (k : Nat) (cfg : Config) (w : World) (links : Links ReportEntry)
    (turns : List (ReportTurn k)) {pos : ReportEntry}
    (hexam : (HandOff.run cfg w links turns).examiner = .walking pos)
    (hstart : (HandOff.run cfg w links turns).batch = []) :
    let s := HandOff.run cfg w links turns
    ∃ (pending : List Slot) (s' : HandOff k), IsRing s.links .localHead (pending.map .node) ∧
      listForEachSafe HandOff.links (HandOff.examineEntry cfg) .localHead (pending.length + 1) s =
        some s' ∧
      (HandOff.examine cfg)^[2 * pending.length + 1] s = { s' with examiner := .idle } ∧
      s'.batch = pending.map s.report ∧
      s'.pool.frees = s.pool.frees ++ pending.filter fun a => !(s.temp a).isWeak cfg := by
  intro s
  obtain ⟨kept, pending, ring, h⟩ := handOff_run_inv cfg w links turns
  have hwalks := h.place
  unfold HandOff.Place at hwalks
  rw [hexam] at hwalks
  have hnone : ∀ r ∈ (HandOff.run cfg w links turns).batch, r.2.isWeak cfg := by
    rw [hstart]
    exact fun r hr => absurd hr List.not_mem_nil
  obtain ⟨hkept, hring⟩ := h.intact (by rw [hexam]; trivial) hnone
  rw [hstart] at hkept
  subst hkept
  obtain ⟨-, hbatch, hfrees⟩ := examineEntries pending s
  refine ⟨pending, _, hring, (forEachSafe_rule (examineEntry_keepsAhead cfg) hring ⟨pending, rfl⟩
    ?_).1, examine_walk hexam hwalks, ?_, hfrees⟩
  · rw [List.length_map]
    exact Nat.lt_succ_self _
  · rw [hstart] at hbatch
    exact hbatch

/-- A report is queued, and its batch is relinked. -/
def oneReport : List (ReportTurn 1) :=
  let scanner := Fin.last 0
  [.report scanner { weakReport with rssi := -60 }, .scan scanner, .scan scanner, .examine, .examine,
    .examine]

theorem one_report_examined :
    let s := HandOff.run leakConfig leakWorld ⟨id, id⟩ oneReport
    ∃ (pending : List Slot) (s' : HandOff 1), IsRing s.links .localHead (pending.map .node) ∧
      listForEachSafe HandOff.links (HandOff.examineEntry leakConfig) .localHead
        (pending.length + 1) s = some s' ∧
      (HandOff.examine leakConfig)^[2 * pending.length + 1] s = { s' with examiner := .idle } ∧
      s'.batch = pending.map s.report ∧
      s'.pool.frees = s.pool.frees ++ pending.filter fun a => !(s.temp a).isWeak leakConfig :=
  have hexam : (HandOff.run leakConfig leakWorld ⟨id, id⟩ oneReport).examiner =
      .walking (.node 0) := rfl
  batch_examined 1 leakConfig leakWorld ⟨id, id⟩ oneReport hexam rfl

end LBeacon
