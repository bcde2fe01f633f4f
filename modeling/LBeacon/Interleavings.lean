import LBeacon.Races

/-!
# The communication thread, and every interleaving

The detached list between its sections, and from the steps of all threads what a whole run keeps.
-/

open CText Rings

namespace LBeacon

section Steps

variable {k : Nat} {w : World} {s : Threads k} {m m' : Heap} {lists lists' : Lists} {comm comm' : CommThread}
  {list : TrackedList} {a b : Slot} {e : Entry}

/-! ## Steps that free nothing -/

theorem Inv.relinked (hinv : Inv s lists) (hb : Base m' lists' comm') {S : List Entry}
    (hs : SameOutside S s.heap.links m'.links)
    (hS : ∀ x ∈ S, ∃ h, x ∈ Entry.head h :: lists.entries h)
    (hpool : m'.pool = s.heap.pool) (hlists : ∀ h, ∀ a ∈ lists' h, ∃ h', a ∈ lists h')
    (hun : ∀ a, comm'.unlinked = some a → ∃ h, a ∈ lists h) :
    Inv ⟨m', s.scan, comm'⟩ lists' := by
  refine ⟨hb, fun i => ?_, hinv.distinct, fun i a hfresh h => ?_⟩
  · have ht := hinv.threads i
    refine ht.other hs ?_ (fun b hb => hpool ▸ hb) ?_
    · intro b hfresh e he hmem
      obtain ⟨h, hmem⟩ := hS e hmem
      exact not_in_rings (ht.unlisted b hfresh) he h hmem
    · intro b hfresh h hmem
      obtain ⟨h', hmem⟩ := hlists h b hmem
      exact ht.unlisted b hfresh h' hmem
  · obtain ⟨h, hmem⟩ := hun a h
    exact (hinv.threads i).unlisted a hfresh h hmem

theorem Inv.looked (hinv : Inv s lists) (hlist : comm'.list = none ∨ comm'.list = s.comm.list)
    (hun : comm'.unlinked = none) (hclosed : comm'.closed = true → s.comm.closed = true)
    (hpointers : Pointers s.heap.links (lists .localList) comm') :
    Inv ⟨s.heap, s.scan, comm'⟩ lists := by
  have hb := hinv.base
  have hold : ∀ list, comm'.list = some list → s.comm.list = some list := fun list h =>
    hlist.elim (fun h' => absurd (h'.symm.trans h) (by simp)) fun h' => h'.symm.trans h
  have htaken : ∀ b, Taken lists comm' b → Taken lists s.comm b := fun b h =>
    Or.inl (h.resolve_right (by simp [hun]))
  refine hinv.relinked ⟨?_, hb.sound, hb.ble, ?_, hpointers, ?_⟩ (SameOutside.refl [] _)
    (fun _ h => absurd h List.not_mem_nil) rfl (fun h a ha => ⟨h, ha⟩) ?_
  · refine hb.arranged.mono (fun h => Or.imp_right hclosed) ?_
    rintro (h | b | b) hask
    · exact hask
    · exact hask.imp_right fun h => ⟨hold _ h.1, htaken b h.2⟩
    · exact hask
  · exact fun h b hb' => hb.takenBle (hold _ h) b (htaken b hb')
  · exact fun b h => absurd (hun.symm.trans h) (by simp)
  · exact fun b h => absurd (hun.symm.trans h) (by simp)

theorem mem_local_ring (lists : Lists) :
    ∀ x ∈ Entry.localHead :: lists.entries .localList, ∃ h, x ∈ Entry.head h :: lists.entries h :=
  fun _ hx => ⟨.localList, hx⟩

theorem Base.here (hb : Base m lists comm) (hclosed : comm.closed = true) {before rest : List Slot}
    (hsplit : lists .localList = before ++ rest) {pos : Entry}
    (hpos : pos = (rest.map .tr).headD .localHead) :
    pos = .localHead ∧ rest = [] ∨ pos ≠ .localHead ∧ m.touch pos = m ∧
      ∃ a rest', rest = a :: rest' ∧ pos = .tr a ∧
        m.links.next pos = (rest'.map .tr).headD .localHead := by
  cases rest with
  | nil => exact Or.inl ⟨hpos, rfl⟩
  | cons a rest =>
    have ha : a ∈ lists .localList := by rw [hsplit]; simp
    have hpos' : pos = .tr a := hpos
    subst hpos'
    exact Or.inr ⟨Entry.noConfusion, touch_eq (hb.arranged.allocated _ a ha), a, rest, rfl, rfl,
      hb.arranged.next_of_append (i := .localList) (Or.inr hclosed) hsplit⟩

theorem Base.first (hb : Base m lists comm) (hclosed : comm.closed = true) :
    m.links.next .localHead = ((lists .localList).map .tr).headD .localHead :=
  hb.arranged.next_head (i := .localList) (Or.inr hclosed)

/-! ## Reading the local list -/

theorem Base.onward (hb : Base m lists comm) (hclosed : comm.closed = true) {pos : Entry}
    (hpos : ∃ before rest, lists .localList = before ++ rest ∧
      pos = (rest.map .tr).headD .localHead) (h : pos ≠ .localHead) :
    m.touch pos = m ∧ ∃ before rest, lists .localList = before ++ rest ∧
      m.links.next pos = (rest.map .tr).headD .localHead := by
  obtain ⟨before, rest, hsplit, hpos⟩ := hpos
  rcases hb.here hclosed hsplit hpos with ⟨hend, -⟩ | ⟨-, htouch, a, rest', rfl, -, hnext⟩
  · exact absurd hend h
  · refine ⟨htouch, before ++ [a], rest', ?_, hnext⟩
    rw [hsplit, List.append_assoc, List.singleton_append]

theorem Inv.count (hinv : Inv s lists) {pos : Entry} (hcomm : s.comm = .counting list pos) :
    Inv (s.step w .comm) lists := by
  have hpointers := hinv.base.pointers
  have hclosed : s.comm.closed = true := by rw [hcomm]; rfl
  rw [hcomm] at hpointers
  rw [Threads.step, hcomm, CommThread.step]
  by_cases h : pos = .localHead
  · rw [if_pos h]
    exact hinv.looked (Or.inr (by rw [hcomm]; rfl)) rfl (fun _ => hclosed)
      ⟨[], _, rfl, hinv.base.first hclosed⟩
  · obtain ⟨htouch, hnext⟩ := hinv.base.onward hclosed hpointers h
    rw [if_neg h, htouch]
    exact hinv.looked (Or.inr (by rw [hcomm]; rfl)) rfl (fun _ => hclosed) hnext

theorem Inv.print (hinv : Inv s lists) {pos : Entry} (hcomm : s.comm = .printing list pos) :
    Inv (s.step w .comm) lists := by
  have hpointers := hinv.base.pointers
  have hclosed : s.comm.closed = true := by rw [hcomm]; rfl
  rw [hcomm] at hpointers
  rw [Threads.step, hcomm, CommThread.step]
  by_cases h : pos = .localHead
  · rw [if_pos h]
    exact hinv.looked (Or.inr (by rw [hcomm]; rfl)) rfl (fun _ => hclosed)
      (hinv.base.first hclosed)
  · obtain ⟨htouch, hnext⟩ := hinv.base.onward hclosed hpointers h
    rw [if_neg h, htouch]
    exact hinv.looked (Or.inr (by rw [hcomm]; rfl)) rfl (fun _ => hclosed) hnext

theorem Inv.advance (hinv : Inv s lists) {pos : Entry} (hcomm : s.comm = .advancing list pos) :
    Inv (s.step w .comm) lists := by
  have hpointers := hinv.base.pointers
  rw [hcomm] at hpointers
  have hclosed : s.comm.closed = true := by rw [hcomm]; rfl
  rw [Threads.step, hcomm, CommThread.step]
  rcases hinv.base.here hclosed (List.nil_append _).symm hpointers with
    ⟨h, hnil⟩ | ⟨h, htouch, a, rest, hslots, hpos, hnext⟩
  · rw [if_pos h]
    exact hinv.looked (Or.inl rfl) rfl (fun h => absurd h (by simp [CommThread.closed])) hnil
  · rw [if_neg h, htouch]
    exact hinv.looked (Or.inr (by rw [hcomm]; rfl)) rfl (fun _ => hclosed)
      ⟨a, rest, hslots, hpos, hnext⟩

/-! ## Building the local list -/

theorem Inv.open (hinv : Inv s lists) {headPointer tailPointer : Entry}
    (hcomm : s.comm = .detached list headPointer tailPointer) : Inv (s.step w .comm) lists := by
  have hb := hinv.base
  have hpointers := hb.pointers
  rw [hcomm] at hb hpointers
  obtain ⟨hne, hnodup, hpath, rfl, rfl, hstop⟩ := hpointers
  obtain ⟨L, heq, hs, hm, hpath', hnext⟩ := hb.arranged.openLocal
    (by simp [Active, CommThread.closed]) hpath hnodup hne
  have hlast : ((lists .localList).map Entry.tr).getLastD .localHead ≠ .localHead := by
    obtain ⟨l, a, hl⟩ := (List.eq_nil_or_concat' (lists .localList)).resolve_left hne
    simp [hl, Entry.localHead]
  rw [Threads.step, hcomm, CommThread.step, heq]
  refine hinv.relinked ⟨hm, hb.sound, hb.ble, hb.takenBle, ?_, ?_⟩ hs (mem_local_ring lists) rfl
    (fun h a ha => ⟨h, ha⟩) ?_
  · refine ⟨hne, hnodup, hpath', rfl, ?_⟩
    rw [hnext _ hlast]
    exact hstop
  · exact fun a h => absurd h (by simp [CommThread.unlinked])
  · exact fun a h => absurd h (by simp [CommThread.unlinked])

theorem Inv.close (hinv : Inv s lists) {tailPointer : Entry}
    (hcomm : s.comm = .opened list tailPointer) : Inv (s.step w .comm) lists := by
  have hb := hinv.base
  have hpointers := hb.pointers
  rw [hcomm] at hb hpointers
  obtain ⟨hne, hnodup, hpath, rfl, -⟩ := hpointers
  obtain ⟨L, heq, hs, hm⟩ := hb.arranged.closeLocal (by simp [Active, CommThread.closed]) hpath hnodup
  rw [Threads.step, hcomm, CommThread.step, heq]
  refine hinv.relinked ⟨hm.mono ?_ fun _ => id, hb.sound, hb.ble, hb.takenBle, ?_, ?_⟩ hs
    (mem_local_ring lists) rfl (fun h a ha => ⟨h, ha⟩) ?_
  · rintro h -
    by_cases hh : h = .localList
    · exact Or.inr hh
    · exact Or.inl (Or.inl hh)
  · exact ⟨[], _, rfl, hm.next_head (i := .localList) (Or.inr rfl)⟩
  · exact fun a h => absurd h (by simp [CommThread.unlinked])
  · exact fun a h => absurd h (by simp [CommThread.unlinked])

/-! ## Releasing the nodes -/

theorem Inv.unlink (hinv : Inv s lists) {pos save : Entry}
    (hcomm : s.comm = .unlinking list pos save) : ∃ lists', Inv (s.step w .comm) lists' := by
  have hb := hinv.base
  have hpointers := hb.pointers
  rw [hcomm] at hb hpointers
  obtain ⟨a, rest, hslots, rfl, rfl⟩ := hpointers
  have hi : Active (.unlinking list (.tr a) ((rest.map .tr).headD .localHead)) .localList :=
    Or.inr rfl
  have ha : a ∈ lists .localList := by rw [hslots]; exact List.mem_cons_self
  obtain ⟨L, heq, hs, hm⟩ := hb.arranged.unlinkNode hi ha
  rw [hslots, List.erase_cons_head] at hm
  have htaken : ∀ b, Taken (Function.update lists .localList rest)
      (.releasing list a ((rest.map .tr).headD .localHead)) b → b ∈ lists .localList := by
    rintro b (h | h)
    · rw [Function.update_self] at h
      rw [hslots]
      exact List.mem_cons_of_mem a h
    · rw [← Option.some.inj h]
      exact ha
  rw [Threads.step, hcomm, CommThread.step, heq]
  refine ⟨Function.update lists .localList rest, hinv.relinked ⟨hm.mono (fun _ => id) ?_, hb.sound,
    hb.ble, ?_, ?_, ?_⟩ hs (mem_local_ring lists) rfl ?_ ?_⟩
  · rintro (h | b | b) hask
    · exact hask
    · exact hask.imp_right fun h => ⟨h.1, Or.inl (htaken b h.2)⟩
    · exact hask
  · exact fun h b hb' => hb.takenBle h b (Or.inl (htaken b hb'))
  · rw [Function.update_self]
    rfl
  · intro b h
    obtain rfl := Option.some.inj h
    exact ⟨hb.arranged.allocated _ _ ha, hb.arranged.notMem_unlinked hi hslots⟩
  · intro h b hb'
    by_cases hh : h = .localList
    · rw [hh, Function.update_self] at hb'
      exact ⟨.localList, hslots ▸ List.mem_cons_of_mem a hb'⟩
    · rw [Function.update_of_ne hh] at hb'
      exact ⟨h, hb'⟩
  · intro b h
    obtain rfl := Option.some.inj h
    exact ⟨.localList, ha⟩

theorem Inv.release (hinv : Inv s lists) {save : Entry} (hcomm : s.comm = .releasing list a save)
    (hcare : s.Careful w .comm) : Inv (s.step w .comm) lists := by
  have hb := hinv.base
  have hpointers := hb.pointers
  rw [hcomm] at hb hpointers
  obtain ⟨halloc, hout⟩ := hb.unlinked a rfl
  have hlive : list = .br → Asked lists (.releasing list a save) (.sc a) := fun h =>
    Or.inr ⟨congrArg some h, Or.inr rfl⟩
  obtain ⟨heq, hm⟩ := hb.arranged.release list halloc hout
    (fun h => hb.takenBle (congrArg some h) a (Or.inr rfl)) hlive
  -- Nobody uses the node if it is freed.
  have hunused : a ∉ lists (.shared .scanned) → ¬ s.Used a := by
    intro hsc
    refine hcare a ?_
    rw [hcomm]
    cases list with
    | ble => exact List.mem_singleton.mpr rfl
    | br =>
      rw [CommThread.frees, if_pos ((hb.arranged.sc_isolated_iff (hlive rfl)).mpr hsc)]
      exact List.mem_singleton.mpr rfl
  have hpool : ∀ b ∈ s.heap.pool.outstanding, (a ∉ lists (.shared .scanned) → b ≠ a) →
      b ∈ (lists.freeIfUnlisted s.heap.pool a).outstanding := by
    intro b hb' hne
    rw [Lists.freeIfUnlisted]
    split
    · exact hb'
    · exact mem_mpFree.mpr ⟨hne ‹_›, hb'⟩
  rw [Threads.step, hcomm, CommThread.step, heq]
  refine ⟨⟨hm.mono (fun _ => id) ?_, hb.sound, hb.ble, ?_, hpointers, ?_⟩, fun i => ?_, hinv.distinct,
    fun i b _ h => absurd h (by simp [CommThread.unlinked])⟩
  · rintro (h | b | b) hask
    · exact hask
    · exact hask.imp_right fun h => ⟨h.1, Or.inl (h.2.resolve_right (by simp [CommThread.unlinked]))⟩
    · exact hask
  · exact fun h b hb' => hb.takenBle h b (Or.inl (hb'.resolve_right (by simp [CommThread.unlinked])))
  · exact fun b h => absurd h (by simp [CommThread.unlinked])
  · have ht := hinv.threads i
    refine ht.frame (fun b huses => ?_) fun b hfresh => ⟨?_, ht.unlisted b hfresh, fun _ _ => rfl⟩
    · refine hpool b (ht.uses b huses) fun hsc hba => hunused hsc ⟨i, ?_⟩
      rw [← hba]
      exact huses
    · refine hpool b (ht.allocated b hfresh) fun _ hba => hinv.apart i b hfresh ?_
      rw [hcomm, hba]
      rfl

/-! ## Detaching nodes -/

/-- A list without its first nodes, which are in the local list. -/
def Lists.split (lists : Lists) (h : Head) (n : Nat) : Lists :=
  Function.update (Function.update lists h ((lists h).drop n)) .localList ((lists h).take n)

theorem mem_split {h h' : Head} {n : Nat} (ha : a ∈ lists.split h n h') :
    a ∈ lists h' ∨ h' = .localList ∧ a ∈ lists h := by
  by_cases hl : h' = .localList
  · rw [Lists.split, hl, Function.update_self] at ha
    exact Or.inr ⟨hl, List.mem_of_mem_take ha⟩
  · rw [Lists.split, Function.update_of_ne hl] at ha
    by_cases hh : h' = h
    · rw [hh, Function.update_self] at ha
      rw [hh]
      exact Or.inl (List.mem_of_mem_drop ha)
    · rw [Function.update_of_ne hh] at ha
      exact Or.inl ha

theorem mem_split_shared {h : Head} {n : Nat} {head : ListHead}
    (ha : a ∈ lists.split h n (.shared head)) : a ∈ lists (.shared head) :=
  (mem_split ha).resolve_right fun h => Head.noConfusion h.1

theorem next_of_cut {slots : List Slot} (hnodup : slots.Nodup) (list : TrackedList) (n : Nat) :
    ((slots.drop n).map Entry.tr).headD list.entry ∉ .localHead :: (slots.take n).map Entry.tr := by
  cases hkept : slots.drop n with
  | nil => cases list <;> simp [TrackedList.entry, Entry.br, Entry.ble, Entry.localHead, -List.map_take]
  | cons a rest =>
    rw [← List.take_append_drop n slots, hkept] at hnodup
    have hmoved : a ∉ slots.take n := fun h =>
      (List.nodup_append.mp hnodup).2.2 a h a List.mem_cons_self rfl
    simpa [Entry.localHead, -List.map_take] using hmoved

theorem headD_take {slots : List Slot} {n : Nat} (hn : 0 < n) (hne : slots ≠ []) (d d' : Entry) :
    ((slots.take n).map Entry.tr).headD d = (slots.map .tr).headD d' := by
  rw [headD_map_take (Nat.ne_of_gt hn), headD_map_of_ne_nil hne d d']

theorem Base.lost (hb : Base m lists .idle) {L : Links Entry}
    (hm : Arranged { m with links := L } (lists.split list.head 1)
      (fun h => Active .idle h ∧ h ≠ .localList) (Asked lists .idle))
    (hbr : list = .br → lists list.head = []) :
    Base { m with links := L } (Function.update (lists.split list.head 1) .localList []) .idle := by
  have hforget := hm.forget (fun h => h.2 rfl) fun a ha htr => by
    rw [Lists.split, Function.update_self] at ha
    have ha := List.mem_of_mem_take ha
    cases list with
    | br => exact absurd (hbr rfl) (List.ne_nil_of_mem ha)
    | ble => exact hb.ble a ha htr
  have hshared : ∀ {head : ListHead} {b}, b ∈ Function.update (lists.split list.head 1) .localList []
      (.shared head) → b ∈ lists (.shared head) := mem_split_shared
  refine ⟨hforget.mono ?_ ?_, hb.sound, fun b h hc => hb.ble b (hshared h) (hshared hc), ?_, ?_, ?_⟩
  · rintro h (hh | hh)
    · exact ⟨Or.inl hh, hh⟩
    · exact absurd hh (by simp [CommThread.closed])
  · rintro (h | b | b) hask
    · exact hask
    · exact Or.inl (hshared (hask.resolve_right (by simp [CommThread.list])))
    · exact hshared hask
  · exact fun h => absurd h (by simp [CommThread.list])
  · exact Function.update_self ..
  · exact fun b h => absurd h (by simp [CommThread.unlinked])

theorem Base.detached (hb : Base m lists .idle) {L : Links Entry} {n : Nat}
    (hm : Arranged { m with links := L } (lists.split list.head n)
      (fun h => Active .idle h ∧ h ≠ .localList) (Asked lists .idle))
    (hn : 0 < n) (hne : lists list.head ≠ []) (hpath : Path L (((lists list.head).take n).map .tr))
    (hnext : L.next ((((lists list.head).take n).map .tr).getLastD list.entry) =
      (((lists list.head).drop n).map .tr).headD list.entry) :
    Base { m with links := L } (lists.split list.head n)
      (.detached list (((lists list.head).map .tr).headD list.entry)
        ((((lists list.head).take n).map .tr).getLastD list.entry)) := by
  have hmoved : lists.split list.head n .localList = (lists list.head).take n :=
    Function.update_self ..
  have hnodup := hb.arranged.nodup (i := list.head) (Or.inl (head_ne_local list))
  have htake : (lists list.head).take n ≠ [] := by
    rw [ne_eq, List.take_eq_nil_iff, not_or]
    exact ⟨Nat.ne_of_gt hn, hne⟩
  have htaken : ∀ {b headPointer tailPointer},
      Taken (lists.split list.head n) (.detached list headPointer tailPointer) b →
        b ∈ lists list.head := fun h => by
    have := h.resolve_right (by simp [CommThread.unlinked])
    rw [hmoved] at this
    exact List.mem_of_mem_take this
  refine ⟨hm.mono ?_ ?_, hb.sound, fun b h hc => hb.ble b (mem_split_shared h) (mem_split_shared hc),
    ?_, ?_, ?_⟩
  · rintro h (hh | hh)
    · exact ⟨Or.inl hh, hh⟩
    · exact absurd hh (by simp [CommThread.closed])
  · rintro (h | b | b) hask
    · exact hask
    · rcases hask with h | ⟨hlist, h⟩
      · exact Or.inl (mem_split_shared h)
      · obtain rfl := Option.some.inj hlist
        exact Or.inl (htaken h)
    · exact mem_split_shared hask
  · intro hlist b h hc
    obtain rfl := Option.some.inj hlist
    exact hb.ble b (htaken h) (mem_split_shared hc)
  · rw [hmoved]
    refine ⟨htake, (List.take_sublist _ _).nodup hnodup, hpath, (headD_take hn hne _ _).symm,
      getLastD_map_of_ne_nil htake _ _, ?_⟩
    rw [hnext]
    exact next_of_cut hnodup list n
  · exact fun b h => absurd h (by simp [CommThread.unlinked])

theorem Inv.detach (hinv : Inv s lists) (hcomm : s.comm = .idle) {size : Nat}
    (hcare : s.Careful w (.consolidate list size)) :
    ∃ lists', Inv (s.step w (.consolidate list size)) lists' := by
  have hb := hinv.base
  have hempty := hb.pointers
  rw [hcomm] at hb hempty
  obtain ⟨L, heq, hs, hm, hpath, hnext⟩ :=
    hb.arranged.detach list (Or.inl (head_ne_local list)) hempty size
  have hle := numberToSend_le_length ((lists list.head).map s.heap.dev) size
  have hsize : maxLengthRespDeviceInfo < size → lists list.head ≠ [] →
      0 < numberToSend ((lists list.head).map s.heap.dev) size := fun h hne =>
    numberToSend_pos h (by simpa using hne)
  have hstep : s.step w (.consolidate list size) =
      ⟨(CommThread.enter list size s.heap).2, s.scan, (CommThread.enter list size s.heap).1⟩ := by
    rw [Threads.step, hcomm]
  rw [hstep, CommThread.enter, heq]
  generalize hn : numberToSend ((lists list.head).map s.heap.dev) size = n at *
  have hS : ∀ x ∈ Entry.head list.head :: lists.entries list.head,
      ∃ h, x ∈ Entry.head h :: lists.entries h := fun x hx => ⟨list.head, hx⟩
  have hsub : ∀ h, ∀ b ∈ lists.split list.head (max n 1) h, ∃ h', b ∈ lists h' := fun h b hb' =>
    (mem_split hb').elim (fun h' => ⟨h, h'⟩) fun h' => ⟨_, h'.2⟩
  cases n with
  | zero =>
    have hbr : list = .br → lists list.head = [] := by
      rintro rfl
      by_contra hne
      have hslots := hb.arranged.slots (h := .shared .br) (Or.inl Head.noConfusion)
      have := hsize (hcare rfl (by rw [hslots]; exact hne)) hne
      omega
    refine ⟨_, hinv.relinked (hb.lost hm hbr) hs hS rfl ?_ fun b h =>
      absurd h (by simp [CommThread.unlinked])⟩
    intro h b hb'
    by_cases hh : h = .localList
    · rw [hh, Function.update_self] at hb'
      exact absurd hb' List.not_mem_nil
    · rw [Function.update_of_ne hh] at hb'
      exact hsub h b hb'
  | succ n =>
    have hne : lists list.head ≠ [] := by
      intro h
      rw [h] at hle
      exact absurd hle (by simp)
    have hmax : max (n + 1) 1 = n + 1 := by omega
    rw [hmax] at hm hpath hnext hsub ⊢
    have hdetached := hb.detached hm (Nat.succ_pos n) hne hpath (hnext (by simpa using hne))
    exact ⟨_, hinv.relinked hdetached hs hS rfl hsub fun b h =>
      absurd h (by simp [CommThread.unlinked])⟩

/-! ## Every interleaving -/

theorem Inv.commStep (hinv : Inv s lists) (hcare : s.Careful w .comm) :
    ∃ lists', Inv (s.step w .comm) lists' := by
  cases hcomm : s.comm with
  | idle =>
    rw [Threads.step, hcomm, CommThread.step, ← hcomm]
    exact ⟨lists, hinv⟩
  | detached list headPointer tailPointer => exact ⟨lists, hinv.open hcomm⟩
  | opened list tailPointer => exact ⟨lists, hinv.close hcomm⟩
  | counting list pos => exact ⟨lists, hinv.count hcomm⟩
  | printing list pos => exact ⟨lists, hinv.print hcomm⟩
  | advancing list pos => exact ⟨lists, hinv.advance hcomm⟩
  | unlinking list pos save => exact hinv.unlink hcomm
  | releasing list a save => exact ⟨lists, hinv.release hcomm hcare⟩

theorem Inv.call (hinv : Inv s lists) (i : Fin k) (call : Call) :
    Inv (s.step w (.call i call)) lists := by
  rw [Threads.step]
  cases hscan : s.scan i with
  | idle => exact hinv.accessed rfl rfl rfl rfl fun a ha => absurd ha (by simp [ScanThread.uses])
  | _ => exact hinv

theorem Inv.step (hinv : Inv s lists) {turn : Turn k} (hcare : s.Careful w turn) :
    ∃ lists', Inv (s.step w turn) lists' := by
  cases turn with
  | call i call => exact ⟨lists, hinv.call i call⟩
  | scan i => exact hinv.scanStep i hcare
  | comm => exact hinv.commStep hcare
  | cleanup list => exact ⟨_, hinv.cleanup list hcare⟩
  | consolidate list size =>
    cases hcomm : s.comm with
    | idle => exact hinv.detach hcomm hcare
    | _ =>
      rw [Threads.step, hcomm]
      exact ⟨lists, hinv⟩

theorem inv_init (k : Nat) : Inv (.init k) fun _ => [] := by
  have hlinked : ∀ i, ThreadOk .init (fun _ => []) ((Threads.init k).scan i) := fun i =>
    .linked rfl fun a ha => absurd ha (by simp [Threads.init, ScanThread.uses])
  refine ⟨⟨arranged_init _ _, rfl, ?_, ?_, rfl, ?_⟩, hlinked, ?_, ?_⟩
  · exact fun a ha => absurd ha List.not_mem_nil
  · exact fun h => absurd h (by simp [Threads.init, CommThread.list])
  · exact fun a h => absurd h (by simp [Threads.init, CommThread.unlinked])
  · exact fun i j a _ h => absurd h (by simp [Threads.init, ScanThread.fresh])
  · exact fun i a h => absurd h (by simp [Threads.init, ScanThread.fresh])

theorem Inv.run {turns : List (Turn k)} (hinv : Inv s lists) (hcare : CarefulRun w s turns) :
    ∃ lists', Inv (turns.foldl (Threads.step w) s) lists' := by
  induction turns generalizing s lists with
  | nil => exact ⟨lists, hinv⟩
  | cons turn turns ih =>
    obtain ⟨lists', hinv'⟩ := hinv.step hcare.1
    exact ih hinv' hcare.2

theorem CarefulRun.take {turns : List (Turn k)} (hcare : CarefulRun w s turns) (n : Nat) :
    CarefulRun w s (turns.take n) := by
  induction turns generalizing s n with
  | nil => rwa [List.take_nil]
  | cons turn turns ih =>
    cases n with
    | zero => trivial
    | succ n => exact ⟨hcare.1, ih hcare.2 n⟩

end Steps

/-- While no step frees a node that another thread has a pointer to, every access of every
interleaving is to a slot that is handed out, and no slot is freed twice. -/
theorem no_stale_access (w : World) {k : Nat} {turns : List (Turn k)}
    (hcare : CarefulRun w (.init k) turns) (n : Nat) :
    (Threads.run w (turns.take n)).heap.faults = [] := by
  obtain ⟨lists, hinv⟩ := (inv_init k).run (hcare.take n)
  exact hinv.base.sound

/-! ## Two orders of one sighting and one upload -/

def raceWorld : World := ⟨fun _ => 1600000000, some, some⟩

def raceArgs : PushArgs := ⟨"AA:BB:CC:DD:EE:02".toList, -70, 0, 3, false, false, []⟩

/-- The tag is stored. It is seen again, and the thread does `n` steps of that call. -/
def sightingTurns (n : Nat) : List (Turn 1) :=
  .call 0 (.push .ble raceArgs) :: List.replicate 16 (.scan 0) ++
    .call 0 (.push .ble raceArgs) :: List.replicate n (.scan 0)

/-- The upload takes the node off its list, sends it and frees it. -/
def uploadTurns : List (Turn 1) := .consolidate .ble 8000 :: List.replicate 10 .comm

theorem no_stale_access_sighting_first :
    (Threads.run raceWorld ((sightingTurns 9 ++ uploadTurns).take 38)).heap.faults = [] :=
  no_stale_access raceWorld (by decide +kernel) 38

/-- The upload comes in between: the next field is written to a freed slot. -/
theorem stale_update :
    (Threads.run raceWorld (sightingTurns 5 ++ uploadTurns ++ [Turn.scan 0])).heap.faults =
      [.stale 0] := by
  decide +kernel

end LBeacon
