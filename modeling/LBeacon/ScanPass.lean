import LBeacon.CommUnit

/-!
# One pass of the normal scan

The inner loop of `CommUnit_routine` goes through the lists in the order of their priorities,
until it has dispatched a node. A node that is out of date is dropped, and the scan goes on with
the next list.
-/

namespace LBeacon

variable {F : Type}

/-! ## A pass -/

/-- The turns of the other threads, which may put nodes into the lists. -/
def CommTurn.Other : CommTurn → Prop
  | .routine => False
  | _ => True

def CommTurn.Arrival : CommTurn → Prop
  | .add _ _ => True
  | _ => False

/-- The rest of a pass, up to `fuel` turns of the routine, each after the turns `others fuel` of
the other threads. It ends where a node is dispatched or the ring is over: with that node, if
there is one, and the state then. -/
def CommUnit.normalPass (w : CommWorld F) (others : Nat → List CommTurn) :
    Nat → CommUnit F → Option (Option (Unlinked F) × CommUnit F)
  | 0, _ => none
  | fuel + 1, s =>
    let s := (others fuel).foldl (CommUnit.step w) s
    let s' := s.step w .routine
    match s.place with
    | .holding .normal i head node =>
      if s.outOfDate w node then CommUnit.normalPass w others fuel s'
      else some (some ⟨i, head, node, s.uptime⟩, s')
    | .scan i =>
      match w.heads[i]? with
      | none => some (none, s')
      | some _ => CommUnit.normalPass w others fuel s'
    | _ => none

/-- What the priorities promise of a pass that starts in `s`, about the nodes that the lists hold
then. -/
def PriorityOrder (w : CommWorld F) (s : CommUnit F) : Option (Unlinked F) × CommUnit F → Prop
  | (some u, s') => ¬ s.outOfDate w u.node ∧
      ∀ j < u.list, ∀ n ∈ s'.nodes j, n ∈ s.nodes j → s.outOfDate w n
  | (none, _) => ∀ j < w.heads.length, ∀ n ∈ s.nodes j, s.outOfDate w n

/-- The first node of the list is not out of date. -/
def CommUnit.StartsFresh (w : CommWorld F) (s : CommUnit F) (j : Nat) : Prop :=
  ∃ node, (s.nodes j).head? = some node ∧ ¬ s.outOfDate w node

theorem outOfDate_congr {s s' : CommUnit F} (h : s'.uptime = s.uptime) (w : CommWorld F)
    (node : BufferNode) : s'.outOfDate w node ↔ s.outOfDate w node := by
  unfold CommUnit.outOfDate
  rw [h]

/-! ## The other threads -/

/-- What their turns leave to the scan. -/
structure Behind (others : List CommTurn) (s s' : CommUnit F) : Prop where
  place : s'.place = s.place
  uptime : s'.uptime = s.uptime
  prefixes : ∀ j, s.nodes j <+: s'.nodes j
  still : (∀ turn ∈ others, ¬ turn.Arrival) → s'.nodes = s.nodes

theorem step_behind (w : CommWorld F) (s : CommUnit F) {turn : CommTurn} (h : turn.Other) :
    Behind [turn] s (s.step w turn) := by
  have same : ∀ {s' : CommUnit F}, s'.place = s.place → s'.uptime = s.uptime →
      s'.nodes = s.nodes → Behind [turn] s s' := fun hplace huptime hnodes =>
    ⟨hplace, huptime, fun j => hnodes ▸ List.prefix_rfl, fun _ => hnodes⟩
  cases turn with
  | routine => exact h.elim
  | stop => exact same rfl rfl rfl
  | pull =>
    unfold CommUnit.step CommUnit.pull
    dsimp only
    split <;> exact same rfl rfl rfl
  | finish n =>
    unfold CommUnit.step CommUnit.finish
    dsimp only
    split <;> exact same rfl rfl rfl
  | add i node =>
    refine ⟨rfl, rfl, fun j => ?_, fun hno => ?_⟩
    · simp only [CommUnit.step]
      split
      · exact List.prefix_append _ _
      · exact List.prefix_rfl
    · exact absurd trivial (hno _ (List.mem_singleton_self _))

theorem foldl_behind (w : CommWorld F) {others : List CommTurn} :
    ∀ {s : CommUnit F}, (∀ turn ∈ others, turn.Other) →
      Behind others s (others.foldl (CommUnit.step w) s) := by
  induction others with
  | nil => exact fun _ => ⟨rfl, rfl, fun _ => List.prefix_rfl, fun _ => rfl⟩
  | cons turn others ih =>
    intro s h
    have h₁ := step_behind w s (h turn List.mem_cons_self)
    have h₂ := ih (s := s.step w turn) fun t ht => h t (List.mem_cons_of_mem _ ht)
    refine ⟨h₂.place.trans h₁.place, h₂.uptime.trans h₁.uptime,
      fun j => (h₁.prefixes j).trans (h₂.prefixes j), fun hno => ?_⟩
    rw [List.foldl_cons, h₂.still fun t ht => hno t (List.mem_cons_of_mem _ ht)]
    exact h₁.still fun t ht => hno t (List.mem_singleton.mp ht ▸ List.mem_cons_self)

/-! ## The lists that the scan passed by -/

/-- The scan that started in `s₀` is in front of list `i`. None of the lists that it passed by
started with a node that is not out of date, and of each at most the first node is gone. -/
structure PassedBy (w : CommWorld F) (still : Prop) (s₀ : CommUnit F) (i : Nat)
    (s : CommUnit F) : Prop where
  uptime : s.uptime = s₀.uptime
  stale : ∀ j < i, ¬ s₀.StartsFresh w j
  kept : ∀ j < i, ∀ n ∈ (s₀.nodes j).tail, n ∈ s.nodes j
  prefixes : ∀ j, i ≤ j → s₀.nodes j <+: s.nodes j
  still : still → ∀ j, i ≤ j → s.nodes j = s₀.nodes j

section

variable {w : CommWorld F} {still : Prop} {s₀ s s' : CommUnit F} {i : Nat}

theorem PassedBy.start : PassedBy w still s 0 s :=
  ⟨rfl, fun _ hj => absurd hj (Nat.not_lt_zero _), fun _ hj => absurd hj (Nat.not_lt_zero _),
    fun _ _ => List.prefix_rfl, fun _ _ _ => rfl⟩

theorem PassedBy.turns (h : PassedBy w still s₀ i s) {others : List CommTurn}
    (hothers : still → ∀ turn ∈ others, ¬ turn.Arrival) (hb : Behind others s s') :
    PassedBy w still s₀ i s' := by
  refine ⟨hb.uptime.trans h.uptime, h.stale, fun j hj n hn => ?_, fun j hj => ?_,
    fun hstill j hj => ?_⟩
  · exact (hb.prefixes j).subset (h.kept j hj n hn)
  · exact (h.prefixes j hj).trans (hb.prefixes j)
  · rw [hb.still (hothers hstill), h.still hstill j hj]

theorem PassedBy.congr (h : PassedBy w still s₀ i s) (huptime : s'.uptime = s.uptime)
    (hnodes : s'.nodes = s.nodes) : PassedBy w still s₀ i s' := by
  refine ⟨huptime.trans h.uptime, h.stale, ?_, ?_, ?_⟩
  · rw [hnodes]
    exact h.kept
  · rw [hnodes]
    exact h.prefixes
  · rw [hnodes]
    exact h.still

theorem PassedBy.next (h : PassedBy w still s₀ i s) (huptime : s'.uptime = s.uptime)
    (hnodes : ∀ j, s'.nodes j = if j = i then (s.nodes j).tail else s.nodes j)
    (hstale : ∀ node, (s.nodes i).head? = some node → s.outOfDate w node) :
    PassedBy w still s₀ (i + 1) s' := by
  have hbehind : ∀ j, i + 1 ≤ j → s'.nodes j = s.nodes j := fun j hj => by
    rw [hnodes, if_neg (by omega)]
  refine ⟨huptime.trans h.uptime, fun j hj => ?_, fun j hj n hn => ?_, fun j hj => ?_,
    fun hstill j hj => ?_⟩
  · rcases Nat.lt_succ_iff_lt_or_eq.mp hj with hlt | rfl
    · exact h.stale j hlt
    · rintro ⟨node, hnode, hfresh⟩
      have hhead : (s.nodes j).head? = some node := by
        obtain ⟨new, hnew⟩ := h.prefixes j le_rfl
        rw [← hnew, List.head?_append, hnode, Option.some_or]
      exact hfresh ((outOfDate_congr h.uptime w node).mp (hstale node hhead))
  · rw [hnodes]
    rcases Nat.lt_succ_iff_lt_or_eq.mp hj with hlt | rfl
    · rw [if_neg (by omega)]
      exact h.kept j hlt n hn
    · rw [if_pos rfl]
      obtain ⟨new, hnew⟩ := h.prefixes j le_rfl
      rw [← hnew, List.tail_append_of_ne_nil (List.ne_nil_of_mem (List.mem_of_mem_tail hn))]
      exact List.mem_append_left new hn
  · rw [hbehind j hj]
    exact h.prefixes j (by omega)
  · rw [hbehind j hj]
    exact h.still hstill j (by omega)

end

/-! ## The turns of a pass -/

section

variable {w : CommWorld F} {others : Nat → List CommTurn} {s : CommUnit F} {i fuel : Nat}
  {head : BufferListHead F} {node : BufferNode}

theorem pass_end {t : CommUnit F} (ht : (others fuel).foldl (CommUnit.step w) s = t)
    (hplace : t.place = .scan i) (hhead : w.heads[i]? = none) :
    s.normalPass w others (fuel + 1) = some (none, t.step w .routine) := by
  rw [CommUnit.normalPass]
  simp only [ht, hplace, hhead]

theorem pass_list {t : CommUnit F} (ht : (others fuel).foldl (CommUnit.step w) s = t)
    (hplace : t.place = .scan i) (hhead : w.heads[i]? = some head) :
    s.normalPass w others (fuel + 1) =
      (t.take .normal i head (.scan (i + 1))).normalPass w others fuel := by
  have hstep : t.step w .routine = t.take .normal i head (.scan (i + 1)) := by
    unfold CommUnit.step CommUnit.routine
    simp only [hplace, hhead]
  rw [CommUnit.normalPass]
  simp only [ht, hplace, hhead, hstep]

theorem take_none (head : BufferListHead F) {t : CommUnit F} (hnodes : t.nodes i = [])
    (next : Place F) :
    (t.take .normal i head next).place = next ∧
      (t.take .normal i head next).uptime = t.uptime ∧
      ∀ j, (t.take .normal i head next).nodes j =
        if j = i then (t.nodes j).tail else t.nodes j := by
  unfold CommUnit.take
  simp only [hnodes, true_and]
  intro j
  split
  · next hj => rw [hj, hnodes, List.tail_nil]
  · rfl

theorem take_first (head : BufferListHead F) {t : CommUnit F} {rest : List BufferNode}
    (hnodes : t.nodes i = node :: rest) (next : Place F) :
    (t.take .normal i head next).place = .holding .normal i head node ∧
      (t.take .normal i head next).uptime = t.uptime ∧
      ∀ j, (t.take .normal i head next).nodes j =
        if j = i then (t.nodes j).tail else t.nodes j := by
  unfold CommUnit.take
  simp only [hnodes, true_and]
  intro j
  split
  · next hj => rw [hj, hnodes, List.tail_cons]
  · rfl

theorem routine_holding {t : CommUnit F} (hplace : t.place = .holding .normal i head node) :
    t.step w .routine = t.handle w .normal i head node := by
  unfold CommUnit.step CommUnit.routine
  simp only [hplace]

theorem pass_drop {t : CommUnit F} (ht : (others fuel).foldl (CommUnit.step w) s = t)
    (hplace : t.place = .holding .normal i head node) (hold : t.outOfDate w node) :
    ∃ t' : CommUnit F, t'.place = .scan (i + 1) ∧ t'.uptime = t.uptime ∧ t'.nodes = t.nodes ∧
      s.normalPass w others (fuel + 1) = t'.normalPass w others fuel := by
  have hhandle : t.handle w .normal i head node =
      { t with
        handled := t.handled ++ [⟨i, head, node, t.uptime⟩]
        nodeFrees := t.nodeFrees ++ [node]
        place := .scan (i + 1) } := if_pos hold
  refine ⟨t.handle w .normal i head node, ?_, ?_, ?_, ?_⟩
  · rw [hhandle]
  · rw [hhandle]
  · rw [hhandle]
  · rw [CommUnit.normalPass]
    simp only [ht, hplace, hold, if_true, routine_holding hplace]

theorem pass_dispatch {t : CommUnit F} (ht : (others fuel).foldl (CommUnit.step w) s = t)
    (hplace : t.place = .holding .normal i head node) (hnew : ¬ t.outOfDate w node) :
    ∃ t' : CommUnit F, t'.nodes = t.nodes ∧
      s.normalPass w others (fuel + 1) = some (some ⟨i, head, node, t.uptime⟩, t') := by
  refine ⟨t.handle w .normal i head node, (handle_spec w t .normal i head node).1, ?_⟩
  rw [CommUnit.normalPass]
  simp only [ht, hplace, hnew, if_false, routine_holding hplace]

end

/-! ## All lists -/

/-- The results of the pass that started in `s₀`. -/
inductive PassResult (w : CommWorld F) (still : Prop) (s₀ : CommUnit F) :
    Option (Option (Unlinked F) × CommUnit F) → Prop
  | dispatched (k : Nat) (head : BufferListHead F) (node : BufferNode) (s' : CommUnit F)
      (fresh : ¬ s₀.outOfDate w node) (inRing : k < w.heads.length)
      (stale : ∀ j < k, ¬ s₀.StartsFresh w j)
      (kept : ∀ j < k, ∀ n ∈ (s₀.nodes j).tail, n ∈ s'.nodes j)
      (first : still → (s₀.nodes k).head? = some node) :
      PassResult w still s₀ (some (some ⟨k, head, node, s₀.uptime⟩, s'))
  | nothing (s' : CommUnit F) (stale : ∀ j < w.heads.length, ¬ s₀.StartsFresh w j) :
      PassResult w still s₀ (some (none, s'))

section

variable {w : CommWorld F} {others : Nat → List CommTurn} {still : Prop} {s₀ : CommUnit F}

theorem normalPass_result (hothers : ∀ n, ∀ turn ∈ others n, turn.Other)
    (hstill : still → ∀ n, ∀ turn ∈ others n, ¬ turn.Arrival) (lists : Nat) :
    ∀ (fuel i : Nat) (s : CommUnit F), s.place = .scan i → PassedBy w still s₀ i s →
      i + lists = w.heads.length → 2 * lists < fuel →
      PassResult w still s₀ (s.normalPass w others fuel) := by
  induction lists with
  | zero =>
    intro fuel i s hplace hpassed hi hfuel
    obtain ⟨fuel, rfl⟩ := Nat.exists_eq_succ_of_ne_zero (by omega : fuel ≠ 0)
    have hb := foldl_behind w (s := s) (hothers fuel)
    rw [pass_end rfl (hb.place.trans hplace) (List.getElem?_eq_none (by omega))]
    exact .nothing _ fun j hj => hpassed.stale j (by omega)
  | succ lists ih =>
    intro fuel i s hplace hpassed hi hfuel
    obtain ⟨fuel, rfl⟩ : ∃ n, fuel = n + 1 + 1 := ⟨fuel - 2, by omega⟩
    obtain ⟨head, hhead⟩ : ∃ head, w.heads[i]? = some head :=
      ⟨_, List.getElem?_eq_getElem (by omega)⟩
    have hb := foldl_behind w (s := s) (hothers (fuel + 1))
    generalize ht : (others (fuel + 1)).foldl (CommUnit.step w) s = t at hb
    have hpassed₁ := hpassed.turns (fun h => hstill h (fuel + 1)) hb
    rw [pass_list ht (hb.place.trans hplace) hhead]
    rcases hnodes : t.nodes i with _ | ⟨node, rest⟩
    · obtain ⟨hplace₁, huptime₁, hnodes₁⟩ := take_none head hnodes (.scan (i + 1))
      refine ih _ (i + 1) _ hplace₁ (hpassed₁.next huptime₁ hnodes₁ fun node hnode => ?_) (by omega)
        (by omega)
      simp [hnodes] at hnode
    · obtain ⟨hplace₁, huptime₁, hnodes₁⟩ := take_first head hnodes (.scan (i + 1))
      generalize t.take .normal i head (.scan (i + 1)) = t₁ at hplace₁ huptime₁ hnodes₁ ⊢
      have hb₁ := foldl_behind w (s := t₁) (hothers fuel)
      generalize ht₂ : (others fuel).foldl (CommUnit.step w) t₁ = t₂ at hb₁
      have hout : t₂.outOfDate w node ↔ t.outOfDate w node :=
        outOfDate_congr (hb₁.uptime.trans huptime₁) w node
      by_cases hold : t₂.outOfDate w node
      · -- dropped, and the scan moves on without a second look at this list
        obtain ⟨t₃, hplace₃, huptime₃, hnodes₃, hpass₃⟩ :=
          pass_drop ht₂ (hb₁.place.trans hplace₁) hold
        have hpassed₂ : PassedBy w still s₀ (i + 1) t₁ :=
          hpassed₁.next huptime₁ hnodes₁ fun first hfirst => by
            rw [hnodes, List.head?_cons, Option.some.injEq] at hfirst
            exact hfirst ▸ hout.mp hold
        have hpassed₃ := hpassed₂.turns (fun h => hstill h fuel) hb₁
        rw [hpass₃]
        exact ih _ (i + 1) t₃ hplace₃ (hpassed₃.congr huptime₃ hnodes₃) (by omega) (by omega)
      · obtain ⟨t₃, hnodes₃, hpass₃⟩ := pass_dispatch ht₂ (hb₁.place.trans hplace₁) hold
        rw [hpass₃, hb₁.uptime, huptime₁, hpassed₁.uptime]
        refine .dispatched i _ node t₃ ?_ (by omega) hpassed₁.stale (fun j hj n hn => ?_)
          fun h => ?_
        · exact (outOfDate_congr hpassed₁.uptime w node).not.mp (hout.not.mp hold)
        · rw [hnodes₃]
          refine (hb₁.prefixes j).subset ?_
          rw [hnodes₁, if_neg (by omega)]
          exact hpassed₁.kept j hj n hn
        · rw [← hpassed₁.still h i le_rfl, hnodes, List.head?_cons]

end

/-! ## The order of the priorities -/

theorem fresh_mem_tail {w : CommWorld F} {s : CommUnit F} {j : Nat} (h : ¬ s.StartsFresh w j)
    {n : BufferNode} (hn : n ∈ s.nodes j) (hnew : ¬ s.outOfDate w n) :
    n ∈ (s.nodes j).tail := by
  rcases hnodes : s.nodes j with _ | ⟨first, rest⟩
  · simp [hnodes] at hn
  · rw [hnodes] at hn
    rcases List.mem_cons.mp hn with rfl | hrest
    · exact absurd ⟨n, by rw [hnodes, List.head?_cons], hnew⟩ h
    · exact hrest

/-- Each node that is not out of date has a list that starts with such a node, at its own place in
the ring or in front of it. -/
def CommUnit.NoneHidden (w : CommWorld F) (s : CommUnit F) : Prop :=
  ∀ j < w.heads.length, (∃ n ∈ s.nodes j, ¬ s.outOfDate w n) → ∃ i ≤ j, s.StartsFresh w i

/-- Where no such node is hidden behind one that is out of date, the pass keeps the order of the
priorities, whatever the other threads add. Where no node arrives, it does so only then. -/
theorem normal_scan_priority_iff (w : CommWorld F) (others : Nat → List CommTurn)
    (hothers : ∀ n, ∀ turn ∈ others n, turn.Other) (s : CommUnit F) (hplace : s.place = .scan 0)
    (fuel : Nat) (hfuel : 2 * w.heads.length < fuel) :
    ∃ r, s.normalPass w others fuel = some r ∧ (s.NoneHidden w → PriorityOrder w s r) ∧
      ((∀ n, ∀ turn ∈ others n, ¬ turn.Arrival) → PriorityOrder w s r → s.NoneHidden w) := by
  have hresult : PassResult w _ s (s.normalPass w others fuel) :=
    normalPass_result hothers id w.heads.length fuel 0 s hplace .start (Nat.zero_add _) hfuel
  generalize s.normalPass w others fuel = pass at hresult
  cases hresult with
  | dispatched k head node s' fresh inRing stale kept first =>
    refine ⟨_, rfl, fun hno => ⟨fresh, fun j hj n _ hn => ?_⟩, fun hstill hpri j hj => ?_⟩
    · by_contra hnew
      have hj' : j < k := hj
      obtain ⟨i, hij, hstarts⟩ := hno j (by omega) ⟨n, hn, hnew⟩
      exact stale i (by omega) hstarts
    · rintro ⟨n, hn, hnew⟩
      by_cases hjk : j < k
      · have hn' := kept j hjk n (fresh_mem_tail (stale j hjk) hn hnew)
        exact absurd (hpri.2 j hjk n hn' hn) hnew
      · exact ⟨k, by omega, node, first hstill, fresh⟩
  | nothing s' stale =>
    refine ⟨_, rfl, fun hno j hj n hn => ?_, fun _ hpri j hj => ?_⟩
    · by_contra hnew
      obtain ⟨i, hij, hstarts⟩ := hno j hj ⟨n, hn, hnew⟩
      exact stale i (by omega) hstarts
    · rintro ⟨n, hn, hnew⟩
      exact absurd (hpri j hj n hn) hnew

def twoListWorld : CommWorld Unit :=
  ⟨⟨60, -5⟩, [⟨-5, ()⟩, ⟨0, ()⟩], fun _ => 100, fun _ => none⟩

/-- The lists of `twoListWorld` in front of a pass. -/
def beforeScan (first second : List BufferNode) : CommUnit Unit :=
  { CommUnit.init twoListWorld .empty with
    nodes := fun j => if j = 0 then first else if j = 1 then second else []
    place := .scan 0 }

/-- Behind the old node of the first list there is a new one, and the node of the second list is
dispatched. -/
theorem normal_scan_priority_hidden : ∃ r,
    (beforeScan [⟨1, 0⟩, ⟨2, 100⟩] [⟨3, 100⟩]).normalPass twoListWorld (fun _ => []) 5 = some r ∧
      ¬ PriorityOrder twoListWorld (beforeScan [⟨1, 0⟩, ⟨2, 100⟩] [⟨3, 100⟩]) r := by
  refine ⟨_, rfl, fun h => ?_⟩
  have hold := h.2 0 (by decide) ⟨2, 100⟩ (by decide) (by decide)
  exact absurd hold (by decide)

theorem normal_scan_priority_arrival : ∃ r,
    (beforeScan [⟨1, 0⟩] [⟨3, 100⟩]).normalPass twoListWorld (fun _ => [.add 0 ⟨4, 100⟩]) 5 =
      some r ∧ PriorityOrder twoListWorld (beforeScan [⟨1, 0⟩] [⟨3, 100⟩]) r := by
  obtain ⟨r, hr, hno, -⟩ := normal_scan_priority_iff twoListWorld (fun _ => [.add 0 ⟨4, 100⟩])
    (fun _ turn h => by rw [List.mem_singleton.mp h]; trivial)
    (beforeScan [⟨1, 0⟩] [⟨3, 100⟩]) rfl 5 (by decide)
  refine ⟨r, hr, hno fun j hj hfresh => ?_⟩
  obtain rfl | rfl : j = 0 ∨ j = 1 := by
    have : j < 2 := hj
    omega
  · obtain ⟨n, hn, hnew⟩ := hfresh
    rw [List.mem_singleton.mp hn] at hnew
    exact absurd (by decide) hnew
  · exact ⟨1, le_rfl, ⟨3, 100⟩, rfl, by decide⟩

end LBeacon
