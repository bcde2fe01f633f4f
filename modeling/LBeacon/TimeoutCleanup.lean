import LBeacon.Ownership

/-!
# Emergency cleanup

`timeout_cleanup` empties the three lists when the pool is nearly used up. Each pass walks one
ring, and takes its nodes off another one too.
-/

open CText Rings

namespace LBeacon

/-- A round of `timeout_cleanup` in which the usage of the pool has reached its threshold. -/
def Heap.timeoutCleanup (m : Heap) : Heap :=
  ((m.cleanupLists .scanned).cleanupLists .br).cleanupLists .ble

/-- The same calls, as operations. -/
def timeoutOps : List Op := [.cleanup .scanned, .cleanup .br, .cleanup .ble]

theorem timeoutOps_fromScanner : ∀ op ∈ timeoutOps, op.FromScanner := by
  intro op hop
  simp only [timeoutOps, List.mem_cons, List.not_mem_nil, or_false] at hop
  rcases hop with rfl | rfl | rfl <;> trivial

theorem heap_run_timeout (cfg : Config) (w : World) (ops : List Op) :
    Heap.run cfg w (ops ++ timeoutOps) = (Heap.run cfg w ops).timeoutCleanup := by
  unfold Heap.run
  rw [List.foldl_append]
  rfl

theorem run_timeout (cfg : Config) (w : World) (ops : List Op) :
    run cfg w (ops ++ timeoutOps) =
      cleanupLists (cleanupLists (cleanupLists (run cfg w ops) .scanned) .br) .ble := by
  unfold run
  rw [List.foldl_append]
  rfl

/-- Three empty rings, and every slot that was linked in `s` freed once on the way from `m`. -/
structure CleanedUp (m m' : Heap) (s : Tracker) : Prop where
  scannedRing : IsRing m'.links .scanned []
  brRing : IsRing m'.links .br []
  bleRing : IsRing m'.links .ble []
  once : ∃ freed : List Slot, m'.pool.frees = m.pool.frees ++ freed ∧ freed.Nodup ∧
    ∀ a, a ∈ freed ↔ s.Linked a
  pool : m'.pool.outstanding = []
  sound : m'.faults = []

/-- The slots that the three calls free are those that were linked: a slot in two lists is
freed by the first call that meets it, which takes it off the other list. -/
theorem timeout_frees {s : Tracker} (hs : Placed s) :
    let s' := cleanupLists (cleanupLists (cleanupLists s .scanned) .br) .ble
    ∃ freed, Gives s s' freed ∧ (∀ a, ¬ s'.Linked a) ∧ ∀ a, a ∈ freed ↔ s.Linked a := by
  intro s'
  have h₁ := gives_cleanup hs .scanned
  have hs₁ := hs.shrinks h₁.shrinks
  have h₂ := gives_cleanup hs₁ .br
  have hs₂ := hs₁.shrinks h₂.shrinks
  have h₃ := gives_cleanup hs₂ .ble
  have hnone := linked_of_cleanups h₁ h₂ h₃
  have hgives := (h₁.trans h₂).trans h₃
  exact ⟨_, hgives, hnone, fun a => ⟨hgives.shrinks.linked a, fun ha =>
    hgives.exactly a ha (hnone a)⟩⟩

/-- From every reachable state the emergency cleanup empties the rings and the pool. -/
theorem timeout_cleanup_complete (cfg : Config) (w : World) {ops : List Op}
    (hops : ∀ op ∈ ops, op.FromScanner) :
    let m := Heap.run cfg w ops
    Owned m (run cfg w ops) ∧ CleanedUp m m.timeoutCleanup (run cfg w ops) := by
  intro m
  have hplaced := placed_run cfg w ops
  obtain ⟨L, heq, hl⟩ := simulates cfg w ops
  have howned : Owned m (run cfg w ops) := by
    unfold m
    rw [heq]
    exact owned_of_laid hplaced hl (owned_run cfg w hops).2
  refine ⟨howned, ?_⟩
  obtain ⟨freed, hgives, hnone, hfreed⟩ := timeout_frees hplaced
  rw [← run_timeout] at hgives hnone
  -- The state after the calls is reachable too, so its slots are owned: none is left to own.
  have hops' : ∀ op ∈ ops ++ timeoutOps, op.FromScanner := fun op hop =>
    (List.mem_append.mp hop).elim (hops op) (timeoutOps_fromScanner op)
  obtain ⟨L', heq', hl'⟩ := simulates cfg w (ops ++ timeoutOps)
  have hafter := owned_of_laid (placed_run cfg w (ops ++ timeoutOps)) hl' (owned_run cfg w hops').2
  rw [← heq', heap_run_timeout] at hafter
  have hempty (list : ListHead) : (run cfg w (ops ++ timeoutOps)).list list = [] := by
    apply List.eq_nil_iff_forall_not_mem.mpr
    intro a ha
    exact hnone a (linked_iff_lists.mpr ⟨list, ha⟩)
  have hsc : (run cfg w (ops ++ timeoutOps)).scannedList = [] := hempty .scanned
  have hbr : (run cfg w (ops ++ timeoutOps)).brObjectList = [] := hempty .br
  have hble : (run cfg w (ops ++ timeoutOps)).bleObjectList = [] := hempty .ble
  obtain ⟨hscRing, hbrRing, hbleRing, hpool, hlinked, -, -, hsound⟩ := hafter
  rw [hsc] at hscRing
  rw [hbr] at hbrRing
  rw [hble] at hbleRing
  refine ⟨hscRing, hbrRing, hbleRing, ⟨freed, ?_, hgives.shrinks.nodup, hfreed⟩, ?_, hsound⟩
  · rw [hpool, hgives.shrinks.pool, freeAll_frees, howned.pool]
  · apply List.eq_nil_iff_forall_not_mem.mpr
    intro a ha
    exact hnone a ((hlinked a).mp ha)

/-- A phone that is in both BR_EDR lists, one that was uploaded, and a tag. -/
def timeoutTrace : List Op :=
  [.push .brEdr ⟨"AA:BB:CC:DD:EE:01".toList, -60, 0, 0, false, false, []⟩, .poll,
    .push .brEdr ⟨"AA:BB:CC:DD:EE:02".toList, -60, 0, 0, false, false, []⟩,
    .push .ble ⟨"AA:BB:CC:DD:EE:03".toList, -70, 0, 3, true, false, [2, 1, 6]⟩]

theorem timeout_cleanup_complete_three :
    (run ownershipConfig ownershipWorld timeoutTrace).scannedList = [1, 0] ∧
      (run ownershipConfig ownershipWorld timeoutTrace).brObjectList = [1] ∧
      (let m := Heap.run ownershipConfig ownershipWorld timeoutTrace
      Owned m (run ownershipConfig ownershipWorld timeoutTrace) ∧
        CleanedUp m m.timeoutCleanup (run ownershipConfig ownershipWorld timeoutTrace)) := by
  refine ⟨by decide +kernel, by decide +kernel,
    timeout_cleanup_complete ownershipConfig ownershipWorld ?_⟩
  intro op hop
  simp only [timeoutTrace, List.mem_cons, List.not_mem_nil, or_false] at hop
  rcases hop with rfl | rfl | rfl | rfl
  · exact fun h => Bool.noConfusion h
  · trivial
  · exact fun h => Bool.noConfusion h
  · trivial

end LBeacon
