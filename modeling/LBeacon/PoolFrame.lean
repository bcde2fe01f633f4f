import LBeacon.PoolFree

/-!
# What the pool leaves alone

A slot keeps its bytes while others are taken and given back.
-/

open Bytes CInt

namespace LBeacon

variable {size slots : Nat} {p : MemoryPool} {free outstanding : List Nat}

namespace PoolInv

theorem perm_outstanding (h : PoolInv size slots p free outstanding) {outstanding' : List Nat}
    (hperm : outstanding.Perm outstanding') : PoolInv size slots p free outstanding' :=
  { h with
    perm := (hperm.symm.append_left free).trans h.perm
    usedSlots := by rw [h.usedSlots, hperm.length_eq] }

theorem with_bytes (h : PoolInv size slots p free outstanding) {bytes : Memory}
    (hsame : ∀ a ∈ free, SameOn a pointerSize p.bytes bytes) :
    PoolInv size slots { p with bytes } free outstanding :=
  { h with threaded := h.threaded.congr hsame }

theorem apart_free (h : PoolInv size slots p free outstanding) (hs : PoolSizes size slots)
    {a b : Nat} (ha : a ∈ free) (hb : b ∈ outstanding) : Apart size a b := by
  refine h.apart (List.mem_append_left _ ha) (List.mem_append_right _ hb) fun heq => ?_
  exact (List.nodup_append.mp (h.nodup hs)).2.2 a ha b hb heq

theorem nodup_outstanding (h : PoolInv size slots p free outstanding) (hs : PoolSizes size slots) :
    outstanding.Nodup := (List.nodup_append.mp (h.nodup hs)).2.1

theorem write_slot (h : PoolInv size slots p free outstanding) (hs : PoolSizes size slots)
    {a : Nat} (ha : a ∈ outstanding) {bytes : Memory}
    (hsame : ∀ b, Apart size b a → SameOn b size p.bytes bytes) :
    PoolInv size slots { p with bytes } free outstanding := by
  refine h.with_bytes fun b hb => ?_
  have hpointer := hs.pointer
  exact (hsame b (h.apart_free hs hb ha)).mono (Nat.le_refl _) (by omega)

end PoolInv

/-! ## mp_alloc -/

theorem foldl_link_sameOn {added : List Nat} {start length : Nat}
    (hapart : ∀ a ∈ added, start + length ≤ a ∨ a + pointerSize ≤ start) (p : MemoryPool) :
    SameOn start length p.bytes (added.foldl MemoryPool.link p).bytes := by
  induction added generalizing p with
  | nil => exact SameOn.refl _
  | cons a added ih =>
    have hfirst : SameOn start length p.bytes (p.link a).bytes :=
      store_sameOn (hapart a (List.mem_cons_self ..)) _
    exact hfirst.trans (ih (fun b hb => hapart b (List.mem_cons_of_mem _ hb)) (p.link a))

theorem mpExpand_error_iff (p : MemoryPool) (answer : Nat) :
    (p.mpExpand answer).1 = .error ↔ p.memory.length = maxExpTime ∨ answer = 0 := by
  unfold MemoryPool.mpExpand
  by_cases hcount : p.memory.length = maxExpTime
  · simp [hcount]
  · by_cases hnull : answer = 0
    · simp [hnull]
    · simp [hcount, hnull]

theorem mpExpand_sameOn (hs : PoolSizes size slots) (h : PoolInv size slots p free outstanding)
    {answer : Nat} (hok : MallocOk p answer) {b : Nat} (hb : b ∈ outstanding) :
    SameOn b size p.bytes (p.mpExpand answer).2.bytes := by
  unfold MemoryPool.mpExpand
  by_cases hcount : p.memory.length = maxExpTime
  · rw [if_pos hcount]
    exact SameOn.refl _
  by_cases hnull : answer = 0
  · rw [if_neg hcount, if_pos hnull]
    exact SameOn.refl _
  obtain ⟨-, hapart⟩ := hok.resolve_left hnull
  rw [h.toSize_chunkSize hs] at hapart
  have houtside := h.outside hapart (List.mem_append_right _ hb)
  rw [if_neg hcount, if_neg hnull, h.toSize_chunkSize hs]
  simp only [expand_loop hs h]
  have hpointer := hs.pointer
  have hcleared : SameOn b size p.bytes (fill p.bytes answer (size * slots) 0) :=
    fill_sameOn houtside 0
  have hnew : ∀ a ∈ chunkSlots size slots answer, b + size ≤ a ∨ a + pointerSize ≤ b := by
    intro a ha
    have hwithin := chunkSlots_within ha
    omega
  exact hcleared.trans (foldl_link_sameOn hnew { p with
    memory := p.memory ++ [answer], bytes := fill p.bytes answer (size * slots) 0 })

theorem takeHead_sameOn (hs : PoolSizes size slots) {a : Nat}
    (h : PoolInv size slots p (a :: free) outstanding) {b : Nat} (hb : b ∈ outstanding) :
    SameOn b size p.bytes p.takeHead.2.bytes := by
  have hapart := h.apart_free hs (List.mem_cons_self ..) hb
  obtain ⟨hhead, -, -⟩ := h.threaded.pop
  change SameOn b size p.bytes (fill p.bytes p.head (toSize p.size) 0)
  rw [hhead, h.toSize_size hs]
  unfold Apart at hapart
  exact fill_sameOn hapart.symm 0

theorem mpAlloc_sameOn (hs : PoolSizes size slots) (h : PoolInv size slots p free outstanding)
    {answer : Nat} (hok : MallocOk p answer) {b : Nat} (hb : b ∈ outstanding) :
    SameOn b size p.bytes (p.mpAlloc answer).2.bytes := by
  unfold MemoryPool.mpAlloc
  by_cases hhead : p.head = 0
  · rw [if_pos hhead]
    have hexpanded := mpExpand_sameOn hs h hok hb
    rcases mpExpand_cases hs h hok with hexpand | ⟨q, hexpand, hq⟩
    · rw [hexpand]
      exact SameOn.refl _
    · have hsome : (chunkSlots size slots answer).reverse ++ free ≠ [] := by
        rw [ne_eq, ← List.length_eq_zero_iff, List.length_append, List.length_reverse,
          length_chunkSlots]
        have := hs.slots_pos
        omega
      obtain ⟨a, rest, hfree⟩ := List.exists_cons_of_ne_nil hsome
      rw [hexpand] at hexpanded ⊢
      exact hexpanded.trans (takeHead_sameOn hs (hfree ▸ hq) hb)
  · obtain ⟨a, rest, hfree⟩ := List.exists_cons_of_ne_nil
      fun hnil => hhead (h.threaded.eq_nil_iff.mpr hnil)
    rw [if_neg hhead]
    subst hfree
    exact takeHead_sameOn hs h hb

theorem linkSlots_memory (size stop : Int) (rounds : Nat) (ite : Int) (p : MemoryPool) :
    (MemoryPool.linkSlots size stop rounds ite p).memory = p.memory := by
  induction rounds generalizing ite p with
  | zero => rfl
  | succ rounds ih =>
    unfold MemoryPool.linkSlots
    split
    · exact ih (ite + size) (p.link ite.toNat)
    · rfl

theorem mpAlloc_memory (answer : Nat) (p : MemoryPool) :
    p.memory ⊆ (p.mpAlloc answer).2.memory := by
  have hexpand : p.memory ⊆ (p.mpExpand answer).2.memory := by
    unfold MemoryPool.mpExpand
    split
    · exact List.Subset.refl _
    · split
      · exact List.Subset.refl _
      · dsimp only
        rw [linkSlots_memory]
        exact List.subset_append_left _ _
  unfold MemoryPool.mpAlloc
  split
  · split
    next p' heq =>
      rw [heq] at hexpand
      exact hexpand
    next p' heq =>
      rw [heq] at hexpand
      exact hexpand
  · exact List.Subset.refl _

theorem mpAlloc_of_free (h : PoolInv size slots p free outstanding) (hfree : free ≠ [])
    (answer : Nat) : p.mpAlloc answer = p.takeHead := by
  unfold MemoryPool.mpAlloc
  rw [if_neg fun hhead => hfree (h.threaded.eq_nil_iff.mp hhead)]

theorem mpAlloc_null_iff (hs : PoolSizes size slots) (h : PoolInv size slots p free outstanding)
    {answer : Nat} (hok : MallocOk p answer) :
    (p.mpAlloc answer).1 = 0 ↔ free = [] ∧ (p.memory.length = maxExpTime ∨ answer = 0) := by
  have hne {q : MemoryPool} {a : Nat} {rest : List Nat}
      (hq : PoolInv size slots q (a :: rest) outstanding) : q.takeHead.1 ≠ 0 := by
    rw [(takeHead_inv hs hq).1]
    exact Nat.pos_iff_ne_zero.mp (hq.bounds (List.mem_append_left _ (List.mem_cons_self ..))).1
  by_cases hfree : free = []
  · have hhead : p.head = 0 := h.threaded.eq_nil_iff.mpr hfree
    unfold MemoryPool.mpAlloc
    rw [if_pos hhead, ← mpExpand_error_iff]
    rcases mpExpand_cases hs h hok with hexpand | ⟨q, hexpand, hq⟩
    · rw [hexpand]
      exact ⟨fun _ => ⟨hfree, rfl⟩, fun _ => rfl⟩
    · have hsome : (chunkSlots size slots answer).reverse ++ free ≠ [] := by
        rw [ne_eq, ← List.length_eq_zero_iff, List.length_append, List.length_reverse,
          length_chunkSlots]
        have := hs.slots_pos
        omega
      obtain ⟨a, rest, hcons⟩ := List.exists_cons_of_ne_nil hsome
      rw [hexpand]
      exact ⟨fun hnull => absurd hnull (hne (hcons ▸ hq)), fun herror => nomatch herror.2⟩
  · obtain ⟨a, rest, rfl⟩ := List.exists_cons_of_ne_nil hfree
    rw [mpAlloc_of_free h hfree]
    exact ⟨fun hnull => absurd hnull (hne h), fun hnone => absurd hnone.1 hfree⟩

/-! ## mp_free -/

theorem mpFree_sameOn (hs : PoolSizes size slots) (h : PoolInv size slots p free outstanding)
    {a b : Nat} (ha : a ∈ outstanding) (hb : b ∈ outstanding) (hne : b ≠ a) :
    SameOn b size p.bytes (p.mpFree a).2.bytes := by
  unfold MemoryPool.mpFree
  by_cases hrefused : (p.closest a).tmod p.size ≠ 0
  · rw [if_pos hrefused]
    exact SameOn.refl _
  · rw [if_neg hrefused]
    have hapart := h.apart (List.mem_append_right _ hb) (List.mem_append_right _ ha) hne
    have hpointer := hs.pointer
    unfold Apart at hapart
    have hcleared : SameOn b size p.bytes (fill p.bytes a (toSize p.size) 0) := by
      rw [h.toSize_size hs]
      exact fill_sameOn hapart 0
    exact hcleared.trans (store_sameOn (by omega) _)

/-- A slot that is not taken back is the head of a chunk. -/
theorem mem_memory_of_refused (hs : PoolSizes size slots)
    (h : PoolInv size slots p free outstanding) {a : Nat} (ha : a ∈ outstanding)
    (hrefused : (p.mpFree a).1 ≠ .success) : a ∈ p.memory := by
  rw [ne_eq, mpFree_success_iff hs h.size_eq] at hrefused
  obtain ⟨base, hbase, i, hi, rfl⟩ := mem_allSlots.mp (h.mem_slots (List.mem_append_right _ ha))
  by_cases hzero : i = 0
  · subst hzero
    rw [Nat.zero_mul, Nat.add_zero]
    exact hbase
  · have hend := slot_end_le size hi
    have hstep : 0 < i * size := Nat.mul_pos (Nat.pos_of_ne_zero hzero) hs.size_pos
    refine absurd ?_ hrefused
    rw [nearMultiple_inside h.layout hs.fits hbase (by omega) (by have := hs.size_pos; omega),
      Nat.add_sub_cancel_left]
    exact Nat.dvd_mul_left size i

end LBeacon
