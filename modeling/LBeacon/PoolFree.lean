import LBeacon.PoolRuns
import Mathlib.Data.List.Induction

/-!
# Which addresses mp_free takes

`mp_free` looks for the nearest chunk head below the address, and asks whether the distance is
a multiple of the slot size. The head itself does not count, and the chunk's end is not looked
at.
-/

open Bytes CInt

namespace LBeacon

open MemoryPool (difference)

/-- The nearest chunk head below `a` is a multiple of the slot size away. Distances are those
of two `int`. -/
def NearMultiple (size : Nat) (memory : List Nat) (a : Nat) : Prop :=
  ∃ base ∈ memory, 0 < difference a base ∧
    (∀ b ∈ memory, 0 < difference a b → difference a base ≤ difference a b) ∧
    (size : Int) ∣ difference a base

theorem difference_eq (a base : Nat) : difference a base = toInt (a - base) := toInt_sub_toInt a base

theorem closest_cases (p : MemoryPool) (a : Nat) :
    (p.closest a = -1 ∧ ∀ b ∈ p.memory, ¬ 0 < difference a b) ∨
      ∃ base ∈ p.memory, p.closest a = difference a base ∧ 0 < difference a base ∧
        ∀ b ∈ p.memory, 0 < difference a b → difference a base ≤ difference a b := by
  unfold MemoryPool.closest
  induction p.memory using List.reverseRecOn with
  | nil => exact Or.inl ⟨rfl, by simp⟩
  | append_singleton memory c ih =>
    rw [List.foldl_append, List.foldl_cons, List.foldl_nil]
    simp only [List.mem_append, List.mem_singleton]
    rcases ih with ⟨hclosest, hnone⟩ | ⟨base, hbase, hclosest, hpos, hleast⟩
    · rw [hclosest]
      by_cases hc : 0 < difference a c
      · rw [if_pos ⟨hc, Or.inr rfl⟩]
        refine Or.inr ⟨c, Or.inr rfl, rfl, hc, ?_⟩
        rintro b (hb | rfl) hbpos
        · exact absurd hbpos (hnone b hb)
        · exact Int.le_refl _
      · rw [if_neg fun h => hc h.1]
        refine Or.inl ⟨rfl, ?_⟩
        rintro b (hb | rfl)
        · exact hnone b hb
        · exact hc
    · rw [hclosest]
      right
      by_cases hc : 0 < difference a c ∧ difference a c < difference a base
      · rw [if_pos ⟨hc.1, Or.inl hc.2⟩]
        refine ⟨c, Or.inr rfl, rfl, hc.1, ?_⟩
        rintro b (hb | rfl) hbpos
        · have := hleast b hb hbpos
          omega
        · exact Int.le_refl _
      · rw [if_neg (by omega)]
        refine ⟨base, Or.inl hbase, rfl, hpos, ?_⟩
        rintro b (hb | rfl) hbpos
        · exact hleast b hb hbpos
        · omega

variable {size slots : Nat} {p : MemoryPool} {free outstanding : List Nat}

theorem closest_tmod_iff (hs : PoolSizes size slots) (hsize : p.size = size) (a : Nat) :
    (p.closest a).tmod p.size = 0 ↔ NearMultiple size p.memory a := by
  rw [hsize, ← Int.dvd_iff_tmod_eq_zero]
  rcases closest_cases p a with ⟨hclosest, hnone⟩ | ⟨base, hbase, hclosest, hpos, hleast⟩
  · rw [hclosest]
    constructor
    · intro hdvd
      have hle := Int.le_of_dvd (by decide) (Int.dvd_neg.mp hdvd)
      have hpointer := hs.pointer
      unfold pointerSize at hpointer
      omega
    · rintro ⟨base, hbase, hpos, -⟩
      exact absurd hpos (hnone base hbase)
  · rw [hclosest]
    constructor
    · exact fun hdvd => ⟨base, hbase, hpos, hleast, hdvd⟩
    · rintro ⟨base', hbase', hpos', hleast', hdvd⟩
      rwa [Int.le_antisymm (hleast base' hbase' hpos') (hleast' base hbase hpos)]

theorem mpFree_success_iff (hs : PoolSizes size slots) (hsize : p.size = size) (a : Nat) :
    (p.mpFree a).1 = .success ↔ NearMultiple size p.memory a := by
  rw [← closest_tmod_iff hs hsize]
  unfold MemoryPool.mpFree
  split <;> simp_all

theorem mpFree_error_iff (hs : PoolSizes size slots) (hsize : p.size = size) (a : Nat) :
    p.mpFree a = (.error, p) ↔ ¬ NearMultiple size p.memory a := by
  rw [← closest_tmod_iff hs hsize]
  unfold MemoryPool.mpFree
  split <;> simp_all

/-! ## Inside a chunk -/

theorem nearMultiple_inside {memory : List Nat} (h : Layout size slots memory)
    (hfits : size * slots < 2 ^ 31) {base a : Nat} (hbase : base ∈ memory) (hlow : base < a)
    (hhigh : a < base + size * slots) : NearMultiple size memory a ↔ size ∣ a - base := by
  have hdiff : difference a base = ((a - base : Nat) : Int) := by
    rw [difference_eq, toInt_eq (by omega) (by omega)]
    omega
  have hleast : ∀ b ∈ memory, 0 < difference a b → difference a base ≤ difference a b := by
    intro b hb hpos
    rw [hdiff]
    rw [difference_eq] at hpos ⊢
    by_cases hsame : b = base
    · rw [hsame, toInt_eq (by omega) (by omega)]
      omega
    · have hapart := h.apart.forall hb hbase hsame
      have hinside := h.inside b hb
      have hbound := h.inside base hbase
      unfold Apart at hapart
      unfold toInt at hpos ⊢
      omega
  constructor
  · rintro ⟨base', hbase', hpos', hleast', hdvd⟩
    have hpos : 0 < difference a base := by
      rw [hdiff]
      omega
    rw [Int.le_antisymm (hleast' base hbase hpos) (hleast base' hbase' hpos'), hdiff] at hdvd
    exact Int.natCast_dvd_natCast.mp hdvd
  · intro hdvd
    refine ⟨base, hbase, by rw [hdiff]; omega, hleast, ?_⟩
    rw [hdiff]
    exact Int.natCast_dvd_natCast.mpr hdvd

/-- The address is in no chunk. -/
def Outside (size slots : Nat) (memory : List Nat) (a : Nat) : Prop :=
  ∀ base ∈ memory, a < base ∨ base + size * slots ≤ a

/-- An outstanding slot is taken back; what is no slot is refused, and the pool stays as it is. -/
def FreeExact (size slots : Nat) (s : PoolState) (a : Nat) : Prop :=
  (a ∈ s.outstanding → (s.pool.mpFree a).1 = .success) ∧
    (a ∉ allSlots size slots s.pool.memory → s.pool.mpFree a = (.error, s.pool))

theorem freeExact_iff (hs : PoolSizes size slots) {s : PoolState}
    (h : PoolInv size slots s.pool free s.outstanding) (a : Nat) :
    FreeExact size slots s a ↔
      (a ∈ s.outstanding → a ∈ s.pool.memory → NearMultiple size s.pool.memory a) ∧
        (Outside size slots s.pool.memory a → ¬ NearMultiple size s.pool.memory a) := by
  have hpos := hs.size_pos
  unfold FreeExact
  rw [mpFree_success_iff hs h.size_eq, mpFree_error_iff hs h.size_eq]
  constructor
  · rintro ⟨htaken, hrefused⟩
    refine ⟨fun hout _ => htaken hout, fun houtside => hrefused fun hslot => ?_⟩
    obtain ⟨base, hbase, i, hi, rfl⟩ := mem_allSlots.mp hslot
    have hend := slot_end_le size hi
    have := houtside base hbase
    omega
  · rintro ⟨hhead, houtside⟩
    constructor
    · intro hout
      obtain ⟨base, hbase, i, hi, rfl⟩ := mem_allSlots.mp (h.mem_slots (List.mem_append_right _ hout))
      by_cases hzero : i = 0
      · subst hzero
        simp only [Nat.zero_mul, Nat.add_zero] at hhead hout ⊢
        exact hhead hout hbase
      · have hend := slot_end_le size hi
        have hstep : 0 < i * size := Nat.mul_pos (Nat.pos_of_ne_zero hzero) hpos
        rw [nearMultiple_inside h.layout hs.fits hbase (by omega) (by omega), Nat.add_sub_cancel_left]
        exact Nat.dvd_mul_left size i
    · intro hslot
      by_cases hout : Outside size slots s.pool.memory a
      · exact houtside hout
      · simp only [Outside, not_forall, not_or, Nat.not_lt, Nat.not_le, exists_prop] at hout
        obtain ⟨base, hbase, hlow, hhigh⟩ := hout
        rcases Nat.lt_or_eq_of_le hlow with hlt | rfl
        · rw [nearMultiple_inside h.layout hs.fits hbase hlt hhigh]
          rintro ⟨i, hi⟩
          refine hslot (mem_allSlots.mpr ⟨base, hbase, i, ?_, by rw [Nat.mul_comm]; omega⟩)
          by_contra hge
          have := Nat.mul_le_mul_left size (Nat.le_of_not_lt hge)
          omega
        · exact absurd (mem_allSlots.mpr ⟨base, hbase, 0, hs.slots_pos, by omega⟩) hslot

/-- In every state that calls and writes can reach, `mp_free` is exact for an address unless it
is an outstanding chunk head, or lies outside of the chunks, with the wrong distance to the
nearest chunk head below. -/
theorem free_exact_iff (size slots answer : Nat) (bytes : Memory) (events : List PoolEvent)
    (hs : PoolSizes size slots) (hok : MallocOk (blankPool size slots bytes) answer)
    (hlegal : LegalRun (poolInit answer size slots bytes) events) (a : Nat) :
    let s := poolRun (poolInit answer size slots bytes) events
    FreeExact size slots s a ↔
      (a ∈ s.outstanding → a ∈ s.pool.memory → NearMultiple size s.pool.memory a) ∧
        (Outside size slots s.pool.memory a → ¬ NearMultiple size s.pool.memory a) := by
  obtain ⟨free, h⟩ := run_inv hs hlegal (init_inv hs hok)
  exact freeExact_iff hs h a

theorem second_slot_free_exact :
    FreeExact 8 2 (poolRun (poolInit 4096 8 2 fun _ => 255) [.alloc 0, .alloc 0]) 4104 := by
  have hfirst : MallocOk (blankPool 8 2 fun _ => 255) 4096 :=
    Or.inr ⟨by decide +kernel, by simp [blankPool]⟩
  have hmemory : (poolRun (poolInit 4096 8 2 fun _ => 255) [.alloc 0, .alloc 0]).pool.memory =
      [4096] := by decide +kernel
  refine (free_exact_iff 8 2 4096 _ [.alloc 0, .alloc 0] ⟨by decide, by decide, by decide⟩ hfirst
    ⟨Or.inl rfl, Or.inl rfl, trivial⟩ 4104).mpr ⟨fun _ hhead => ?_, fun houtside => ?_⟩
  · rw [hmemory] at hhead
    exact absurd hhead (by decide)
  · have := houtside 4096 (by rw [hmemory]; decide)
    omega

/-- The first slot of the only chunk is never taken back, and the address behind the chunk is. -/
theorem first_slot_refused :
    let s := poolRun (poolInit 4096 8 2 fun _ => 0) [.alloc 0, .alloc 0]
    LegalRun (poolInit 4096 8 2 fun _ => 0) [.alloc 0, .alloc 0] ∧ s.outstanding = [4096, 4104] ∧
      (s.pool.mpFree 4096).1 = .error ∧ (s.pool.mpFree 4112).1 = .success ∧
      4112 ∉ allSlots 8 2 s.pool.memory ∧ ¬ FreeExact 8 2 s 4096 ∧ ¬ FreeExact 8 2 s 4112 := by
  intro s
  have hrefused : (s.pool.mpFree 4096).1 = .error := by decide +kernel
  have htaken : (s.pool.mpFree 4112).1 = .success := by decide +kernel
  have houtstanding : s.outstanding = [4096, 4104] := by decide +kernel
  have hbehind : 4112 ∉ allSlots 8 2 s.pool.memory := by decide +kernel
  refine ⟨⟨Or.inl rfl, Or.inl rfl, trivial⟩, houtstanding, hrefused, htaken, hbehind, fun h => ?_,
    fun h => ?_⟩
  · have := h.1 (by rw [houtstanding]; decide)
    rw [hrefused] at this
    exact absurd this (by decide)
  · have := h.2 hbehind
    rw [this] at htaken
    exact absurd htaken (by decide)

end LBeacon
