import LBeacon.Lib.Bytes
import LBeacon.Lib.CInt
import Mathlib.Data.List.Nodup
import Mathlib.Data.List.Pairwise
import Mathlib.Data.List.Perm.Subperm
import Mathlib.Data.List.Flatten

/-!
# The memory pool

`Mempool.c`: slots of one size in up to ten chunks from `malloc`, with the free slots threaded
through their own first words. Addresses are of 32 bits, and 0 is NULL.
-/

open Bytes CInt

namespace LBeacon

def pointerSize : Nat := 4
def maxExpTime : Nat := 10

/-- `memory` holds the chunks so far, and `alloc_time` is their number. `bytes` is all of
memory, with the chunks in it. -/
structure MemoryPool where
  head : Nat
  memory : List Nat
  size : Int
  slots : Int
  blocks : Int
  usedSlots : Int
  bytes : Memory

inductive PoolCode where
  | success
  | error
  deriving DecidableEq

namespace MemoryPool

/-- The body of the loop in `mp_expand`. -/
def link (p : MemoryPool) (slot : Nat) : MemoryPool :=
  { p with
    head := slot
    bytes := store pointerSize p.bytes slot p.head
    blocks := toInt (p.blocks + 1) }

/-- The loop of `mp_expand`. Every round takes at least a byte, so as many rounds as the chunk
has bytes are enough. -/
def linkSlots (size stop : Int) : Nat → Int → MemoryPool → MemoryPool
  | 0, _, p => p
  | rounds + 1, ite, p =>
    if ite < stop then linkSlots size stop rounds (ite + size) (p.link ite.toNat) else p

/-- `mp->size * mp->slots` -/
def chunkSize (p : MemoryPool) : Int := toInt (p.size * p.slots)

/-- `answer` is what `malloc` returns. -/
def mpExpand (answer : Nat) (p : MemoryPool) : PoolCode × MemoryPool :=
  if p.memory.length = maxExpTime then (.error, p)
  else if answer = 0 then (.error, p)
  else
    let cleared := { p with
      memory := p.memory ++ [answer]
      bytes := fill p.bytes answer (toSize p.chunkSize) 0 }
    (.success, linkSlots p.size (answer + p.chunkSize) p.chunkSize.toNat answer cleared)

/-- Both sizes are `size_t`, and stored as `int`. -/
def mpInit (answer size slots : Nat) (bytes : Memory) : PoolCode × MemoryPool :=
  mpExpand answer ⟨0, [], toInt size, toInt slots, 0, 0, bytes⟩

/-- What `mp_alloc` does once the pool has a free slot. -/
def takeHead (p : MemoryPool) : Nat × MemoryPool :=
  let temp := p.head
  (temp, { p with
    head := load pointerSize p.bytes temp
    usedSlots := toInt (p.usedSlots + 1)
    blocks := toInt (p.blocks - 1)
    bytes := fill p.bytes temp (toSize p.size) 0 })

def mpAlloc (answer : Nat) (p : MemoryPool) : Nat × MemoryPool :=
  if p.head = 0 then
    match mpExpand answer p with
    | (.error, p) => (0, p)
    | (.success, p) => p.takeHead
  else p.takeHead

/-- How far `mem` lies above a chunk's head, by the subtraction of two `int`. -/
def difference (mem base : Nat) : Int := toInt (toInt mem - toInt base)

def closest (p : MemoryPool) (mem : Nat) : Int :=
  p.memory.foldl (fun closest base =>
    if 0 < difference mem base ∧ (difference mem base < closest ∨ closest = -1) then
      difference mem base
    else closest) (-1)

def mpFree (p : MemoryPool) (mem : Nat) : PoolCode × MemoryPool :=
  if (p.closest mem).tmod p.size ≠ 0 then (.error, p)
  else
    let bytes := fill p.bytes mem (toSize p.size) 0
    (.success, { p with
      head := mem
      bytes := store pointerSize bytes mem p.head
      blocks := toInt (p.blocks + 1)
      usedSlots := toInt (p.usedSlots - 1) })

end MemoryPool

/-! ## Slots -/

def chunkSlots (size slots base : Nat) : List Nat := (List.range slots).map fun i => base + i * size

def allSlots (size slots : Nat) (memory : List Nat) : List Nat :=
  memory.flatMap (chunkSlots size slots)

/-- At most ten chunks, disjoint and within the address space. -/
structure Layout (size slots : Nat) (memory : List Nat) : Prop where
  pos : ∀ base ∈ memory, 0 < base
  inside : ∀ base ∈ memory, base + size * slots < 2 ^ 32
  apart : memory.Pairwise (Apart (size * slots))
  count : memory.length ≤ maxExpTime

theorem mem_chunkSlots {size slots base a : Nat} :
    a ∈ chunkSlots size slots base ↔ ∃ i < slots, a = base + i * size := by
  unfold chunkSlots
  simp only [List.mem_map, List.mem_range]
  exact ⟨fun ⟨i, hi, h⟩ => ⟨i, hi, h.symm⟩, fun ⟨i, hi, h⟩ => ⟨i, hi, h.symm⟩⟩

theorem mem_allSlots {size slots : Nat} {memory : List Nat} {a : Nat} :
    a ∈ allSlots size slots memory ↔ ∃ base ∈ memory, ∃ i < slots, a = base + i * size := by
  unfold allSlots
  simp only [List.mem_flatMap, mem_chunkSlots]

theorem slot_end_le (size : Nat) {slots i : Nat} (hi : i < slots) : i * size + size ≤ size * slots := by
  have hle : (i + 1) * size ≤ slots * size := Nat.mul_le_mul_right size hi
  rw [Nat.succ_mul, Nat.mul_comm slots] at hle
  exact hle

theorem chunk_slots_apart {size i j : Nat} (base : Nat) (h : i < j) :
    Apart size (base + i * size) (base + j * size) := by
  have hle : (i + 1) * size ≤ j * size := Nat.mul_le_mul_right size h
  rw [Nat.succ_mul] at hle
  left
  omega

theorem slots_apart {size slots : Nat} {memory : List Nat} (h : Layout size slots memory)
    {a b : Nat} (ha : a ∈ allSlots size slots memory) (hb : b ∈ allSlots size slots memory)
    (hne : a ≠ b) : Apart size a b := by
  obtain ⟨base, hbase, i, hi, rfl⟩ := mem_allSlots.mp ha
  obtain ⟨base', hbase', j, hj, rfl⟩ := mem_allSlots.mp hb
  by_cases hsame : base = base'
  · subst hsame
    rcases Nat.lt_trichotomy i j with hlt | rfl | hgt
    · exact chunk_slots_apart base hlt
    · exact absurd rfl hne
    · exact (chunk_slots_apart base hgt).symm
  · have hi' := slot_end_le size hi
    have hj' := slot_end_le size hj
    have hapart := h.apart.forall hbase hbase' hsame
    unfold Apart at *
    omega

theorem chunkSlots_nodup {size : Nat} (hsize : 0 < size) (slots base : Nat) :
    (chunkSlots size slots base).Nodup := by
  unfold chunkSlots
  refine List.nodup_range.map fun i j h => ?_
  exact Nat.eq_of_mul_eq_mul_right hsize (Nat.add_left_cancel h)

theorem allSlots_nodup {size slots : Nat} {memory : List Nat} (hsize : 0 < size)
    (h : Layout size slots memory) : (allSlots size slots memory).Nodup := by
  unfold allSlots
  rw [List.nodup_flatMap]
  refine ⟨fun base _ => chunkSlots_nodup hsize slots base, h.apart.imp fun {b c} hapart => ?_⟩
  intro a ha ha'
  obtain ⟨i, hi, rfl⟩ := mem_chunkSlots.mp ha
  obtain ⟨j, hj, heq⟩ := mem_chunkSlots.mp ha'
  have hi' := slot_end_le size hi
  have hj' := slot_end_le size hj
  unfold Apart at hapart
  omega

theorem slot_bounds {size slots : Nat} {memory : List Nat} (h : Layout size slots memory) {a : Nat}
    (ha : a ∈ allSlots size slots memory) : 0 < a ∧ a + size < 2 ^ 32 := by
  obtain ⟨base, hbase, i, hi, rfl⟩ := mem_allSlots.mp ha
  have hpos := h.pos base hbase
  have hinside := h.inside base hbase
  have hend := slot_end_le size hi
  omega

theorem allSlots_length_le {size slots : Nat} {memory : List Nat} (hsize : pointerSize ≤ size)
    (h : Layout size slots memory) : (allSlots size slots memory).length ≤ 2 ^ 30 := by
  have hpos : 0 < size := Nat.lt_of_lt_of_le (by decide) hsize
  have hnodup : ((allSlots size slots memory).map (· / 4)).Nodup := by
    refine (allSlots_nodup hpos h).map_on fun a ha b hb heq => ?_
    by_contra hne
    have hapart := (slots_apart h ha hb hne).mono hsize
    unfold Apart pointerSize at hapart
    omega
  have hsubset : (allSlots size slots memory).map (· / 4) ⊆ List.range (2 ^ 30) := by
    intro x hx
    obtain ⟨a, ha, rfl⟩ := List.mem_map.mp hx
    have := slot_bounds h ha
    rw [List.mem_range]
    omega
  have hle := (List.subperm_of_subset hnodup hsubset).length_le
  rwa [List.length_map, List.length_range] at hle

theorem length_chunkSlots (size slots base : Nat) : (chunkSlots size slots base).length = slots := by
  rw [chunkSlots, List.length_map, List.length_range]

theorem length_allSlots (size slots : Nat) (memory : List Nat) :
    (allSlots size slots memory).length = memory.length * slots := by
  induction memory with
  | nil => simp [allSlots]
  | cons base memory ih =>
    unfold allSlots at ih ⊢
    rw [List.flatMap_cons, List.length_append, ih, length_chunkSlots, List.length_cons,
      Nat.succ_mul, Nat.add_comm]

end LBeacon
