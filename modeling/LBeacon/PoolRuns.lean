import LBeacon.Mempool

/-!
# Runs of the memory pool

Any calls of `mp_alloc` and `mp_free` after `mp_init`, with writes to the slots in between.
-/

open Bytes CInt

namespace LBeacon

/-- The slots have room for a pointer, and a chunk's size is an `int`. -/
structure PoolSizes (size slots : Nat) : Prop where
  pointer : pointerSize ≤ size
  slots_pos : 0 < slots
  fits : size * slots < 2 ^ 31

theorem PoolSizes.size_pos {size slots : Nat} (h : PoolSizes size slots) : 0 < size :=
  Nat.lt_of_lt_of_le (by decide) h.pointer

theorem PoolSizes.size_lt {size slots : Nat} (h : PoolSizes size slots) : size < 2 ^ 31 :=
  Nat.lt_of_le_of_lt (Nat.le_mul_of_pos_right size h.slots_pos) h.fits

theorem PoolSizes.slots_lt {size slots : Nat} (h : PoolSizes size slots) : slots < 2 ^ 31 :=
  Nat.lt_of_le_of_lt (Nat.le_mul_of_pos_left slots h.size_pos) h.fits

/-- The free slots hang on `head`, and with the outstanding ones they are all slots. -/
structure PoolInv (size slots : Nat) (p : MemoryPool) (free outstanding : List Nat) : Prop where
  size_eq : p.size = size
  slots_eq : p.slots = slots
  layout : Layout size slots p.memory
  threaded : Threaded pointerSize p.bytes p.head free
  perm : (free ++ outstanding).Perm (allSlots size slots p.memory)
  blocks : p.blocks = free.length
  usedSlots : p.usedSlots = outstanding.length

variable {size slots : Nat} {p : MemoryPool} {free outstanding : List Nat}

namespace PoolInv

theorem nodup (h : PoolInv size slots p free outstanding) (hs : PoolSizes size slots) :
    (free ++ outstanding).Nodup := h.perm.nodup_iff.mpr (allSlots_nodup hs.size_pos h.layout)

theorem mem_slots (h : PoolInv size slots p free outstanding) {a : Nat}
    (ha : a ∈ free ++ outstanding) : a ∈ allSlots size slots p.memory := h.perm.mem_iff.mp ha

theorem counts (h : PoolInv size slots p free outstanding) :
    free.length + outstanding.length = p.memory.length * slots := by
  have := h.perm.length_eq
  rwa [List.length_append, length_allSlots] at this

theorem counts_le (h : PoolInv size slots p free outstanding) (hs : PoolSizes size slots) :
    free.length + outstanding.length ≤ 2 ^ 30 := by
  have hle := allSlots_length_le hs.pointer h.layout
  rwa [length_allSlots, ← h.counts] at hle

theorem bounds (h : PoolInv size slots p free outstanding) {a : Nat}
    (ha : a ∈ free ++ outstanding) : 0 < a ∧ a + size < 2 ^ 32 :=
  slot_bounds h.layout (h.mem_slots ha)

theorem head_lt (h : PoolInv size slots p free outstanding) : p.head < 256 ^ pointerSize := by
  refine h.threaded.head_lt (fun a ha => ?_) (by decide)
  have := h.bounds (List.mem_append_left _ ha)
  unfold pointerSize
  omega

theorem apart (h : PoolInv size slots p free outstanding) {a b : Nat}
    (ha : a ∈ free ++ outstanding) (hb : b ∈ free ++ outstanding) (hne : a ≠ b) : Apart size a b :=
  slots_apart h.layout (h.mem_slots ha) (h.mem_slots hb) hne

theorem toSize_size (h : PoolInv size slots p free outstanding) (hs : PoolSizes size slots) :
    toSize p.size = size := by
  have := hs.size_lt
  rw [h.size_eq, toSize_eq (by omega) (by omega)]
  exact Int.toNat_natCast size

theorem chunkSize_eq (h : PoolInv size slots p free outstanding) (hs : PoolSizes size slots) :
    p.chunkSize = (size * slots : Nat) := by
  have hfits := hs.fits
  unfold MemoryPool.chunkSize
  rw [h.size_eq, h.slots_eq, ← Int.natCast_mul]
  exact toInt_eq (by omega) (by omega)

theorem toSize_chunkSize (h : PoolInv size slots p free outstanding) (hs : PoolSizes size slots) :
    toSize p.chunkSize = size * slots := by
  have hfits := hs.fits
  rw [h.chunkSize_eq hs, toSize_eq (by omega) (by omega)]
  exact Int.toNat_natCast _

end PoolInv

/-! ## mp_expand -/

/-- `malloc` fails, or finds room that no chunk takes. -/
def MallocOk (p : MemoryPool) (answer : Nat) : Prop :=
  answer = 0 ∨ answer + toSize p.chunkSize < 2 ^ 32 ∧
    ∀ base ∈ p.memory, Apart (toSize p.chunkSize) base answer

theorem linkSlots_eq (hsize : 0 < size) (base : Nat) {rounds i : Nat} (hi : i ≤ slots)
    (hrounds : slots - i ≤ rounds) (p : MemoryPool) :
    MemoryPool.linkSlots size ((base + size * slots : Nat) : Int) rounds
        ((base + i * size : Nat) : Int) p =
      ((List.range' i (slots - i)).map fun j => base + j * size).foldl MemoryPool.link p := by
  induction rounds generalizing i p with
  | zero =>
    rw [Nat.le_zero.mp hrounds]
    rfl
  | succ rounds ih =>
    unfold MemoryPool.linkSlots
    rcases Nat.lt_or_ge i slots with hlt | hge
    · have hend := slot_end_le size hlt
      have hnext : ((base + i * size : Nat) : Int) + size = ((base + (i + 1) * size : Nat) : Int) := by
        rw [Nat.succ_mul]
        omega
      have hcount : slots - i = (slots - (i + 1)) + 1 := by omega
      rw [if_pos (by omega), hnext, ih hlt (by omega), hcount, List.range'_succ, List.map_cons,
        List.foldl_cons, Int.toNat_natCast]
    · have heq : i = slots := Nat.le_antisymm hi hge
      subst heq
      rw [if_neg (by rw [Nat.mul_comm]; exact Int.lt_irrefl _), Nat.sub_self]
      rfl

theorem foldl_link_fields (slots : List Nat) (p : MemoryPool) :
    (slots.foldl MemoryPool.link p).memory = p.memory ∧
      (slots.foldl MemoryPool.link p).size = p.size ∧
      (slots.foldl MemoryPool.link p).slots = p.slots ∧
      (slots.foldl MemoryPool.link p).usedSlots = p.usedSlots := by
  induction slots generalizing p with
  | nil => exact ⟨rfl, rfl, rfl, rfl⟩
  | cons slot slots ih => exact ih (p.link slot)

theorem foldl_link_threaded {added : List Nat} {p : MemoryPool} {free : List Nat}
    (h : Threaded pointerSize p.bytes p.head free) (hhead : p.head < 256 ^ pointerSize)
    (hadded : ∀ a ∈ added, 0 < a ∧ a < 2 ^ 32) (hapart : added.Pairwise (Apart pointerSize))
    (hfree : ∀ a ∈ added, ∀ b ∈ free, Apart pointerSize a b) (hblocks : 0 ≤ p.blocks)
    (hroom : p.blocks + added.length < 2 ^ 31) :
    Threaded pointerSize (added.foldl MemoryPool.link p).bytes
        (added.foldl MemoryPool.link p).head (added.reverse ++ free) ∧
      (added.foldl MemoryPool.link p).blocks = p.blocks + added.length := by
  induction added generalizing p free with
  | nil => exact ⟨h, by simp⟩
  | cons a added ih =>
    rw [List.length_cons, Int.natCast_add, Int.natCast_one] at hroom
    rw [List.pairwise_cons] at hapart
    have ha := hadded a (List.mem_cons_self ..)
    have hnext : Threaded pointerSize (p.link a).bytes (p.link a).head (a :: free) :=
      h.push (Nat.pos_iff_ne_zero.mp ha.1) hhead (hfree a (List.mem_cons_self ..))
    have hcount : (p.link a).blocks = p.blocks + 1 := toInt_eq (by omega) (by omega)
    have hrest := ih hnext ha.2 (fun b hb => hadded b (List.mem_cons_of_mem _ hb)) hapart.2
      (fun b hb c hc => ?_) (by omega) (by omega)
    · rw [List.foldl_cons, List.reverse_cons, List.append_assoc, List.length_cons, Int.natCast_add,
        Int.natCast_one]
      exact ⟨hrest.1, by rw [hrest.2, hcount]; omega⟩
    · rcases List.mem_cons.mp hc with rfl | hc
      · exact (hapart.1 b hb).symm
      · exact hfree b (List.mem_cons_of_mem _ hb) c hc

theorem layout_append {memory : List Nat} (h : Layout size slots memory) {answer : Nat}
    (hpos : answer ≠ 0) (hinside : answer + size * slots < 2 ^ 32)
    (hapart : ∀ base ∈ memory, Apart (size * slots) base answer)
    (hcount : memory.length ≠ maxExpTime) : Layout size slots (memory ++ [answer]) where
  pos := by
    simp only [List.mem_append, List.mem_singleton]
    rintro base (hbase | rfl)
    · exact h.pos base hbase
    · exact Nat.pos_of_ne_zero hpos
  inside := by
    simp only [List.mem_append, List.mem_singleton]
    rintro base (hbase | rfl)
    · exact h.inside base hbase
    · exact hinside
  apart := by
    rw [List.pairwise_append]
    refine ⟨h.apart, List.pairwise_singleton _ _, fun base hbase b hb => ?_⟩
    rw [List.mem_singleton] at hb
    exact hb ▸ hapart base hbase
  count := by
    have := h.count
    rw [List.length_append, List.length_singleton]
    omega

theorem expand_loop (hs : PoolSizes size slots) (h : PoolInv size slots p free outstanding)
    (answer : Nat) (q : MemoryPool) :
    MemoryPool.linkSlots p.size (answer + p.chunkSize) p.chunkSize.toNat answer q =
      (chunkSlots size slots answer).foldl MemoryPool.link q := by
  have hstop : ((answer : Int) + p.chunkSize) = ((answer + size * slots : Nat) : Int) := by
    rw [h.chunkSize_eq hs]
    omega
  have hfirst : (answer : Int) = ((answer + 0 * size : Nat) : Int) := by
    rw [Nat.zero_mul, Nat.add_zero]
  have hrounds : slots - 0 ≤ p.chunkSize.toNat := by
    rw [h.chunkSize_eq hs, Int.toNat_natCast]
    exact Nat.le_mul_of_pos_left slots hs.size_pos
  rw [hstop, h.size_eq, hfirst, linkSlots_eq hs.size_pos answer (Nat.zero_le _) hrounds,
    Nat.sub_zero, ← List.range_eq_range']
  rfl

theorem PoolInv.outside (h : PoolInv size slots p free outstanding) {answer : Nat}
    (hapart : ∀ base ∈ p.memory, Apart (size * slots) base answer) {a : Nat}
    (ha : a ∈ free ++ outstanding) : a + size ≤ answer ∨ answer + size * slots ≤ a := by
  obtain ⟨base, hbase, i, hi, rfl⟩ := mem_allSlots.mp (h.mem_slots ha)
  have hend := slot_end_le size hi
  have := hapart base hbase
  unfold Apart at this
  omega

theorem chunkSlots_within {answer a : Nat} (ha : a ∈ chunkSlots size slots answer) :
    answer ≤ a ∧ a + size ≤ answer + size * slots := by
  obtain ⟨i, hi, rfl⟩ := mem_chunkSlots.mp ha
  have hend := slot_end_le size hi
  omega

theorem added_inv (hs : PoolSizes size slots) (h : PoolInv size slots p free outstanding)
    {answer : Nat} (hlayout : Layout size slots (p.memory ++ [answer]))
    (hapart : ∀ base ∈ p.memory, Apart (size * slots) base answer) :
    let cleared : MemoryPool :=
      { p with memory := p.memory ++ [answer], bytes := fill p.bytes answer (size * slots) 0 }
    PoolInv size slots ((chunkSlots size slots answer).foldl MemoryPool.link cleared)
      ((chunkSlots size slots answer).reverse ++ free) outstanding := by
  intro cleared
  have hpointer := hs.pointer
  have hnew {a : Nat} (ha : a ∈ chunkSlots size slots answer) :
      a ∈ allSlots size slots (p.memory ++ [answer]) := by
    obtain ⟨i, hi, rfl⟩ := mem_chunkSlots.mp ha
    exact mem_allSlots.mpr ⟨answer, by simp, i, hi, rfl⟩
  have hperm : ((chunkSlots size slots answer).reverse ++ free ++ outstanding).Perm
      (allSlots size slots (p.memory ++ [answer])) := by
    unfold allSlots
    rw [List.flatMap_append, List.flatMap_singleton, List.append_assoc]
    exact ((List.reverse_perm _).append h.perm).trans List.perm_append_comm
  have hlen := allSlots_length_le hs.pointer hlayout
  rw [← hperm.length_eq] at hlen
  simp only [List.length_append, List.length_reverse] at hlen
  have hcleared : Threaded pointerSize cleared.bytes cleared.head free := by
    refine h.threaded.congr fun b hb => fill_sameOn ?_ 0
    have := h.outside hapart (List.mem_append_left _ hb)
    omega
  have hchunk : (chunkSlots size slots answer).Pairwise (Apart pointerSize) := by
    refine (chunkSlots_nodup hs.size_pos slots answer).imp_of_mem fun ha hb hne => ?_
    exact (slots_apart hlayout (hnew ha) (hnew hb) hne).mono hs.pointer
  have hold : ∀ a ∈ chunkSlots size slots answer, ∀ b ∈ free, Apart pointerSize a b := by
    intro a ha b hb
    have hwithin := chunkSlots_within ha
    have houtside := h.outside hapart (List.mem_append_left _ hb)
    unfold Apart
    omega
  have hbound : ∀ a ∈ chunkSlots size slots answer, 0 < a ∧ a < 2 ^ 32 := by
    intro a ha
    have := slot_bounds hlayout (hnew ha)
    omega
  have hblocks : cleared.blocks = free.length := h.blocks
  obtain ⟨hthreaded, hcount⟩ := foldl_link_threaded hcleared h.head_lt hbound hchunk hold
    (by omega) (by omega)
  obtain ⟨hmemory, hsize, hslots, hused⟩ :=
    foldl_link_fields (chunkSlots size slots answer) cleared
  exact
    { size_eq := hsize.trans h.size_eq
      slots_eq := hslots.trans h.slots_eq
      layout := hmemory ▸ hlayout
      threaded := hthreaded
      perm := hmemory ▸ hperm
      blocks := by
        rw [hcount, hblocks, List.length_append, List.length_reverse]
        omega
      usedSlots := hused.trans h.usedSlots }

theorem mpExpand_cases (hs : PoolSizes size slots) (h : PoolInv size slots p free outstanding)
    {answer : Nat} (hok : MallocOk p answer) :
    p.mpExpand answer = (.error, p) ∨
      ∃ q, p.mpExpand answer = (.success, q) ∧
        PoolInv size slots q ((chunkSlots size slots answer).reverse ++ free) outstanding := by
  unfold MemoryPool.mpExpand
  by_cases hcount : p.memory.length = maxExpTime
  · exact Or.inl (if_pos hcount)
  by_cases hnull : answer = 0
  · rw [if_neg hcount]
    exact Or.inl (if_pos hnull)
  right
  obtain ⟨hinside, hapart⟩ := hok.resolve_left hnull
  rw [h.toSize_chunkSize hs] at hinside hapart
  have hlayout := layout_append h.layout hnull hinside hapart hcount
  rw [if_neg hcount, if_neg hnull, h.toSize_chunkSize hs]
  simp only [expand_loop hs h]
  exact ⟨_, rfl, added_inv hs h hlayout hapart⟩

/-! ## mp_alloc -/

theorem takeHead_inv (hs : PoolSizes size slots) {a : Nat}
    (h : PoolInv size slots p (a :: free) outstanding) :
    p.takeHead.1 = a ∧ (∀ i < size, p.takeHead.2.bytes (a + i) = 0) ∧
      p.takeHead.2.memory = p.memory ∧
      PoolInv size slots p.takeHead.2 free (a :: outstanding) := by
  obtain ⟨hhead, -, hrest⟩ := h.threaded.pop
  have hcounts := h.counts_le hs
  rw [List.length_cons] at hcounts
  have hsize := h.toSize_size hs
  have hblocks := h.blocks
  have hused := h.usedSlots
  rw [List.length_cons, Int.natCast_add, Int.natCast_one] at hblocks
  have hnodup := h.nodup hs
  rw [List.cons_append, List.nodup_cons] at hnodup
  refine ⟨hhead, fun i hi => ?_, rfl, ?_⟩
  · unfold MemoryPool.takeHead
    rw [hhead, hsize]
    exact fill_apply 0 (Nat.le_add_right a i) (by omega)
  · refine
      { size_eq := h.size_eq
        slots_eq := h.slots_eq
        layout := h.layout
        threaded := ?_
        perm := List.perm_middle.trans h.perm
        blocks := ?_
        usedSlots := ?_ }
    · refine hrest.congr fun b hb => ?_
      change SameOn b pointerSize p.bytes (fill p.bytes p.head (toSize p.size) 0)
      rw [hhead, hsize]
      have hne : a ≠ b := fun heq => hnodup.1 (List.mem_append_left _ (heq ▸ hb))
      have hapart := h.apart (List.mem_cons_self ..)
        (List.mem_append_left _ (List.mem_cons_of_mem a hb)) hne
      have hpointer := hs.pointer
      unfold Apart at hapart
      exact fill_sameOn (by omega) 0
    · change toInt (p.blocks - 1) = _
      rw [hblocks, toInt_eq (by omega) (by omega)]
      omega
    · change toInt (p.usedSlots + 1) = _
      rw [hused, toInt_eq (by omega) (by omega), List.length_cons]
      omega

theorem alloc_cases (hs : PoolSizes size slots) (h : PoolInv size slots p free outstanding)
    {answer : Nat} (hok : MallocOk p answer) :
    p.mpAlloc answer = (0, p) ∨
      ∃ a q free', p.mpAlloc answer = (a, q) ∧ a ∉ outstanding ∧
        a ∈ allSlots size slots q.memory ∧ (∀ i < size, q.bytes (a + i) = 0) ∧
        PoolInv size slots q free' (a :: outstanding) := by
  have htake {q : MemoryPool} {a : Nat} {rest : List Nat}
      (hq : PoolInv size slots q (a :: rest) outstanding) :
      q.takeHead.1 ∉ outstanding ∧ q.takeHead.1 ∈ allSlots size slots q.takeHead.2.memory ∧
        (∀ i < size, q.takeHead.2.bytes (q.takeHead.1 + i) = 0) ∧
        PoolInv size slots q.takeHead.2 rest (q.takeHead.1 :: outstanding) := by
    obtain ⟨ha, hzero, hmemory, hinv⟩ := takeHead_inv hs hq
    have hnodup := hq.nodup hs
    rw [List.cons_append, List.nodup_cons] at hnodup
    rw [ha, hmemory]
    exact ⟨fun hmem => hnodup.1 (List.mem_append_right _ hmem),
      hq.mem_slots (List.mem_cons_self ..), hzero, hinv⟩
  unfold MemoryPool.mpAlloc
  by_cases hhead : p.head = 0
  · rw [if_pos hhead]
    rcases mpExpand_cases hs h hok with hexpand | ⟨q, hexpand, hq⟩
    · rw [hexpand]
      exact Or.inl rfl
    · have hsome : (chunkSlots size slots answer).reverse ++ free ≠ [] := by
        rw [ne_eq, ← List.length_eq_zero_iff, List.length_append, List.length_reverse,
          length_chunkSlots]
        have := hs.slots_pos
        omega
      obtain ⟨a, rest, hfree⟩ := List.exists_cons_of_ne_nil hsome
      rw [hexpand]
      exact Or.inr ⟨_, _, rest, rfl, htake (hfree ▸ hq)⟩
  · obtain ⟨a, rest, hfree⟩ := List.exists_cons_of_ne_nil
      fun hnil => hhead (h.threaded.eq_nil_iff.mpr hnil)
    rw [if_neg hhead]
    subst hfree
    exact Or.inr ⟨_, _, rest, rfl, htake h⟩

/-! ## mp_free -/

theorem free_cases (hs : PoolSizes size slots) (h : PoolInv size slots p free outstanding)
    {a : Nat} (ha : a ∈ outstanding) :
    p.mpFree a = (.error, p) ∨
      ∃ q, p.mpFree a = (.success, q) ∧
        PoolInv size slots q (a :: free) (outstanding.erase a) := by
  unfold MemoryPool.mpFree
  by_cases hrefused : (p.closest a).tmod p.size ≠ 0
  · exact Or.inl (if_pos hrefused)
  rw [if_neg hrefused]
  right
  refine ⟨_, rfl, ?_⟩
  have hmem : a ∈ free ++ outstanding := List.mem_append_right _ ha
  have hpos : a ≠ 0 := Nat.pos_iff_ne_zero.mp (h.bounds hmem).1
  have hcounts := h.counts_le hs
  have hblocks := h.blocks
  have hused := h.usedSlots
  have houtstanding := List.length_pos_of_mem ha
  have hapart {b : Nat} (hb : b ∈ free) : Apart size a b := by
    refine h.apart hmem (List.mem_append_left _ hb) fun heq => ?_
    have := h.nodup hs
    rw [List.nodup_append] at this
    exact this.2.2 b hb a ha heq.symm
  have hfilled : Threaded pointerSize (fill p.bytes a (toSize p.size) 0) p.head free := by
    refine h.threaded.congr fun b hb => ?_
    have := hapart hb
    have hpointer := hs.pointer
    unfold Apart at this
    rw [h.toSize_size hs]
    exact fill_sameOn (by omega) 0
  exact
    { size_eq := h.size_eq
      slots_eq := h.slots_eq
      layout := h.layout
      threaded := hfilled.push hpos h.head_lt fun b hb => (hapart hb).mono hs.pointer
      perm := by
        have hmoved : (a :: free ++ outstanding.erase a).Perm (free ++ outstanding) :=
          List.perm_middle.symm.trans ((List.perm_cons_erase ha).symm.append_left free)
        exact hmoved.trans h.perm
      blocks := by
        change toInt (p.blocks + 1) = _
        rw [hblocks, toInt_eq (by omega) (by omega), List.length_cons]
        omega
      usedSlots := by
        change toInt (p.usedSlots - 1) = _
        rw [hused, toInt_eq (by omega) (by omega), List.length_erase_of_mem ha]
        omega }

/-! ## Runs -/

/-- A call, or a write by the program to memory that is its own. -/
inductive PoolEvent where
  | alloc (answer : Nat)
  | free (mem : Nat)
  | write (address : Nat) (byte : UInt8)

/-- `outstanding` are the slots that were handed out and not freed successfully since. -/
structure PoolState where
  pool : MemoryPool
  outstanding : List Nat

def poolStep (s : PoolState) : PoolEvent → PoolState
  | .alloc answer =>
    let r := s.pool.mpAlloc answer
    ⟨r.2, if r.1 = 0 then s.outstanding else r.1 :: s.outstanding⟩
  | .free mem =>
    let r := s.pool.mpFree mem
    ⟨r.2, if r.1 = .success then s.outstanding.erase mem else s.outstanding⟩
  | .write address byte => { s with pool.bytes := fill s.pool.bytes address 1 byte }

/-- `malloc` gives fresh blocks, only outstanding slots are freed, and writes stay within the
outstanding slots or outside of the chunks. -/
def PoolEvent.Legal (s : PoolState) : PoolEvent → Prop
  | .alloc answer => MallocOk s.pool answer
  | .free mem => mem ∈ s.outstanding
  | .write address _ =>
    (∃ slot ∈ s.outstanding, slot ≤ address ∧ address < slot + toSize s.pool.size) ∨
      ∀ base ∈ s.pool.memory, address < base ∨ base + toSize s.pool.chunkSize ≤ address

def LegalRun : PoolState → List PoolEvent → Prop
  | _, [] => True
  | s, event :: events => event.Legal s ∧ LegalRun (poolStep s event) events

def poolRun (s : PoolState) (events : List PoolEvent) : PoolState := events.foldl poolStep s

/-- The pool that `mp_init` makes, in any memory. -/
def poolInit (answer size slots : Nat) (bytes : Memory) : PoolState :=
  ⟨(MemoryPool.mpInit answer size slots bytes).2, []⟩

/-- The pool before `mp_init` asks for its first chunk. -/
def blankPool (size slots : Nat) (bytes : Memory) : MemoryPool :=
  ⟨0, [], toInt size, toInt slots, 0, 0, bytes⟩

theorem blank_inv (hs : PoolSizes size slots) (bytes : Memory) :
    PoolInv size slots (blankPool size slots bytes) [] [] := by
  have hsize := hs.size_lt
  have hslots := hs.slots_lt
  exact
    { size_eq := toInt_eq (by omega) (by omega)
      slots_eq := toInt_eq (by omega) (by omega)
      layout := ⟨by simp [blankPool], by simp [blankPool], .nil, Nat.zero_le _⟩
      threaded := rfl
      perm := .nil
      blocks := rfl
      usedSlots := rfl }

theorem init_inv (hs : PoolSizes size slots) {bytes : Memory} {answer : Nat}
    (hok : MallocOk (blankPool size slots bytes) answer) :
    ∃ free, PoolInv size slots (poolInit answer size slots bytes).pool free
      (poolInit answer size slots bytes).outstanding := by
  have hblank := blank_inv hs bytes
  unfold poolInit
  change ∃ free, PoolInv size slots ((blankPool size slots bytes).mpExpand answer).2 free []
  rcases mpExpand_cases hs hblank hok with hexpand | ⟨q, hexpand, hq⟩
  · rw [hexpand]
    exact ⟨[], hblank⟩
  · rw [hexpand]
    exact ⟨_, hq⟩

theorem write_inv (hs : PoolSizes size slots) (h : PoolInv size slots p free outstanding)
    {address : Nat} {byte : UInt8}
    (hlegal : (PoolEvent.write address byte).Legal ⟨p, outstanding⟩) :
    PoolInv size slots { p with bytes := fill p.bytes address 1 byte } free outstanding := by
  refine { h with threaded := h.threaded.congr fun b hb => fill_sameOn ?_ byte }
  have hpointer := hs.pointer
  rcases hlegal with ⟨slot, hslot, hlow, hhigh⟩ | houtside
  · rw [h.toSize_size hs] at hhigh
    have hapart : Apart size slot b := by
      refine h.apart (List.mem_append_right _ hslot) (List.mem_append_left _ hb) fun heq => ?_
      have := h.nodup hs
      rw [List.nodup_append] at this
      exact this.2.2 b hb slot hslot heq.symm
    unfold Apart at hapart
    omega
  · obtain ⟨base, hbase, i, hi, rfl⟩ := mem_allSlots.mp (h.mem_slots (List.mem_append_left _ hb))
    have hend := slot_end_le size hi
    have := houtside base hbase
    rw [h.toSize_chunkSize hs] at this
    omega

theorem step_inv (hs : PoolSizes size slots) {s : PoolState} {event : PoolEvent}
    (hlegal : event.Legal s) (h : ∃ free, PoolInv size slots s.pool free s.outstanding) :
    ∃ free, PoolInv size slots (poolStep s event).pool free (poolStep s event).outstanding := by
  obtain ⟨free, h⟩ := h
  cases event with
  | alloc answer =>
    rcases alloc_cases hs h hlegal with halloc | ⟨a, q, free', halloc, -, -, -, hq⟩
    · simp only [poolStep, halloc]
      exact ⟨free, h⟩
    · have hpos : a ≠ 0 := Nat.pos_iff_ne_zero.mp (hq.bounds (by simp)).1
      simp only [poolStep, halloc, if_neg hpos]
      exact ⟨free', hq⟩
  | free mem =>
    rcases free_cases hs h hlegal with hfree | ⟨q, hfree, hq⟩
    · simp only [poolStep, hfree]
      exact ⟨free, h⟩
    · simp only [poolStep, hfree]
      exact ⟨_, hq⟩
  | write address byte => exact ⟨free, write_inv hs h hlegal⟩

theorem run_inv (hs : PoolSizes size slots) {s : PoolState} {events : List PoolEvent}
    (hlegal : LegalRun s events) (h : ∃ free, PoolInv size slots s.pool free s.outstanding) :
    ∃ free, PoolInv size slots (poolRun s events).pool free (poolRun s events).outstanding := by
  induction events generalizing s with
  | nil => exact h
  | cons event events ih => exact ih hlegal.2 (step_inv hs hlegal.1 h)

/-! ## The free list in every reachable state -/

/-- The free list ends, repeats no slot and shares none with the program, and the counters
count it. -/
def PoolOk (size slots : Nat) (s : PoolState) : Prop :=
  (∃ free : List Nat, Threaded pointerSize s.pool.bytes s.pool.head free ∧ free.Nodup ∧
    (∀ a ∈ free, a ∈ allSlots size slots s.pool.memory) ∧ free.Disjoint s.outstanding ∧
    s.pool.blocks = free.length) ∧
  s.pool.blocks + s.pool.usedSlots = (s.pool.memory.length * slots : Nat) ∧
  s.pool.memory.length ≤ maxExpTime

/-- The next `mp_alloc` gives a cleared slot that is not in use, or NULL and changes nothing. -/
def AllocOk (size slots : Nat) (s : PoolState) : Prop :=
  ∀ answer, MallocOk s.pool answer →
    let r := s.pool.mpAlloc answer
    r = (0, s.pool) ∨ r.1 ≠ 0 ∧ r.1 ∉ s.outstanding ∧ r.1 ∈ allSlots size slots r.2.memory ∧
      ∀ i < size, r.2.bytes (r.1 + i) = 0

theorem PoolInv.ok (hs : PoolSizes size slots) {s : PoolState}
    (h : PoolInv size slots s.pool free s.outstanding) : PoolOk size slots s := by
  have hnodup := List.nodup_append.mp (h.nodup hs)
  refine ⟨⟨free, h.threaded, hnodup.1, fun a ha => h.mem_slots (List.mem_append_left _ ha),
    fun a ha ha' => hnodup.2.2 a ha a ha' rfl, h.blocks⟩, ?_, h.layout.count⟩
  rw [h.blocks, h.usedSlots, ← h.counts]
  omega

theorem PoolInv.allocOk (hs : PoolSizes size slots) {s : PoolState}
    (h : PoolInv size slots s.pool free s.outstanding) : AllocOk size slots s := by
  intro answer hok r
  rcases alloc_cases hs h hok with halloc | ⟨a, q, free', halloc, hnew, hslot, hzero, hq⟩
  · exact Or.inl halloc
  · have hpos : a ≠ 0 := Nat.pos_iff_ne_zero.mp (hq.bounds (by simp)).1
    unfold r
    rw [halloc]
    exact Or.inr ⟨hpos, hnew, hslot, hzero⟩

/-- Where a chunk's size is an `int`, in every state that calls and writes can reach. -/
theorem pool_ok_of_fits (size slots answer : Nat) (bytes : Memory) (events : List PoolEvent)
    (hs : PoolSizes size slots) (hok : MallocOk (blankPool size slots bytes) answer)
    (hlegal : LegalRun (poolInit answer size slots bytes) events) :
    PoolOk size slots (poolRun (poolInit answer size slots bytes) events) ∧
      AllocOk size slots (poolRun (poolInit answer size slots bytes) events) := by
  obtain ⟨free, h⟩ := run_inv hs hlegal (init_inv hs hok)
  exact ⟨h.ok hs, h.allocOk hs⟩

theorem pool_ok_of_two_slots :
    let events : List PoolEvent := [.alloc 0, .alloc 0, .write 4100 7, .free 4104, .alloc 0]
    let s := poolRun (poolInit 4096 8 2 fun _ => 255) events
    PoolOk 8 2 s ∧ AllocOk 8 2 s := by
  intro events s
  have hfirst : MallocOk (blankPool 8 2 fun _ => 255) 4096 :=
    Or.inr ⟨by decide +kernel, by simp [blankPool]⟩
  have hwrite : (PoolEvent.write 4100 7).Legal
      (poolRun (poolInit 4096 8 2 fun _ => 255) [.alloc 0, .alloc 0]) :=
    Or.inl ⟨4096, by decide +kernel, by decide, by decide +kernel⟩
  refine pool_ok_of_fits 8 2 4096 _ events ⟨by decide, by decide, by decide⟩ hfirst ?_
  exact ⟨Or.inl rfl, Or.inl rfl, hwrite, by unfold PoolEvent.Legal; decide +kernel, Or.inl rfl,
    trivial⟩

/-- `size * slots` wraps to 0: the chunk has no slot, and counts as a chunk of 65536 slots. -/
theorem oversized_chunk_has_no_slot :
    let s := poolInit 4096 65536 65536 fun _ => 0
    MallocOk (blankPool 65536 65536 fun _ => 0) 4096 ∧ s.pool.memory = [4096] ∧
      s.pool.blocks = 0 ∧ s.pool.usedSlots = 0 ∧ ¬ PoolOk 65536 65536 s := by
  intro s
  have hmemory : s.pool.memory = [4096] := by decide +kernel
  have hblocks : s.pool.blocks = 0 := by decide +kernel
  have hused : s.pool.usedSlots = 0 := by decide +kernel
  refine ⟨Or.inr ⟨by decide +kernel, by simp [blankPool]⟩, hmemory, hblocks, hused, ?_⟩
  rintro ⟨-, hcount, -⟩
  rw [hmemory, hblocks, hused] at hcount
  exact absurd hcount (by decide)

end LBeacon
