import LBeacon.Mempool

/-!
# The job queue

`struct job` in its slot, and the links of `jobqueue_push` and `jobqueue_pull`. `prev` leads from
a job to the one that was pushed after it.
-/

open Bytes CInt

namespace LBeacon

/-! ## Jobs -/

/-- The arguments of `thpool_add_work`. -/
structure Work where
  function : UInt32
  arg : UInt32
  priority : Int32
  deriving DecidableEq

/-- `sizeof(job)` -/
def jobSize : Nat := 16

/-- `newjob -> function`, `newjob -> arg` and `newjob -> priority` are assigned. -/
def Work.store (w : Work) (bytes : Memory) (newjob : Nat) : Memory :=
  let bytes := Bytes.store pointerSize bytes (newjob + 4) w.function.toNat
  let bytes := Bytes.store pointerSize bytes (newjob + 8) w.arg.toNat
  Bytes.store pointerSize bytes (newjob + 12) w.priority.toUInt32.toNat

def Work.load (bytes : Memory) (job : Nat) : Work where
  function := .ofNat (Bytes.load pointerSize bytes (job + 4))
  arg := .ofNat (Bytes.load pointerSize bytes (job + 8))
  priority := (UInt32.ofNat (Bytes.load pointerSize bytes (job + 12))).toInt32

/-- Behind `prev`. -/
def SameWork (bytes bytes' : Memory) (job : Nat) : Prop := SameOn (job + 4) 12 bytes bytes'

theorem Work.load_congr {bytes bytes' : Memory} {job : Nat} (h : SameWork bytes bytes' job) :
    Work.load bytes job = Work.load bytes' job := by
  unfold SameWork at h
  have hword (offset : Nat) (hlow : 4 ≤ offset) (hhigh : offset ≤ 12) :
      Bytes.load pointerSize bytes (job + offset) = Bytes.load pointerSize bytes' (job + offset) :=
    Bytes.load_congr (h.mono (by omega) (by unfold pointerSize; omega))
  unfold Work.load
  rw [hword 4 (by omega) (by omega), hword 8 (by omega) (by omega), hword 12 (by omega) (by omega)]

theorem SameWork.of_sameOn {bytes bytes' : Memory} {job size : Nat} (hsize : jobSize ≤ size)
    (h : SameOn job size bytes bytes') : SameWork bytes bytes' job := by
  unfold jobSize at hsize
  exact h.mono (by omega) (by omega)

theorem uint32_lt (x : UInt32) : x.toNat < 256 ^ pointerSize := x.toNat_lt

theorem Work.load_store (w : Work) (bytes : Memory) (newjob : Nat) :
    Work.load (w.store bytes newjob) newjob = w := by
  have hfunction : Bytes.load pointerSize (w.store bytes newjob) (newjob + 4) =
      w.function.toNat := by
    unfold Work.store
    rw [← Bytes.load_congr (store_sameOn (by unfold pointerSize; omega) _),
      ← Bytes.load_congr (store_sameOn (by unfold pointerSize; omega) _),
      Bytes.load_store (uint32_lt _)]
  have harg : Bytes.load pointerSize (w.store bytes newjob) (newjob + 8) = w.arg.toNat := by
    unfold Work.store
    rw [← Bytes.load_congr (store_sameOn (by unfold pointerSize; omega) _),
      Bytes.load_store (uint32_lt _)]
  have hpriority : Bytes.load pointerSize (w.store bytes newjob) (newjob + 12) =
      w.priority.toUInt32.toNat := Bytes.load_store (uint32_lt _)
  unfold Work.load
  rw [hfunction, harg, hpriority]
  simp

theorem Work.store_sameOn (w : Work) {bytes : Memory} {newjob size : Nat} (hsize : jobSize ≤ size)
    {b : Nat} (hapart : Apart size b newjob) : SameOn b size bytes (w.store bytes newjob) := by
  unfold Apart at hapart
  unfold jobSize at hsize
  have hword {m : Memory} (offset value : Nat) (hhigh : offset ≤ 12) :
      SameOn b size m (Bytes.store pointerSize m (newjob + offset) value) :=
    Bytes.store_sameOn (by unfold pointerSize; omega) value
  exact ((hword 4 _ (by omega)).trans (hword 8 _ (by omega))).trans (hword 12 _ (by omega))

/-! ## Links -/

structure JobQueue where
  front : Nat
  rear : Nat
  len : Int

namespace JobQueue

/-- `jobqueue_push` up to `bsem_post`. -/
def link (q : JobQueue) (bytes : Memory) (newjob : Nat) : JobQueue × Memory :=
  let bytes := store pointerSize bytes newjob 0
  if q.len = 0 then (⟨newjob, newjob, toInt (q.len + 1)⟩, bytes)
  else (⟨q.front, newjob, toInt (q.len + 1)⟩, store pointerSize bytes q.rear newjob)

/-- `jobqueue_pull` without `bsem_post`. -/
def unlink (q : JobQueue) (bytes : Memory) : Nat × JobQueue :=
  let job := q.front
  if q.len = 0 then (job, q)
  else if q.len = 1 then (job, ⟨0, 0, 0⟩)
  else (job, ⟨load pointerSize bytes job, q.rear, toInt (q.len - 1)⟩)

/-- These are the jobs in the queue, in order. -/
structure Lists (q : JobQueue) (bytes : Memory) (jobs : List Nat) : Prop where
  links : Threaded pointerSize bytes q.front jobs
  rear : ∀ last, jobs.getLast? = some last → q.rear = last
  len : q.len = jobs.length

variable {q : JobQueue} {bytes : Memory} {jobs : List Nat} {size newjob : Nat}

theorem Lists.congr (h : q.Lists bytes jobs) {bytes' : Memory}
    (hsame : ∀ a ∈ jobs, SameOn a pointerSize bytes bytes') : q.Lists bytes' jobs :=
  { h with links := h.links.congr hsame }

theorem Lists.link (h : q.Lists bytes jobs) (hsize : jobSize ≤ size)
    (hbounds : 0 < newjob ∧ newjob < 2 ^ 32) (hapart : (newjob :: jobs).Pairwise (Apart size))
    (hroom : jobs.length + 1 < 2 ^ 31) :
    (q.link bytes newjob).1.Lists (q.link bytes newjob).2 (jobs ++ [newjob]) := by
  rw [List.pairwise_cons] at hapart
  unfold jobSize at hsize
  have hshort {a b : Nat} (h : Apart size a b) : Apart pointerSize a b :=
    h.mono (by unfold pointerSize; omega)
  have hlen : toInt (q.len + 1) = ((jobs ++ [newjob]).length : Int) := by
    rw [h.len, List.length_append, List.length_singleton, toInt_eq (by omega) (by omega)]
    rfl
  have hend : load pointerSize (store pointerSize bytes newjob 0) newjob = 0 :=
    load_store (by decide)
  have hrear : ∀ last, (jobs ++ [newjob]).getLast? = some last → newjob = last := by
    intro last hlast
    rw [List.getLast?_concat] at hlast
    exact Option.some.inj hlast
  unfold JobQueue.link
  rcases List.eq_nil_or_concat jobs with rfl | ⟨before, last, rfl⟩
  · have hzero : q.len = 0 := h.len
    rw [if_pos hzero]
    exact ⟨⟨rfl, by omega, hend⟩, hrear, hlen⟩
  · rw [List.concat_eq_append] at *
    have hne : q.len ≠ 0 := by
      rw [h.len, List.length_append, List.length_singleton]
      omega
    have hlast : q.rear = last := h.rear last (List.getLast?_concat ..)
    have hkept : Threaded pointerSize (store pointerSize bytes newjob 0) q.front (before ++ [last]) :=
      h.links.congr fun a ha => store_sameOn (hshort (hapart.1 a ha)).symm _
    have hsplit := List.pairwise_append.mp hapart.2
    rw [if_neg hne, hlast]
    refine ⟨?_, hrear, hlen⟩
    rw [List.append_assoc]
    refine hkept.snoc (by omega) (Nat.lt_of_lt_of_eq hbounds.2 (by decide)) hend ?_ ?_
    · exact (hshort (hapart.1 last (by simp))).symm
    · exact fun b hb => (hshort (hsplit.2.2 b hb last (by simp))).symm

theorem link_sameWork (hsize : jobSize ≤ size) {b : Nat} (hnew : b = newjob ∨ Apart size b newjob)
    (hrear : q.len ≠ 0 → b = q.rear ∨ Apart size b q.rear) :
    SameWork bytes (q.link bytes newjob).2 b := by
  unfold jobSize at hsize
  have hstore {m : Memory} {c : Nat} (value : Nat) (h : b = c ∨ Apart size b c) :
      SameWork m (store pointerSize m c value) b := by
    unfold Apart at h
    exact store_sameOn (by unfold pointerSize; omega) value
  unfold JobQueue.link
  by_cases hlen : q.len = 0
  · rw [if_pos hlen]
    exact hstore 0 hnew
  · rw [if_neg hlen]
    exact (hstore 0 hnew).trans (hstore newjob (hrear hlen))

theorem link_sameOn {b : Nat} (hnew : Apart size b newjob) (hsize : jobSize ≤ size)
    (hrear : q.len ≠ 0 → Apart size b q.rear) : SameOn b size bytes (q.link bytes newjob).2 := by
  unfold jobSize at hsize
  have hstore {m : Memory} {c : Nat} (value : Nat) (h : Apart size b c) :
      SameOn b size m (store pointerSize m c value) := by
    unfold Apart at h
    exact store_sameOn (by unfold pointerSize; omega) value
  unfold JobQueue.link
  by_cases hlen : q.len = 0
  · rw [if_pos hlen]
    exact hstore 0 hnew
  · rw [if_neg hlen]
    exact (hstore 0 hnew).trans (hstore newjob (hrear hlen))

theorem Lists.len_eq_zero (h : q.Lists bytes jobs) : q.len = 0 ↔ jobs = [] := by
  rw [h.len, Int.natCast_eq_zero, List.length_eq_zero_iff]

theorem Lists.rear_mem (h : q.Lists bytes jobs) (hlen : q.len ≠ 0) : q.rear ∈ jobs := by
  cases hlast : jobs.getLast? with
  | none => exact absurd (h.len_eq_zero.mpr (List.getLast?_eq_none_iff.mp hlast)) hlen
  | some last =>
    rw [h.rear last hlast]
    exact List.mem_of_getLast? hlast

theorem Lists.unlink_nil (h : q.Lists bytes []) : q.unlink bytes = (0, q) := by
  have hzero : q.len = 0 := h.len
  have hfront : q.front = 0 := h.links
  unfold JobQueue.unlink
  rw [if_pos hzero, hfront]

theorem Lists.unlink_cons {job : Nat} {rest : List Nat} (h : q.Lists bytes (job :: rest))
    (hroom : rest.length < 2 ^ 31) :
    job ≠ 0 ∧ (q.unlink bytes).1 = job ∧ (q.unlink bytes).2.Lists bytes rest ∧
      (q.len = 0 ∨ q.len = 1 ↔ rest = []) := by
  obtain ⟨hfront, hne, hrest⟩ := h.links
  have hlen := h.len
  rw [List.length_cons, Int.natCast_add, Int.natCast_one] at hlen
  have hmore : q.len = 0 ∨ q.len = 1 ↔ rest = [] := by
    rw [hlen, ← List.length_eq_zero_iff]
    omega
  have hpos : q.len ≠ 0 := by omega
  unfold JobQueue.unlink
  rw [if_neg hpos]
  cases rest with
  | nil =>
    have hone : q.len = 1 := hlen
    rw [if_pos hone]
    exact ⟨hne, hfront, ⟨rfl, fun last hlast => by simp at hlast, rfl⟩, hmore⟩
  | cons b rest =>
    have hnotone : q.len ≠ 1 := fun hone => List.cons_ne_nil _ _ (hmore.mp (Or.inr hone))
    rw [if_neg hnotone, hfront]
    refine ⟨hne, rfl, ⟨hrest, fun last hlast => h.rear last ?_, ?_⟩, hmore⟩
    · rw [List.getLast?_cons_cons]
      exact hlast
    · rw [hlen, Int.add_sub_cancel, toInt_eq (by omega) (by omega)]

end JobQueue

end LBeacon
