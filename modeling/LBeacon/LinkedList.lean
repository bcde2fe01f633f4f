import LBeacon.Lib.CInt
import LBeacon.Lib.Layout
import Mathlib.Algebra.Group.Int.Defs
import Mathlib.Algebra.Group.Nat.Defs
import Mathlib.Data.List.Perm.Subperm

/-!
# The intrusive lists refine sequences

`LinkedList.h` and `LinkedList.c`, write by write, on the links of any type of entries. An
operation on the pointers is an operation on the entries of the rings.
-/

open Rings

namespace LBeacon

section

variable {α : Type} [DecidableEq α]

/-! ## LinkedList.h -/

def initEntry (L : Links α) (entry : α) : Links α :=
  let L := L.setNext entry entry
  L.setPrev entry entry

def insertEntryList (L : Links α) (newNode prev next : α) : Links α :=
  let L := L.setPrev next newNode
  let L := L.setNext newNode next
  let L := L.setPrev newNode prev
  L.setNext prev newNode

def isIsolatedNode (L : Links α) (node : α) : Bool := node = L.next node

def isEntryListEmpty (L : Links α) (entry : α) : Bool := isIsolatedNode L entry

def insertListFirst (L : Links α) (newNode head : α) : Links α :=
  insertEntryList L newNode head (L.next head)

def insertListTail (L : Links α) (newNode head : α) : Links α :=
  insertEntryList L newNode (L.prev head) head

def removeEntryList (L : Links α) (prev next : α) : Links α :=
  let L := L.setPrev next prev
  L.setNext prev next

def removeListNode (L : Links α) (removed : α) : Links α :=
  let L := removeEntryList L (L.prev removed) (L.next removed)
  let L := L.setPrev removed removed
  L.setNext removed removed

/-- The macro, with `body` on a state that holds the links. -/
def listForEachSafe {σ : Type} (links : σ → Links α) (body : α → σ → σ) (head : α) (fuel : Nat)
    (s : σ) : Option σ :=
  let pos := (links s).next head
  forEachSafe links body head fuel pos ((links s).next pos) s

/-! ## LinkedList.c -/

def concatList (L : Links α) (firstListHead secondListHead : α) : Links α :=
  let firstListTail := L.prev firstListHead
  let secondListTail := L.prev secondListHead
  let L := L.setNext firstListTail secondListHead
  let L := L.setPrev firstListHead secondListTail
  let L := L.setNext secondListTail firstListHead
  L.setPrev secondListHead firstListTail

def getListLengthFrom (L : Links α) (entry : α) : Nat → α → Int → Option Int
  | 0, _, _ => none
  | fuel + 1, listptrs, listLength =>
    if listptrs = entry then some listLength
    else getListLengthFrom L entry fuel (L.next listptrs) (CInt.toInt (listLength + 1))

def getListLength (L : Links α) (fuel : Nat) (entry : α) : Option Int :=
  getListLengthFrom L entry fuel (L.next entry) 0

/-! ## Each function by its links -/

variable {L : Links α} {S : Rings.Layout α} {h k x : α} {l r xs ys : List α}

theorem removeListNode_eq (L : Links α) (x : α) :
    removeListNode L x = (L.link (L.prev x) (L.next x)).link x x := rfl

theorem concatList_eq (hne : h ≠ k) :
    concatList L h k = (L.link (L.prev h) k).link (L.prev k) h := by
  unfold concatList Links.link Links.setNext Links.setPrev
  simp only [Links.mk.injEq, true_and]
  funext y
  by_cases hyk : y = k
  · simp [hyk, Ne.symm hne]
  · simp [hyk]

theorem laid_initEntry (hl : Laid L S) (hx : S.Loose x) :
    Laid (initEntry L x) (Function.update S x (some [])) := hl.init hx

theorem laid_insertListFirst (hl : Laid L S) (hh : S h = some xs) (hx : S.Loose x)
    (hne : x ≠ h) :
    Laid (insertListFirst L x h)
      (Function.update (Function.update S x none) h (some (x :: xs))) := by
  have hinsert := Laid.insert (l := []) hl hh hx hne
  rwa [← (hl.isRing h xs hh).next_head] at hinsert

theorem laid_insertListTail (hl : Laid L S) (hh : S h = some xs) (hx : S.Loose x)
    (hne : x ≠ h) :
    Laid (insertListTail L x h)
      (Function.update (Function.update S x none) h (some (xs ++ [x]))) := by
  have hinsert := Laid.insert (r := []) hl (by rwa [List.append_nil]) hx hne
  rwa [← (hl.isRing h xs hh).prev_head] at hinsert

theorem laid_removeListNode (hl : Laid L S) (hh : S h = some (l ++ x :: r)) :
    Laid (removeListNode L x)
      (Function.update (Function.update S h (some (l ++ r))) x (some [])) := hl.remove hh

theorem laid_removeHead (hl : Laid L S) (hh : S h = some (x :: r)) :
    ∃ S', Laid (removeListNode L h) S' ∧ S' h = some [] ∧ S' x = some r ∧
      ∀ k, k ≠ h → k ≠ x → S' k = S k := by
  have hxh : x ≠ h := hl.ne_of_mem hh List.mem_cons_self
  -- It is the last entry of the ring that is read from there.
  have hrotated := Laid.rotate (l := []) hl hh
  have hremoved := laid_removeListNode (l := r) (r := []) hrotated (Function.update_self ..)
  rw [List.append_nil] at hremoved
  refine ⟨_, hremoved, Function.update_self .., ?_, fun k hkh hkx => ?_⟩
  · rw [Function.update_of_ne hxh, Function.update_self]
  · rw [Function.update_of_ne hkh, Function.update_of_ne hkx, Function.update_of_ne hkx,
      Function.update_of_ne hkh]

theorem laid_concatList (hl : Laid L S) (hh : S h = some xs) (hk : S k = some ys)
    (hne : h ≠ k) :
    Laid (concatList L h k)
      (Function.update (Function.update S k none) h (some (xs ++ k :: ys))) := by
  have happend := hl.append hh hk hne
  rwa [concatList_eq hne, (hl.isRing h xs hh).prev_head, (hl.isRing k ys hk).prev_head]

theorem isolated_of_ring (hr : IsRing L h xs) : isIsolatedNode L h = true ↔ xs = [] := by
  rw [← hr.isolated_iff]
  simp [isIsolatedNode, eq_comm]

theorem isIsolatedNode_removeListNode (L : Links α) (x : α) :
    isIsolatedNode (removeListNode L x) x = true := by
  simp [removeListNode_eq, isIsolatedNode]

theorem removeListNode_of_linked (hx : Linked L x x) : removeListNode L x = L := by
  obtain ⟨hnext, hprev⟩ := hx
  rw [removeListNode_eq, hnext, hprev]
  unfold Links.link
  congr 1
  · funext y
    by_cases hy : y = x <;> simp [hy, hnext]
  · funext y
    by_cases hy : y = x <;> simp [hy, hprev]

theorem linked_removeListNode (L : Links α) (x : α) : Linked (removeListNode L x) x x := by
  rw [removeListNode_eq]
  exact linked_link _ x x

theorem erase_append_cons (hr : IsRing L h (l ++ x :: r)) : (l ++ x :: r).erase x = l ++ r := by
  have hx : x ∉ l := by
    have := hr.nodup
    simp [List.nodup_append] at this
    grind
  rw [List.erase_append_right _ hx, List.erase_cons_head]

/-! ## Lengths -/

/-- Where the entries are in the memory: two pointers each, none over another. -/
structure Placement (α : Type) where
  addr : α → Nat
  fits : ∀ x, addr x + 8 ≤ 2 ^ 32
  apart : ∀ x y, x ≠ y → addr x + 8 ≤ addr y ∨ addr y + 8 ≤ addr x

omit [DecidableEq α] in
theorem Placement.length_lt (place : Placement α) (hn : xs.Nodup) : xs.length < 2 ^ 31 := by
  have hinj : Function.Injective fun x => place.addr x / 8 := by
    intro x y hxy
    by_contra hne
    have := place.apart x y hne
    simp only at hxy
    omega
  have hsub : xs.map (fun x => place.addr x / 8) ⊆ List.range (2 ^ 29) := by
    intro n hn
    obtain ⟨x, -, rfl⟩ := List.mem_map.mp hn
    have := place.fits x
    rw [List.mem_range]
    omega
  have hle := ((hn.map hinj).subperm hsub).length_le
  rw [List.length_map, List.length_range] at hle
  omega

theorem getListLengthFrom_eq (hr : IsRing L h xs) (hlen : xs.length < 2 ^ 31) (rest : List α) :
    ∀ l fuel, xs = l ++ rest → rest.length < fuel →
      getListLengthFrom L h fuel (rest.headD h) l.length = some (xs.length : Int) := by
  induction rest with
  | nil =>
    intro l fuel hxs hfuel
    obtain ⟨fuel, rfl⟩ := Nat.exists_eq_succ_of_ne_zero (by omega : fuel ≠ 0)
    rw [getListLengthFrom, List.headD_nil, if_pos rfl, hxs, List.append_nil]
  | cons y ys ih =>
    intro l fuel hxs hfuel
    obtain ⟨fuel, rfl⟩ := Nat.exists_eq_succ_of_ne_zero (by omega : fuel ≠ 0)
    have hne : y ≠ h := by
      rintro rfl
      have := hr.nodup
      simp [hxs] at this
    have hnext : L.next y = ys.headD h := IsRing.next_of_append (hxs ▸ hr)
    have hcount : CInt.toInt ((l.length : Int) + 1) = ((l ++ [y]).length : Int) := by
      rw [CInt.toInt_eq]
      · simp
      · omega
      · have := congrArg List.length hxs
        simp at this
        omega
    rw [getListLengthFrom, List.headD_cons, if_neg hne, hnext, hcount]
    apply ih (l ++ [y]) fuel
    · simp [hxs]
    · simpa using hfuel

theorem getListLength_eq (hr : IsRing L h xs) (hlen : xs.length < 2 ^ 31) {fuel : Nat}
    (hfuel : xs.length < fuel) : getListLength L fuel h = some (xs.length : Int) := by
  rw [getListLength, hr.next_head]
  exact getListLengthFrom_eq hr hlen xs [] fuel rfl hfuel

/-! ## Loops -/

/-- Each round takes the current entry out or leaves it in, and writes to no other entry. -/
def OnlyCurrent {σ : Type} (links : σ → Links α) (body : α → σ → σ) : Prop :=
  ∀ pos s, SameOutside [pos] (links s) (links (body pos s)) ∨
    SameOutside [pos] (removeListNode (links s) pos) (links (body pos s))

/-- No entry of `rest` comes, by `prev`, behind an entry that is not in front of it. -/
def Backward (L : Links α) : List α → Prop
  | [] => True
  | x :: rest => L.prev x ∉ x :: rest ∧ Backward L rest

omit [DecidableEq α] in
theorem Backward.keep {L' : Links α} {rest : List α} (hb : Backward L rest)
    (hprev : ∀ y ∈ rest, L'.prev y = L.prev y) : Backward L' rest := by
  induction rest with
  | nil => trivial
  | cons x rest ih =>
    refine ⟨?_, ih hb.2 fun y hy => hprev y (List.mem_cons_of_mem x hy)⟩
    rw [hprev x List.mem_cons_self]
    exact hb.1

omit [DecidableEq α] in
theorem IsRing.backward (hr : IsRing L h (l ++ r)) : Backward L r := by
  induction r generalizing l with
  | nil => trivial
  | cons x r ih =>
    have hnext : IsRing L h ((l ++ [x]) ++ r) := by simpa using hr
    refine ⟨?_, ih hnext⟩
    rw [hr.prev_of_append]
    -- What is in front of `x` is the head or an entry of `l`.
    have hnodup : (h :: l ++ x :: r).Nodup := hr.nodup
    exact fun hmem => (List.nodup_append.mp hnodup).2.2 _ (getLastD_mem_cons h l) _ hmem rfl

theorem removeListNode_ahead {rest : List α} (hl : Leads L h (x :: rest))
    (hb : Backward L (x :: rest)) :
    (∀ y ∈ rest, (removeListNode L x).next y = L.next y) ∧
      Backward (removeListNode L x) rest := by
  have hx : x ∉ rest := (List.nodup_cons.mp (List.nodup_cons.mp hl.nodup).2).1
  have hback : L.prev x ∉ rest := fun hmem => hb.1 (List.mem_cons_of_mem x hmem)
  rw [removeListNode_eq]
  constructor
  · intro y hy
    have hyx : y ≠ x := fun heq => hx (heq ▸ hy)
    have hyp : y ≠ L.prev x := fun heq => hback (heq ▸ hy)
    simp [hyx, hyp]
  · rw [hl.next]
    cases rest with
    | nil => trivial
    | cons y ys =>
      have hyx : y ≠ x := fun heq => hx (heq ▸ List.mem_cons_self)
      refine ⟨by simpa [hyx] using hback, hb.2.2.keep fun z hz => ?_⟩
      have hzx : z ≠ x := fun heq => hx (heq ▸ List.mem_cons_of_mem y hz)
      have hzy : z ≠ y := fun heq =>
        (List.nodup_cons.mp (List.nodup_cons.mp hl.tail.nodup).2).1 (heq ▸ hz)
      simp [hzx, hzy]

theorem OnlyCurrent.keepsAhead {σ : Type} {links : σ → Links α} {body : α → σ → σ}
    (hbody : OnlyCurrent links body) :
    KeepsAhead links body h fun rest s => Backward (links s) rest := by
  intro pos rest s hb hl
  have hpos : ∀ y ∈ rest, y ∉ [pos] := by
    rintro y hy hmem
    obtain rfl := List.mem_singleton.mp hmem
    exact (List.nodup_cons.mp (List.nodup_cons.mp hl.nodup).2).1 hy
  rcases hbody pos s with hkept | hremoved
  · exact ⟨hb.2.keep fun y hy => (hkept y (hpos y hy)).2, fun y hy => (hkept y (hpos y hy)).1⟩
  · obtain ⟨hnext, hback⟩ := removeListNode_ahead hl hb
    exact ⟨hback.keep fun y hy => (hremoved y (hpos y hy)).2,
      fun y hy => (hremoved y (hpos y hy)).1.trans (hnext y hy)⟩

/-! ## The refinement -/

theorem list_operations_refine_sequences (place : Placement α) (hl : Laid L S) :
    (∀ h xs x, S h = some xs → S.Loose x → x ≠ h →
      Laid (insertListFirst L x h)
        (Function.update (Function.update S x none) h (some (x :: xs)))) ∧
    (∀ h xs x, S h = some xs → S.Loose x → x ≠ h →
      Laid (insertListTail L x h)
        (Function.update (Function.update S x none) h (some (xs ++ [x])))) ∧
    (∀ h xs x, S h = some xs → x ∈ xs →
      Laid (removeListNode L x)
        (Function.update (Function.update S h (some (xs.erase x))) x (some [])) ∧
      isIsolatedNode (removeListNode L x) x = true ∧
      removeListNode (removeListNode L x) x = removeListNode L x) ∧
    (∀ h xs k ys, S h = some xs → S k = some ys → h ≠ k →
      Laid (concatList L h k)
        (Function.update (Function.update S k none) h (some (xs ++ k :: ys)))) ∧
    (∀ h xs fuel, S h = some xs → xs.length < fuel →
      getListLength L fuel h = some (xs.length : Int)) ∧
    (∀ (σ : Type) (links : σ → Links α) (body : α → σ → σ) (I : List α → σ → Prop) h xs s fuel,
      IsRing (links s) h xs → I xs s → KeepsAhead links body h I → xs.length < fuel →
      listForEachSafe links body h fuel s = some (xs.foldl (fun s x => body x s) s)) ∧
    (∀ (σ : Type) (links : σ → Links α) (body : α → σ → σ) h xs s fuel,
      IsRing (links s) h xs → OnlyCurrent links body → xs.length < fuel →
      listForEachSafe links body h fuel s = some (xs.foldl (fun s x => body x s) s)) := by
  refine ⟨?_, ?_, ?_, ?_, ?_, ?_, ?_⟩
  · intro h xs x hh hx hne
    exact laid_insertListFirst hl hh hx hne
  · intro h xs x hh hx hne
    exact laid_insertListTail hl hh hx hne
  · intro h xs x hh hx
    obtain ⟨l, r, rfl⟩ := List.append_of_mem hx
    refine ⟨?_, isIsolatedNode_removeListNode L x, ?_⟩
    · rw [erase_append_cons (hl.isRing h _ hh)]
      exact laid_removeListNode hl hh
    · exact removeListNode_of_linked (linked_removeListNode L x)
  · intro h xs k ys hh hk hne
    exact laid_concatList hl hh hk hne
  · intro h xs fuel hh hfuel
    have hr := hl.isRing h xs hh
    exact getListLength_eq hr (place.length_lt (List.nodup_cons.mp hr.nodup).2) hfuel
  · intro σ links body I h xs s fuel hr hI hbody hfuel
    exact (forEachSafe_rule hbody hr hI hfuel).1
  · intro σ links body h xs s fuel hr hbody hfuel
    exact (forEachSafe_rule hbody.keepsAhead hr (IsRing.backward (l := []) hr) hfuel).1

end

def threeEntries : Placement (Fin 3) where
  addr x := 8 * x
  fits x := by omega
  apart x y hne := by omega

/-- The ring of 0 with the entry 1, and 2 alone. -/
def twoRings : Links (Fin 3) where
  next x := if x = 0 then 1 else if x = 1 then 0 else 2
  prev x := if x = 0 then 1 else if x = 1 then 0 else 2

def twoRingsLayout : Rings.Layout (Fin 3) := fun x =>
  if x = 0 then some [1] else if x = 1 then none else some []

theorem twoRingsLayout_some {h : Fin 3} {xs : List (Fin 3)} (hh : twoRingsLayout h = some xs) :
    h = 0 ∧ xs = [1] ∨ h = 2 ∧ xs = [] := by
  unfold twoRingsLayout at hh
  split at hh
  next h0 => exact Or.inl ⟨h0, (Option.some.inj hh).symm⟩
  next h0 =>
    split at hh
    next => cases hh
    next h1 => exact Or.inr ⟨by omega, (Option.some.inj hh).symm⟩

theorem laid_twoRings : Laid twoRings twoRingsLayout := by
  constructor
  · intro h xs hh
    rcases twoRingsLayout_some hh with ⟨rfl, rfl⟩ | ⟨rfl, rfl⟩
    · refine ⟨by decide, path_cons_cons.mpr ⟨?_, path_pair.mpr ?_⟩⟩ <;> simp [Linked, twoRings]
    · exact isRing_nil.mpr (by simp [Linked, twoRings])
  · intro h xs k ys hh hk hne
    rcases twoRingsLayout_some hh with ⟨rfl, rfl⟩ | ⟨rfl, rfl⟩ <;>
      rcases twoRingsLayout_some hk with ⟨rfl, rfl⟩ | ⟨rfl, rfl⟩ <;> simp at hne ⊢

theorem removing_keepsAhead {α : Type} [DecidableEq α] (h : α) :
    KeepsAhead id (fun x (L : Links α) => removeListNode L x) h
      fun rest L => True ∧ ∃ kept, IsRing L h (kept ++ rest) := by
  refine KeepsAhead.of_isRing (I := fun _ _ => True) fun kept pos rest L _ hr => ⟨trivial, kept, ?_⟩
  have hremoved := hr.remove
  rwa [← hr.prev_of_append, ← hr.next_of_append] at hremoved

/-- The entry stays where it is, and its links are overwritten. -/
def overwrite (x : Fin 3) (L : Links (Fin 3)) : Links (Fin 3) where
  next y := if y = x then 2 else L.next y
  prev y := if y = x then 2 else L.prev y

theorem overwrite_onlyCurrent : OnlyCurrent id overwrite := by
  intro pos L
  refine Or.inl fun y hy => ?_
  rw [List.mem_singleton] at hy
  exact ⟨if_neg hy, if_neg hy⟩

theorem list_operations_refine_sequences_twoRings :
    Laid (insertListTail twoRings 2 0)
        (Function.update (Function.update twoRingsLayout 2 none) 0 (some [1, 2])) ∧
      isIsolatedNode (removeListNode twoRings 1) 1 = true ∧
      Laid (concatList twoRings 0 2)
        (Function.update (Function.update twoRingsLayout 2 none) 0 (some [1, 2])) ∧
      getListLength twoRings 2 0 = some 1 ∧
      listForEachSafe id (fun x (L : Links (Fin 3)) => removeListNode L x) 0 2 twoRings =
        some (removeListNode twoRings 1) ∧
      listForEachSafe id overwrite 0 2 twoRings = some (overwrite 1 twoRings) := by
  obtain ⟨-, htail, hremove, hconcat, hlength, hloop, hcurrent⟩ :=
    list_operations_refine_sequences threeEntries laid_twoRings
  have hloose : twoRingsLayout.Loose 2 := by
    intro k ys hk hm
    rcases twoRingsLayout_some hk with ⟨rfl, rfl⟩ | ⟨rfl, rfl⟩ <;> simp at hm ⊢
  have hring : IsRing twoRings 0 [1] := laid_twoRings.isRing 0 [1] rfl
  refine ⟨htail 0 [1] 2 rfl hloose (by decide), (hremove 0 [1] 1 rfl (by decide)).2.1,
    hconcat 0 [1] 2 [] rfl rfl (by decide), hlength 0 [1] 2 rfl (by decide), ?_, ?_⟩
  · exact hloop _ id _ _ 0 [1] twoRings 2 hring ⟨trivial, [], hring⟩ (removing_keepsAhead 0)
      (by decide)
  · exact hcurrent _ id _ 0 [1] twoRings 2 hring overwrite_onlyCurrent (by decide)

end LBeacon
