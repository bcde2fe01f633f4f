import Mathlib.Data.List.Chain
import Mathlib.Data.List.Nodup

/-!
# Circular doubly linked rings

Intrusive links over any type of addresses. A ring is a head and the list of its
entries, read once around. Every operation is a sequence of `link`s, so the only frame
lemma is the one that says what a `link` leaves alone.
-/

namespace Rings

/-- The two pointers of every address. -/
structure Links (α : Type) where
  next : α → α
  prev : α → α

/-- `b` follows `a`, from both sides. -/
def Linked {α : Type} (L : Links α) (a b : α) : Prop := L.next a = b ∧ L.prev b = a

/-- Each address of `p` is followed by the one after it. -/
def Path {α : Type} (L : Links α) (p : List α) : Prop := p.IsChain (Linked L)

/-- The ring with head `h` holds exactly `xs`, in this order. -/
structure IsRing {α : Type} (L : Links α) (h : α) (xs : List α) : Prop where
  nodup : (h :: xs).Nodup
  path : Path L (h :: xs ++ [h])

section Reading

variable {α : Type} {L : Links α} {a b c h x : α} {p l r xs ys : List α}

/-! ## Reading a path -/

theorem path_singleton (L : Links α) (a : α) : Path L [a] := List.isChain_singleton a

theorem path_pair : Path L [a, b] ↔ Linked L a b := List.isChain_pair

theorem path_cons_cons : Path L (a :: b :: p) ↔ Linked L a b ∧ Path L (b :: p) :=
  List.isChain_cons_cons

theorem path_split : Path L (l ++ c :: r) ↔ Path L (l ++ [c]) ∧ Path L (c :: r) :=
  List.isChain_split

theorem path_left (hp : Path L (l ++ r)) : Path L l := List.IsChain.left_of_append hp

theorem path_right (hp : Path L (l ++ r)) : Path L r := List.IsChain.right_of_append hp

/-! ## Reading a ring -/

theorem isRing_nil : IsRing L h [] ↔ Linked L h h := by
  constructor
  · intro hr
    exact path_pair.mp hr.path
  · intro hl
    exact ⟨by simp, path_pair.mpr hl⟩

theorem IsRing.next_of_append (hr : IsRing L h (l ++ x :: r)) : L.next x = r.headD h := by
  have hp : Path L ((h :: l) ++ x :: (r ++ [h])) := by simpa using hr.path
  have hright := (path_split.mp hp).2
  cases r with
  | nil => exact (path_pair.mp hright).1
  | cons y r => exact (path_cons_cons.mp hright).1.1

theorem IsRing.prev_of_append (hr : IsRing L h (l ++ x :: r)) : L.prev x = l.getLastD h := by
  have hp : Path L ((h :: l) ++ x :: (r ++ [h])) := by simpa using hr.path
  have hleft := (path_split.mp hp).1
  rcases List.eq_nil_or_concat' l with rfl | ⟨l', y, rfl⟩
  · exact (path_pair.mp hleft).2
  · have hstep : Path L ((h :: l') ++ y :: [x]) := by simpa using hleft
    have := (path_pair.mp (path_split.mp hstep).2).2
    simpa using this

theorem IsRing.next_head (hr : IsRing L h xs) : L.next h = xs.headD h := by
  cases xs with
  | nil => exact (isRing_nil.mp hr).1
  | cons y xs => exact (path_cons_cons.mp hr.path).1.1

theorem IsRing.prev_head (hr : IsRing L h xs) : L.prev h = xs.getLastD h := by
  rcases List.eq_nil_or_concat' xs with rfl | ⟨xs', y, rfl⟩
  · exact (isRing_nil.mp hr).2
  · have hp : Path L ((h :: xs') ++ y :: [h]) := by simpa using hr.path
    have := (path_pair.mp (path_split.mp hp).2).2
    simpa using this

theorem IsRing.isolated_iff (hr : IsRing L h xs) : L.next h = h ↔ xs = [] := by
  rw [hr.next_head]
  cases xs with
  | nil => simp
  | cons y xs =>
    have hne : h ≠ y := by
      intro he
      have := hr.nodup
      simp [he] at this
    simp [Ne.symm hne]

theorem IsRing.next_ne (hr : IsRing L h xs) (hx : x ∈ xs) : L.next x ≠ x := by
  obtain ⟨l, r, rfl⟩ := List.append_of_mem hx
  rw [hr.next_of_append]
  have hn := hr.nodup
  cases r with
  | nil => simp at hn ⊢; tauto
  | cons y r =>
    simp [List.nodup_append] at hn ⊢
    tauto

theorem isRing_join (hn : (h :: (l ++ r)).Nodup) (hleft : Path L (h :: l))
    (hright : Path L (r ++ [h])) (hmid : Linked L (l.getLastD h) (r.headD h)) :
    IsRing L h (l ++ r) := by
  refine ⟨hn, ?_⟩
  have hfrom : Path L (l.getLastD h :: (r ++ [h])) := by
    cases r with
    | nil => exact path_pair.mpr hmid
    | cons y r => exact path_cons_cons.mpr ⟨hmid, hright⟩
  rcases List.eq_nil_or_concat' l with rfl | ⟨l', y, rfl⟩
  · simpa using hfrom
  · have hlist : h :: ((l' ++ [y]) ++ r) ++ [h] = (h :: l') ++ y :: (r ++ [h]) := by simp
    rw [hlist]
    exact path_split.mpr ⟨by simpa using hleft, by simpa using hfrom⟩

theorem getLastD_mem_cons (h : α) (l : List α) : l.getLastD h ∈ h :: l := by
  rcases List.eq_nil_or_concat' l with rfl | ⟨l', y, rfl⟩ <;> simp

theorem headD_mem_cons (h : α) (r : List α) : r.headD h ∈ h :: r := by
  cases r <;> simp

theorem IsRing.front (hr : IsRing L h (xs ++ ys)) (hx : x ∈ xs) :
    x ∈ h :: (xs ++ ys) ∧ x ∉ h :: ys := by
  have hnodup := hr.nodup
  simp only [List.nodup_cons, List.mem_append, not_or, List.nodup_append] at hnodup
  obtain ⟨⟨hix, -⟩, -, -, hdisj⟩ := hnodup
  refine ⟨by simp [hx], fun hy => ?_⟩
  rcases List.mem_cons.mp hy with rfl | hy
  · exact hix hx
  · exact hdisj x hx x hy rfl

end Reading

section Writing

variable {α : Type} [DecidableEq α] {L : Links α} {a b c d h k x y : α} {p l r xs ys : List α}

/-- Makes `b` follow `a`. -/
def Links.link (L : Links α) (a b : α) : Links α :=
  ⟨fun x => if x = a then b else L.next x, fun x => if x = b then a else L.prev x⟩

/-! ## One link -/

@[simp] theorem link_next (L : Links α) (a b x : α) :
    (L.link a b).next x = if x = a then b else L.next x := rfl

@[simp] theorem link_prev (L : Links α) (a b x : α) :
    (L.link a b).prev x = if x = b then a else L.prev x := rfl

theorem linked_link (L : Links α) (a b : α) : Linked (L.link a b) a b := by
  simp [Linked]

theorem linked_frame (hl : Linked L c d) (hc : c ≠ a) (hd : d ≠ b) : Linked (L.link a b) c d := by
  obtain ⟨h1, h2⟩ := hl
  simp [Linked, h1, h2, hc, hd]

/-- A link changes no path that has no step out of `a` and no step into `b`. -/
theorem path_frame (hp : Path L p) (ha : a ∉ p.dropLast) (hb : b ∉ p.tail) :
    Path (L.link a b) p := by
  induction p with
  | nil => exact List.isChain_nil
  | cons c p ih =>
    cases p with
    | nil => exact path_singleton _ c
    | cons d p =>
      simp only [List.dropLast_cons_cons, List.mem_cons, not_or, List.tail_cons] at ha hb
      obtain ⟨hcd, hrest⟩ := path_cons_cons.mp hp
      refine path_cons_cons.mpr ⟨linked_frame hcd (Ne.symm ha.1) (Ne.symm hb.1), ?_⟩
      exact ih hrest ha.2 hb.2

theorem path_frame_of_notMem (hp : Path L p) (ha : a ∉ p) (hb : b ∉ p) : Path (L.link a b) p :=
  path_frame hp (fun hm => ha (List.dropLast_subset _ hm)) (fun hm => hb (List.mem_of_mem_tail hm))

theorem path_frame_last (hn : (h :: l).Nodup) (hp : Path L (h :: l)) (hb : b ∉ l) :
    Path (L.link (l.getLastD h) b) (h :: l) := by
  refine path_frame hp ?_ hb
  rcases List.eq_nil_or_concat' l with rfl | ⟨l', y, rfl⟩
  · simp
  · rw [← List.cons_append, List.dropLast_concat]
    simp [List.nodup_append] at hn ⊢
    grind

theorem path_frame_first (hn : (h :: r).Nodup) (hp : Path L (r ++ [h])) (ha : a ∉ r) :
    Path (L.link a (r.headD h)) (r ++ [h]) := by
  refine path_frame hp (by simpa using ha) ?_
  cases r with
  | nil => simp
  | cons y r => simp at hn ⊢; grind

/-! ## Operations on a ring -/

theorem isRing_init (L : Links α) (h : α) : IsRing (L.link h h) h [] :=
  isRing_nil.mpr (linked_link L h h)

theorem IsRing.insert (hr : IsRing L h (l ++ r)) (hx : x ∉ h :: (l ++ r)) :
    IsRing ((L.link x (r.headD h)).link (l.getLastD h) x) h (l ++ x :: r) := by
  have hn := hr.nodup
  have hp : Path L ((h :: l) ++ (r ++ [h])) := by simpa using hr.path
  have hlast := getLastD_mem_cons h l
  have hhead := headD_mem_cons h r
  simp [List.nodup_append] at hn hx
  have hfirst : r.headD h ∉ l := by
    rcases List.mem_cons.mp hhead with he | hm <;> grind
  have hxlast : x ≠ l.getLastD h := by grind
  have hxfirst : r.headD h ≠ x := by grind
  refine isRing_join ?_ ?_ ?_ (linked_link _ _ _)
  · simp [List.nodup_append]; grind
  · refine path_frame_last (by simp; grind) ?_ (by grind)
    exact path_frame (path_left hp) (fun hm => by have := List.dropLast_subset _ hm; grind) hfirst
  · rw [List.cons_append]
    refine path_frame ?_ ?_ ?_
    · have hright : Path (L.link x (r.headD h)) (r ++ [h]) :=
        path_frame_first (by simp; grind) (path_right hp) (by grind)
      cases r with
      | nil => exact path_pair.mpr (linked_link _ _ _)
      | cons y r => exact path_cons_cons.mpr ⟨linked_link _ _ _, hright⟩
    · rw [← List.cons_append, List.dropLast_concat]
      rcases List.mem_cons.mp hlast with he | hm <;> grind
    · simp; grind

theorem IsRing.remove (hr : IsRing L h (l ++ x :: r)) :
    IsRing ((L.link (l.getLastD h) (r.headD h)).link x x) h (l ++ r) := by
  have hn := hr.nodup
  have hp : Path L ((h :: l) ++ [x] ++ (r ++ [h])) := by simpa using hr.path
  have hlast := getLastD_mem_cons h l
  have hhead := headD_mem_cons h r
  simp [List.nodup_append] at hn
  have hfirst : r.headD h ∉ l := by
    rcases List.mem_cons.mp hhead with he | hm <;> grind
  have hlastr : l.getLastD h ∉ r := by
    rcases List.mem_cons.mp hlast with he | hm <;> grind
  refine isRing_join ?_ ?_ ?_ ?_
  · simp [List.nodup_append]; grind
  · refine path_frame_of_notMem ?_ (by grind) (by grind)
    exact path_frame_last (by simp; grind) (path_left (path_left hp)) hfirst
  · refine path_frame_of_notMem ?_ (by grind) (by grind)
    exact path_frame_first (by simp; grind) (path_right hp) hlastr
  · exact linked_frame (linked_link _ _ _) (by grind) (by grind)

theorem IsRing.cut (hr : IsRing L h (xs ++ ys)) :
    IsRing (L.link h (ys.headD h)) h ys ∧ Path (L.link h (ys.headD h)) xs := by
  have hn := hr.nodup
  have hp : Path L ([h] ++ xs ++ (ys ++ [h])) := by simpa using hr.path
  have hhead := headD_mem_cons h ys
  simp [List.nodup_append] at hn
  constructor
  · refine isRing_join (l := []) (by simp; grind) (path_singleton _ h) ?_ (linked_link _ _ _)
    exact path_frame_first (by simp; grind) (path_right hp) (by grind)
  · refine path_frame_of_notMem (path_right (path_left hp)) (by grind) ?_
    rcases List.mem_cons.mp hhead with he | hm <;> grind

theorem Path.open (hp : Path L xs) (hn : (k :: xs).Nodup) (hne : xs ≠ []) :
    Path ((L.link k k).link k (xs.headD k)) (k :: xs) := by
  obtain ⟨y, xs, rfl⟩ := List.exists_cons_of_ne_nil hne
  simp at hn
  refine path_cons_cons.mpr ⟨linked_link _ _ _, ?_⟩
  refine path_frame (path_frame_of_notMem hp (by grind) (by grind)) ?_ (by grind)
  intro hm
  have := List.dropLast_subset _ hm
  grind

theorem Path.close (hp : Path L (k :: xs)) (hn : (k :: xs).Nodup) :
    IsRing (L.link (xs.getLastD k) k) k xs := by
  have hk : k ∉ xs := (List.nodup_cons.mp hn).1
  have hring : IsRing (L.link (xs.getLastD k) k) k (xs ++ []) := by
    refine isRing_join (by simpa using hn) (path_frame_last hn hp hk) (path_singleton _ k) ?_
    exact linked_link _ _ _
  rwa [List.append_nil] at hring

end Writing

/-! ## Many rings -/

/-- Rings that share no address. Those of `active` heads are closed, and in the others no
address looks isolated. An address of `live` that is in no ring is isolated. -/
structure Family {ι α : Type} (L : Links α) (head : ι → α) (ring : ι → List α)
    (active : ι → Prop) (live : α → Prop) : Prop where
  isRing : ∀ i, active i → IsRing L (head i) (ring i)
  apart : ∀ i j, i ≠ j → ∀ x ∈ head i :: ring i, x ∉ head j :: ring j
  linked : ∀ i, ¬ active i → ∀ x ∈ ring i, L.next x ≠ x
  isolated : ∀ x, live x → (∀ i, x ∉ head i :: ring i) → L.next x = x

/-- The links differ only at the addresses of `S`. -/
def SameOutside {α : Type} (S : List α) (L L' : Links α) : Prop :=
  ∀ x, x ∉ S → L'.next x = L.next x ∧ L'.prev x = L.prev x

section Family

variable {ι α : Type} {L L' : Links α} {head : ι → α} {ring ring' : ι → List α}
  {active active' : ι → Prop} {live live' : α → Prop} {i j k : ι} {h x y : α}
  {p S l r xs ys : List α}

theorem SameOutside.refl (S : List α) (L : Links α) : SameOutside S L L := fun _ _ => ⟨rfl, rfl⟩

theorem SameOutside.trans {T : List α} {L'' : Links α} (hs : SameOutside S L L')
    (ht : SameOutside T L' L'') (hsub : ∀ x ∈ T, x ∈ S) : SameOutside S L L'' := by
  intro x hx
  obtain ⟨hnext, hprev⟩ := ht x fun h => hx (hsub x h)
  exact ⟨hnext.trans (hs x hx).1, hprev.trans (hs x hx).2⟩

theorem SameOutside.mono {T : List α} (hs : SameOutside S L L') (hsub : ∀ x ∈ S, x ∈ T) :
    SameOutside T L L' := fun x hx => hs x fun h => hx (hsub x h)

theorem SameOutside.path (hs : SameOutside S L L') (hp : Path L p) (hout : ∀ x ∈ p, x ∉ S) :
    Path L' p := by
  refine List.IsChain.imp_of_mem_imp ?_ hp
  intro x y hx hy hxy
  exact ⟨(hs x (hout x hx)).1.trans hxy.1, (hs y (hout y hy)).2.trans hxy.2⟩

theorem SameOutside.isRing (hs : SameOutside S L L') (hr : IsRing L h l)
    (hout : ∀ x ∈ h :: l, x ∉ S) : IsRing L' h l := by
  refine ⟨hr.nodup, hs.path hr.path ?_⟩
  intro x hx
  refine hout x ?_
  simp only [List.mem_append, List.mem_cons, List.not_mem_nil, or_false] at hx ⊢
  tauto

theorem Family.next_ne (hf : Family L head ring active live) (hx : x ∈ ring i) : L.next x ≠ x := by
  by_cases hi : active i
  · exact (hf.isRing i hi).next_ne hx
  · exact hf.linked i hi x hx

/-- Whether an address looks isolated says whether it is in a ring. -/
theorem Family.isolated_iff (hf : Family L head ring active live) (hx : live x)
    (hhead : ∀ i, x ≠ head i) : L.next x = x ↔ ∀ i, x ∉ ring i := by
  constructor
  · intro h i hi
    exact hf.next_ne hi h
  · intro h
    refine hf.isolated x hx fun i hi => ?_
    exact (List.mem_cons.mp hi).elim (hhead i) (h i)

theorem Family.mono (hf : Family L head ring active live) (hactive : ∀ i, active' i → active i)
    (hlive : ∀ x, live' x → live x) : Family L head ring active' live' where
  isRing i hi := hf.isRing i (hactive i hi)
  apart := hf.apart
  linked _ _ _ hx := hf.next_ne hx
  isolated x hx := hf.isolated x (hlive x hx)

theorem Family.of_live (hf : Family L head ring active live)
    (hlive : ∀ x, live' x → live x ∨ L.next x = x) : Family L head ring active live' where
  isRing := hf.isRing
  apart := hf.apart
  linked := hf.linked
  isolated x hx hout := (hlive x hx).elim (fun h => hf.isolated x h hout) id

theorem Family.eq_of_mem (hf : Family L head ring active live) (hi : x ∈ head i :: ring i)
    (hj : x ∈ head j :: ring j) : i = j := by
  by_contra hij
  exact hf.apart i j hij x hi hj

theorem Family.notMem_other (hf : Family L head ring active live)
    (hS : ∀ x ∈ S, x ∈ head i :: ring i ∨ ∀ j, x ∉ head j :: ring j) {j : ι} (hji : j ≠ i)
    (hx : x ∈ head j :: ring j) : x ∉ S := by
  intro hxS
  rcases hS x hxS with hi | hnone
  · exact hji (hf.eq_of_mem hx hi)
  · exact hnone j hx

theorem Family.activate (hf : Family L head ring active live) (hr : IsRing L (head k) (ring k)) :
    Family L head ring (fun j => active j ∨ j = k) live := by
  refine ⟨?_, hf.apart, fun _ _ _ hx => hf.next_ne hx, hf.isolated⟩
  rintro j (hj | rfl)
  · exact hf.isRing j hj
  · exact hr

variable [DecidableEq ι]

theorem origin_of_update (hp : ∀ x ∈ p, x ∈ ring i ∨ ∀ j, x ∉ head j :: ring j) {j : ι}
    (hx : x ∈ head j :: Function.update ring i p j) :
    x ∈ head j :: ring j ∨ j = i ∧ ∀ k, x ∉ head k :: ring k := by
  by_cases hji : j = i
  · subst hji
    rw [Function.update_self] at hx
    rcases List.mem_cons.mp hx with rfl | hx
    · exact Or.inl List.mem_cons_self
    · exact (hp x hx).imp (List.mem_cons_of_mem _) fun hnone => ⟨rfl, hnone⟩
  · rw [Function.update_of_ne hji] at hx
    exact Or.inl hx

theorem Family.update (hf : Family L head ring active live) (hs : SameOutside S L L')
    (hS : ∀ x ∈ S, x ∈ head i :: ring i ∨ ∀ j, x ∉ head j :: ring j)
    (hp : ∀ x ∈ p, x ∈ ring i ∨ ∀ j, x ∉ head j :: ring j)
    (hr : active i → IsRing L' (head i) p) (hlinked : ¬ active i → ∀ x ∈ p, L'.next x ≠ x)
    (hiso : ∀ x ∈ S, live x → x ∉ head i :: p → L'.next x = x)
    (hkeep : ∀ x ∈ ring i, x ∉ S → x ∈ p) :
    Family L' head (Function.update ring i p) active live := by
  have hself : Function.update ring i p i = p := Function.update_self ..
  have hother : ∀ {j}, j ≠ i → Function.update ring i p j = ring j := fun hj =>
    Function.update_of_ne hj ..
  constructor
  · intro j hj
    by_cases hji : j = i
    · subst hji
      rw [hself]
      exact hr hj
    · rw [hother hji]
      exact hs.isRing (hf.isRing j hj) fun x hx => hf.notMem_other hS hji hx
  · intro j k hjk x hx hx'
    rcases origin_of_update hp hx with hj | ⟨hji, hnone⟩
    · rcases origin_of_update hp hx' with hk | ⟨-, hnone⟩
      · exact hjk (hf.eq_of_mem hj hk)
      · exact hnone j hj
    · rcases origin_of_update hp hx' with hk | ⟨hki, -⟩
      · exact hnone k hk
      · exact hjk (hji.trans hki.symm)
  · intro j hj x hx
    by_cases hji : j = i
    · subst hji
      rw [hself] at hx
      exact hlinked hj x hx
    · rw [hother hji] at hx
      rw [(hs x (hf.notMem_other hS hji (List.mem_cons_of_mem (head j) hx))).1]
      exact hf.next_ne hx
  · intro x hx hout
    have hi := hout i
    rw [hself] at hi
    by_cases hxS : x ∈ S
    · exact hiso x hxS hx hi
    · rw [(hs x hxS).1]
      refine hf.isolated x hx fun j hj => ?_
      by_cases hji : j = i
      · subst hji
        rcases List.mem_cons.mp hj with rfl | hj
        · exact hi List.mem_cons_self
        · exact hi (List.mem_cons_of_mem _ (hkeep x hj hxS))
      · have := hout j
        rw [hother hji] at this
        exact this hj

theorem Family.relink (hf : Family L head ring active live) (hk : ¬ active k)
    (hs : SameOutside (head k :: ring k) L L') (hlinked : ∀ x ∈ ring k, L'.next x ≠ x) :
    Family L' head ring active live := by
  have hfamily := hf.update (p := ring k) hs (fun _ => Or.inl) (fun _ => Or.inl)
    (fun h => absurd h hk) (fun _ => hlinked) (fun x hx _ hout => absurd hx hout)
    fun x hx _ => hx
  rwa [Function.update_eq_self] at hfamily

theorem Family.forget (hf : Family L head ring active live) (hk : ¬ active k)
    (hlive : ∀ x ∈ ring k, ¬ live x) :
    Family L head (Function.update ring k []) active live := by
  refine hf.update (S := ring k) (SameOutside.refl _ L) ?_ ?_ (fun h => absurd h hk) ?_ ?_ ?_
  · exact fun x hx => Or.inl (List.mem_cons_of_mem _ hx)
  · exact fun x hx => absurd hx List.not_mem_nil
  · exact fun _ x hx => absurd hx List.not_mem_nil
  · exact fun x hx hl _ => absurd hl (hlive x hx)
  · exact fun x hx hout => absurd hx hout

/-! ### A ring in two parts -/

section Cut

variable (hik : i ≠ k) (hsplit : ring i = xs ++ ys)
include hik hsplit

theorem origin_of_cut {j : ι}
    (hx : x ∈ head j :: Function.update (Function.update ring i ys) k xs j) :
    x ∈ head j :: ring j ∧ (j = i → x ∈ head i :: ys) ∨ j = k ∧ x ∈ xs := by
  by_cases hjk : j = k
  · subst hjk
    rw [Function.update_self] at hx
    rcases List.mem_cons.mp hx with rfl | hx
    · exact Or.inl ⟨List.mem_cons_self, fun h => absurd h.symm hik⟩
    · exact Or.inr ⟨rfl, hx⟩
  · rw [Function.update_of_ne hjk] at hx
    by_cases hji : j = i
    · subst hji
      rw [Function.update_self] at hx
      refine Or.inl ⟨?_, fun _ => hx⟩
      rw [hsplit]
      simp only [List.mem_cons, List.mem_append] at hx ⊢
      tauto
    · rw [Function.update_of_ne hji] at hx
      exact Or.inl ⟨hx, fun h => absurd h hji⟩

theorem outside_of_cut (hk : ring k = [])
    (hout : ∀ j, x ∉ head j :: Function.update (Function.update ring i ys) k xs j) (j : ι) :
    x ∉ head j :: ring j := by
  intro hj
  have houtk := hout k
  rw [Function.update_self] at houtk
  by_cases hjk : j = k
  · subst hjk
    rw [hk] at hj
    simp only [List.mem_cons, List.not_mem_nil, or_false, not_or] at hj houtk
    exact houtk.1 hj
  · have houtj := hout j
    rw [Function.update_of_ne hjk] at houtj
    by_cases hji : j = i
    · subst hji
      rw [hsplit] at hj
      rw [Function.update_self] at houtj
      simp only [List.mem_cons, List.mem_append, not_or] at hj houtk houtj
      tauto
    · rw [Function.update_of_ne hji] at houtj
      exact houtj hj

end Cut

variable [DecidableEq α]

theorem SameOutside.link (hs : SameOutside S L L') (hx : x ∈ S) (hy : y ∈ S) :
    SameOutside S L (L'.link x y) := by
  intro z hz
  have hzx : z ≠ x := fun he => hz (he ▸ hx)
  have hzy : z ≠ y := fun he => hz (he ▸ hy)
  rw [link_next, link_prev, if_neg hzx, if_neg hzy]
  exact hs z hz

omit [DecidableEq ι] in
theorem Family.init (hf : Family L head ring active live) (hx : ∀ i, x ∉ head i :: ring i) :
    SameOutside [x] L (L.link x x) ∧
      Family (L.link x x) head ring active (fun y => live y ∨ y = x) := by
  have hne : ∀ {i y}, y ∈ head i :: ring i → y ∉ [x] := fun {i y} hy hyx =>
    hx i (List.mem_singleton.mp hyx ▸ hy)
  have hs := (SameOutside.refl [x] L).link (List.mem_singleton_self x) (List.mem_singleton_self x)
  refine ⟨hs, ⟨?_, hf.apart, ?_, ?_⟩⟩
  · exact fun i hi => hs.isRing (hf.isRing i hi) fun y => hne
  · intro i _ y hy
    rw [(hs y (hne (List.mem_cons_of_mem _ hy))).1]
    exact hf.next_ne hy
  · intro y hy hout
    by_cases hyx : y = x
    · rw [hyx, link_next, if_pos rfl]
    · rw [link_next, if_neg hyx]
      exact hf.isolated y (hy.resolve_right hyx) hout

theorem Family.remove (hf : Family L head ring active live) (hi : active i)
    (hsplit : ring i = l ++ x :: r) :
    SameOutside (head i :: ring i) L ((L.link (L.prev x) (L.next x)).link x x) ∧
      Family ((L.link (L.prev x) (L.next x)).link x x) head (Function.update ring i (l ++ r))
        active live := by
  have hr := hf.isRing i hi
  rw [hsplit] at hr
  have hx : x ∈ head i :: ring i := by rw [hsplit]; simp
  have hprev : L.prev x ∈ head i :: ring i := by
    rw [hr.prev_of_append, hsplit]
    have := getLastD_mem_cons (head i) l
    simp only [List.mem_cons, List.mem_append] at this ⊢
    tauto
  have hnext : L.next x ∈ head i :: ring i := by
    rw [hr.next_of_append, hsplit]
    have := headD_mem_cons (head i) r
    simp only [List.mem_cons, List.mem_append] at this ⊢
    tauto
  have hs := ((SameOutside.refl (head i :: ring i) L).link hprev hnext).link hx hx
  have hremoved := hr.remove
  rw [← hr.prev_of_append, ← hr.next_of_append] at hremoved
  refine ⟨hs, hf.update hs (fun _ => Or.inl) ?_ (fun _ => hremoved) (absurd hi) ?_ ?_⟩
  · intro y hy
    left
    rw [hsplit]
    simp only [List.mem_append, List.mem_cons] at hy ⊢
    tauto
  · intro y hy _ hout
    rw [hsplit] at hy
    have : y = x := by
      simp only [List.mem_append, List.mem_cons, not_or] at hy hout
      tauto
    rw [this, link_next, if_pos rfl]
  · intro y hy hout
    exact absurd (List.mem_cons_of_mem _ hy) hout

theorem Family.insert (hf : Family L head ring active live) (hi : active i)
    (hsplit : ring i = l ++ r) (hx : ∀ j, x ∉ head j :: ring j) :
    SameOutside (x :: head i :: ring i) L
        ((L.link x (r.headD (head i))).link (l.getLastD (head i)) x) ∧
      Family ((L.link x (r.headD (head i))).link (l.getLastD (head i)) x) head
        (Function.update ring i (l ++ x :: r)) active live := by
  have hr := hf.isRing i hi
  have hxi := hx i
  rw [hsplit] at hr hxi
  have hmem : ∀ y, y ∈ head i :: l ∨ y ∈ head i :: r → y ∈ x :: head i :: ring i := by
    intro y hy
    rw [hsplit]
    simp only [List.mem_cons, List.mem_append] at hy ⊢
    tauto
  have hs := ((SameOutside.refl (x :: head i :: ring i) L).link List.mem_cons_self
    (hmem _ (Or.inr (headD_mem_cons (head i) r)))).link
      (hmem _ (Or.inl (getLastD_mem_cons (head i) l))) List.mem_cons_self
  refine ⟨hs, hf.update hs ?_ ?_ (fun _ => hr.insert hxi) (absurd hi) ?_ ?_⟩
  · intro y hy
    rcases List.mem_cons.mp hy with rfl | hy
    · exact Or.inr hx
    · exact Or.inl hy
  · intro y hy
    rw [hsplit]
    rcases List.mem_append.mp hy with hy | hy
    · exact Or.inl (List.mem_append_left r hy)
    · rcases List.mem_cons.mp hy with rfl | hy
      · exact Or.inr hx
      · exact Or.inl (List.mem_append_right l hy)
  · intro y hy _ hout
    rw [hsplit] at hy
    simp only [List.mem_cons, List.mem_append, not_or] at hy hout
    tauto
  · intro y hy hout
    exact absurd (List.mem_cons_of_mem _ (List.mem_cons_of_mem _ hy)) hout

theorem Family.cut (hf : Family L head ring active live) (hi : active i) (hik : i ≠ k)
    (hsplit : ring i = xs ++ ys) (hk : ring k = []) :
    SameOutside (head i :: ring i) L (L.link (head i) (ys.headD (head i))) ∧
      Family (L.link (head i) (ys.headD (head i))) head
        (Function.update (Function.update ring i ys) k xs) (fun j => active j ∧ j ≠ k) live ∧
      Path (L.link (head i) (ys.headD (head i))) xs := by
  have hr := hf.isRing i hi
  rw [hsplit] at hr
  have hmem : ys.headD (head i) ∈ head i :: ring i := by
    rw [hsplit]
    have := headD_mem_cons (head i) ys
    simp only [List.mem_cons, List.mem_append] at this ⊢
    tauto
  have hs := (SameOutside.refl (head i :: ring i) L).link List.mem_cons_self hmem
  have hxs : ∀ x ∈ xs, x ∈ head i :: ring i ∧ x ∉ head i :: ys := by
    intro x hx
    rw [hsplit]
    exact hr.front hx
  refine ⟨hs, ⟨?_, ?_, ?_, ?_⟩, hr.cut.2⟩
  · rintro j ⟨hj, hjk⟩
    rw [Function.update_of_ne hjk]
    by_cases hji : j = i
    · subst hji
      rw [Function.update_self]
      exact hr.cut.1
    · rw [Function.update_of_ne hji]
      exact hs.isRing (hf.isRing j hj) fun x hx => hf.apart j i hji x hx
  · intro j j' hjj' x hx hx'
    rcases origin_of_cut hik hsplit hx with ⟨hold, hxi⟩ | ⟨hjk, hcut⟩
    · rcases origin_of_cut hik hsplit hx' with ⟨hold', -⟩ | ⟨-, hcut'⟩
      · exact hjj' (hf.eq_of_mem hold hold')
      · exact (hxs x hcut').2 (hxi (hf.eq_of_mem hold (hxs x hcut').1))
    · rcases origin_of_cut hik hsplit hx' with ⟨hold', hxi⟩ | ⟨hjk', -⟩
      · exact (hxs x hcut).2 (hxi (hf.eq_of_mem hold' (hxs x hcut).1))
      · exact hjj' (hjk.trans hjk'.symm)
  · intro j hj x hx
    by_cases hjk : j = k
    · subst hjk
      rw [Function.update_self] at hx
      have hxi : x ∈ ring i := by rw [hsplit]; exact List.mem_append_left ys hx
      have hhead : x ≠ head i := by
        rintro rfl
        exact (hxs _ hx).2 List.mem_cons_self
      rw [link_next, if_neg hhead]
      exact hf.next_ne hxi
    · have hji : j ≠ i := by
        rintro rfl
        exact hj ⟨hi, hjk⟩
      rw [Function.update_of_ne hjk, Function.update_of_ne hji] at hx
      rw [(hs x (hf.apart j i hji x (List.mem_cons_of_mem _ hx))).1]
      exact hf.next_ne hx
  · intro x hx hout
    have hold := outside_of_cut hik hsplit hk hout
    rw [(hs x (hold i)).1]
    exact hf.isolated x hx hold

end Family

end Rings
