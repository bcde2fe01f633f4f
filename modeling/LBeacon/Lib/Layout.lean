import LBeacon.Lib.Rings
import Mathlib.Logic.Function.Basic

/-!
# Layouts of rings

What a heap of disjoint rings stands for: the entries of each head, in order. An address that
is linked to itself is a head without entries. Every operation on the links is an operation on
these sequences, and the loop that saves its next entry is a fold over one of them.
-/

namespace Rings

/-- For each head, the entries of its ring. -/
abbrev Layout (α : Type) := α → Option (List α)

/-- The links hold the rings of `S`, which share no address. -/
structure Laid {α : Type} (L : Links α) (S : Layout α) : Prop where
  isRing : ∀ h xs, S h = some xs → IsRing L h xs
  apart : ∀ h xs k ys, S h = some xs → S k = some ys → h ≠ k → ∀ x ∈ h :: xs, x ∉ k :: ys

/-- `x` is in no ring but its own, which has no entries. -/
def Layout.Loose {α : Type} (S : Layout α) (x : α) : Prop :=
  ∀ k ys, S k = some ys → x ∈ k :: ys → k = x ∧ ys = []

section Reading

variable {α : Type} {L L' : Links α} {S S' : Layout α} {h k x : α} {l r xs ys T : List α}

theorem IsRing.rotate (hr : IsRing L h (l ++ x :: r)) : IsRing L x (r ++ h :: l) := by
  have hn := hr.nodup
  have hp : Path L ((h :: l) ++ x :: (r ++ [h])) := by simpa using hr.path
  obtain ⟨hleft, hright⟩ := path_split.mp hp
  constructor
  · have hperm : (x :: (r ++ h :: l)).Perm (h :: (l ++ x :: r)) := by
      have : (x :: r ++ h :: l).Perm (h :: l ++ x :: r) := List.perm_append_comm
      simpa using this
    exact hperm.nodup_iff.mpr hn
  · have hlist : x :: (r ++ h :: l) ++ [x] = (x :: r) ++ h :: (l ++ [x]) := by simp
    rw [hlist]
    exact path_split.mpr ⟨by simpa using hright, by simpa using hleft⟩

theorem Laid.eq_of_mem (hl : Laid L S) (hh : S h = some xs) (hk : S k = some ys)
    (hx : x ∈ h :: xs) (hx' : x ∈ k :: ys) : h = k := by
  by_contra hne
  exact hl.apart h xs k ys hh hk hne x hx hx'

theorem IsRing.next_mem (hr : IsRing L h xs) (hx : x ∈ h :: xs) : L.next x ∈ h :: xs := by
  rcases List.mem_cons.mp hx with rfl | hx
  · rw [hr.next_head]
    exact headD_mem_cons x xs
  · obtain ⟨l, r, rfl⟩ := List.append_of_mem hx
    rw [hr.next_of_append]
    have := headD_mem_cons h r
    simp only [List.mem_cons, List.mem_append] at this ⊢
    tauto

theorem IsRing.prev_mem (hr : IsRing L h xs) (hx : x ∈ h :: xs) : L.prev x ∈ h :: xs := by
  rcases List.mem_cons.mp hx with rfl | hx
  · rw [hr.prev_head]
    exact getLastD_mem_cons x xs
  · obtain ⟨l, r, rfl⟩ := List.append_of_mem hx
    rw [hr.prev_of_append]
    have := getLastD_mem_cons h l
    simp only [List.mem_cons, List.mem_append] at this ⊢
    tauto

theorem Laid.ne_of_mem (hl : Laid L S) (hh : S h = some xs) (hx : x ∈ xs) : x ≠ h := by
  rintro rfl
  exact (List.nodup_cons.mp (hl.isRing x xs hh).nodup).1 hx

theorem Laid.none_of_mem (hl : Laid L S) (hh : S h = some xs) (hx : x ∈ xs) : S x = none := by
  rcases hk : S x with _ | ys
  · rfl
  · have hxh := hl.eq_of_mem hk hh List.mem_cons_self (List.mem_cons_of_mem h hx)
    have := (hl.isRing h xs hh).nodup
    rw [hxh] at hx
    exact absurd hx (List.nodup_cons.mp this).1

theorem Layout.Loose.update_nil [DecidableEq α] (hx : S.Loose x) (hne : x ≠ h) :
    Layout.Loose (Function.update S h (some [])) x := by
  intro k ys hk hm
  by_cases hkh : k = h
  · rw [hkh, Function.update_self, Option.some.injEq] at hk
    rw [← hk, hkh, List.mem_singleton] at hm
    exact absurd hm hne
  · rw [Function.update_of_ne hkh] at hk
    exact hx k ys hk hm

theorem Laid.loose_of_alone (hl : Laid L S) (hx : S x = some []) : S.Loose x := by
  intro k ys hk hm
  obtain rfl := hl.eq_of_mem hk hx hm List.mem_cons_self
  rw [hx, Option.some.injEq] at hk
  exact ⟨rfl, hk.symm⟩

theorem Laid.replace (hl : Laid L S) (hs : SameOutside T L L')
    (hS : ∀ k ys, S' k = some ys →
      S k = some ys ∧ (∀ x ∈ k :: ys, x ∉ T) ∨ IsRing L' k ys ∧ ∀ x ∈ k :: ys, x ∈ T)
    (hnew : ∀ h xs k ys, S' h = some xs → S' k = some ys → h ∈ T → k ∈ T → h ≠ k →
      ∀ x ∈ h :: xs, x ∉ k :: ys) : Laid L' S' := by
  constructor
  · intro k ys hk
    rcases hS k ys hk with ⟨hold, hout⟩ | ⟨hring, -⟩
    · exact hs.isRing (hl.isRing k ys hold) hout
    · exact hring
  · intro h xs k ys hh hk hne x hx hx'
    rcases hS h xs hh with ⟨hold, hout⟩ | ⟨-, hin⟩
    · rcases hS k ys hk with ⟨hold', -⟩ | ⟨-, hin'⟩
      · exact hl.apart h xs k ys hold hold' hne x hx hx'
      · exact hout x hx (hin' x hx')
    · rcases hS k ys hk with ⟨-, hout'⟩ | ⟨-, hin'⟩
      · exact hout' x hx' (hin x hx)
      · exact hnew h xs k ys hh hk (hin h List.mem_cons_self) (hin' k List.mem_cons_self) hne x
          hx hx'

theorem Laid.replace_one (hl : Laid L S) (hs : SameOutside T L L') (hring : IsRing L' h xs)
    (hT : ∀ y ∈ h :: xs, y ∈ T) (hh : S' h = some xs)
    (hold : ∀ k ys, S' k = some ys → k ≠ h → S k = some ys ∧ ∀ y ∈ k :: ys, y ∉ T) :
    Laid L' S' := by
  refine hl.replace hs ?_ ?_
  · intro k ys hk
    by_cases hkh : k = h
    · rw [hkh, hh, Option.some.injEq] at hk
      rw [hkh, ← hk]
      exact Or.inr ⟨hring, hT⟩
    · exact Or.inl (hold k ys hk hkh)
  · have honly : ∀ k ys, S' k = some ys → k ∈ T → k = h := by
      intro k ys hk hin
      by_contra hkh
      exact (hold k ys hk hkh).2 k List.mem_cons_self hin
    intro k ys k' ys' hk hk' hin hin' hne
    exact absurd ((honly k ys hk hin).trans (honly k' ys' hk' hin').symm) hne

theorem Laid.replace_two (hl : Laid L S) (hs : SameOutside T L L') (hring : IsRing L' h xs)
    (hring' : IsRing L' x ys) (hT : ∀ y ∈ h :: xs, y ∈ T) (hT' : ∀ y ∈ x :: ys, y ∈ T)
    (hdisj : ∀ y ∈ h :: xs, y ∉ x :: ys) (hh : S' h = some xs) (hx : S' x = some ys)
    (hold : ∀ k zs, S' k = some zs → k ≠ h → k ≠ x → S k = some zs ∧ ∀ y ∈ k :: zs, y ∉ T) :
    Laid L' S' := by
  have hin : ∀ k zs, S' k = some zs → k ∈ T → k = h ∧ zs = xs ∨ k = x ∧ zs = ys := by
    intro k zs hk hmem
    by_cases hkh : k = h
    · rw [hkh, hh, Option.some.injEq] at hk
      exact Or.inl ⟨hkh, hk.symm⟩
    · by_cases hkx : k = x
      · rw [hkx, hx, Option.some.injEq] at hk
        exact Or.inr ⟨hkx, hk.symm⟩
      · exact absurd hmem ((hold k zs hk hkh hkx).2 k List.mem_cons_self)
  refine hl.replace hs ?_ ?_
  · intro k zs hk
    by_cases hmem : k ∈ T
    · rcases hin k zs hk hmem with ⟨rfl, rfl⟩ | ⟨rfl, rfl⟩
      · exact Or.inr ⟨hring, hT⟩
      · exact Or.inr ⟨hring', hT'⟩
    · refine Or.inl (hold k zs hk ?_ ?_)
      · rintro rfl
        exact hmem (hT k List.mem_cons_self)
      · rintro rfl
        exact hmem (hT' k List.mem_cons_self)
  · intro k zs k' zs' hk hk' hmem hmem' hne y hy hy'
    rcases hin k zs hk hmem with ⟨rfl, rfl⟩ | ⟨rfl, rfl⟩
    · rcases hin k' zs' hk' hmem' with ⟨rfl, rfl⟩ | ⟨rfl, rfl⟩
      · exact hne rfl
      · exact hdisj y hy hy'
    · rcases hin k' zs' hk' hmem' with ⟨rfl, rfl⟩ | ⟨rfl, rfl⟩
      · exact hdisj y hy' hy
      · exact hne rfl

theorem Layout.of_update [DecidableEq α] {y : List α} {S : Layout α}
    (hk : Function.update (Function.update S x none) h (some y) k = some ys) (hkh : k ≠ h) :
    k ≠ x ∧ S k = some ys := by
  rw [Function.update_of_ne hkh] at hk
  have hkx : k ≠ x := by
    rintro rfl
    simp at hk
  rw [Function.update_of_ne hkx] at hk
  exact ⟨hkx, hk⟩

end Reading

section Writing

variable {α : Type} [DecidableEq α] {L L' : Links α} {S : Layout α} {h k x : α}
  {l r xs ys : List α}

/-! ## Single writes -/

def Links.setNext (L : Links α) (a b : α) : Links α :=
  { L with next := fun x => if x = a then b else L.next x }

def Links.setPrev (L : Links α) (a b : α) : Links α :=
  { L with prev := fun x => if x = a then b else L.prev x }

@[simp] theorem setNext_next (L : Links α) (a b x : α) :
    (L.setNext a b).next x = if x = a then b else L.next x := rfl

@[simp] theorem setNext_prev (L : Links α) (a b : α) : (L.setNext a b).prev = L.prev := rfl

@[simp] theorem setPrev_next (L : Links α) (a b : α) : (L.setPrev a b).next = L.next := rfl

@[simp] theorem setPrev_prev (L : Links α) (a b x : α) :
    (L.setPrev a b).prev x = if x = a then b else L.prev x := rfl

/-! ## Operations -/

theorem Laid.init (hl : Laid L S) (hx : S.Loose x) :
    Laid (L.link x x) (Function.update S x (some [])) := by
  have hs : SameOutside [x] L (L.link x x) :=
    (SameOutside.refl [x] L).link (List.mem_singleton_self x) (List.mem_singleton_self x)
  refine hl.replace_one hs (isRing_init L x) (fun y hy => hy) (Function.update_self ..) ?_
  intro k ys hk hkx
  rw [Function.update_of_ne hkx] at hk
  refine ⟨hk, fun y hy hyx => ?_⟩
  rw [List.mem_singleton.mp hyx] at hy
  exact hkx (hx k ys hk hy).1

theorem Laid.insert (hl : Laid L S) (hh : S h = some (l ++ r)) (hx : S.Loose x) (hne : x ≠ h) :
    Laid ((L.link x (r.headD h)).link (l.getLastD h) x)
      (Function.update (Function.update S x none) h (some (l ++ x :: r))) := by
  have hr := hl.isRing h _ hh
  have hout : x ∉ h :: (l ++ r) := fun hm => hne (hx h _ hh hm).1.symm
  have hlast := getLastD_mem_cons h l
  have hhead := headD_mem_cons h r
  have hs : SameOutside (h :: (l ++ x :: r)) L
      ((L.link x (r.headD h)).link (l.getLastD h) x) := by
    refine ((SameOutside.refl _ L).link (by simp) ?_).link ?_ (by simp)
    · simp only [List.mem_cons, List.mem_append] at hhead ⊢
      tauto
    · simp only [List.mem_cons, List.mem_append] at hlast ⊢
      tauto
  refine hl.replace_one hs (hr.insert hout) (fun y hy => hy) (Function.update_self ..) ?_
  intro k ys hk hkh
  obtain ⟨hkx, hk⟩ := Layout.of_update hk hkh
  refine ⟨hk, fun y hy hy' => ?_⟩
  by_cases hyx : y = x
  · rw [hyx] at hy
    exact hkx (hx k ys hk hy).1
  · refine hl.apart k ys h _ hk hh hkh y hy ?_
    simp only [List.mem_cons, List.mem_append] at hy' ⊢
    tauto

theorem Laid.remove (hl : Laid L S) (hh : S h = some (l ++ x :: r)) :
    Laid ((L.link (L.prev x) (L.next x)).link x x)
      (Function.update (Function.update S h (some (l ++ r))) x (some [])) := by
  have hr := hl.isRing h _ hh
  have hxh : x ≠ h := hl.ne_of_mem hh (by simp)
  have hremoved := hr.remove
  rw [← hr.prev_of_append, ← hr.next_of_append] at hremoved
  have hx : x ∈ h :: (l ++ x :: r) := by simp
  have hs : SameOutside (h :: (l ++ x :: r)) L ((L.link (L.prev x) (L.next x)).link x x) := by
    refine ((SameOutside.refl _ L).link ?_ ?_).link hx hx
    · rw [hr.prev_of_append]
      have := getLastD_mem_cons h l
      simp only [List.mem_cons, List.mem_append] at this ⊢
      tauto
    · rw [hr.next_of_append]
      have := headD_mem_cons h r
      simp only [List.mem_cons, List.mem_append] at this ⊢
      tauto
  have hkept : Function.update (Function.update S h (some (l ++ r))) x (some []) h =
      some (l ++ r) := by
    rw [Function.update_of_ne (Ne.symm hxh), Function.update_self]
  refine hl.replace_two hs hremoved (isRing_init _ x) (fun y hy => ?_) (fun y hy => ?_)
    (fun y hy hyx => ?_) hkept (Function.update_self ..) (fun k ys hk hkh hkx => ?_)
  · simp only [List.mem_cons, List.mem_append] at hy ⊢
    tauto
  · rw [List.mem_singleton.mp hy]
    exact hx
  · have hout : x ∉ h :: (l ++ r) := by
      have := hr.nodup
      simp [List.nodup_append] at this ⊢
      grind
    exact hout (List.mem_singleton.mp hyx ▸ hy)
  · rw [Function.update_of_ne hkx, Function.update_of_ne hkh] at hk
    exact ⟨hk, hl.apart k ys h _ hk hh hkh⟩

theorem path_snoc_link (hp : Path L (k :: ys)) (hn : (k :: ys).Nodup) (hx : x ∉ ys) :
    Path (L.link (ys.getLastD k) x) (k :: ys ++ [x]) := by
  have hleft := path_frame_last hn hp hx
  rcases List.eq_nil_or_concat' ys with rfl | ⟨ys', y, rfl⟩
  · exact path_pair.mpr (linked_link _ _ _)
  · have hlist : k :: (ys' ++ [y]) ++ [x] = (k :: ys') ++ y :: [x] := by simp
    rw [hlist]
    refine path_split.mpr ⟨by simpa using hleft, path_pair.mpr ?_⟩
    simpa using linked_link L y x

theorem IsRing.append (hr : IsRing L h xs) (hk : IsRing L k ys)
    (hdisj : ∀ x ∈ h :: xs, x ∉ k :: ys) :
    IsRing ((L.link (xs.getLastD h) k).link (ys.getLastD k) h) h (xs ++ k :: ys) := by
  have hn := hr.nodup
  have hn' := hk.nodup
  have hlast := getLastD_mem_cons h xs
  have hlast' := getLastD_mem_cons k ys
  have hp : Path L (h :: xs) := path_left hr.path
  have hp' : Path L (k :: ys) := path_left hk.path
  refine isRing_join ?_ ?_ ?_ ?_
  · rw [← List.cons_append]
    exact List.nodup_append.mpr ⟨hn, hn', fun x hx y hy he => hdisj x hx (he ▸ hy)⟩
  · refine path_frame (path_frame_last hn hp ?_) ?_ ?_
    · exact fun hm => hdisj k (List.mem_cons_of_mem h hm) List.mem_cons_self
    · exact fun hm => hdisj _ (List.dropLast_subset _ hm) hlast'
    · exact (List.nodup_cons.mp hn).1
  · refine path_snoc_link ?_ hn' ?_
    · refine path_frame hp' ?_ (List.nodup_cons.mp hn').1
      exact fun hm => hdisj _ hlast (List.dropLast_subset _ hm)
    · exact fun hm => hdisj h List.mem_cons_self (List.mem_cons_of_mem k hm)
  · refine linked_frame (linked_link _ _ _) ?_ ?_
    · exact fun he => hdisj _ hlast (he ▸ hlast')
    · exact fun he => hdisj h List.mem_cons_self (he ▸ List.mem_cons_self)

theorem Laid.append (hl : Laid L S) (hh : S h = some xs) (hk : S k = some ys) (hne : h ≠ k) :
    Laid ((L.link (xs.getLastD h) k).link (ys.getLastD k) h)
      (Function.update (Function.update S k none) h (some (xs ++ k :: ys))) := by
  have hring := (hl.isRing h xs hh).append (hl.isRing k ys hk) (hl.apart h xs k ys hh hk hne)
  have hlast := getLastD_mem_cons h xs
  have hlast' := getLastD_mem_cons k ys
  have hs : SameOutside (h :: (xs ++ k :: ys)) L
      ((L.link (xs.getLastD h) k).link (ys.getLastD k) h) := by
    refine ((SameOutside.refl _ L).link ?_ (by simp)).link ?_ (by simp)
    · simp only [List.mem_cons, List.mem_append] at hlast ⊢
      tauto
    · simp only [List.mem_cons, List.mem_append] at hlast' ⊢
      tauto
  refine hl.replace_one hs hring (fun z hz => hz) (Function.update_self ..) ?_
  intro i zs hi hih
  obtain ⟨hik, hi⟩ := Layout.of_update hi hih
  refine ⟨hi, fun z hz hz' => ?_⟩
  rw [← List.cons_append] at hz'
  rcases List.mem_append.mp hz' with hz' | hz'
  · exact hl.apart i zs h xs hi hh hih z hz hz'
  · exact hl.apart i zs k ys hi hk hik z hz hz'

theorem Laid.rotate (hl : Laid L S) (hh : S h = some (l ++ x :: r)) :
    Laid L (Function.update (Function.update S h none) x (some (r ++ h :: l))) := by
  have hmem : ∀ y, y ∈ x :: (r ++ h :: l) ↔ y ∈ h :: (l ++ x :: r) := by
    intro y
    simp only [List.mem_cons, List.mem_append]
    tauto
  refine hl.replace_one (SameOutside.refl (h :: (l ++ x :: r)) L) (hl.isRing h _ hh).rotate
    (fun y => (hmem y).mp) (Function.update_self ..) ?_
  intro k ys hk hkx
  obtain ⟨hkh, hk⟩ := Layout.of_update hk hkx
  exact ⟨hk, hl.apart k ys h _ hk hh hkh⟩

end Writing

/-! ## The loop that saves its next entry -/

section Walk

variable {α σ : Type} [DecidableEq α]

/-- `pos` is handed to `body`, whose effect on the entry saved in `n` no longer matters. -/
def forEachSafe (links : σ → Links α) (body : α → σ → σ) (h : α) :
    Nat → α → α → σ → Option σ
  | 0, _, _, _ => none
  | fuel + 1, pos, n, s =>
    if pos = h then some s
    else
      let s := body pos s
      forEachSafe links body h fuel n ((links s).next n) s

variable {links : σ → Links α} {body : α → σ → σ} {h : α} {xs : List α}

/-- `next` leads from the first of `rest` through all of them, each once, and then to `h`. -/
structure Leads (L : Links α) (h : α) (rest : List α) : Prop where
  nodup : (h :: rest).Nodup
  chain : (rest ++ [h]).IsChain fun x y => L.next x = y

section

omit [DecidableEq α]

variable {L L' : Links α} {x pos : α} {l rest : List α}

theorem Path.leads (hp : Path L (rest ++ [h])) (hn : (h :: rest).Nodup) : Leads L h rest :=
  ⟨hn, List.IsChain.imp (fun _ _ hl => hl.1) hp⟩

theorem IsRing.leads (hr : IsRing L h (l ++ rest)) : Leads L h rest := by
  have hp : Path L ((h :: l) ++ (rest ++ [h])) := by simpa using hr.path
  refine Path.leads (path_right hp) (hr.nodup.sublist ?_)
  exact (List.sublist_append_right l rest).cons_cons h

theorem Leads.next (hl : Leads L h (x :: rest)) : L.next x = rest.headD h := by
  have hchain := hl.chain
  cases rest with
  | nil => simpa using hchain
  | cons y rest => exact (List.isChain_cons_cons.mp hchain).1

theorem Leads.tail (hl : Leads L h (x :: rest)) : Leads L h rest :=
  ⟨hl.nodup.sublist ((List.sublist_cons_self x rest).cons_cons h),
    hl.chain.tail⟩

theorem Leads.keep (hl : Leads L h rest) (hnext : ∀ y ∈ rest, L'.next y = L.next y) :
    Leads L' h rest := by
  induction rest with
  | nil => exact ⟨hl.nodup, List.isChain_singleton h⟩
  | cons x rest ih =>
    have hx := (hnext x List.mem_cons_self).trans hl.next
    have htail := ih hl.tail fun y hy => hnext y (List.mem_cons_of_mem x hy)
    refine ⟨hl.nodup, ?_⟩
    cases rest with
    | nil => exact List.isChain_pair.mpr hx
    | cons y rest => exact List.isChain_cons_cons.mpr ⟨hx, htail.chain⟩

theorem Leads.next_eq (hl : Leads L h rest) (hl' : Leads L' h rest) :
    ∀ y ∈ rest, L'.next y = L.next y := by
  induction rest with
  | nil => exact fun y hy => absurd hy List.not_mem_nil
  | cons x rest ih =>
    refine List.forall_mem_cons.mpr ⟨?_, ih hl.tail hl'.tail⟩
    rw [hl.next, hl'.next]

/-! ### The position in a walk -/

/-- The walk is at `pos`, the first of `rest`, or at `h` where nothing is ahead. -/
structure Walks (L : Links α) (h : α) (rest : List α) (pos : α) : Prop where
  leads : Leads L h rest
  pos_eq : pos = rest.headD h

theorem IsRing.walks (hr : IsRing L h xs) : Walks L h xs (L.next h) :=
  ⟨IsRing.leads (l := []) hr, hr.next_head⟩

theorem Walks.nil (hw : Walks L h [] pos) : pos = h := hw.pos_eq

theorem Walks.cons (hw : Walks L h (x :: rest) pos) :
    pos = x ∧ pos ≠ h ∧ Walks L h rest (L.next pos) := by
  obtain rfl : pos = x := hw.pos_eq
  have hne : pos ≠ h := fun heq => (List.nodup_cons.mp hw.leads.nodup).1 (heq ▸ List.mem_cons_self)
  exact ⟨rfl, hne, hw.leads.tail, hw.leads.next⟩

theorem Walks.keep (hw : Walks L h rest pos) (hnext : ∀ y ∈ rest, L'.next y = L.next y) :
    Walks L' h rest pos := ⟨hw.leads.keep hnext, hw.pos_eq⟩

end

/-! ### The loop -/

/-- What the body may do at `pos`: whatever it writes, `next` of the entries that are still ahead is
kept. `I` says what else is known, with these entries ahead. -/
def KeepsAhead (links : σ → Links α) (body : α → σ → σ) (h : α) (I : List α → σ → Prop) : Prop :=
  ∀ pos rest s, I (pos :: rest) s → Leads (links s) h (pos :: rest) →
    I rest (body pos s) ∧ ∀ y ∈ rest, (links (body pos s)).next y = (links s).next y

variable {I : List α → σ → Prop}

omit [DecidableEq α] in
/-- The current entry may be used again where it is. -/
theorem KeepsAhead.of_sameOutside
    (hbody : ∀ pos rest s, I (pos :: rest) s →
      I rest (body pos s) ∧ SameOutside [pos] (links s) (links (body pos s))) :
    KeepsAhead links body h I := by
  intro pos rest s hI hl
  obtain ⟨hI', hs⟩ := hbody pos rest s hI
  refine ⟨hI', fun y hy => (hs y ?_).1⟩
  rintro hmem
  obtain rfl := List.mem_singleton.mp hmem
  exact (List.nodup_cons.mp (List.nodup_cons.mp hl.nodup).2).1 hy

omit [DecidableEq α] in
/-- It may be taken out, and the ring that is left may be any that ends in what is ahead. -/
theorem KeepsAhead.of_isRing
    (hbody : ∀ kept pos rest s, I (pos :: rest) s → IsRing (links s) h (kept ++ pos :: rest) →
      I rest (body pos s) ∧ ∃ kept', IsRing (links (body pos s)) h (kept' ++ rest)) :
    KeepsAhead links body h fun rest s => I rest s ∧ ∃ kept, IsRing (links s) h (kept ++ rest) := by
  rintro pos rest s ⟨hI, kept, hr⟩ hl
  obtain ⟨hI', kept', hr'⟩ := hbody kept pos rest s hI hr
  exact ⟨⟨hI', kept', hr'⟩, hl.tail.next_eq hr'.leads⟩

theorem forEachSafe_rule_from (hbody : KeepsAhead links body h I) (rest : List α) :
    ∀ fuel s pos, rest.length < fuel → I rest s → Walks (links s) h rest pos →
      forEachSafe links body h fuel pos ((links s).next pos) s =
          some (rest.foldl (fun s x => body x s) s) ∧
        I [] (rest.foldl (fun s x => body x s) s) := by
  induction rest with
  | nil =>
    intro fuel s pos hfuel hI hw
    obtain ⟨fuel, rfl⟩ := Nat.exists_eq_succ_of_ne_zero (by omega : fuel ≠ 0)
    refine ⟨?_, hI⟩
    rw [forEachSafe, if_pos hw.nil]
    rfl
  | cons x rest ih =>
    intro fuel s pos hfuel hI hw
    obtain ⟨fuel, rfl⟩ := Nat.exists_eq_succ_of_ne_zero (by omega : fuel ≠ 0)
    rw [List.length_cons] at hfuel
    obtain ⟨hI', hnext⟩ := hbody x rest s hI hw.leads
    obtain ⟨rfl, hne, hw'⟩ := hw.cons
    rw [forEachSafe, if_neg hne]
    exact ih fuel (body pos s) _ (by omega) hI' (hw'.keep hnext)

/-- The rule for the loop: every entry of the ring as it was is handed over once, in order. -/
theorem forEachSafe_rule (hbody : KeepsAhead links body h I) {s : σ} {fuel : Nat}
    (hr : IsRing (links s) h xs) (hI : I xs s) (hfuel : xs.length < fuel) :
    forEachSafe links body h fuel ((links s).next h) ((links s).next ((links s).next h)) s =
        some (xs.foldl (fun s x => body x s) s) ∧
      I [] (xs.foldl (fun s x => body x s) s) :=
  forEachSafe_rule_from hbody xs fuel s _ hfuel hI hr.walks

end Walk

end Rings
