import LBeacon.LinkedList

/-!
# Sorting the priority list

`sort_priority_list` takes every entry out of the ring, into one of four rings whose heads are
on its stack, and appends these rings one after the other.
-/

open Rings

namespace LBeacon

inductive PriorityClass where
  | critical
  | high
  | normal
  | low
  deriving DecidableEq

/-- The fields of the common configuration that the sort reads. -/
structure PriorityConfig where
  timeCriticalPriority : Int
  highPriority : Int
  normalPriority : Int
  lowPriority : Int

section

variable {α : Type} [DecidableEq α]

/-! ## sort_priority_list -/

/-- The body of the loop. `heads` are the four local heads, and `priorityNice` reads the field of
the list that an entry belongs to. -/
def sortEntry (config : PriorityConfig) (priorityNice : α → Int) (heads : PriorityClass → α)
    (listPointer : α) (L : Links α) : Links α :=
  let L := removeListNode L listPointer
  if priorityNice listPointer = config.timeCriticalPriority then
    insertListTail L listPointer (heads .critical)
  else if priorityNice listPointer = config.highPriority then
    insertListTail L listPointer (heads .high)
  else if priorityNice listPointer = config.normalPriority then
    insertListTail L listPointer (heads .normal)
  else if priorityNice listPointer = config.lowPriority then
    insertListTail L listPointer (heads .low)
  else L

/-- What is done for each local head once the loop is over. -/
def appendClass (head priorityListEntry : α) (L : Links α) : Links α :=
  if isEntryListEmpty L head = false then
    let listPointer := L.next head
    let L := removeListNode L (L.prev listPointer)
    concatList L priorityListEntry listPointer
  else L

def initHeads (heads : PriorityClass → α) (L : Links α) : Links α :=
  let L := initEntry L (heads .critical)
  let L := initEntry L (heads .high)
  let L := initEntry L (heads .normal)
  initEntry L (heads .low)

def sortPriorityList (config : PriorityConfig) (priorityNice : α → Int)
    (heads : PriorityClass → α) (priorityListEntry : α) (fuel : Nat) (L : Links α) :
    Option (Links α) :=
  let L := initHeads heads L
  match listForEachSafe id (sortEntry config priorityNice heads) priorityListEntry fuel L with
  | none => none
  | some L =>
    let L := appendClass (heads .critical) priorityListEntry L
    let L := appendClass (heads .high) priorityListEntry L
    let L := appendClass (heads .normal) priorityListEntry L
    some (appendClass (heads .low) priorityListEntry L)

/-! ## Classes -/

def PriorityConfig.value (config : PriorityConfig) : PriorityClass → Int
  | .critical => config.timeCriticalPriority
  | .high => config.highPriority
  | .normal => config.normalPriority
  | .low => config.lowPriority

/-- The first class whose value is `nice`. -/
def PriorityConfig.classOf (config : PriorityConfig) (nice : Int) : Option PriorityClass :=
  [.critical, .high, .normal, .low].find? fun c => nice = config.value c

theorem PriorityConfig.classOf_ne_none {config : PriorityConfig} {nice : Int}
    (hc : ∃ c, nice = config.value c) : config.classOf nice ≠ none := by
  obtain ⟨c, hc⟩ := hc
  unfold PriorityConfig.classOf
  rw [ne_eq, List.find?_eq_none]
  intro hnone
  exact hnone c (by cases c <;> simp) (by simp [hc])

/-- The entries counted in the class `c`, in their order. -/
def inClass (config : PriorityConfig) (priorityNice : α → Int) (c : PriorityClass)
    (xs : List α) : List α :=
  xs.filter fun x => config.classOf (priorityNice x) = some c

variable {config : PriorityConfig} {priorityNice : α → Int} {heads : PriorityClass → α}
  {L L' : Links α} {S : Rings.Layout α} {h x : α} {xs ys rest : List α} {c : PriorityClass}

theorem sortEntry_eq (hc : config.classOf (priorityNice x) = some c) :
    sortEntry config priorityNice heads x L =
      insertListTail (removeListNode L x) x (heads c) := by
  unfold sortEntry
  unfold PriorityConfig.classOf at hc
  simp only [List.find?_cons, PriorityConfig.value] at hc
  grind

omit [DecidableEq α] in
theorem inClass_append_singleton (hc : config.classOf (priorityNice x) = some c)
    (d : PriorityClass) : inClass config priorityNice d (xs ++ [x]) =
      if d = c then inClass config priorityNice c xs ++ [x]
      else inClass config priorityNice d xs := by
  unfold inClass
  rw [List.filter_append]
  split
  next hd => simp [hd, hc]
  next hd => simp [hc, Ne.symm hd]

/-- All entries, class by class. -/
def byClass (config : PriorityConfig) (priorityNice : α → Int) (xs : List α) : List α :=
  inClass config priorityNice .critical xs ++ inClass config priorityNice .high xs ++
    inClass config priorityNice .normal xs ++ inClass config priorityNice .low xs

omit [DecidableEq α] in
theorem byClass_perm (hxs : ∀ x ∈ xs, config.classOf (priorityNice x) ≠ none) :
    (byClass config priorityNice xs).Perm xs := by
  induction xs with
  | nil => exact List.Perm.refl []
  | cons x xs ih =>
    obtain ⟨c, hc⟩ := Option.ne_none_iff_exists'.mp (hxs x List.mem_cons_self)
    have hrest := ih fun y hy => hxs y (List.mem_cons_of_mem x hy)
    refine List.Perm.trans ?_ (hrest.cons x)
    have hmid : ∀ l r : List α, (l ++ (x :: r)).Perm (x :: (l ++ r)) := fun l r =>
      List.perm_middle
    have hx : ∀ d, inClass config priorityNice d (x :: xs) =
        if d = c then x :: inClass config priorityNice d xs
        else inClass config priorityNice d xs := by
      intro d
      simp only [inClass, List.filter_cons, hc, Option.some.injEq, decide_eq_true_eq, @eq_comm _ d]
    unfold byClass
    -- `x` stands in front of its class, behind the classes before.
    cases c <;> simp only [hx, reduceCtorEq, if_true, if_false, List.append_assoc]
    · exact List.Perm.refl _
    · exact hmid _ _
    · simpa using hmid (inClass config priorityNice .critical xs ++
        inClass config priorityNice .high xs) (inClass config priorityNice .normal xs ++
        inClass config priorityNice .low xs)
    · simpa using hmid (inClass config priorityNice .critical xs ++
        (inClass config priorityNice .high xs ++ inClass config priorityNice .normal xs))
        (inClass config priorityNice .low xs)

/-! ## The sort on the layout -/

/-- Halfway: `rest` is left in the ring and each local ring has its part. No other ring has
changed. -/
def Sorting (S : Rings.Layout α) (h : α) (heads : PriorityClass → α) (L : Links α) (rest : List α)
    (part : PriorityClass → List α) : Prop :=
  ∃ S' : Rings.Layout α, Laid L S' ∧ S' h = some rest ∧ (∀ c, S' (heads c) = some (part c)) ∧
    ∀ k, k ≠ h → (∀ c, k ≠ heads c) → S' k = S k

/-- The local heads are apart from each other and from all rings. -/
structure LocalHeads (S : Rings.Layout α) (heads : PriorityClass → α) : Prop where
  injective : Function.Injective heads
  fresh : ∀ c k ys, S k = some ys → heads c ∉ k :: ys

omit [DecidableEq α] in
theorem LocalHeads.ne (hf : LocalHeads S heads) (hh : S h = some xs) (c : PriorityClass) :
    heads c ≠ h := fun he => hf.fresh c h xs hh (he ▸ List.mem_cons_self)

omit [DecidableEq α] in
theorem LocalHeads.ne_of_mem (hf : LocalHeads S heads) (hh : S h = some xs) (hx : x ∈ xs)
    (c : PriorityClass) : x ≠ heads c := by
  rintro rfl
  exact hf.fresh c h xs hh (List.mem_cons_of_mem h hx)

theorem sorting_start (hl : Laid L S) (hh : S h = some xs) (hf : LocalHeads S heads) :
    Sorting S h heads (initHeads heads L) xs fun _ => [] := by
  have hloose : ∀ c, S.Loose (heads c) := fun c k ys hk hm => absurd hm (hf.fresh c k ys hk)
  have hne : ∀ {c d}, c ≠ d → heads c ≠ heads d := fun hcd he => hcd (hf.injective he)
  have h1 := laid_initEntry hl (hloose .critical)
  have h2 := laid_initEntry h1 ((hloose .high).update_nil (hne (by decide)))
  have h3 := laid_initEntry h2
    (((hloose .normal).update_nil (hne (by decide))).update_nil (hne (by decide)))
  have h4 := laid_initEntry h3
    ((((hloose .low).update_nil (hne (by decide))).update_nil (hne (by decide))).update_nil
      (hne (by decide)))
  refine ⟨_, h4, ?_, ?_, ?_⟩
  · have hh' : ∀ c, h ≠ heads c := fun c => (hf.ne hh c).symm
    simp [Function.update_of_ne, hh', hh]
  · intro c
    cases c <;> simp [Function.update_of_ne, hne]
  · intro k _ hk
    simp [Function.update_of_ne, hk]

theorem Sorting.move {part : PriorityClass → List α} (hl : Laid L S) (hh : S h = some xs)
    (hf : LocalHeads S heads) (hx : x ∈ xs) (hc : config.classOf (priorityNice x) = some c)
    (hs : Sorting S h heads L' (x :: rest) part) :
    Sorting S h heads (sortEntry config priorityNice heads x L') rest
      (Function.update part c (part c ++ [x])) := by
  obtain ⟨S', hl', hh', hpart, hother⟩ := hs
  have hxh : ∀ d, x ≠ heads d := hf.ne_of_mem hh hx
  have hxne : x ≠ h := hl.ne_of_mem hh hx
  have hheads : ∀ d, heads d ≠ h := hf.ne hh
  have hremoved := laid_removeListNode (l := []) hl' hh'
  rw [List.nil_append] at hremoved
  have hloose := hremoved.loose_of_alone (Function.update_self ..)
  have htail : Function.update (Function.update S' h (some rest)) x (some []) (heads c) =
      some (part c) := by
    rw [Function.update_of_ne (hxh c).symm, Function.update_of_ne (hheads c), hpart]
  rw [sortEntry_eq hc]
  refine ⟨_, laid_insertListTail hremoved htail hloose (hxh c), ?_, ?_, ?_⟩
  · simp [Function.update_of_ne, (hheads _).symm, hxne.symm]
  · intro d
    by_cases hd : d = c
    · simp [hd]
    · have hdc : heads d ≠ heads c := fun he => hd (hf.injective he)
      simp [Function.update_of_ne, hdc, (hxh d).symm, hheads d, hd, hpart]
  · intro k hkh hk
    by_cases hkx : k = x
    · rw [hkx, Function.update_of_ne (hxh c), Function.update_self]
      exact (hl.none_of_mem hh hx).symm
    · simp [Function.update_of_ne, hk, hkx, hkh, hother]

theorem Sorting.append {part : PriorityClass → List α} (hl : Laid L S) (hh : S h = some xs)
    (hf : LocalHeads S heads) (hsub : ∀ x ∈ part c, x ∈ xs)
    (hs : Sorting S h heads L' ys part) :
    Sorting S h heads (appendClass (heads c) h L') (ys ++ part c)
      (Function.update part c []) := by
  obtain ⟨S', hl', hh', hpart, hother⟩ := hs
  have hring := hl'.isRing _ _ (hpart c)
  have hisolated : isEntryListEmpty L' (heads c) = true ↔ part c = [] := isolated_of_ring hring
  unfold appendClass
  rcases hp : part c with _ | ⟨x, r⟩
  · rw [if_neg (by simp [hisolated.mpr hp]), List.append_nil]
    have hsame : Function.update part c [] = part := by
      rw [← hp]
      exact Function.update_eq_self c part
    rw [hsame]
    exact ⟨S', hl', hh', hpart, hother⟩
  · have hx : x ∈ xs := hsub x (by simp [hp])
    have hxh : ∀ d, x ≠ heads d := hf.ne_of_mem hh hx
    have hxne : x ≠ h := hl.ne_of_mem hh hx
    have hheads : ∀ d, heads d ≠ h := hf.ne hh
    rw [hp] at hring
    have hnext : L'.next (heads c) = x := hring.next_head
    have hprev : L'.prev x = heads c := IsRing.prev_of_append (l := []) hring
    rw [if_pos (by simpa [hp] using hisolated)]
    simp only [hnext, hprev]
    have hc := hpart c
    rw [hp] at hc
    obtain ⟨S₁, hspliced, hhead, hfirst, hframe⟩ := laid_removeHead hl' hc
    have happended := laid_concatList hspliced
      ((hframe h (hheads c).symm hxne.symm).trans hh') hfirst hxne.symm
    refine ⟨_, happended, by simp, ?_, ?_⟩
    · intro d
      by_cases hd : d = c
      · simp [hd, Function.update_of_ne, hheads c, (hxh c).symm, hhead]
      · have hdc : heads d ≠ heads c := fun he => hd (hf.injective he)
        simp [Function.update_of_ne, (hxh d).symm, hheads d, hd, hpart,
          hframe (heads d) hdc (hxh d).symm]
    · intro k hkh hk
      by_cases hkx : k = x
      · rw [hkx, Function.update_of_ne hxne, Function.update_self]
        exact (hl.none_of_mem hh hx).symm
      · simp [Function.update_of_ne, hkx, hkh, hframe k (hk c) hkx, hother k hkh hk]

/-! ## The loop -/

theorem sort_keepsAhead (hl : Laid L S) (hh : S h = some xs) (hf : LocalHeads S heads)
    (hxs : ∀ x ∈ xs, config.classOf (priorityNice x) ≠ none) :
    KeepsAhead id (sortEntry config priorityNice heads) h fun rest L' =>
      (∃ done, xs = done ++ rest ∧
        Sorting S h heads L' rest fun c => inClass config priorityNice c done) ∧
      ∃ kept, IsRing L' h (kept ++ rest) := by
  apply KeepsAhead.of_isRing
  rintro kept pos rest L' ⟨done, hsplit, hs⟩ -
  have hpos : pos ∈ xs := by simp [hsplit]
  obtain ⟨c, hc⟩ := Option.ne_none_iff_exists'.mp (hxs pos hpos)
  have hmoved := hs.move hl hh hf hpos hc
  have hpart : Function.update (fun d => inClass config priorityNice d done) c
      (inClass config priorityNice c done ++ [pos]) =
      fun d => inClass config priorityNice d (done ++ [pos]) := by
    funext d
    rw [inClass_append_singleton hc]
    by_cases hd : d = c <;> simp [hd]
  rw [hpart] at hmoved
  refine ⟨⟨done ++ [pos], by simp [hsplit], hmoved⟩, [], ?_⟩
  obtain ⟨S', hl', hh', -⟩ := hmoved
  exact hl'.isRing h rest hh'

theorem sort_priority_list_stable (hl : Laid L S) (hh : S h = some xs) (hf : LocalHeads S heads)
    (hxs : ∀ x ∈ xs, ∃ c, priorityNice x = config.value c) {fuel : Nat}
    (hfuel : xs.length < fuel) :
    ∃ L', sortPriorityList config priorityNice heads h fuel L = some L' ∧
      IsRing L' h (byClass config priorityNice xs) ∧
      (byClass config priorityNice xs).Perm xs ∧
      (∀ x ∈ h :: xs, ∀ c, L'.next x ≠ heads c ∧ L'.prev x ≠ heads c) ∧
      ∀ k ys, k ≠ h → S k = some ys → IsRing L' k ys := by
  have hclass : ∀ x ∈ xs, config.classOf (priorityNice x) ≠ none := fun x hx =>
    config.classOf_ne_none (hxs x hx)
  have hstart := sorting_start hl hh hf
  have hring : IsRing (initHeads heads L) h xs := by
    obtain ⟨S', hl', hh', -⟩ := hstart
    exact hl'.isRing h xs hh'
  obtain ⟨hloop, ⟨done, hdone, hsorted⟩, -⟩ := forEachSafe_rule (sort_keepsAhead hl hh hf hclass)
    (s := initHeads heads L) hring ⟨⟨[], rfl, hstart⟩, [], hring⟩ hfuel
  rw [List.append_nil] at hdone
  subst hdone
  have hsub : ∀ c, ∀ x ∈ inClass config priorityNice c xs, x ∈ xs := fun c x hx =>
    List.mem_of_mem_filter hx
  have h1 := hsorted.append (c := .critical) hl hh hf (hsub _)
  have h2 := h1.append (c := .high) hl hh hf (by simpa using hsub .high)
  have h3 := h2.append (c := .normal) hl hh hf (by simpa using hsub .normal)
  have h4 := h3.append (c := .low) hl hh hf (by simpa using hsub .low)
  obtain ⟨S', hl', hh', -, hother⟩ := h4
  have hperm := byClass_perm hclass
  have hsorted' : S' h = some (byClass config priorityNice xs) := by simpa [byClass] using hh'
  have hring' := hl'.isRing h _ hsorted'
  refine ⟨_, by rw [sortPriorityList, listForEachSafe, hloop], hring', hperm, ?_, ?_⟩
  · intro x hx c
    have hmem : ∀ y, y ∈ h :: byClass config priorityNice xs ↔ y ∈ h :: xs := fun y =>
      (hperm.cons h).mem_iff
    have hout := hf.fresh c h xs hh
    constructor
    · intro he
      exact hout (he ▸ (hmem _).mp (hring'.next_mem ((hmem x).mpr hx)))
    · intro he
      exact hout (he ▸ (hmem _).mp (hring'.prev_mem ((hmem x).mpr hx)))
  · intro k ys hkh hk
    have hkc : ∀ c, k ≠ heads c := fun c he => hf.fresh c k ys hk (he ▸ List.mem_cons_self)
    exact hl'.isRing k ys (by rw [hother k hkh hkc, hk])

end

/-- A low entry in front of a critical one, and four addresses on the stack. -/
def lowBeforeCritical : Links (Fin 7) where
  next x := if x = 0 then 1 else if x = 1 then 2 else 0
  prev x := if x = 0 then 2 else if x = 1 then 0 else 1

def stackHeads : PriorityClass → Fin 7
  | .critical => 3
  | .high => 4
  | .normal => 5
  | .low => 6

def lowBeforeCriticalLayout : Rings.Layout (Fin 7) := fun k => if k = 0 then some [1, 2] else none

theorem lowBeforeCriticalLayout_some {k : Fin 7} {ys : List (Fin 7)}
    (hk : lowBeforeCriticalLayout k = some ys) : k = 0 ∧ ys = [1, 2] := by
  unfold lowBeforeCriticalLayout at hk
  split at hk
  next h0 => exact ⟨h0, (Option.some.inj hk).symm⟩
  next => cases hk

theorem laid_lowBeforeCritical : Laid lowBeforeCritical lowBeforeCriticalLayout := by
  constructor
  · intro h xs hh
    obtain ⟨rfl, rfl⟩ := lowBeforeCriticalLayout_some hh
    refine ⟨by decide, path_cons_cons.mpr ⟨?_, path_cons_cons.mpr ⟨?_, path_pair.mpr ?_⟩⟩⟩ <;>
      simp [Linked, lowBeforeCritical]
  · intro h xs k ys hh hk hne
    obtain ⟨rfl, -⟩ := lowBeforeCriticalLayout_some hh
    obtain ⟨rfl, -⟩ := lowBeforeCriticalLayout_some hk
    exact absurd rfl hne

def sampleLevels : PriorityConfig := ⟨-20, -10, 0, 10⟩

def sampleNice (x : Fin 7) : Int := if x = 1 then 10 else -20

theorem sort_priority_list_stable_lowBeforeCritical :
    ∃ L', sortPriorityList sampleLevels sampleNice stackHeads 0 3 lowBeforeCritical = some L' ∧
      IsRing L' 0 [2, 1] := by
  have hh : lowBeforeCriticalLayout 0 = some [1, 2] := rfl
  have hf : LocalHeads lowBeforeCriticalLayout stackHeads := by
    constructor
    · intro c d hcd
      cases c <;> cases d <;> simp [stackHeads] at hcd ⊢
    · intro c k ys hk
      obtain ⟨rfl, rfl⟩ := lowBeforeCriticalLayout_some hk
      cases c <;> decide
  have hxs : ∀ x ∈ [1, 2], ∃ c, sampleNice x = sampleLevels.value c := by
    simp only [List.forall_mem_cons]
    exact ⟨⟨.low, rfl⟩, ⟨.critical, rfl⟩, by simp⟩
  have hfuel : [(1 : Fin 7), 2].length < 3 := by decide
  obtain ⟨L', hrun, hring, -⟩ := sort_priority_list_stable laid_lowBeforeCritical hh hf hxs hfuel
  exact ⟨L', hrun, hring⟩

end LBeacon
