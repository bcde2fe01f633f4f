import LBeacon.Receive

/-!
# strtok_save in memory

The tokenizer with its addresses: the string that it cuts, the pointer that it keeps, and the
NUL that `strtok_r` writes behind a token. `Receive.lean` has it on pointers into one buffer.
-/

open CText CMemory

namespace LBeacon

/-! ## The source -/

/-- Memory from address 0 on, and `*saveptr`. -/
structure Tokenizer where
  memory : Str
  saveptr : Nat

namespace Tokenizer

/-- The string at an address. -/
def stringAt (t : Tokenizer) (a : Nat) : Str := cstr (t.memory.drop a)

def charAt (t : Tokenizer) (a : Nat) : Char := t.memory.getD a NUL

/-- As in glibc. -/
def strtokR (t : Tokenizer) (delim : Char) (str : Option Nat) : Option Nat × Tokenizer :=
  let s := str.getD t.saveptr
  if t.charAt s = NUL then (none, { t with saveptr := s })
  else
    let s := s + ((t.stringAt s).takeWhile (· = delim)).length
    if t.charAt s = NUL then (none, { t with saveptr := s })
    else
      let tokenEnd := s + ((t.stringAt s).takeWhile (· ≠ delim)).length
      if t.charAt tokenEnd = NUL then (some s, { t with saveptr := tokenEnd })
      else (some s, ⟨t.memory.set tokenEnd NUL, tokenEnd + 1⟩)

/-- A string that starts with the delimiter moves the old `*saveptr`, whether or not it points
to that string. -/
def strtokSave (t : Tokenizer) (delim : Char) (str : Option Nat) : Option Nat × Tokenizer :=
  let tmp := str.getD t.saveptr
  if t.charAt tmp = delim then (none, { t with saveptr := t.saveptr + 1 })
  else t.strtokR delim str

/-- A first call with the string at `a`, then one call after the other with NULL. -/
def calls (t : Tokenizer) (delim : Char) (a : Nat) : Nat → Option Nat × Tokenizer
  | 0 => t.strtokSave delim (some a)
  | k + 1 => (t.calls delim a k).2.strtokSave delim none

/-- The string at the pointer that a call returned. -/
def token (r : Option Nat × Tokenizer) : Option Str := r.1.map r.2.stringAt

/-! ## Strings in memory -/

variable {t : Tokenizer} {a i : Nat}

theorem charAt_eq (t : Tokenizer) (a : Nat) : t.charAt a = (t.stringAt a).headD NUL := by
  unfold charAt stringAt
  rw [List.getD_eq_getElem?_getD, ← List.head?_drop]
  cases t.memory.drop a with
  | nil => rfl
  | cons c s =>
    rw [cstr_cons]
    by_cases hc : c = NUL <;> simp [hc]

theorem charAt_eq_nul_iff : t.charAt a = NUL ↔ t.stringAt a = [] := by
  rw [charAt_eq]
  unfold stringAt
  have hnul := nul_notMem_cstr (t.memory.drop a)
  cases hs : cstr (t.memory.drop a) with
  | nil => simp
  | cons c s =>
    rw [hs] at hnul
    simp only [List.headD_cons, reduceCtorEq, iff_false]
    rintro rfl
    exact hnul (List.mem_cons_self ..)

theorem stringAt_add (h : i ≤ (t.stringAt a).length) :
    t.stringAt (a + i) = (t.stringAt a).drop i := by
  unfold stringAt at *
  rw [← List.drop_drop]
  generalize t.memory.drop a = s at h
  induction i generalizing s with
  | zero => rfl
  | succ i ih =>
    cases s with
    | nil => rfl
    | cons c s =>
      rw [cstr_cons] at h ⊢
      by_cases hc : c = NUL
      · simp [hc] at h
      · rw [if_neg hc, List.length_cons] at h
        rw [if_neg hc, List.drop_succ_cons, List.drop_succ_cons, ih s (by omega)]

theorem stringAt_set (h : i < (t.stringAt a).length) (p : Nat) :
    (⟨t.memory.set (a + i) NUL, p⟩ : Tokenizer).stringAt a = (t.stringAt a).take i ∧
      (⟨t.memory.set (a + i) NUL, p⟩ : Tokenizer).stringAt (a + i + 1) =
        t.stringAt (a + i + 1) := by
  constructor
  · have hset : (t.memory.set (a + i) NUL).drop a = (t.memory.drop a).set i NUL := by
      rw [List.drop_set, if_neg (by omega), Nat.add_sub_cancel_left]
    unfold stringAt at *
    rw [hset]
    clear hset
    generalize t.memory.drop a = s at h
    induction i generalizing s with
    | zero =>
      cases s with
      | nil => rfl
      | cons c s => rw [List.set_cons_zero, cstr_cons, if_pos rfl, List.take_zero]
    | succ i ih =>
      cases s with
      | nil => rfl
      | cons c s =>
        rw [cstr_cons] at h ⊢
        by_cases hc : c = NUL
        · simp [hc] at h
        · rw [if_neg hc, List.length_cons] at h
          rw [List.set_cons_succ, cstr_cons, if_neg hc, if_neg hc, List.take_succ_cons,
            ih s (by omega)]
  · unfold stringAt
    rw [List.drop_set_of_lt (by omega)]

/-- The string at `a` as the structural tokenizer sees it. -/
def ptrAt (t : Tokenizer) (a : Nat) : Ptr where
  text := t.stringAt a
  room := (t.stringAt a).length + 1
  fits := Nat.le_succ _
  noNul := nul_notMem_cstr _

theorem terminated_ptrAt : (t.ptrAt a).Terminated := Nat.lt_succ_self _

/-! ## One call -/

variable {delim : Char} {str : Option Nat}

theorem strtokR_eq {s : Nat} (hs : str.getD t.saveptr = s) (hne : field delim (t.stringAt s) ≠ []) :
    t.strtokR delim str =
      let tokenEnd := s + (field delim (t.stringAt s)).length
      if t.charAt tokenEnd = NUL then (some s, { t with saveptr := tokenEnd })
      else (some s, ⟨t.memory.set tokenEnd NUL, tokenEnd + 1⟩) := by
  obtain ⟨c, rest, htext, hc⟩ := field_ne_nil hne
  have hstart : t.charAt s ≠ NUL := by
    rw [Ne, charAt_eq_nul_iff, htext]
    exact List.cons_ne_nil c rest
  have hskip : ((t.stringAt s).takeWhile (· = delim)).length = 0 := by
    rw [htext, List.takeWhile_cons_of_neg (by simpa using hc), List.length_nil]
  unfold strtokR
  simp only [hs, if_neg hstart, hskip, Nat.add_zero]
  rfl

theorem strtokR_token {s : Nat} (hs : str.getD t.saveptr = s)
    (hne : field delim (t.stringAt s) ≠ []) :
    let r := t.strtokR delim str
    r.1 = some s ∧ r.2.stringAt s = field delim (t.stringAt s) ∧
      r.2.stringAt r.2.saveptr = afterField delim (t.stringAt s) ∧ s ≤ r.2.saveptr ∧
      r.2.saveptr + (afterField delim (t.stringAt s)).length = s + (t.stringAt s).length := by
  rw [strtokR_eq hs hne]
  have hlen : (field delim (t.stringAt s)).length ≤ (t.stringAt s).length :=
    (List.takeWhile_prefix _).length_le
  have hend : t.charAt (s + (field delim (t.stringAt s)).length) = NUL ↔
      (t.stringAt s).length ≤ (field delim (t.stringAt s)).length := by
    rw [charAt_eq_nul_iff, stringAt_add hlen, List.drop_eq_nil_iff]
  rcases field_cases delim (t.stringAt s) with ⟨hfield, hafter⟩ | hsplit
  · -- The token is the whole string.
    simp only [if_pos (hend.mpr (by rw [hfield]))]
    refine ⟨trivial, hfield.symm, ?_, Nat.le_add_right _ _, ?_⟩
    · change t.stringAt (s + _) = _
      rw [stringAt_add hlen, hfield, List.drop_length, hafter]
    · rw [hfield, hafter]
      rfl
  · have hsum := congrArg List.length hsplit
    rw [List.length_append, List.length_cons] at hsum
    have hlt : (field delim (t.stringAt s)).length < (t.stringAt s).length := by omega
    simp only [if_neg (show ¬ t.charAt _ = NUL by rw [hend]; omega)]
    obtain ⟨hcut, hbehind⟩ := stringAt_set hlt (s + (field delim (t.stringAt s)).length + 1)
    refine ⟨trivial, ?_, ?_, ?_, ?_⟩
    · exact hcut.trans (List.prefix_iff_eq_take.mp (List.takeWhile_prefix _)).symm
    · refine hbehind.trans ?_
      rw [Nat.add_assoc, stringAt_add (by omega), drop_field_length]
    · omega
    · omega

theorem head_of_field_nil {s : Str} (h : field delim s = []) (hs : s ≠ []) :
    s.head? = some delim := by
  have hdelim := headD_of_field_nil (d := NUL) h hs
  obtain ⟨c, rest, rfl⟩ := List.exists_cons_of_ne_nil hs
  exact congrArg some hdelim

/-- What the later calls have still to go through: the fields of the string at the saved
pointer, which ends at `stop`. -/
structure Reads (t : Tokenizer) (delim : Char) (stop : Nat) (rest : List Str) : Prop where
  ahead : Ahead delim (t.ptrAt t.saveptr) rest
  ends : t.saveptr + (t.stringAt t.saveptr).length = stop

theorem strtokSave_empty (hdelim : delim ≠ NUL)
    (hnil : field delim (t.stringAt (str.getD t.saveptr)) = []) :
    t.strtokSave delim str = (none, { t with
      saveptr := if t.stringAt (str.getD t.saveptr) = [] then str.getD t.saveptr
        else t.saveptr + 1 }) := by
  unfold strtokSave
  by_cases htext : t.stringAt (str.getD t.saveptr) = []
  · have hchar : t.charAt (str.getD t.saveptr) = NUL := charAt_eq_nul_iff.mpr htext
    rw [if_pos htext, if_neg (by rw [hchar]; exact hdelim.symm)]
    unfold strtokR
    simp only [if_pos hchar]
  · have hchar : t.charAt (str.getD t.saveptr) = delim := by
      rw [charAt_eq]
      exact headD_of_field_nil hnil htext
    rw [if_neg htext, if_pos hchar]

theorem strtokSave_token (hne : field delim (t.stringAt (str.getD t.saveptr)) ≠ []) :
    t.strtokSave delim str = t.strtokR delim str := by
  obtain ⟨c, rest, htext, hc⟩ := field_ne_nil hne
  have hchar : t.charAt (str.getD t.saveptr) ≠ delim := by
    rw [charAt_eq, htext]
    exact hc
  unfold strtokSave
  exact if_neg hchar

theorem strtokSave_reads (str : Option Nat) {rest : List Str} (hdelim : delim ≠ NUL)
    (hahead : Ahead delim (t.ptrAt (str.getD t.saveptr)) rest)
    (hgo : str.getD t.saveptr = t.saveptr ∨
      (t.stringAt (str.getD t.saveptr)).head? ≠ some delim) :
    let s := str.getD t.saveptr
    let r := t.strtokSave delim str
    token r = tokenOf (rest.headD []) ∧ s ≤ r.2.saveptr ∧
      r.2.Reads delim (s + (t.stringAt s).length) rest.tail := by
  have hfield : field delim (t.stringAt (str.getD t.saveptr)) = rest.headD [] := hahead.field_eq
  generalize hs : str.getD t.saveptr = s at *
  by_cases hnil : rest.headD [] = []
  · rw [hnil] at hfield
    rw [strtokSave_empty hdelim (by rw [hs]; exact hfield), hs]
    refine ⟨by rw [hnil]; rfl, ?_⟩
    by_cases htext : t.stringAt s = []
    · simp only [if_pos htext]
      refine ⟨Nat.le_refl s, hahead.afterField ?_ Iff.rfl, rfl⟩
      change t.stringAt s = afterField delim (t.stringAt s)
      rw [htext]
      rfl
    · simp only [if_neg htext]
      have hhead := head_of_field_nil hfield htext
      have hsame : s = t.saveptr := hgo.resolve_right (not_not.mpr hhead)
      have hlen : 1 ≤ (t.stringAt s).length := List.length_pos_iff.mpr htext
      rw [← hsame]
      refine ⟨Nat.le_succ s, hahead.afterField ?_ (iff_of_true terminated_ptrAt terminated_ptrAt), ?_⟩
      · change t.stringAt (s + 1) = afterField delim (t.stringAt s)
        rw [stringAt_add hlen, ← drop_field_length, hfield]
        rfl
      · change s + 1 + (t.stringAt (s + 1)).length = _
        rw [stringAt_add hlen, List.length_drop]
        omega
  · have hne : field delim (t.stringAt (str.getD t.saveptr)) ≠ [] := by
      rw [hs, hfield]
      exact hnil
    obtain ⟨hpointer, htoken, hafter, hle, hsum⟩ := strtokR_token hs (hs ▸ hne)
    rw [strtokSave_token hne]
    refine ⟨?_, hle, hahead.afterField hafter (iff_of_true terminated_ptrAt terminated_ptrAt), ?_⟩
    · unfold token
      rw [hpointer, Option.map_some, htoken, hfield, tokenOf, if_neg hnil]
    · rw [hafter]
      exact hsum

/-! ## A run of calls -/

variable {stop : Nat} {rest : List Str}

theorem Reads.call (h : t.Reads delim stop rest) (hdelim : delim ≠ NUL) :
    let r := t.strtokSave delim none
    token r = tokenOf (rest.headD []) ∧ t.saveptr ≤ r.2.saveptr ∧ r.2.Reads delim stop rest.tail := by
  have hcall := strtokSave_reads none hdelim h.ahead (Or.inl rfl)
  rw [← h.ends]
  exact hcall

theorem calls_reads (hdelim : delim ≠ NUL) (h : (t.calls delim a 0).2.Reads delim stop rest)
    (k : Nat) :
    (t.calls delim a k).2.Reads delim stop (rest.drop k) ∧
      (t.calls delim a 0).2.saveptr ≤ (t.calls delim a k).2.saveptr ∧
      token (t.calls delim a (k + 1)) = tokenOf (rest.getD k []) := by
  have htoken {k : Nat} (hk : (t.calls delim a k).2.Reads delim stop (rest.drop k)) :
      token (t.calls delim a (k + 1)) = tokenOf (rest.getD k []) := by
    rw [List.getD_eq_getElem?_getD, ← List.head?_drop, ← List.headD_eq_head?_getD]
    exact (hk.call hdelim).1
  induction k with
  | zero => exact ⟨h, Nat.le_refl _, htoken h⟩
  | succ k ih =>
    obtain ⟨hk, hle, -⟩ := ih
    obtain ⟨-, hnext, hreads⟩ := hk.call hdelim
    rw [List.tail_drop] at hreads
    exact ⟨hreads, Nat.le_trans hle hnext, htoken hreads⟩

theorem Reads.inside (h : t.Reads delim stop rest) : t.saveptr ≤ stop := by
  rw [← h.ends]
  apply Nat.le_add_right

theorem reads_of_place {j : Nat} (hj : j ≤ (t.stringAt a).length) (hplace : t.saveptr = a + j) :
    t.Reads delim (a + (t.stringAt a).length) (fields delim ((t.stringAt a).drop j)) := by
  have htext : t.stringAt t.saveptr = (t.stringAt a).drop j := by rw [hplace, stringAt_add hj]
  refine ⟨⟨terminated_ptrAt, Or.inl ?_⟩, ?_⟩
  · change fields delim (t.stringAt t.saveptr) = _
    rw [htext]
  · rw [htext, hplace, List.length_drop]
    omega

/-! ## A field reader -/

/-- Every call returns its field, NULL for an empty one and behind the last, and keeps a pointer
into the string or to its terminator. -/
structure SplitsLikeFields (t : Tokenizer) (delim : Char) (a : Nat) : Prop where
  returned : ∀ k, token (t.calls delim a k) = tokenOf (fieldAt delim (t.stringAt a) k)
  inside : ∀ k, a ≤ (t.calls delim a k).2.saveptr ∧
    (t.calls delim a k).2.saveptr ≤ a + (t.stringAt a).length

theorem tokenOf_inj {f g : Str} (h : tokenOf f = tokenOf g) : f = g := by
  rw [← value_readToken_tokenOf f, h, value_readToken_tokenOf]

theorem splits_of_reads (hdelim : delim ≠ NUL)
    (hfirst : token (t.calls delim a 0) = tokenOf (fieldAt delim (t.stringAt a) 0))
    (hlow : a ≤ (t.calls delim a 0).2.saveptr)
    (hreads : (t.calls delim a 0).2.Reads delim (a + (t.stringAt a).length) rest)
    (hrest : ∀ k, rest.getD k [] = fieldAt delim (t.stringAt a) (k + 1)) :
    t.SplitsLikeFields delim a where
  returned k := by
    cases k with
    | zero => exact hfirst
    | succ k =>
      rw [← hrest]
      exact (calls_reads hdelim hreads k).2.2
  inside k := by
    obtain ⟨hk, hle, -⟩ := calls_reads hdelim hreads k
    exact ⟨Nat.le_trans hlow hle, hk.inside⟩

theorem getD_tail (xs : List Str) (k : Nat) : xs.tail.getD k [] = xs.getD (k + 1) [] := by
  cases xs <;> rfl

theorem splits_of_head_ne (hdelim : delim ≠ NUL) (h : (t.stringAt a).head? ≠ some delim) :
    t.SplitsLikeFields delim a := by
  have hahead : Ahead delim (t.ptrAt a) (fields delim (t.stringAt a)) :=
    ⟨terminated_ptrAt, Or.inl rfl⟩
  obtain ⟨htoken, hle, hreads⟩ := strtokSave_reads (some a) hdelim hahead (Or.inr h)
  refine splits_of_reads hdelim ?_ hle hreads (getD_tail _)
  refine htoken.trans ?_
  unfold fieldAt
  rw [List.headD_eq_head?_getD, List.head?_eq_getElem?, List.getD_eq_getElem?_getD]

theorem calls_zero_delim {s : Str} (h : t.stringAt a = delim :: s) :
    t.calls delim a 0 = (none, { t with saveptr := t.saveptr + 1 }) := by
  have hchar : t.charAt a = delim := by rw [charAt_eq, h, List.headD_cons]
  unfold calls strtokSave
  exact if_pos hchar

theorem splits_delim_iff (hdelim : delim ≠ NUL) {s : Str} (h : t.stringAt a = delim :: s) :
    t.SplitsLikeFields delim a ↔ ∃ j ≤ s.length + 1, t.saveptr + 1 = a + j ∧
      ∀ k, fieldAt delim ((delim :: s).drop j) k = fieldAt delim s k := by
  have hfirst := calls_zero_delim h
  have hfield (k : Nat) : fieldAt delim (t.stringAt a) (k + 1) = fieldAt delim s k := by
    unfold fieldAt
    rw [h, fields_delim]
    rfl
  have hreads {j : Nat} (hj : j ≤ s.length + 1) (hplace : t.saveptr + 1 = a + j) :
      (t.calls delim a 0).2.Reads delim (a + (t.stringAt a).length)
        (fields delim ((delim :: s).drop j)) := by
    rw [hfirst, ← h]
    exact reads_of_place (t := { t with saveptr := t.saveptr + 1 })
      (by change j ≤ (t.stringAt a).length; rw [h]; exact hj) hplace
  constructor
  · intro hsplits
    obtain ⟨hlow, hhigh⟩ := hsplits.inside 0
    rw [hfirst, h, List.length_cons] at hhigh
    rw [hfirst] at hlow
    obtain ⟨j, hj⟩ := Nat.exists_eq_add_of_le hlow
    have hj : t.saveptr + 1 = a + j := hj
    have hhigh : t.saveptr + 1 ≤ a + (s.length + 1) := hhigh
    have hle : j ≤ s.length + 1 := by omega
    refine ⟨j, hle, hj, fun k => tokenOf_inj ?_⟩
    rw [← hfield, ← hsplits.returned (k + 1)]
    exact (calls_reads hdelim (hreads hle hj) k).2.2.symm
  · rintro ⟨j, hj, hplace, hsame⟩
    refine splits_of_reads hdelim ?_ ?_ (hreads hj hplace) fun k => (hsame k).trans (hfield k).symm
    · rw [hfirst]
      unfold fieldAt
      rw [h, fields_delim]
      rfl
    · rw [hfirst]
      change a ≤ t.saveptr + 1
      omega

/-- A string that starts with the delimiter is split like its fields only when the old pointer
was at the string, or when there is no token in it and the pointer stays inside. -/
theorem strtokSave_splits_iff (t : Tokenizer) {delim : Char} (hdelim : delim ≠ NUL) (a : Nat) :
    t.SplitsLikeFields delim a ↔
      (t.stringAt a).head? ≠ some delim ∨ t.saveptr = a ∨
        (∀ c ∈ t.stringAt a, c = delim) ∧ a ≤ t.saveptr + 1 ∧
          t.saveptr + 1 ≤ a + (t.stringAt a).length := by
  by_cases hhead : (t.stringAt a).head? = some delim
  swap
  · exact iff_of_true (splits_of_head_ne hdelim hhead) (Or.inl hhead)
  obtain ⟨s, hs⟩ := List.head?_eq_some_iff.mp hhead
  rw [splits_delim_iff hdelim hs, hs, List.length_cons, List.forall_mem_cons]
  constructor
  · rintro ⟨j, hj, hplace, hsame⟩
    right
    by_cases hone : j = 1
    · left
      omega
    refine Or.inr ⟨⟨rfl, ?_⟩, by omega, by omega⟩
    cases j with
    | zero =>
      have hall := delims_of_fieldAt_drop (s := delim :: s) Nat.one_pos (by simp) hsame
      exact fun c hc => hall c (List.mem_cons_of_mem _ hc)
    | succ j =>
      exact delims_of_fieldAt_drop (i := j) (by omega) (by omega) fun k => (hsame k).symm
  · rintro (hne | hplace | ⟨⟨-, hall⟩, hlow, hhigh⟩)
    · exact absurd rfl hne
    · exact ⟨1, by omega, by omega, fun k => rfl⟩
    · obtain ⟨j, hj⟩ := Nat.exists_eq_add_of_le hlow
      refine ⟨j, by omega, hj, fun k => ?_⟩
      rw [fieldAt_eq_nil_iff.mpr hall k]
      refine fieldAt_eq_nil_iff.mpr (fun c hc => ?_) k
      rcases List.mem_cons.mp (List.mem_of_mem_drop hc) with rfl | hc
      · rfl
      · exact hall c hc

theorem splits_config_line :
    (⟨"key=value\x00".toList, 99⟩ : Tokenizer).SplitsLikeFields '=' 0 := by
  refine (strtokSave_splits_iff _ (by decide) 0).mpr (Or.inl ?_)
  decide

/-- The string `;x`, cut after another string: the second call reads that one. -/
theorem leading_delim_reads_other :
    let t : Tokenizer := ⟨"ab\x00;x\x00".toList, 0⟩
    t.stringAt 3 = ";x".toList ∧ fieldAt ';' (t.stringAt 3) 1 = "x".toList ∧
      token (t.calls ';' 3 1) = some "b".toList ∧ ¬ t.SplitsLikeFields ';' 3 := by
  have htoken : token ((⟨"ab\x00;x\x00".toList, 0⟩ : Tokenizer).calls ';' 3 1) =
      some "b".toList := by decide
  have hfield : tokenOf (fieldAt ';' ((⟨"ab\x00;x\x00".toList, 0⟩ : Tokenizer).stringAt 3) 1) =
      some "x".toList := by decide
  refine ⟨by decide, by decide, htoken, fun h => ?_⟩
  have hsame := (h.returned 1).symm.trans htoken
  rw [hfield] at hsame
  exact absurd hsame (by decide)

/-! ## The structural tokenizer -/

theorem strtokSave_structural (hdelim : delim ≠ NUL)
    (hgo : str = none ∨ (t.stringAt (str.getD t.saveptr)).head? ≠ some delim) :
    ∃ q, (LBeacon.strtokSave delim (str.map t.ptrAt) (.place (t.ptrAt t.saveptr))).value =
        ⟨token (t.strtokSave delim str), .place q⟩ ∧
      q.text = (t.strtokSave delim str).2.stringAt (t.strtokSave delim str).2.saveptr := by
  generalize hs : str.getD t.saveptr = s at hgo
  have hres : Resolves (str.map t.ptrAt) (.place (t.ptrAt t.saveptr)) (t.ptrAt s) := by
    cases str with
    | none => exact Or.inr ⟨rfl, hs ▸ rfl⟩
    | some b => exact Or.inl (congrArg (some ∘ t.ptrAt) hs)
  by_cases hnil : field delim (t.stringAt s) = []
  · rw [(strtokSave_none _ hres hnil hdelim).1, strtokSave_empty hdelim (hs ▸ hnil), hs]
    by_cases htext : t.stringAt s = []
    · rw [if_pos (show (t.ptrAt s).text = [] from htext)]
      simp only [if_pos htext]
      exact ⟨t.ptrAt s, rfl, rfl⟩
    · -- An empty field in front of a delimiter, so the string is the one at the saved pointer.
      have hhead := head_of_field_nil hnil htext
      have hnone : str = none := hgo.resolve_right (not_not.mpr hhead)
      have hsame : t.saveptr = s := by rw [← hs, hnone]; rfl
      have hlen : 1 ≤ (t.stringAt s).length := List.length_pos_iff.mpr htext
      rw [if_neg (show ¬ (t.ptrAt s).text = [] from htext), hsame]
      simp only [if_neg htext]
      exact ⟨(t.ptrAt s).advance 1, rfl, (stringAt_add hlen).symm⟩
  · obtain ⟨q, hvalue, htext, -, -⟩ := tokenFrom_spec (s := t.ptrAt s) hnil
    obtain ⟨hpointer, htoken, hafter, -, -⟩ := strtokR_token hs hnil
    rw [(strtokSave_eq_tokenFrom _ hres hnil).1, strtokSave_token (hs ▸ hnil), hvalue]
    refine ⟨q, ?_, htext.trans hafter.symm⟩
    unfold token
    rw [hpointer, Option.map_some, htoken]
    rfl

end Tokenizer

end LBeacon
