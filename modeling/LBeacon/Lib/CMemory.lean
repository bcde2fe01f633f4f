import LBeacon.Lib.CText

/-!
# C strings in buffers

Pointers into `char` buffers of a fixed size, with a record of every access that leaves its
buffer. A computation goes on after such an access, as the machine would.
-/

open CText

namespace CMemory

/-! ## Watched computations -/

inductive Fault where
  | readPastEnd
  | writePastEnd
  | nullRead
  | wildRead
  deriving DecidableEq

@[ext] structure Watched (α : Type) where
  value : α
  faults : List Fault

instance : Monad Watched where
  pure a := ⟨a, []⟩
  bind m f := ⟨(f m.value).value, m.faults ++ (f m.value).faults⟩

variable {α β : Type}

@[simp] theorem value_pure (a : α) : (pure a : Watched α).value = a := rfl

@[simp] theorem faults_pure (a : α) : (pure a : Watched α).faults = [] := rfl

@[simp] theorem value_bind (m : Watched α) (f : α → Watched β) :
    (m >>= f).value = (f m.value).value := rfl

@[simp] theorem faults_bind (m : Watched α) (f : α → Watched β) :
    (m >>= f).faults = m.faults ++ (f m.value).faults := rfl

theorem watched_pure_bind (a : α) (f : α → Watched β) : ((pure a : Watched α) >>= f) = f a := rfl

/-- An access that is recorded unless `ok`. -/
def access (ok : Bool) (fault : Fault) (a : α) : Watched α := ⟨a, if ok then [] else [fault]⟩

@[simp] theorem value_access (ok : Bool) (fault : Fault) (a : α) :
    (access ok fault a).value = a := rfl

@[simp] theorem faults_access (ok : Bool) (fault : Fault) (a : α) :
    (access ok fault a).faults = [] ↔ ok = true := by
  unfold access
  cases ok <;> simp

/-! ## Pointers -/

/-- A place in a buffer: the string that starts there, up to its NUL or the end of the buffer,
and the number of bytes from there to the end. What follows the NUL is zero. -/
structure Ptr where
  text : Str
  room : Nat
  fits : text.length ≤ room
  noNul : NUL ∉ text

/-- The start of a buffer. -/
def Ptr.ofBuf (buf : Str) (capacity : Nat) : Ptr where
  text := cstr (buf.take capacity)
  room := capacity
  fits := (cstr_length_le _).trans (List.length_take_le _ _)
  noNul := nul_notMem_cstr _

def Ptr.advance (p : Ptr) (n : Nat) : Ptr where
  text := p.text.drop n
  room := p.room - n
  fits := by
    have := p.fits
    rw [List.length_drop]
    omega
  noNul h := p.noNul (List.mem_of_mem_drop h)

def Ptr.Terminated (p : Ptr) : Prop := p.text.length < p.room

instance (p : Ptr) : Decidable p.Terminated := by
  unfold Ptr.Terminated; infer_instance

/-- `*p` -/
def Ptr.peek (p : Ptr) : Watched Char := access (decide (0 < p.room)) .readPastEnd (p.text.headD NUL)

/-- The string at `p`, read up to its NUL. -/
def Ptr.read (p : Ptr) : Watched Str := access (decide p.Terminated) .readPastEnd p.text

/-- `strcpy` of a string that was read, to a buffer of `capacity` bytes. -/
def strcpy (capacity : Nat) (s : Str) : Watched Str :=
  access (decide (s.length < capacity)) .writePastEnd s

/-- `strcat` of a string that was read to one in a buffer of `capacity` bytes. -/
def strcat (capacity : Nat) (dest s : Str) : Watched Str :=
  access (decide (dest.length + s.length < capacity)) .writePastEnd (dest ++ s)

/-- `strncpy` of `n` characters to a zeroed buffer of `capacity` bytes. -/
def strncpyTo (capacity : Nat) (src : Ptr) (n : Nat) : Watched Str := do
  let s ← access (decide (src.Terminated ∨ n ≤ src.text.length)) .readPastEnd (src.text.take n)
  access (decide (n ≤ capacity)) .writePastEnd s

@[simp] theorem text_advance (p : Ptr) (n : Nat) : (p.advance n).text = p.text.drop n := rfl

@[simp] theorem room_advance (p : Ptr) (n : Nat) : (p.advance n).room = p.room - n := rfl

@[simp] theorem text_ofBuf {buf : Str} {capacity : Nat} (h : buf.length ≤ capacity) :
    (Ptr.ofBuf buf capacity).text = cstr buf := by
  simp only [Ptr.ofBuf, List.take_of_length_le h]

@[simp] theorem room_ofBuf (buf : Str) (capacity : Nat) :
    (Ptr.ofBuf buf capacity).room = capacity := rfl

@[simp] theorem value_peek (p : Ptr) : p.peek.value = p.text.headD NUL := rfl

@[simp] theorem value_read (p : Ptr) : p.read.value = p.text := rfl

@[simp] theorem value_strcpy (capacity : Nat) (s : Str) : (strcpy capacity s).value = s := rfl

@[simp] theorem value_strcat (capacity : Nat) (dest s : Str) :
    (strcat capacity dest s).value = dest ++ s := rfl

@[simp] theorem value_strncpyTo (capacity : Nat) (src : Ptr) (n : Nat) :
    (strncpyTo capacity src n).value = src.text.take n := rfl

@[simp] theorem faults_peek (p : Ptr) : p.peek.faults = [] ↔ 0 < p.room := by
  simp [Ptr.peek]

@[simp] theorem faults_read (p : Ptr) : p.read.faults = [] ↔ p.Terminated := by
  simp [Ptr.read]

@[simp] theorem faults_strcpy (capacity : Nat) (s : Str) :
    (strcpy capacity s).faults = [] ↔ s.length < capacity := by
  simp [strcpy]

@[simp] theorem faults_strcat (capacity : Nat) (dest s : Str) :
    (strcat capacity dest s).faults = [] ↔ dest.length + s.length < capacity := by
  simp [strcat]

@[simp] theorem faults_strncpyTo (capacity : Nat) (src : Ptr) (n : Nat) :
    (strncpyTo capacity src n).faults = [] ↔
      (src.Terminated ∨ n ≤ src.text.length) ∧ n ≤ capacity := by
  simp [strncpyTo]

theorem strcpy_fits {capacity : Nat} {s : Str} (h : s.length < capacity) :
    strcpy capacity s = pure s := by
  simp only [strcpy, access, h, decide_true, if_true]
  rfl

theorem strcat_fits {capacity : Nat} {dest s : Str} (h : dest.length + s.length < capacity) :
    strcat capacity dest s = pure (dest ++ s) := by
  simp only [strcat, access, h, decide_true, if_true]
  rfl

theorem terminated_advance {p : Ptr} {n : Nat} (hn : n ≤ p.text.length) :
    (p.advance n).Terminated ↔ p.Terminated := by
  unfold Ptr.Terminated
  simp only [text_advance, room_advance, List.length_drop]
  omega

theorem Ptr.Terminated.room_pos {p : Ptr} (h : p.Terminated) : 0 < p.room := by
  unfold Ptr.Terminated at h
  omega

theorem headD_eq_nul (p : Ptr) : p.text.headD NUL = NUL ↔ p.text = [] := by
  have := p.noNul
  cases htext : p.text with
  | nil => simp
  | cons c s =>
    rw [htext] at this
    simp only [List.headD_cons, reduceCtorEq, iff_false]
    rintro rfl
    exact this (List.mem_cons_self ..)

/-! ## strtok_r -/

/-- The pointer that `strtok_r` keeps between calls. It starts as NULL, and a NULL that was
advanced points nowhere. -/
inductive SavePtr where
  | null
  | wild
  | place (p : Ptr)

/-- The string at the saved pointer. -/
def SavePtr.deref : SavePtr → Watched Ptr
  | .null => ⟨Ptr.ofBuf [] 1, [.nullRead]⟩
  | .wild => ⟨Ptr.ofBuf [] 1, [.wildRead]⟩
  | .place p => pure p

def SavePtr.advance : SavePtr → Nat → SavePtr
  | .null, _ => .wild
  | .wild, _ => .wild
  | .place p, n => .place (p.advance n)

/-- What a call returns, and the pointer that it keeps. A token is a string of its own: its
end is overwritten with a NUL. -/
structure Tok where
  str : Option Str
  saveptr : SavePtr

/-- The body of `strtok_r`, with one delimiter. -/
def tokenFrom (delim : Char) (s : Ptr) : Watched Tok := do
  if (← s.peek) = NUL then return ⟨none, .place s⟩
  let s := s.advance (s.text.takeWhile (· = delim)).length
  if (← s.peek) = NUL then return ⟨none, .place s⟩
  let token := s.text.takeWhile (· ≠ delim)
  let tokenEnd := s.advance token.length
  if (← tokenEnd.peek) = NUL then return ⟨some token, .place tokenEnd⟩
  return ⟨some token, .place (tokenEnd.advance 1)⟩

/-- The characters of a token. -/
def readToken : Option Str → Watched Str
  | none => ⟨[], [.nullRead]⟩
  | some s => pure s

@[simp] theorem faults_readToken (t : Option Str) :
    (readToken t).faults = [] ↔ t.isSome = true := by
  cases t <;> simp [readToken]

/-- An empty field is not a token. -/
def tokenOf (s : Str) : Option Str := if s = [] then none else some s

@[simp] theorem isSome_tokenOf (s : Str) : (tokenOf s).isSome = true ↔ s ≠ [] := by
  unfold tokenOf
  split <;> simp_all

@[simp] theorem value_readToken_tokenOf (s : Str) : (readToken (tokenOf s)).value = s := by
  unfold tokenOf
  split <;> simp_all [readToken]

def strtokR (delim : Char) (str : Option Ptr) (saveptr : SavePtr) : Watched Tok := do
  let s ← match str with
    | some p => pure p
    | none => saveptr.deref
  tokenFrom delim s

/-! ## Fields -/

/-- The text before the first delimiter. -/
def field (delim : Char) (s : Str) : Str := s.takeWhile (· ≠ delim)

/-- The text after the first delimiter. -/
def afterField (delim : Char) (s : Str) : Str := (s.dropWhile (· ≠ delim)).drop 1

theorem delim_notMem_field (delim : Char) (s : Str) : delim ∉ field delim s := by
  intro h
  have := List.mem_takeWhile_imp h
  simp at this

theorem field_cases (delim : Char) (s : Str) :
    (field delim s = s ∧ afterField delim s = []) ∨
      s = field delim s ++ delim :: afterField delim s := by
  have happend : field delim s ++ s.dropWhile (· ≠ delim) = s := List.takeWhile_append_dropWhile
  cases hdrop : s.dropWhile (· ≠ delim) with
  | nil =>
    left
    rw [hdrop, List.append_nil] at happend
    exact ⟨happend, by rw [afterField, hdrop, List.drop_nil]⟩
  | cons c t =>
    right
    have hc : c = delim := by
      have := List.head?_dropWhile_not (· ≠ delim) s
      rw [hdrop] at this
      simpa using this
    rw [hdrop, hc] at happend
    rw [afterField, hdrop, List.drop_one, List.tail_cons, happend]

theorem eq_append_of_mem {delim : Char} {s : Str} (h : delim ∈ s) :
    s = field delim s ++ delim :: afterField delim s := by
  rcases field_cases delim s with ⟨hfield, -⟩ | hsplit
  · rw [← hfield] at h
    exact absurd h (delim_notMem_field delim s)
  · exact hsplit

theorem afterField_of_notMem {delim : Char} {s : Str} (h : delim ∉ s) : afterField delim s = [] := by
  rcases field_cases delim s with ⟨-, hnil⟩ | hsplit
  · exact hnil
  · exact absurd (hsplit ▸ List.mem_append_right _ List.mem_cons_self) h

theorem cstr_behind {delim : Char} {buf : Str} (h : delim ∈ cstr buf) :
    ∃ rest, buf = field delim (cstr buf) ++ delim :: rest ∧
      cstr rest = afterField delim (cstr buf) := by
  have hsplit := eq_append_of_mem h
  refine ⟨afterField delim (cstr buf) ++ buf.dropWhile (· ≠ NUL), ?_, ?_⟩
  · calc buf = cstr buf ++ buf.dropWhile (· ≠ NUL) := List.takeWhile_append_dropWhile.symm
      _ = _ := by
        conv_lhs => rw [hsplit]
        rw [List.append_assoc, List.cons_append]
  · have hnul : NUL ∉ afterField delim (cstr buf) := by
      intro hmem
      refine nul_notMem_cstr buf ?_
      rw [hsplit]
      exact List.mem_append_right _ (List.mem_cons_of_mem _ hmem)
    have hend : cstr (buf.dropWhile (· ≠ NUL)) = [] := by
      rw [cstr, List.takeWhile_eq_nil_iff]
      exact fun hne => List.dropWhile_get_zero_not _ _ hne
    rw [cstr_append hnul, hend, List.append_nil]

theorem drop_field_length (delim : Char) (s : Str) :
    s.drop ((field delim s).length + 1) = afterField delim s := by
  rcases field_cases delim s with ⟨hfield, hafter⟩ | hsplit
  · rw [hfield, hafter]
    exact List.drop_eq_nil_of_le (Nat.le_succ _)
  · calc s.drop ((field delim s).length + 1)
        = (s.drop (field delim s).length).drop 1 := by rw [List.drop_drop]
      _ = ((field delim s ++ delim :: afterField delim s).drop (field delim s).length).drop 1 := by
          rw [← hsplit]
      _ = afterField delim s := by rw [List.drop_left, List.drop_one, List.tail_cons]

theorem field_append {delim : Char} {s : Str} (h : delim ∉ s) (t : Str) :
    field delim (s ++ delim :: t) = s := by
  unfold field
  rw [List.takeWhile_append_of_pos (fun c hc => by simpa using ne_of_mem_of_not_mem hc h)]
  simp

theorem afterField_append {delim : Char} {s : Str} (h : delim ∉ s) (t : Str) :
    afterField delim (s ++ delim :: t) = t := by
  rw [← drop_field_length, field_append h]
  simp

theorem field_ne_nil {delim : Char} {s : Str} (h : field delim s ≠ []) :
    ∃ c t, s = c :: t ∧ c ≠ delim := by
  cases s with
  | nil => exact absurd rfl h
  | cons c t =>
    refine ⟨c, t, rfl, ?_⟩
    rintro rfl
    exact h (by simp [field])

theorem headD_of_field_nil {delim d : Char} {s : Str} (h : field delim s = []) (hs : s ≠ []) :
    s.headD d = delim := by
  obtain ⟨c, t, rfl⟩ := List.exists_cons_of_ne_nil hs
  by_contra hc
  have : field delim (c :: t) = c :: field delim t := List.takeWhile_cons_of_pos (by simpa using hc)
  rw [this] at h
  exact List.cons_ne_nil c _ h

/-! ## One token -/

theorem advance_zero (p : Ptr) : p.advance 0 = p := rfl

theorem tokenFrom_spec {delim : Char} {s : Ptr} (hne : field delim s.text ≠ []) :
    ∃ q : Ptr, (tokenFrom delim s).value = ⟨some (field delim s.text), .place q⟩ ∧
      q.text = afterField delim s.text ∧ (q.Terminated ↔ s.Terminated) ∧
      (s.Terminated → (tokenFrom delim s).faults = []) := by
  obtain ⟨c, t, htext, hc⟩ := field_ne_nil hne
  have hskip : (s.text.takeWhile (· = delim)).length = 0 := by
    rw [htext, List.takeWhile_cons_of_neg (by simpa using hc), List.length_nil]
  have hfirst : s.peek.value ≠ NUL := by
    rw [value_peek, ne_eq, headD_eq_nul, htext]
    exact List.cons_ne_nil c t
  let q := s.advance (field delim s.text).length
  have hle : (field delim s.text).length ≤ s.text.length := (List.takeWhile_prefix _).length_le
  have hsafe (ht : s.Terminated) : (tokenFrom delim s).faults = [] := by
    have hs : s.peek.faults = [] := (faults_peek s).mpr ht.room_pos
    have hq : q.peek.faults = [] :=
      (faults_peek q).mpr ((terminated_advance hle).mpr ht).room_pos
    simp only [tokenFrom, faults_bind, if_neg hfirst, hskip, advance_zero, hs, List.nil_append]
    change q.peek.faults ++ _ = []
    rw [hq, List.nil_append]
    split <;> rfl
  rcases field_cases delim s.text with ⟨hfield, hafter⟩ | hsplit
  · -- The token is the whole string.
    have hend : q.peek.value = NUL := by
      rw [value_peek, headD_eq_nul, text_advance, hfield, List.drop_length]
    refine ⟨q, ?_, ?_, terminated_advance hle, hsafe⟩
    · simp only [tokenFrom, value_bind, if_neg hfirst, hskip, advance_zero]
      exact congrArg Watched.value (if_pos hend)
    · rw [hafter, text_advance, hfield, List.drop_length]
  · have hlen := congrArg List.length hsplit
    rw [List.length_append, List.length_cons] at hlen
    have hend : q.peek.value ≠ NUL := by
      rw [value_peek, ne_eq, headD_eq_nul, text_advance, List.drop_eq_nil_iff]
      omega
    refine ⟨q.advance 1, ?_, ?_, ?_, hsafe⟩
    · simp only [tokenFrom, value_bind, if_neg hfirst, hskip, advance_zero]
      exact congrArg Watched.value (if_neg hend)
    · rw [text_advance, text_advance, List.drop_drop, drop_field_length]
    · rw [terminated_advance, terminated_advance hle]
      rw [text_advance, List.length_drop]
      omega

theorem tokenFrom_nil (delim : Char) {s : Ptr} (h : s.text = []) :
    (tokenFrom delim s).value = ⟨none, .place s⟩ ∧
      (s.Terminated → (tokenFrom delim s).faults = []) := by
  have hfirst : s.peek.value = NUL := by rw [value_peek, headD_eq_nul, h]
  unfold tokenFrom
  constructor
  · rw [value_bind, if_pos hfirst, value_pure]
  · intro ht
    rw [faults_bind, if_pos hfirst, faults_pure, (faults_peek s).mpr ht.room_pos, List.nil_append]

/-! ## All fields -/

def fields (delim : Char) (s : Str) : List Str := s.splitOn delim

theorem fields_cases (delim : Char) (s : Str) :
    (fields delim s = [s] ∧ field delim s = s ∧ afterField delim s = []) ∨
      (fields delim s = field delim s :: fields delim (afterField delim s) ∧
        (field delim s).length < s.length) := by
  rcases field_cases delim s with ⟨hfield, hafter⟩ | hsplit
  · refine Or.inl ⟨List.splitOn_eq_singleton ?_, hfield, hafter⟩
    exact hfield ▸ delim_notMem_field delim s
  · right
    constructor
    · conv_lhs => rw [hsplit]
      exact List.splitOn_append_cons_self_of_not_mem (delim_notMem_field delim s) _
    · have hlen := congrArg List.length hsplit
      rw [List.length_append, List.length_cons] at hlen
      omega

@[simp] theorem fields_delim (delim : Char) (s : Str) :
    fields delim (delim :: s) = [] :: fields delim s := by
  unfold fields
  rw [List.splitOn_cons_eq_if_modifyHead, if_pos (beq_self_eq_true delim)]

/-- The `k`-th field. Behind the last one every field is empty. -/
def fieldAt (delim : Char) (s : Str) (k : Nat) : Str := (fields delim s).getD k []

theorem flatten_fields (delim : Char) (s : Str) :
    (fields delim s).flatten = s.filter (· ≠ delim) := by
  induction s with
  | nil => rfl
  | cons c s ih =>
    by_cases hc : c = delim
    · subst hc
      rw [fields_delim, List.flatten_cons, ih, List.nil_append]
      simp
    · obtain ⟨f, rest, hfields⟩ := List.exists_cons_of_ne_nil (List.splitOn_ne_nil delim s)
      have hcons : fields delim (c :: s) = (c :: f) :: rest := by
        unfold fields
        rw [List.splitOn_cons_eq_if_modifyHead, if_neg (by simpa using hc), hfields]
        rfl
      rw [fields, hfields, List.flatten_cons] at ih
      rw [hcons, List.flatten_cons, List.cons_append, ih, List.filter_cons_of_pos (by simpa using hc)]

theorem flatten_eq_of_getD {xs ys : List Str} (h : ∀ k, xs.getD k [] = ys.getD k []) :
    xs.flatten = ys.flatten := by
  induction xs generalizing ys with
  | nil =>
    symm
    rw [List.flatten_nil, List.flatten_eq_nil_iff]
    intro y hy
    obtain ⟨k, hk, rfl⟩ := List.mem_iff_getElem.mp hy
    simpa [hk] using (h k).symm
  | cons x xs ih =>
    cases ys with
    | nil =>
      rw [List.flatten_nil, List.flatten_eq_nil_iff]
      intro y hy
      obtain ⟨k, hk, rfl⟩ := List.mem_iff_getElem.mp hy
      simpa [List.getElem?_eq_getElem hk] using h k
    | cons y ys =>
      have hhead : x = y := h 0
      rw [List.flatten_cons, List.flatten_cons, hhead, ih fun k => h (k + 1)]

theorem filter_eq_of_fieldAt {delim : Char} {s t : Str}
    (h : ∀ k, fieldAt delim s k = fieldAt delim t k) :
    s.filter (· ≠ delim) = t.filter (· ≠ delim) := by
  rw [← flatten_fields, ← flatten_fields]
  exact flatten_eq_of_getD h

theorem fieldAt_eq_nil_iff {delim : Char} {s : Str} :
    (∀ k, fieldAt delim s k = []) ↔ ∀ c ∈ s, c = delim := by
  constructor
  · intro h c hc
    have hnone : s.filter (· ≠ delim) = [] := by
      rw [← flatten_fields]
      exact @flatten_eq_of_getD _ [] h
    simpa using List.filter_eq_nil_iff.mp hnone c hc
  · intro h k
    have hnone : (fields delim s).flatten = [] := by
      rw [flatten_fields, List.filter_eq_nil_iff]
      intro c hc
      simpa using h c hc
    rw [List.flatten_eq_nil_iff] at hnone
    unfold fieldAt
    by_cases hk : k < (fields delim s).length
    · simpa [hk] using hnone _ (List.getElem_mem hk)
    · simp [List.getElem?_eq_none (Nat.not_lt.mp hk)]

theorem fieldAt_delims {delim : Char} {s : Str} {i : Nat} (h : ∀ c ∈ s.take i, c = delim)
    (hi : i ≤ s.length) (k : Nat) :
    (k < i → fieldAt delim s k = []) ∧ fieldAt delim s (k + i) = fieldAt delim (s.drop i) k := by
  induction i generalizing s k with
  | zero => exact ⟨fun hk => absurd hk (Nat.not_lt_zero k), rfl⟩
  | succ i ih =>
    obtain ⟨c, s, rfl⟩ := List.exists_cons_of_length_pos (by omega : 0 < s.length)
    rw [List.take_succ_cons, List.forall_mem_cons] at h
    obtain ⟨rfl, hrest⟩ := h
    have hi : i ≤ s.length := by simpa using hi
    unfold fieldAt at ih ⊢
    rw [fields_delim]
    constructor
    · intro hk
      cases k with
      | zero => rfl
      | succ k => exact (ih hrest hi k).1 (by omega)
    · rw [List.drop_succ_cons, ← (ih hrest hi k).2]
      rfl

theorem delims_of_fieldAt_drop {delim : Char} {s : Str} {i : Nat} (hpos : 0 < i)
    (hi : i ≤ s.length) (h : ∀ k, fieldAt delim s k = fieldAt delim (s.drop i) k) :
    ∀ c ∈ s, c = delim := by
  have hstart : ∀ c ∈ s.take i, c = delim := by
    have hfilter := filter_eq_of_fieldAt h
    conv_lhs at hfilter => rw [← List.take_append_drop i s]
    rw [List.filter_append, List.append_left_eq_self, List.filter_eq_nil_iff] at hfilter
    intro c hc
    simpa using hfilter c hc
  rw [← fieldAt_eq_nil_iff]
  intro k
  induction k using Nat.strong_induction_on with
  | h k ih =>
    rcases Nat.lt_or_ge k i with hk | hk
    · exact (fieldAt_delims hstart hi k).1 hk
    · obtain ⟨j, rfl⟩ := Nat.exists_eq_add_of_le' hk
      rw [(fieldAt_delims hstart hi j).2, ← h j]
      exact ih j (by omega)

/-- What `strtok_r` has still to go through: the fields from `p` on, or none when the last
token ended at the end of the string. -/
def Ahead (delim : Char) (p : Ptr) (rest : List Str) : Prop :=
  p.Terminated ∧ (fields delim p.text = rest ∨ rest = [] ∧ p.text = [])

theorem Ahead.field_eq {delim : Char} {p : Ptr} {rest : List Str} (h : Ahead delim p rest) :
    field delim p.text = rest.headD [] := by
  rcases h.2 with rfl | ⟨rfl, htext⟩
  · rcases fields_cases delim p.text with ⟨hall, hfield, -⟩ | ⟨hcons, -⟩
    · rw [hall, hfield, List.headD_cons]
    · rw [hcons, List.headD_cons]
  · rw [htext]
    rfl

theorem Ahead.afterField {delim : Char} {p q : Ptr} {rest : List Str} (h : Ahead delim p rest)
    (htext : q.text = afterField delim p.text) (hq : q.Terminated ↔ p.Terminated) :
    Ahead delim q rest.tail := by
  refine ⟨hq.mpr h.1, ?_⟩
  rw [htext]
  rcases h.2 with rfl | ⟨rfl, hnil⟩
  · rcases fields_cases delim p.text with ⟨hall, -, hafter⟩ | ⟨hcons, -⟩
    · exact Or.inr ⟨by rw [hall, List.tail_cons], hafter⟩
    · exact Or.inl (by rw [hcons, List.tail_cons])
  · exact Or.inr ⟨rfl, by rw [hnil]; rfl⟩

theorem tokenFrom_ahead {delim : Char} {p : Ptr} {rest : List Str} (h : Ahead delim p rest)
    (hne : rest.headD [] ≠ []) :
    ∃ q, (tokenFrom delim p).value = ⟨some (rest.headD []), .place q⟩ ∧
      (tokenFrom delim p).faults = [] ∧ Ahead delim q rest.tail := by
  rw [← h.field_eq] at hne ⊢
  obtain ⟨q, hvalue, htext, hq, hsafe⟩ := tokenFrom_spec hne
  exact ⟨q, hvalue, hsafe h.1, h.afterField htext hq⟩

end CMemory
