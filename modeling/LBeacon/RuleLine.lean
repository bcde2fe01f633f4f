import LBeacon.Uuid

/-!
# The lines with rules

A line has a count and rules, with commas between them; a rule has its fields, with semicolons
between them. `get_config` cuts both with `strtok_save`.
-/

open CText CMemory

namespace LBeacon

/-! ## The source -/

/-- `strncpy` of a token, with its own length, to a buffer of zeros. -/
def copyToken (capacity : Nat) (token : Option Str) : Watched Str := do
  let s ← readToken token
  access (decide (s.length ≤ capacity)) .writePastEnd s

/-- The first two fields of a rule, and the pointer behind them. -/
def ruleHead (prefixSize : Nat) (singlePrefix : Str) (saveptr : SavePtr) :
    Watched (Str × Str × SavePtr) := do
  let token ← strtokSave ';' (some (Ptr.ofBuf singlePrefix configBufferSize)) saveptr
  let rulePrefix ← copyToken prefixSize token.str
  let token ← strtokSave ';' none token.saveptr
  let identifier ← copyToken lengthOfAdvertisement token.str
  return (rulePrefix, identifier, token.saveptr)

def macPrefixNode (singlePrefix : Str) (saveptr : SavePtr) : Watched (PrefixRule × SavePtr) := do
  let head ← ruleHead lengthOfMacAddress singlePrefix saveptr
  return (⟨head.1, head.2.1⟩, head.2.2)

def deviceNameNode (singlePrefix : Str) (saveptr : SavePtr) :
    Watched (DeviceNamePrefix × SavePtr) := do
  let head ← ruleHead lengthOfAdvertisement singlePrefix saveptr
  let token ← strtokSave ';' none head.2.2
  let isPayloadNeeded ← readToken token.str
  let token ← strtokSave ';' none token.saveptr
  let isScanRspNeeded ← readToken token.str
  return (⟨head.1, head.2.1, atoi isPayloadNeeded ≠ 0, atoi isScanRspNeeded ≠ 0⟩, token.saveptr)

variable {α : Type}

/-- The counted loop. Both saved pointers live on from one rule to the next. -/
def readRules (node : Str → SavePtr → Watched (α × SavePtr)) :
    Nat → SavePtr × SavePtr → Watched (List α × SavePtr × SavePtr)
  | 0, saveptrs => return ([], saveptrs)
  | n + 1, (saveptr, prefixSaveptr) => do
    let token ← strtokSave ',' none saveptr
    let singlePrefix ← copyToken configBufferSize token.str
    let rule ← node singlePrefix prefixSaveptr
    let rest ← readRules node n (token.saveptr, rule.2)
    return (rule.1 :: rest.1, rest.2)

/-- The count is what `sscanf` finds, and zero if it finds none. -/
def readRuleLine (node : Str → SavePtr → Watched (α × SavePtr)) (tempBuf : Str)
    (saveptrs : SavePtr × SavePtr) : Watched (List α × SavePtr × SavePtr) := do
  let token ← strtokSave ',' (some (Ptr.ofBuf tempBuf configBufferSize)) saveptrs.1
  let number ← readToken token.str
  readRules node ((scanInt number).getD 0).toNat (token.saveptr, saveptrs.2)

/-! ## What a line says -/

/-- A text that a buffer of the configuration holds as a string. -/
def FitsBuffer (s : Str) : Prop := s.length < configBufferSize ∧ NUL ∉ s

theorem fitsBuffer_nil : FitsBuffer [] := ⟨by decide, List.not_mem_nil⟩

theorem FitsBuffer.part {s : Str} (h : FitsBuffer s) (delim : Char) (k : Nat) :
    FitsBuffer (fieldAt delim s k) := by
  have hmem : fieldAt delim s k ∈ fields delim s ∨ fieldAt delim s k = [] := by
    unfold fieldAt
    rw [List.getD_eq_getElem?_getD]
    rcases Nat.lt_or_ge k (fields delim s).length with hk | hk
    · rw [List.getElem?_eq_getElem hk]
      exact Or.inl (List.getElem_mem hk)
    · rw [List.getElem?_eq_none hk]
      exact Or.inr rfl
  rcases hmem with hmem | hnil
  · have hflat : (fieldAt delim s k).Sublist (fields delim s).flatten :=
      List.sublist_flatten_of_mem hmem
    rw [flatten_fields] at hflat
    have hsub := hflat.trans List.filter_sublist
    exact ⟨Nat.lt_of_le_of_lt hsub.length_le h.1, fun hnul => h.2 (hsub.subset hnul)⟩
  · rw [hnil]
    exact fitsBuffer_nil

theorem FitsBuffer.ahead {s : Str} (h : FitsBuffer s) (delim : Char) :
    Ahead delim (Ptr.ofBuf s configBufferSize) (fields delim s) := by
  have htext : (Ptr.ofBuf s configBufferSize).text = s := by
    rw [text_ofBuf h.1.le, cstr_eq_self h.2]
  refine ⟨?_, Or.inl (by rw [htext])⟩
  unfold Ptr.Terminated
  rw [htext]
  exact h.1

theorem copyToken_field (capacity : Nat) (s : Str) :
    (copyToken capacity (tokenOf s)).value = s ∧
      ((copyToken capacity (tokenOf s)).faults = [] ↔ s ≠ [] ∧ s.length ≤ capacity) := by
  unfold copyToken
  simp only [value_bind, value_access, value_readToken_tokenOf, faults_bind,
    List.append_eq_nil_iff, faults_readToken, isSome_tokenOf, faults_access, decide_eq_true_eq,
    and_self]

theorem strtokSave_start {delim : Char} (hdelim : delim ≠ NUL) {p : Ptr} {rest : List Str}
    (h : Ahead delim p rest) (saveptr : SavePtr) :
    (strtokSave delim (some p) saveptr).faults = [] ∧
      (strtokSave delim (some p) saveptr).value.str = tokenOf (rest.headD []) ∧
      (rest.headD [] ≠ [] → ∃ q,
        (strtokSave delim (some p) saveptr).value.saveptr = .place q ∧
          Ahead delim q rest.tail) := by
  by_cases hnil : rest.headD [] = []
  · obtain ⟨hvalue, hsafe⟩ := strtokSave_none saveptr (Or.inl rfl) (h.field_eq.trans hnil) hdelim
    refine ⟨hsafe h.1, ?_, fun hne => absurd hnil hne⟩
    rw [hvalue, tokenOf, if_pos hnil]
  · obtain ⟨q, hvalue, hfaults, hq⟩ := strtokSave_first h hnil saveptr
    refine ⟨hfaults, ?_, fun _ => ⟨q, ?_, hq⟩⟩
    · rw [hvalue, tokenOf, if_neg hnil]
    · rw [hvalue]

theorem headD_drop_fields (delim : Char) (s : Str) (k : Nat) :
    ((fields delim s).drop k).headD [] = fieldAt delim s k := by
  rw [fieldAt, List.headD_eq_head?_getD, List.getD_eq_getElem?_getD, List.head?_drop]

/-! ## A rule -/

/-- The first two fields of a rule are there and fit. -/
def HeadOk (prefixSize : Nat) (single : Str) : Prop :=
  (fieldAt ';' single 0 ≠ [] ∧ (fieldAt ';' single 0).length ≤ prefixSize) ∧
    fieldAt ';' single 1 ≠ [] ∧ (fieldAt ';' single 1).length ≤ lengthOfAdvertisement

theorem ruleHead_spec (prefixSize : Nat) {single : Str} (h : FitsBuffer single)
    (saveptr : SavePtr) :
    ((ruleHead prefixSize single saveptr).faults = [] ↔ HeadOk prefixSize single) ∧
      (HeadOk prefixSize single → ∃ q,
        (ruleHead prefixSize single saveptr).value =
          (fieldAt ';' single 0, fieldAt ';' single 1, .place q) ∧
        Ahead ';' q (fields ';' single).tail.tail) := by
  have hzero : (fields ';' single).headD [] = fieldAt ';' single 0 := headD_drop_fields _ _ 0
  have hone : (fields ';' single).tail.headD [] = fieldAt ';' single 1 := by
    rw [← List.drop_one, headD_drop_fields]
  obtain ⟨hfaults, hstr, hnext⟩ := strtokSave_start (by decide) (h.ahead ';') saveptr
  rw [hzero] at hstr hnext
  obtain ⟨hvalue, hcopy⟩ := copyToken_field prefixSize (fieldAt ';' single 0)
  by_cases hnil : fieldAt ';' single 0 = []
  · refine ⟨iff_of_false ?_ fun hok => hok.1.1 hnil, fun hok => absurd hnil hok.1.1⟩
    unfold ruleHead
    simp only [faults_bind, hfaults, hstr, List.nil_append, List.append_eq_nil_iff, hcopy, not_and]
    exact fun hne => absurd hnil hne.1
  · obtain ⟨q, hsave, hq⟩ := hnext hnil
    obtain ⟨q', hsecond, hfaults', hq'⟩ := strtokSave_next hq (by decide)
    rw [hone] at hsecond
    obtain ⟨hvalue', hcopy'⟩ :=
      copyToken_field lengthOfAdvertisement (fieldAt ';' single 1)
    constructor
    · unfold ruleHead HeadOk
      simp only [faults_bind, faults_pure, hfaults, hstr, hsave, hsecond, hfaults', List.nil_append,
        List.append_nil, List.append_eq_nil_iff, hcopy, hcopy']
    · refine fun _ => ⟨q', ?_, hq'⟩
      unfold ruleHead
      simp only [value_bind, value_pure, hstr, hsave, hsecond, hvalue, hvalue']

/-- What the loop needs of the code for one rule: it goes through exactly where the rule is as it
should be, and then the rule is what `parsed` says. -/
structure NodeSpec (node : Str → SavePtr → Watched (α × SavePtr)) (Ok : Str → Prop)
    (parsed : Str → α) : Prop where
  faults : ∀ {single : Str}, FitsBuffer single → ∀ saveptr,
    (node single saveptr).faults = [] ↔ Ok single
  value : ∀ {single : Str}, FitsBuffer single → ∀ saveptr, Ok single →
    (node single saveptr).value.1 = parsed single
  nonempty : ∀ {single : Str}, Ok single → single ≠ []

theorem HeadOk.ne_nil {prefixSize : Nat} {single : Str} (h : HeadOk prefixSize single) :
    single ≠ [] := by
  rintro rfl
  exact h.1.1 rfl

def macPrefixRule (single : Str) : PrefixRule := ⟨fieldAt ';' single 0, fieldAt ';' single 1⟩

theorem macPrefixNode_spec :
    NodeSpec macPrefixNode (HeadOk lengthOfMacAddress) macPrefixRule := by
  refine ⟨fun {single} h saveptr => ?_, fun {single} h saveptr hok => ?_, HeadOk.ne_nil⟩
  · unfold macPrefixNode
    rw [faults_bind, faults_pure, List.append_nil]
    exact (ruleHead_spec lengthOfMacAddress h saveptr).1
  · obtain ⟨q, hvalue, -⟩ := (ruleHead_spec lengthOfMacAddress h saveptr).2 hok
    unfold macPrefixNode
    rw [value_bind, hvalue]
    rfl

def deviceNameRule (single : Str) : DeviceNamePrefix :=
  ⟨fieldAt ';' single 0, fieldAt ';' single 1, atoi (fieldAt ';' single 2) ≠ 0,
    atoi (fieldAt ';' single 3) ≠ 0⟩

/-- A rule for names has two flags as well. -/
def NameOk (single : Str) : Prop :=
  HeadOk lengthOfAdvertisement single ∧ fieldAt ';' single 2 ≠ [] ∧ fieldAt ';' single 3 ≠ []

theorem deviceNameNode_spec : NodeSpec deviceNameNode NameOk deviceNameRule := by
  have htwo (single : Str) :
      (fields ';' single).tail.tail.headD [] = fieldAt ';' single 2 := by
    rw [← headD_drop_fields, ← List.drop_one, ← List.drop_one, List.drop_drop]
  have hthree (single : Str) :
      (fields ';' single).tail.tail.tail.headD [] = fieldAt ';' single 3 := by
    rw [← headD_drop_fields, ← List.drop_one, ← List.drop_one, ← List.drop_one, List.drop_drop,
      List.drop_drop]
  refine ⟨fun {single} h saveptr => ?_, fun {single} h saveptr hok => ?_,
    fun hok => hok.1.ne_nil⟩
  · obtain ⟨hfaults, hhead⟩ := ruleHead_spec lengthOfAdvertisement h saveptr
    unfold deviceNameNode NameOk
    rw [faults_bind, List.append_eq_nil_iff, hfaults]
    refine and_congr_right fun hok => ?_
    obtain ⟨q, hvalue, hq⟩ := hhead hok
    obtain ⟨q₂, hvalue₂, hfaults₂, hq₂⟩ := strtokSave_next hq (by decide)
    obtain ⟨q₃, hvalue₃, hfaults₃, -⟩ := strtokSave_next hq₂ (by decide)
    rw [htwo] at hvalue₂
    rw [hthree] at hvalue₃
    simp only [hvalue, faults_bind, faults_pure, hfaults₂, hvalue₂, hfaults₃, hvalue₃,
      List.nil_append, List.append_nil, List.append_eq_nil_iff, faults_readToken, isSome_tokenOf]
  · obtain ⟨q, hvalue, hq⟩ := (ruleHead_spec lengthOfAdvertisement h saveptr).2 hok.1
    obtain ⟨q₂, hvalue₂, -, hq₂⟩ := strtokSave_next hq (by decide)
    obtain ⟨q₃, hvalue₃, -, -⟩ := strtokSave_next hq₂ (by decide)
    rw [htwo] at hvalue₂
    rw [hthree] at hvalue₃
    unfold deviceNameNode deviceNameRule
    simp only [value_bind, value_pure, hvalue, hvalue₂, hvalue₃, value_readToken_tokenOf]

/-! ## A line -/

theorem readRules_spec {node : Str → SavePtr → Watched (α × SavePtr)} {Ok : Str → Prop}
    {parsed : Str → α} (hnode : NodeSpec node Ok parsed) (n : Nat) :
    ∀ {p : Ptr} {rest : List Str} (prefixSaveptr : SavePtr), Ahead ',' p rest →
      (∀ k, FitsBuffer (rest.getD k [])) →
      ((readRules node n (.place p, prefixSaveptr)).faults = [] ↔
        ∀ i < n, Ok (rest.getD i [])) ∧
      ((∀ i < n, Ok (rest.getD i [])) →
        (readRules node n (.place p, prefixSaveptr)).value.1 =
          (List.range n).map fun i => parsed (rest.getD i [])) := by
  induction n with
  | zero =>
    intro p rest prefixSaveptr _ _
    exact ⟨iff_of_true rfl fun i hi => absurd hi (Nat.not_lt_zero i), fun _ => rfl⟩
  | succ n ih =>
    intro p rest prefixSaveptr h hfits
    have hzero : rest.headD [] = rest.getD 0 [] := by
      rw [List.headD_eq_head?_getD, List.getD_eq_getElem?_getD, List.head?_eq_getElem?]
    have htail (i : Nat) : rest.tail.getD i [] = rest.getD (i + 1) [] := by
      rw [List.getD_eq_getElem?_getD, List.getD_eq_getElem?_getD, List.getElem?_tail]
    obtain ⟨q, hvalue, hfaults, hq⟩ := strtokSave_next h (by decide)
    rw [hzero] at hvalue
    obtain ⟨hcopied, hcopy⟩ := copyToken_field configBufferSize (rest.getD 0 [])
    have hrest := fun saveptr => ih saveptr hq fun k => (htail k).symm ▸ hfits (k + 1)
    simp only [htail] at hrest
    have hfirst := hnode.faults (hfits 0)
    have hsplit : (∀ i < n + 1, Ok (rest.getD i [])) ↔
        Ok (rest.getD 0 []) ∧ ∀ i < n, Ok (rest.getD (i + 1) []) := by
      constructor
      · exact fun hall => ⟨hall 0 (Nat.succ_pos n), fun i hi => hall (i + 1) (by omega)⟩
      · rintro ⟨hhead, hall⟩ i hi
        cases i with
        | zero => exact hhead
        | succ i => exact hall i (by omega)
    have hcopy' : Ok (rest.getD 0 []) → rest.getD 0 [] ≠ [] ∧
        (rest.getD 0 []).length ≤ configBufferSize := fun hok =>
      ⟨hnode.nonempty hok, (hfits 0).1.le⟩
    rw [hsplit, readRules]
    constructor
    · simp only [faults_bind, faults_pure, hfaults, hvalue, List.nil_append, List.append_nil,
        List.append_eq_nil_iff, hcopy, hcopied, hfirst, (hrest _).1]
      constructor
      · exact fun hall => hall.2
      · exact fun hall => ⟨hcopy' hall.1, hall⟩
    · rintro ⟨hok, hall⟩
      simp only [value_bind, value_pure, hvalue, hcopied, hnode.value (hfits 0) _ hok,
        (hrest _).2 hall, List.range_succ_eq_map, List.map_cons, List.map_map]
      rfl

/-- The count that a line starts with. -/
def ruleCount (line : Str) : Nat := ((scanInt (fieldAt ',' line 0)).getD 0).toNat

/-- The line starts with something to count, and has as many rules as it says. -/
structure RuleLineOk (Ok : Str → Prop) (line : Str) : Prop where
  count : fieldAt ',' line 0 ≠ []
  rules : ∀ i < ruleCount line, Ok (fieldAt ',' line (i + 1))

def parsedRules (parsed : Str → α) (line : Str) : List α :=
  (List.range (ruleCount line)).map fun i => parsed (fieldAt ',' line (i + 1))

theorem readRuleLine_spec {node : Str → SavePtr → Watched (α × SavePtr)} {Ok : Str → Prop}
    {parsed : Str → α} (hnode : NodeSpec node Ok parsed) {line : Str} (h : FitsBuffer line)
    (saveptrs : SavePtr × SavePtr) :
    ((readRuleLine node line saveptrs).faults = [] ↔ RuleLineOk Ok line) ∧
      (RuleLineOk Ok line →
        (readRuleLine node line saveptrs).value.1 = parsedRules parsed line) := by
  have hzero : (fields ',' line).headD [] = fieldAt ',' line 0 := headD_drop_fields _ _ 0
  have htail (k : Nat) : (fields ',' line).tail.getD k [] = fieldAt ',' line (k + 1) := by
    rw [fieldAt, List.getD_eq_getElem?_getD, List.getD_eq_getElem?_getD, List.getElem?_tail]
  obtain ⟨hfaults, hstr, hnext⟩ := strtokSave_start (by decide) (h.ahead ',') saveptrs.1
  rw [hzero] at hstr hnext
  by_cases hnil : fieldAt ',' line 0 = []
  · refine ⟨iff_of_false ?_ fun hok => hok.count hnil, fun hok => absurd hnil hok.count⟩
    unfold readRuleLine
    simp only [faults_bind, hfaults, hstr, List.nil_append, List.append_eq_nil_iff,
      faults_readToken, isSome_tokenOf, not_and]
    exact fun hne => absurd hnil hne
  · obtain ⟨q, hsave, hq⟩ := hnext hnil
    have hrules := readRules_spec hnode (ruleCount line) saveptrs.2 hq
      fun k => (htail k).symm ▸ h.part ',' (k + 1)
    simp only [htail] at hrules
    constructor
    · unfold readRuleLine
      simp only [faults_bind, hfaults, hstr, hsave, List.nil_append, List.append_eq_nil_iff,
        faults_readToken, isSome_tokenOf, value_readToken_tokenOf]
      constructor
      · rintro ⟨hcount, hclean⟩
        exact ⟨hcount, hrules.1.mp hclean⟩
      · exact fun hok => ⟨hok.count, hrules.1.mpr hok.rules⟩
    · intro hok
      unfold readRuleLine
      simp only [value_bind, hstr, hsave, value_readToken_tokenOf]
      exact hrules.2 hok.rules

end LBeacon
