import LBeacon.HealthReport
import LBeacon.RuleLine
import Mathlib.Tactic.IntervalCases

/-!
# The configuration file

`get_config` reads one line after the other with `fetch_next_string`, and stores each in a field
of its own.
-/

open CText CMemory

namespace LBeacon

/-! ## The source -/

/-- A file that is read, and what was left of it at each call of `fgets`. -/
structure ConfigReader where
  rest : Str
  reads : List Str

def ConfigReader.next (file : ConfigReader) : ConfigReader :=
  ⟨(fgets configBufferSize file.rest).2, file.reads ++ [file.rest]⟩

/-- What `config_setting` holds at the start of each call of `fetch_next_string`, and what lies
below it on the stack. -/
structure ConfigStack where
  setting : Nat → Str
  below : Nat → Int → Char

/-- At the end of the file `fgets` leaves the buffer as it is. Without a `=`, what is trimmed and
copied is the string at address 1. -/
def fetchNextString (stack : ConfigStack) (file : ConfigReader) : Watched (Str × ConfigReader) := do
  let call := file.reads.length
  let configSetting := (fgets configBufferSize file.rest).1.getD (stack.setting call)
  if '=' ∈ cstr configSetting then
    let configMessage := (field '=' (cstr configSetting)).length + 1
    let message ← trimAt (stack.below call) configSetting configMessage
    let message ← strcpy configBufferSize message
    return (message, file.next)
  else ⟨([], file.next), [.wildRead]⟩

/-- `memcpy` of a string without its NUL, to a field of zeros. -/
def copyText (capacity : Nat) (s : Str) : Watched Str :=
  access (decide (s.length ≤ capacity)) .writePastEnd s

/-- The fields that a message of the log prints with `%s`, and their sizes. -/
def printFields : List (Nat × Str) → Watched Unit
  | [] => return ()
  | (capacity, s) :: rest => do
    access (decide (s.length < capacity)) .readPastEnd ()
    printFields rest

/-- Items 1 to 5. -/
def readLocation (stack : ConfigStack) (file : ConfigReader) (config : BeaconConfig) :
    Watched (BeaconConfig × ConfigReader) := do
  let r ← fetchNextString stack file
  let areaId ← copyText configBufferSize r.1
  let r ← fetchNextString stack r.2
  let coordinateX ← copyText configBufferSize r.1
  let r ← fetchNextString stack r.2
  let coordinateY ← copyText configBufferSize r.1
  let r ← fetchNextString stack r.2
  let coordinateZ ← copyText configBufferSize r.1
  let r ← fetchNextString stack r.2
  let lowestBasementLevel := atoi r.1
  return ({ config with areaId, coordinateX, coordinateY, coordinateZ, lowestBasementLevel }, r.2)

/-- Items 7 to 13. -/
def readRadio (stack : ConfigStack) (file : ConfigReader) (config : BeaconConfig) :
    Watched (BeaconConfig × ConfigReader) := do
  let r ← fetchNextString stack file
  let advertiseDongleId := atoi r.1
  let r ← fetchNextString stack r.2
  let advertiseIntervalInUnits0625Ms := atoi r.1
  let r ← fetchNextString stack r.2
  let advertiseRssiValue := atoi r.1
  let r ← fetchNextString stack r.2
  let scanDongleId := atoi r.1
  let r ← fetchNextString stack r.2
  let scanIntervalInUnits0625Ms := atoi r.1
  let r ← fetchNextString stack r.2
  let scanWindowInUnits0625Ms := atoi r.1
  let r ← fetchNextString stack r.2
  let scanRssiCoverage := atoi r.1
  return ({ config with
    advertiseDongleId, advertiseIntervalInUnits0625Ms, advertiseRssiValue, scanDongleId,
    scanIntervalInUnits0625Ms, scanWindowInUnits0625Ms, scanRssiCoverage }, r.2)

def PrefixRule.printed (rule : PrefixRule) : List (Nat × Str) :=
  [(lengthOfMacAddress, rule.rulePrefix), (lengthOfAdvertisement, rule.identifier)]

def DeviceNamePrefix.printed (rule : DeviceNamePrefix) : List (Nat × Str) :=
  [(lengthOfAdvertisement, rule.rulePrefix), (lengthOfAdvertisement, rule.identifier)]

/-- Items 14 and 15. -/
def readRuleLists (stack : ConfigStack) (file : ConfigReader) (config : BeaconConfig) :
    Watched (BeaconConfig × ConfigReader) := do
  let r ← fetchNextString stack file
  let tempBuf ← copyText configBufferSize r.1
  let macPrefix ← readRuleLine macPrefixNode tempBuf (.null, .null)
  printFields (macPrefix.1.flatMap PrefixRule.printed)
  let r ← fetchNextString stack r.2
  let tempBuf ← copyText configBufferSize r.1
  let deviceName ← readRuleLine deviceNameNode tempBuf macPrefix.2
  printFields (deviceName.1.flatMap DeviceNamePrefix.printed)
  return ({ config with
    macPrefixList := macPrefix.1
    deviceNamePrefixList := deviceName.1 }, r.2)

/-- Items 16 to 18. -/
def readNetwork (stack : ConfigStack) (file : ConfigReader) (config : BeaconConfig) :
    Watched (BeaconConfig × ConfigReader) := do
  let r ← fetchNextString stack file
  let gatewayAddr ← copyText networkAddrLength r.1
  let r ← fetchNextString stack r.2
  let gatewayPort := atoi r.1
  let localAddr := []
  let r ← fetchNextString stack r.2
  let localClientPort := atoi r.1
  printFields [(networkAddrLength, gatewayAddr)]
  return ({ config with gatewayAddr, gatewayPort, localAddr, localClientPort }, r.2)

/-- `opens` are the answers of `fopen`. Beside the code and the configuration, the result has the
record of what was read. -/
def BeaconConfig.getConfig (L : FloatLib) (stack : ConfigStack) (opens : Nat → Bool) (content : Str)
    (config : BeaconConfig) : Watched (ConfigCode × BeaconConfig × List Str) := do
  if (List.range fileOpenRetry).any opens then
    let location ← readLocation stack ⟨content, []⟩ config
    let uuid ← generateUuid L location.1
    if uuid.1 = .workSuccessfully then
      let radio ← readRadio stack location.2 uuid.2
      let rules ← readRuleLists stack radio.2 radio.1
      let network ← readNetwork stack rules.2 rules.1
      return (.workSuccessfully, network.1, network.2.reads)
    else return (.eInputParameter, uuid.2, location.2.reads)
  else return (.eOpenFile, config, [])

/-! ## The lines of a file -/

/-- What is left behind the first `k` lines. -/
def behindLines (content : Str) : Nat → Str
  | 0 => content
  | k + 1 => (behindLines content k).drop (firstLine (behindLines content k)).length

/-- As much of a line as the buffer takes. -/
def bufferedLine (content : Str) (k : Nat) : Str :=
  (firstLine (behindLines content k)).take (configBufferSize - 1)

/-- The text behind the `=`. -/
def lineText (content : Str) (k : Nat) : Str :=
  trimmed (afterField '=' (cstr (bufferedLine content k)))

/-- What is left when `fgets` was called `k` times. -/
def behindReads (content : Str) : Nat → Str
  | 0 => content
  | k + 1 => (fgets configBufferSize (behindReads content k)).2

/-- Call `k` is for a line that is there. -/
def ReadsOwnLine (content : Str) (k : Nat) : Prop :=
  behindReads content k = behindLines content k ∧ behindLines content k ≠ []

def readerAt (content : Str) (k : Nat) : ConfigReader :=
  ⟨behindReads content k, (List.range k).map (behindReads content)⟩

theorem readerAt_zero (content : Str) : (⟨content, []⟩ : ConfigReader) = readerAt content 0 := rfl

theorem readerAt_next (content : Str) (k : Nat) :
    (readerAt content k).next = readerAt content (k + 1) := by
  unfold readerAt ConfigReader.next
  rw [List.range_succ, List.map_append]
  rfl

theorem fgets_rest (stream : Str) : (fgets configBufferSize stream).2 =
    stream.drop ((firstLine stream).take (configBufferSize - 1)).length := rfl

theorem bufferedLine_length (content : Str) (k : Nat) :
    (bufferedLine content k).length < configBufferSize := by
  have := List.length_take_le (configBufferSize - 1) (firstLine (behindLines content k))
  unfold bufferedLine
  unfold configBufferSize at *
  omega

theorem behindLines_ne_nil {content : Str} {k : Nat} (h : behindLines content k ≠ []) :
    ∀ {j : Nat}, j ≤ k → behindLines content j ≠ [] := by
  induction k with
  | zero =>
    intro j hj
    rwa [Nat.le_zero.mp hj]
  | succ k ih =>
    have hk : behindLines content k ≠ [] := by
      intro hnil
      rw [behindLines, hnil, List.drop_nil] at h
      exact h rfl
    intro j hj
    rcases Nat.lt_or_ge k j with hlt | hge
    · rwa [show j = k + 1 by omega]
    · exact ih hk hge

theorem readsOwnLines_iff (content : Str) (n : Nat) :
    (∀ k < n, ReadsOwnLine content k) ↔
      ∀ k < n, behindLines content k ≠ [] ∧
        (k + 1 < n → (firstLine (behindLines content k)).length < configBufferSize) := by
  constructor
  · intro h k hk
    refine ⟨(h k hk).2, fun hnext => ?_⟩
    obtain ⟨heq, hne⟩ := h (k + 1) hnext
    rw [behindReads, (h k hk).1, fgets_rest, behindLines] at heq
    rw [behindLines] at hne
    have hlen := congrArg List.length heq
    have hpos := List.length_pos_iff.mpr hne
    simp only [List.length_drop, List.length_take] at hlen hpos
    unfold configBufferSize at *
    omega
  · intro h k hk
    refine ⟨?_, (h k hk).1⟩
    induction k with
    | zero => rfl
    | succ k ih =>
      have hshort := (h k (by omega)).2 hk
      rw [behindReads, ih (by omega), fgets_rest, behindLines, List.take_of_length_le (by omega)]

/-! ## One call -/

theorem fetch_next (stack : ConfigStack) (content : Str) (k : Nat) :
    (fetchNextString stack (readerAt content k)).value.2 = readerAt content (k + 1) := by
  rw [← readerAt_next]
  unfold fetchNextString
  dsimp only
  split <;> rfl

theorem lineText_fits (content : Str) (k : Nat) : FitsBuffer (lineText content k) := by
  have hfront : lineText content k <+: afterField '=' (cstr (bufferedLine content k)) :=
    List.rdropWhile_prefix _ _
  have hsuffix : afterField '=' (cstr (bufferedLine content k)) <:+ cstr (bufferedLine content k) :=
    (List.drop_suffix _ _).trans (List.dropWhile_suffix _)
  have hlen := bufferedLine_length content k
  have hcstr := cstr_length_le (bufferedLine content k)
  have hle := hfront.length_le
  have hle' := hsuffix.length_le
  refine ⟨by omega, fun hnul => ?_⟩
  exact nul_notMem_cstr _ (hsuffix.subset (hfront.subset hnul))

def HasMatch (content : Str) (k : Nat) : Prop := '=' ∈ cstr (bufferedLine content k)

theorem fetch_own (stack : ConfigStack) {content : Str} {k : Nat} (h : ReadsOwnLine content k) :
    (fetchNextString stack (readerAt content k)).value.1 = lineText content k ∧
      ((fetchNextString stack (readerAt content k)).faults = [] ↔ HasMatch content k) := by
  obtain ⟨heq, hne⟩ := h
  have hline : (fgets configBufferSize (readerAt content k).rest).1 =
      some (bufferedLine content k) := by
    have htake : bufferedLine content k ≠ [] := by
      unfold bufferedLine
      rw [ne_eq, List.take_eq_nil_iff, not_or]
      exact ⟨by decide, firstLine_ne_nil hne⟩
    change (fgets configBufferSize (behindReads content k)).1 = _
    rw [heq]
    exact if_neg htake
  unfold fetchNextString
  simp only [hline, Option.getD_some]
  unfold HasMatch
  by_cases hmatch : '=' ∈ cstr (bufferedLine content k)
  · generalize hbuf : bufferedLine content k = buf at hmatch
    obtain ⟨rest, hfull, hbehind⟩ := cstr_behind hmatch
    -- What is trimmed ends at the `=` at the latest.
    have htrim := trimAt_inside (stack.below (readerAt content k).reads.length)
      (field '=' (cstr buf)) rest (c := '=') (by decide)
    rw [← hfull, hbehind] at htrim
    have htext : lineText content k = trimmed (afterField '=' (cstr buf)) := by
      rw [lineText, hbuf]
    have hfits := (lineText_fits content k).1
    rw [htext] at hfits ⊢
    rw [if_pos hmatch, htrim, watched_pure_bind, strcpy_fits hfits]
    exact ⟨rfl, iff_of_true rfl hmatch⟩
  · rw [if_neg hmatch, lineText, afterField_of_notMem hmatch]
    exact ⟨rfl, iff_of_false (List.cons_ne_nil _ _) hmatch⟩

/-! ## The groups of items -/

@[simp] theorem value_copyText (capacity : Nat) (s : Str) : (copyText capacity s).value = s := rfl

@[simp] theorem faults_copyText (capacity : Nat) (s : Str) :
    (copyText capacity s).faults = [] ↔ s.length ≤ capacity := by
  rw [copyText, faults_access, decide_eq_true_eq]

theorem copyText_fits {capacity : Nat} {s : Str} (h : s.length ≤ capacity) :
    copyText capacity s = pure s := by
  unfold copyText access
  rw [decide_eq_true h]
  rfl

theorem copyText_line (content : Str) (k : Nat) :
    copyText configBufferSize (lineText content k) = pure (lineText content k) :=
  copyText_fits (lineText_fits content k).1.le

theorem faults_printFields (printed : List (Nat × Str)) :
    (printFields printed).faults = [] ↔ ∀ p ∈ printed, p.2.length < p.1 := by
  induction printed with
  | nil => exact iff_of_true rfl fun p hp => absurd hp List.not_mem_nil
  | cons p printed ih =>
    rw [printFields, faults_bind, List.append_eq_nil_iff, faults_access, ih, decide_eq_true_eq,
      List.forall_mem_cons]

section

variable {content : Str} {k : Nat} (stack : ConfigStack) (config : BeaconConfig)

/-- The configuration with the first five items. -/
def located (content : Str) (config : BeaconConfig) : BeaconConfig :=
  { config with
    areaId := lineText content 0
    coordinateX := lineText content 1
    coordinateY := lineText content 2
    coordinateZ := lineText content 3
    lowestBasementLevel := atoi (lineText content 4) }

theorem readLocation_next : (readLocation stack (readerAt content 0) config).value.2 =
    readerAt content 5 := by
  simp only [readLocation, value_bind, value_pure, fetch_next]

theorem fetch_value (h : ReadsOwnLine content k) :
    (fetchNextString stack (readerAt content k)).value.1 = lineText content k :=
  (fetch_own stack h).1

theorem fetch_faults (h : ReadsOwnLine content k) :
    (fetchNextString stack (readerAt content k)).faults = [] ↔ HasMatch content k :=
  (fetch_own stack h).2

theorem readLocation_spec (hown : ∀ k < 5, ReadsOwnLine content k) :
    (readLocation stack (readerAt content 0) config).value.1 = located content config ∧
      ((readLocation stack (readerAt content 0) config).faults = [] ↔
        ∀ k < 5, HasMatch content k) := by
  unfold readLocation
  simp (disch := exact hown _ (by decide)) only [value_bind, value_pure, faults_bind, faults_pure,
    fetch_next, Nat.reduceAdd, fetch_value, fetch_faults, copyText_line, List.nil_append,
    List.append_nil, List.append_eq_nil_iff]
  refine ⟨rfl, ?_, fun h => ⟨h 0 (by decide), h 1 (by decide), h 2 (by decide), h 3 (by decide),
    h 4 (by decide)⟩⟩
  rintro ⟨h₀, h₁, h₂, h₃, h₄⟩ k hk
  interval_cases k
  exacts [h₀, h₁, h₂, h₃, h₄]

/-- Then with the next seven. -/
def tuned (content : Str) (config : BeaconConfig) : BeaconConfig :=
  { config with
    advertiseDongleId := atoi (lineText content 5)
    advertiseIntervalInUnits0625Ms := atoi (lineText content 6)
    advertiseRssiValue := atoi (lineText content 7)
    scanDongleId := atoi (lineText content 8)
    scanIntervalInUnits0625Ms := atoi (lineText content 9)
    scanWindowInUnits0625Ms := atoi (lineText content 10)
    scanRssiCoverage := atoi (lineText content 11) }

theorem readRadio_next : (readRadio stack (readerAt content 5) config).value.2 =
    readerAt content 12 := by
  simp only [readRadio, value_bind, value_pure, fetch_next]

theorem readRadio_spec (hown : ∀ k < 12, ReadsOwnLine content k) :
    (readRadio stack (readerAt content 5) config).value.1 = tuned content config ∧
      ((readRadio stack (readerAt content 5) config).faults = [] ↔
        ∀ k, 5 ≤ k → k < 12 → HasMatch content k) := by
  unfold readRadio
  simp (disch := exact hown _ (by decide)) only [value_bind, value_pure, faults_bind, faults_pure,
    fetch_next, Nat.reduceAdd, fetch_value, fetch_faults, List.append_nil, List.append_eq_nil_iff]
  refine ⟨rfl, ?_, fun h => ⟨h 5 (by decide) (by decide), h 6 (by decide) (by decide),
    h 7 (by decide) (by decide), h 8 (by decide) (by decide), h 9 (by decide) (by decide),
    h 10 (by decide) (by decide), h 11 (by decide) (by decide)⟩⟩
  rintro ⟨h₅, h₆, h₇, h₈, h₉, h₁₀, h₁₁⟩ k hk hk'
  interval_cases k
  exacts [h₅, h₆, h₇, h₈, h₉, h₁₀, h₁₁]

/-! ### Rules -/

/-- The first two fields of a rule are there, and fit with their NULs. -/
def HeadFits (prefixSize : Nat) (single : Str) : Prop :=
  (fieldAt ';' single 0 ≠ [] ∧ (fieldAt ';' single 0).length < prefixSize) ∧
    fieldAt ';' single 1 ≠ [] ∧ (fieldAt ';' single 1).length < lengthOfAdvertisement

def MacRuleFits (single : Str) : Prop := HeadFits lengthOfMacAddress single

def NameRuleFits (single : Str) : Prop :=
  HeadFits lengthOfAdvertisement single ∧ fieldAt ';' single 2 ≠ [] ∧ fieldAt ';' single 3 ≠ []

theorem headFits_iff (prefixSize : Nat) (single : Str) :
    HeadOk prefixSize single ∧ (fieldAt ';' single 0).length < prefixSize ∧
        (fieldAt ';' single 1).length < lengthOfAdvertisement ↔ HeadFits prefixSize single := by
  constructor
  · rintro ⟨⟨⟨h₀, -⟩, h₁, -⟩, hlt₀, hlt₁⟩
    exact ⟨⟨h₀, hlt₀⟩, h₁, hlt₁⟩
  · rintro ⟨⟨h₀, hlt₀⟩, h₁, hlt₁⟩
    exact ⟨⟨⟨h₀, hlt₀.le⟩, h₁, hlt₁.le⟩, hlt₀, hlt₁⟩

theorem storedAndPrinted_iff {α : Type} {node : Str → SavePtr → Watched (α × SavePtr)}
    {Ok Fits : Str → Prop} {parsed : Str → α} (hnode : NodeSpec node Ok parsed)
    {printed : α → List (Nat × Str)}
    (hfits : ∀ single, Ok single ∧ (∀ p ∈ printed (parsed single), p.2.length < p.1) ↔
      Fits single) {line : Str} (h : FitsBuffer line) (saveptrs : SavePtr × SavePtr) :
    let r := readRuleLine node line saveptrs
    (r.faults = [] ∧ (printFields (r.value.1.flatMap printed)).faults = [] ↔
      RuleLineOk Fits line) ∧
    (RuleLineOk Fits line → r.value.1 = parsedRules parsed line) := by
  intro r
  obtain ⟨hfaults, hvalue⟩ := readRuleLine_spec hnode h saveptrs
  have hok : RuleLineOk Fits line → RuleLineOk Ok line := fun hline =>
    ⟨hline.count, fun i hi => ((hfits _).mpr (hline.rules i hi)).1⟩
  refine ⟨?_, fun hline => hvalue (hok hline)⟩
  rw [hfaults, faults_printFields]
  constructor
  · rintro ⟨hline, hprinted⟩
    rw [show r.value.1 = parsedRules parsed line from hvalue hline] at hprinted
    refine ⟨hline.count, fun i hi => (hfits _).mp ⟨hline.rules i hi, fun p hp => ?_⟩⟩
    exact hprinted p (List.mem_flatMap.mpr
      ⟨_, List.mem_map.mpr ⟨i, List.mem_range.mpr hi, rfl⟩, hp⟩)
  · intro hline
    refine ⟨hok hline, fun p hp => ?_⟩
    rw [show r.value.1 = parsedRules parsed line from hvalue (hok hline)] at hp
    obtain ⟨rule, hrule, hp⟩ := List.mem_flatMap.mp hp
    obtain ⟨i, hi, rfl⟩ := List.mem_map.mp hrule
    exact ((hfits _).mpr (hline.rules i (List.mem_range.mp hi))).2 p hp

theorem macRule_stored (single : Str) :
    HeadOk lengthOfMacAddress single ∧
        (∀ p ∈ (macPrefixRule single).printed, p.2.length < p.1) ↔ MacRuleFits single := by
  rw [MacRuleFits, ← headFits_iff]
  simp only [PrefixRule.printed, macPrefixRule, List.forall_mem_cons, List.not_mem_nil,
    false_implies, implies_true, and_true]

theorem nameRule_stored (single : Str) :
    NameOk single ∧ (∀ p ∈ (deviceNameRule single).printed, p.2.length < p.1) ↔
      NameRuleFits single := by
  rw [NameRuleFits, NameOk, ← headFits_iff]
  simp only [DeviceNamePrefix.printed, deviceNameRule, List.forall_mem_cons, List.not_mem_nil,
    false_implies, implies_true, and_true]
  exact and_right_comm

def ruled (content : Str) (config : BeaconConfig) : BeaconConfig :=
  { config with
    macPrefixList := parsedRules macPrefixRule (lineText content 12)
    deviceNamePrefixList := parsedRules deviceNameRule (lineText content 13) }

/-- Both lines with rules are well formed. -/
structure RulesOk (content : Str) : Prop where
  macPrefix : RuleLineOk MacRuleFits (lineText content 12)
  deviceName : RuleLineOk NameRuleFits (lineText content 13)

theorem readRuleLists_next : (readRuleLists stack (readerAt content 12) config).value.2 =
    readerAt content 14 := by
  simp only [readRuleLists, value_bind, value_pure, fetch_next]

theorem readRuleLists_spec (hown : ∀ k < 14, ReadsOwnLine content k) :
    ((readRuleLists stack (readerAt content 12) config).faults = [] ↔
      (∀ k, 12 ≤ k → k < 14 → HasMatch content k) ∧ RulesOk content) ∧
    (RulesOk content →
      (readRuleLists stack (readerAt content 12) config).value.1 = ruled content config) := by
  have hmac := fun saveptrs => storedAndPrinted_iff macPrefixNode_spec macRule_stored
    (lineText_fits content 12) saveptrs
  have hname := fun saveptrs => storedAndPrinted_iff deviceNameNode_spec nameRule_stored
    (lineText_fits content 13) saveptrs
  unfold readRuleLists
  simp (disch := exact hown _ (by decide)) only [value_bind, value_pure, faults_bind, faults_pure,
    fetch_next, Nat.reduceAdd, fetch_value, fetch_faults, copyText_line, List.nil_append,
    List.append_nil, List.append_eq_nil_iff]
  constructor
  · constructor
    · rintro ⟨h₁₂, hclean, hprint, h₁₃, hclean', hprint'⟩
      refine ⟨fun k hk hk' => ?_, (hmac _).1.mp ⟨hclean, hprint⟩,
        (hname _).1.mp ⟨hclean', hprint'⟩⟩
      interval_cases k
      exacts [h₁₂, h₁₃]
    · rintro ⟨hmatch, hmacOk, hnameOk⟩
      obtain ⟨hclean, hprint⟩ := (hmac (.null, .null)).1.mpr hmacOk
      obtain ⟨hclean', hprint'⟩ := (hname _).1.mpr hnameOk
      exact ⟨hmatch 12 (by decide) (by decide), hclean, hprint,
        hmatch 13 (by decide) (by decide), hclean', hprint'⟩
  · rintro ⟨hmacOk, hnameOk⟩
    rw [(hmac _).2 hmacOk, (hname _).2 hnameOk]
    rfl

/-! ### The network -/

def connected (content : Str) (config : BeaconConfig) : BeaconConfig :=
  { config with
    gatewayAddr := lineText content 14
    gatewayPort := atoi (lineText content 15)
    localAddr := []
    localClientPort := atoi (lineText content 16) }

theorem readNetwork_next : (readNetwork stack (readerAt content 14) config).value.2 =
    readerAt content 17 := by
  simp only [readNetwork, value_bind, value_pure, fetch_next]

theorem readNetwork_spec (hown : ∀ k < 17, ReadsOwnLine content k) :
    (readNetwork stack (readerAt content 14) config).value.1 = connected content config ∧
      ((readNetwork stack (readerAt content 14) config).faults = [] ↔
        (∀ k, 14 ≤ k → k < 17 → HasMatch content k) ∧
          (lineText content 14).length < networkAddrLength) := by
  unfold readNetwork
  simp (disch := exact hown _ (by decide)) only [value_bind, value_pure, faults_bind, faults_pure,
    fetch_next, Nat.reduceAdd, fetch_value, fetch_faults, value_copyText, faults_copyText,
    List.append_nil, List.append_eq_nil_iff, faults_printFields, List.forall_mem_singleton]
  refine ⟨rfl, ?_, fun ⟨h, hshort⟩ => ⟨h 14 (by decide) (by decide), hshort.le,
    h 15 (by decide) (by decide), h 16 (by decide) (by decide), hshort⟩⟩
  rintro ⟨h₁₄, -, h₁₅, h₁₆, hshort⟩
  refine ⟨fun k hk hk' => ?_, hshort⟩
  interval_cases k
  exacts [h₁₄, h₁₅, h₁₆]

theorem readNetwork_lists (file : ConfigReader) :
    (readNetwork stack file config).value.1.macPrefixList = config.macPrefixList ∧
      (readNetwork stack file config).value.1.deviceNamePrefixList =
        config.deviceNamePrefixList := by
  unfold readNetwork
  simp only [value_bind, value_pure, and_self]

end

/-! ## The whole file -/

/-- Each call of `fgets` was for its own line, which is there. -/
def AllOwn (content : Str) (reads : List Str) : Prop :=
  ∀ k s, reads[k]? = some s → s = behindLines content k ∧ s ≠ []

theorem allOwn_iff (content : Str) (n : Nat) :
    AllOwn content (readerAt content n).reads ↔ ∀ k < n, ReadsOwnLine content k := by
  unfold AllOwn readerAt ReadsOwnLine
  constructor
  · intro h k hk
    obtain ⟨heq, hne⟩ := h k (behindReads content k) (by simp [hk])
    exact ⟨heq, heq ▸ hne⟩
  · intro h k s hs
    simp only [List.getElem?_map, Option.map_eq_some_iff] at hs
    obtain ⟨i, hi, rfl⟩ := hs
    obtain ⟨hk, rfl⟩ := List.getElem?_eq_some_iff.mp hi
    rw [List.getElem_range]
    obtain ⟨heq, hne⟩ := h k (by simpa using hk)
    exact ⟨heq, heq.symm ▸ hne⟩

/-- Every field is what its own line says. -/
structure FromOwnLines (L : FloatLib) (content : Str) (c : BeaconConfig) : Prop where
  areaId : c.areaId = lineText content 0
  coordinateX : c.coordinateX = lineText content 1
  coordinateY : c.coordinateY = lineText content 2
  coordinateZ : c.coordinateZ = lineText content 3
  lowestBasementLevel : c.lowestBasementLevel = atoi (lineText content 4)
  uuid : c.uuid = uuidText L c
  advertiseDongleId : c.advertiseDongleId = atoi (lineText content 5)
  advertiseInterval : c.advertiseIntervalInUnits0625Ms = atoi (lineText content 6)
  advertiseRssiValue : c.advertiseRssiValue = atoi (lineText content 7)
  scanDongleId : c.scanDongleId = atoi (lineText content 8)
  scanInterval : c.scanIntervalInUnits0625Ms = atoi (lineText content 9)
  scanWindow : c.scanWindowInUnits0625Ms = atoi (lineText content 10)
  scanRssiCoverage : c.scanRssiCoverage = atoi (lineText content 11)
  macPrefixList : c.macPrefixList = parsedRules macPrefixRule (lineText content 12)
  deviceNamePrefixList : c.deviceNamePrefixList = parsedRules deviceNameRule (lineText content 13)
  gatewayAddr : c.gatewayAddr = lineText content 14
  gatewayPort : c.gatewayPort = atoi (lineText content 15)
  localClientPort : c.localClientPort = atoi (lineText content 16)

/-- What is expected of `get_config` on any file. -/
structure CopesWith (L : FloatLib) (content : Str)
    (r : Watched (ConfigCode × BeaconConfig × List Str)) : Prop where
  clean : r.faults = []
  own : AllOwn content r.value.2.2
  fields : r.value.1 = .workSuccessfully → FromOwnLines L content r.value.2.1

/-- The first `n` lines are there and have a `=` that comes to the buffer, and none but the last
of them is longer than the buffer. -/
def LinesOk (content : Str) (n : Nat) : Prop :=
  ∀ k < n, behindLines content k ≠ [] ∧ HasMatch content k ∧
    (k + 1 < n → (firstLine (behindLines content k)).length < configBufferSize)

theorem linesOk_iff (content : Str) (n : Nat) :
    LinesOk content n ↔ (∀ k < n, ReadsOwnLine content k) ∧ ∀ k < n, HasMatch content k := by
  rw [readsOwnLines_iff]
  constructor
  · exact fun h => ⟨fun k hk => ⟨(h k hk).1, (h k hk).2.2⟩, fun k hk => (h k hk).2.1⟩
  · exact fun ⟨hown, hmatch⟩ k hk => ⟨(hown k hk).1, hmatch k hk, (hown k hk).2⟩

/-- The digits of a UUID, with the area id in front. -/
def uuidLength (L : FloatLib) (c : BeaconConfig) : Nat :=
  (cstr c.areaId).length + (hexText (c.level / 16).toNat).length +
    (fraction L c.coordinateX).length + (fraction L c.coordinateY).length + 11

theorem uuidText_length (L : FloatLib) (c : BeaconConfig) :
    (uuidText L c).length = uuidLength L c := by
  have hlow : (hexText (c.level % 16).toNat).length = 1 :=
    (hexText_length_eq_one_iff _).mpr (by omega)
  have hzeros : "0000".toList.length = 4 := rfl
  have hzero : "00".toList.length = 2 := rfl
  simp only [uuidText, uuidLength, List.length_append, hlow, hzeros, hzero]
  omega

theorem uuidText_congr (L : FloatLib) {c c' : BeaconConfig} (harea : c.areaId = c'.areaId)
    (hx : c.coordinateX = c'.coordinateX) (hy : c.coordinateY = c'.coordinateY)
    (hz : c.coordinateZ = c'.coordinateZ)
    (hlow : c.lowestBasementLevel = c'.lowestBasementLevel) : uuidText L c = uuidText L c' := by
  unfold uuidText BeaconConfig.level
  rw [harea, hx, hy, hz, hlow]

/-- What a file has to be when its location is accepted. -/
structure FileOk (L : FloatLib) (content : Str) (config : BeaconConfig) : Prop where
  lines : LinesOk content 17
  uuid : uuidLength L (located content config) < configBufferSize
  rules : RulesOk content
  gateway : (lineText content 14).length < networkAddrLength

section

variable {L : FloatLib} (stack : ConfigStack) {opens : Nat → Bool} {content : Str}
  {config : BeaconConfig}

theorem getConfig_closed (hopen : (List.range fileOpenRetry).any opens = false) :
    config.getConfig L stack opens content = pure (.eOpenFile, config, []) := by
  unfold BeaconConfig.getConfig
  rw [hopen]
  rfl

theorem fromOwnLines_read (L : FloatLib) (content : Str) (config : BeaconConfig) :
    FromOwnLines L content (connected content (ruled content (tuned content
      { located content config with uuid := uuidText L (located content config) }))) := by
  constructor
  case uuid => apply uuidText_congr <;> simp only [connected, ruled, tuned]
  all_goals simp only [connected, ruled, tuned, located]

theorem getConfig_rejected (hopen : (List.range fileOpenRetry).any opens = true)
    (hown : ∀ k < 5, ReadsOwnLine content k) (hno : ¬ (located content config).Accepted L) :
    (config.getConfig L stack opens content).value =
        (.eInputParameter, { located content config with uuid := [] },
          (readerAt content 5).reads) ∧
      ((config.getConfig L stack opens content).faults = [] ↔ ∀ k < 5, HasMatch content k) := by
  obtain ⟨hvalue, hfaults⟩ := readLocation_spec stack config hown
  have huuid := generateUuid_rejected hno
  unfold BeaconConfig.getConfig
  simp only [hopen, if_true, readerAt_zero, value_bind, faults_bind, hvalue, huuid, value_pure,
    readLocation_next, reduceCtorEq, if_false, faults_pure, List.append_nil, true_and]
  exact hfaults

theorem getConfig_reads (hopen : (List.range fileOpenRetry).any opens = true) :
    (config.getConfig L stack opens content).value.2.2 = (readerAt content 5).reads ∨
      (config.getConfig L stack opens content).value.2.2 = (readerAt content 17).reads := by
  unfold BeaconConfig.getConfig
  simp only [hopen, if_true, readerAt_zero, value_bind, readLocation_next]
  split
  · simp only [value_bind, value_pure, readRadio_next, readRuleLists_next, readNetwork_next,
      or_true]
  · exact Or.inl rfl

theorem getConfig_accepted (hopen : (List.range fileOpenRetry).any opens = true)
    (hown : ∀ k < 5, ReadsOwnLine content k) (hacc : (located content config).Accepted L) :
    (config.getConfig L stack opens content).value.1 = .workSuccessfully ∧
      (config.getConfig L stack opens content).value.2.2 = (readerAt content 17).reads ∧
      ((∀ k < 17, ReadsOwnLine content k) →
        ((config.getConfig L stack opens content).faults = [] ↔
          (∀ k < 17, HasMatch content k) ∧
            uuidLength L (located content config) < configBufferSize ∧ RulesOk content ∧
            (lineText content 14).length < networkAddrLength) ∧
        (RulesOk content →
          FromOwnLines L content (config.getConfig L stack opens content).value.2.1)) := by
  obtain ⟨hvalue, hfaults⟩ := readLocation_spec stack config hown
  obtain ⟨huuid, huuidFaults⟩ := generateUuid_accepted hacc
  unfold BeaconConfig.getConfig
  simp only [hopen, if_true, readerAt_zero, value_bind, faults_bind, hvalue, huuid, value_pure,
    faults_pure, List.append_nil, readLocation_next, readRadio_next, readRuleLists_next,
    readNetwork_next, true_and]
  intro hall
  obtain ⟨hradio, hradioFaults⟩ := readRadio_spec stack
    { located content config with uuid := uuidText L (located content config) }
    fun k hk => hall k (by omega)
  rw [hradio]
  obtain ⟨hrulesFaults, hrules⟩ := readRuleLists_spec stack
    (tuned content { located content config with uuid := uuidText L (located content config) })
    fun k hk => hall k (by omega)
  constructor
  · simp only [List.append_eq_nil_iff, hfaults, huuidFaults, hradioFaults, hrulesFaults,
      (readNetwork_spec stack _ hall).2, uuidText_length]
    constructor
    · rintro ⟨h₅, huuidFits, h₁₂, ⟨h₁₄, hrulesOk⟩, h₁₇, hshort⟩
      refine ⟨fun k hk => ?_, huuidFits, hrulesOk, hshort⟩
      rcases Nat.lt_or_ge k 5 with h | h
      · exact h₅ k h
      rcases Nat.lt_or_ge k 12 with h' | h'
      · exact h₁₂ k h h'
      rcases Nat.lt_or_ge k 14 with h'' | h''
      · exact h₁₄ k h' h''
      · exact h₁₇ k h'' hk
    · rintro ⟨hmatch, huuidFits, hrulesOk, hshort⟩
      exact ⟨fun k hk => hmatch k (by omega), huuidFits, fun k _ hk => hmatch k (by omega),
        ⟨fun k _ hk => hmatch k (by omega), hrulesOk⟩, fun k _ hk => hmatch k hk, hshort⟩
  · intro hrulesOk
    rw [hrules hrulesOk, (readNetwork_spec stack _ hall).1]
    exact fromOwnLines_read L content config

theorem getConfig_lists (hopen : (List.range fileOpenRetry).any opens = true)
    (hown : ∀ k < 14, ReadsOwnLine content k) (hacc : (located content config).Accepted L)
    (hrules : RulesOk content) :
    (config.getConfig L stack opens content).value.1 = .workSuccessfully ∧
      (config.getConfig L stack opens content).value.2.1.macPrefixList =
        parsedRules macPrefixRule (lineText content 12) ∧
      (config.getConfig L stack opens content).value.2.1.deviceNamePrefixList =
        parsedRules deviceNameRule (lineText content 13) := by
  obtain ⟨hvalue, -⟩ := readLocation_spec stack config fun k hk => hown k (by omega)
  obtain ⟨huuid, -⟩ := generateUuid_accepted hacc
  have hlists := fun c => (readRuleLists_spec stack c hown).2 hrules
  unfold BeaconConfig.getConfig
  simp only [hopen, if_true, readerAt_zero, value_bind, hvalue, huuid, value_pure,
    readLocation_next, readRadio_next, hlists, readNetwork_lists, true_and]
  simp only [ruled, and_self]

end

/-- `get_config` copes with a file exactly when it cannot be opened, or its first five lines are
lines of their own with a `=` each and, if the location that they give is accepted, so are all
seventeen, the UUID and the address of the gateway fit, and the lines with rules have as many as
they say, with fields that are there and fit. -/
theorem get_config_copes_iff (L : FloatLib) (stack : ConfigStack) (opens : Nat → Bool)
    (content : Str) (config : BeaconConfig) :
    CopesWith L content (config.getConfig L stack opens content) ↔
      ((List.range fileOpenRetry).any opens = true →
        LinesOk content 5 ∧
          ((located content config).Accepted L → FileOk L content config)) := by
  cases hopen : (List.range fileOpenRetry).any opens with
  | false =>
    rw [getConfig_closed stack hopen]
    refine iff_of_true ⟨rfl, fun k s hs => ?_, fun hcode => nomatch hcode⟩ fun h => nomatch h
    exact absurd hs (by simp)
  | true =>
    have hfive : CopesWith L content (config.getConfig L stack opens content) →
        ∀ k < 5, ReadsOwnLine content k := by
      intro h k hk
      have hown := h.own
      have hreads : (config.getConfig L stack opens content).value.2.2 = _ ∨ _ :=
        getConfig_reads stack hopen
      rcases hreads with hreads | hreads
      · rw [hreads, allOwn_iff] at hown
        exact hown k hk
      · rw [hreads, allOwn_iff] at hown
        exact hown k (by omega)
    constructor
    · intro h _
      have hown := hfive h
      by_cases hacc : (located content config).Accepted L
      · obtain ⟨-, hreads, hrest⟩ := getConfig_accepted stack hopen hown hacc
        have hall := (allOwn_iff content 17).mp (hreads ▸ h.own)
        obtain ⟨hmatch, huuid, hrules, hshort⟩ := (hrest hall).1.mp h.clean
        have hlines := (linesOk_iff content 5).mpr ⟨hown, fun k hk => hmatch k (by omega)⟩
        exact ⟨hlines, fun _ =>
          ⟨(linesOk_iff content 17).mpr ⟨hall, hmatch⟩, huuid, hrules, hshort⟩⟩
      · obtain ⟨-, hfaults⟩ := getConfig_rejected stack hopen hown hacc
        exact ⟨(linesOk_iff content 5).mpr ⟨hown, hfaults.mp h.clean⟩,
          fun hacc' => absurd hacc' hacc⟩
    · intro h
      obtain ⟨hlines, hfile⟩ := h rfl
      obtain ⟨hown, hmatch⟩ := (linesOk_iff content 5).mp hlines
      by_cases hacc : (located content config).Accepted L
      · obtain ⟨hlines', huuid, hrules, hshort⟩ := hfile hacc
        obtain ⟨hall, hmatch'⟩ := (linesOk_iff content 17).mp hlines'
        obtain ⟨-, hreads, hrest⟩ := getConfig_accepted stack hopen hown hacc
        refine ⟨(hrest hall).1.mpr ⟨hmatch', huuid, hrules, hshort⟩, ?_,
          fun _ => (hrest hall).2 hrules⟩
        rw [hreads, allOwn_iff]
        exact hall
      · obtain ⟨hvalue, hfaults⟩ := getConfig_rejected stack hopen hown hacc
        refine ⟨hfaults.mpr hmatch, ?_, fun hcode => ?_⟩
        · rw [hvalue, allOwn_iff]
          exact hown
        · rw [hvalue] at hcode
          cases hcode

/-- A line without a `=`, and a file that ends after one line: then the text of that line, which
is still on the stack, is the next field as well. -/
theorem get_config_short_files :
    ¬ CopesWith decimalLib "area_id 0004\n".toList ((placeAt "0" "0").getConfig decimalLib
      ⟨fun _ => [], fun _ _ => NUL⟩ (fun _ => true) "area_id 0004\n".toList) ∧
    ¬ CopesWith decimalLib "area_id=0004\n".toList ((placeAt "0" "0").getConfig decimalLib
      ⟨fun _ => "area_id=0004".toList, fun _ _ => NUL⟩ (fun _ => true)
      "area_id=0004\n".toList) := by
  constructor
  · intro h
    exact absurd h.clean (List.cons_ne_nil _ _)
  · intro h
    exact (h.own 1 [] rfl).2 rfl

end LBeacon
