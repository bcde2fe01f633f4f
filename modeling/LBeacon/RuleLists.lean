import LBeacon.ConfigFile
import LBeacon.Lib.Delimited
import Mathlib.Data.List.Forall2

/-!
# Rules in the configuration file

Lists of rules that were written to the file are read back from it.
-/

open CText CMemory

namespace LBeacon

/-! ## Rules as they are written -/

/-- A field has no character that ends a field, a rule or the key, and none that is trimmed. -/
def PlainField (s : Str) : Prop :=
  ∀ c ∈ s, c ≠ ',' ∧ c ≠ ';' ∧ c ≠ '=' ∧ isSpace c = false ∧ c ≠ NUL

instance (s : Str) : Decidable (PlainField s) :=
  List.decidableBAll _ s

/-- The fields of a rule, and whether a semicolon stands behind the last. -/
structure RuleText where
  fields : List Str
  trailing : Bool
  nonempty : fields ≠ []
  plain : ∀ f ∈ fields, f ≠ [] ∧ PlainField f

def RuleText.text (r : RuleText) : Str := delimited ';' r.fields r.trailing

structure PrefixRule.WrittenAs (rule : PrefixRule) (r : RuleText) : Prop where
  fields : r.fields = [rule.rulePrefix, rule.identifier]
  prefix_fits : rule.rulePrefix.length < lengthOfMacAddress
  identifier_fits : rule.identifier.length < lengthOfAdvertisement

/-- A flag is any number, and set unless that is zero. -/
structure DeviceNamePrefix.WrittenAs (rule : DeviceNamePrefix) (r : RuleText) : Prop where
  fields : ∃ payload scanRsp, r.fields = [rule.rulePrefix, rule.identifier, payload, scanRsp] ∧
    (atoi payload ≠ 0 ↔ rule.isPayloadNeeded = true) ∧
    (atoi scanRsp ≠ 0 ↔ rule.isScanRspNeeded = true)
  prefix_fits : rule.rulePrefix.length < lengthOfAdvertisement
  identifier_fits : rule.identifier.length < lengthOfAdvertisement

/-- A line with a key and rules, and blanks at its end. -/
structure RuleLineText where
  key : Str
  rules : List RuleText
  trailing : Bool
  blanks : Str
  key_plain : '=' ∉ key ∧ NUL ∉ key
  blanks_blank : ∀ c ∈ blanks, isBlank c = true

/-- The number of rules, and the rules. -/
def RuleLineText.parts (l : RuleLineText) : List Str :=
  Nat.toDigits 10 l.rules.length :: l.rules.map RuleText.text

def RuleLineText.body (l : RuleLineText) : Str := delimited ',' l.parts l.trailing

def RuleLineText.text (l : RuleLineText) : Str := l.key ++ '=' :: (l.body ++ l.blanks)

variable {α : Type}

/-- The line has these rules, in this order. -/
def ListsRules (writtenAs : α → RuleText → Prop) (rules : List α) (line : Str) : Prop :=
  ∃ l : RuleLineText, l.text = line ∧ List.Forall₂ writtenAs rules l.rules

/-! ## A rule is read back -/

theorem isBlank_of_not_isSpace {c : Char} (h : isSpace c = false) : isBlank c = false := by
  unfold isBlank
  simp only [decide_eq_false_iff_not, not_or]
  refine ⟨?_, ?_, ?_⟩ <;> rintro rfl <;> exact absurd h (by decide)

theorem RuleText.mem_text {r : RuleText} {c : Char} (h : c ∈ r.text) :
    c ≠ ',' ∧ c ≠ NUL ∧ isBlank c = false := by
  rcases mem_delimited h with rfl | ⟨f, hf, hc⟩
  · decide
  · obtain ⟨hcomma, -, -, hspace, hnul⟩ := (r.plain f hf).2 c hc
    exact ⟨hcomma, hnul, isBlank_of_not_isSpace hspace⟩

theorem RuleText.fieldAt_text (r : RuleText) (k : Nat) :
    fieldAt ';' r.text k = r.fields.getD k [] := by
  apply fieldAt_delimited r.nonempty
  intro f hf hmem
  exact ((r.plain f hf).2 ';' hmem).2.1 rfl

theorem RuleText.text_ne_nil (r : RuleText) : r.text ≠ [] := by
  intro hnil
  have hfirst := r.fieldAt_text 0
  obtain ⟨f, rest, hfields⟩ := List.exists_cons_of_ne_nil r.nonempty
  rw [hnil, hfields] at hfirst
  exact (r.plain f (hfields ▸ List.mem_cons_self)).1 hfirst.symm

/-- What a rule has to be to come back: it fits, and is parsed to what was written. -/
def ReadsBack (writtenAs : α → RuleText → Prop) (Fits : Str → Prop) (parsed : Str → α) : Prop :=
  ∀ rule r, writtenAs rule r → Fits r.text ∧ parsed r.text = rule

theorem RuleText.headFits {r : RuleText} {prefixSize : Nat} {rulePrefix identifier : Str}
    {rest : List Str} (h : r.fields = rulePrefix :: identifier :: rest)
    (hfirst : rulePrefix.length < prefixSize) (hid : identifier.length < lengthOfAdvertisement) :
    HeadFits prefixSize r.text := by
  unfold HeadFits
  simp only [r.fieldAt_text, h, List.getD_cons_zero, List.getD_cons_succ]
  have hnonempty : ∀ f ∈ rulePrefix :: identifier :: rest, f ≠ [] := fun f hf =>
    (r.plain f (h ▸ hf)).1
  exact ⟨⟨hnonempty _ (by simp), hfirst⟩, hnonempty _ (by simp), hid⟩

theorem macPrefixRule_back :
    ReadsBack PrefixRule.WrittenAs MacRuleFits macPrefixRule := by
  intro rule r h
  constructor
  · apply RuleText.headFits h.fields h.prefix_fits h.identifier_fits
  · unfold macPrefixRule
    simp only [r.fieldAt_text, h.fields, List.getD_cons_zero, List.getD_cons_succ]

theorem deviceNameRule_back :
    ReadsBack DeviceNamePrefix.WrittenAs NameRuleFits deviceNameRule := by
  intro rule r h
  obtain ⟨payload, scanRsp, hfields, hpayload, hscanRsp⟩ := h.fields
  have hnonempty : ∀ f ∈ [rule.rulePrefix, rule.identifier, payload, scanRsp], f ≠ [] :=
    fun f hf => (r.plain f (hfields ▸ hf)).1
  constructor
  · refine ⟨RuleText.headFits hfields h.prefix_fits h.identifier_fits, ?_, ?_⟩
    · simp only [r.fieldAt_text, hfields, List.getD_cons_zero, List.getD_cons_succ]
      exact hnonempty payload (by simp)
    · simp only [r.fieldAt_text, hfields, List.getD_cons_zero, List.getD_cons_succ]
      exact hnonempty scanRsp (by simp)
  · unfold deviceNameRule
    simp only [r.fieldAt_text, hfields, List.getD_cons_zero, List.getD_cons_succ, hpayload,
      hscanRsp, Bool.decide_eq_true]

/-! ## A line is read back -/

namespace RuleLineText

variable {l : RuleLineText}

theorem parts_plain {p : Str} (hp : p ∈ l.parts) :
    p ≠ [] ∧ ∀ c ∈ p, c ≠ ',' ∧ c ≠ NUL ∧ isBlank c = false := by
  rcases List.mem_cons.mp hp with rfl | hp
  · refine ⟨Nat.toDigits_ne_nil, fun c hc => ?_⟩
    have hdigit := Nat.isDigit_of_mem_toDigits (by decide) (by decide) hc
    refine ⟨?_, ?_, isBlank_of_not_isSpace (isSpace_of_isDigit hdigit)⟩
    · rintro rfl
      exact absurd hdigit (by decide)
    · rintro rfl
      exact absurd hdigit (by decide)
  · obtain ⟨r, -, rfl⟩ := List.mem_map.mp hp
    exact ⟨r.text_ne_nil, fun c hc => RuleText.mem_text hc⟩

theorem comma_notMem {p : Str} (hp : p ∈ l.parts) : ',' ∉ p := fun hmem =>
  ((parts_plain hp).2 ',' hmem).1 rfl

theorem mem_body {c : Char} (h : c ∈ l.body) : c ≠ NUL ∧ isBlank c = false := by
  rcases mem_delimited h with rfl | ⟨p, hp, hc⟩
  · decide
  · exact ((parts_plain hp).2 c hc).2

theorem fieldAt_body (l : RuleLineText) (k : Nat) : fieldAt ',' l.body k = l.parts.getD k [] :=
  fieldAt_delimited (List.cons_ne_nil _ _) (fun _ => comma_notMem) k

theorem nul_notMem (l : RuleLineText) : NUL ∉ l.text := by
  intro h
  rcases List.mem_append.mp h with hkey | hrest
  · exact l.key_plain.2 hkey
  rcases List.mem_cons.mp hrest with heq | hrest
  · exact absurd heq (by decide)
  rcases List.mem_append.mp hrest with hbody | hblank
  · exact (mem_body hbody).1 rfl
  · exact absurd (l.blanks_blank NUL hblank) (by decide)

theorem trimmed_body (l : RuleLineText) : trimmed (l.body ++ l.blanks) = l.body := by
  have hblanks : ∀ c ∈ l.blanks.reverse, isBlank c = true := fun c hc =>
    l.blanks_blank c (List.mem_reverse.mp hc)
  unfold trimmed List.rdropWhile
  rw [List.reverse_append, List.dropWhile_append_of_pos hblanks,
    List.dropWhile_eq_self_iff.mpr, List.reverse_reverse]
  intro hne
  have hmem : l.body.reverse[0] ∈ l.body := List.mem_reverse.mp (List.getElem_mem hne)
  exact ne_true_of_eq_false (mem_body hmem).2

theorem lineText_eq {content : Str} {k : Nat} (hline : l.text = firstLine (behindLines content k))
    (hshort : (firstLine (behindLines content k)).length < configBufferSize) :
    lineText content k = l.body ∧ HasMatch content k := by
  have hbuffered : cstr (bufferedLine content k) = l.key ++ '=' :: (l.body ++ l.blanks) := by
    unfold bufferedLine
    rw [List.take_of_length_le (by omega), ← hline, cstr_eq_self l.nul_notMem]
    rfl
  unfold lineText HasMatch
  rw [hbuffered, afterField_append l.key_plain.1, trimmed_body]
  exact ⟨rfl, List.mem_append_right _ List.mem_cons_self⟩

theorem ruleCount_body (hshort : l.text.length < configBufferSize) :
    ruleCount l.body = l.rules.length := by
  have hparts : l.parts.length ≤ l.body.length :=
    length_le_delimited (List.cons_ne_nil _ _) fun p hp => ⟨(parts_plain hp).1, comma_notMem hp⟩
  have hbody : l.body.length ≤ l.text.length := by
    unfold text
    simp only [List.length_append, List.length_cons]
    omega
  have hrules : l.parts.length = l.rules.length + 1 := by
    simp [parts]
  have hint : l.rules.length < 2 ^ 31 := by
    unfold configBufferSize at hshort
    omega
  unfold ruleCount
  rw [fieldAt_body, parts, List.getD_cons_zero, scanInt_toDigits hint]
  rfl

theorem rules_back {writtenAs : α → RuleText → Prop} {Fits : Str → Prop} {parsed : Str → α}
    (hback : ReadsBack writtenAs Fits parsed) {rules : List α}
    (hshort : l.text.length < configBufferSize) (h : List.Forall₂ writtenAs rules l.rules) :
    RuleLineOk Fits l.body ∧ parsedRules parsed l.body = rules := by
  have hcount := ruleCount_body hshort
  have hrule {i : Nat} (hi : i < l.rules.length) :
      fieldAt ',' l.body (i + 1) = (l.rules[i]).text := by
    rw [fieldAt_body, parts, List.getD_cons_succ]
    simp [hi]
  obtain ⟨hlen, hwritten⟩ := List.forall₂_iff_get.mp h
  constructor
  · refine ⟨?_, fun i hi => ?_⟩
    · rw [fieldAt_body]
      exact Nat.toDigits_ne_nil
    · rw [hcount] at hi
      rw [hrule hi]
      exact (hback _ _ (hwritten i (by omega) hi)).1
  · unfold parsedRules
    apply List.ext_getElem
    · simp [hcount, hlen]
    · intro i hi hi'
      rw [List.getElem_map, List.getElem_range, hrule (by omega)]
      exact (hback _ _ (hwritten i hi' (by omega))).2

end RuleLineText

/-! ## Files of whole lines -/

/-- A file in which each line has its end. -/
def fileOf (lines : List Str) : Str := lines.flatMap (· ++ ['\n'])

theorem fileOf_drop {lines : List Str} {k : Nat} (hk : k < lines.length) :
    fileOf (lines.drop k) = lines[k] ++ '\n' :: fileOf (lines.drop (k + 1)) := by
  unfold fileOf
  rw [List.drop_eq_getElem_cons hk, List.flatMap_cons, List.append_assoc]
  rfl

section

variable {lines : List Str} (hlines : ∀ l ∈ lines, '\n' ∉ l)

include hlines

theorem behindLines_fileOf (k : Nat) : behindLines (fileOf lines) k = fileOf (lines.drop k) := by
  induction k with
  | zero => rfl
  | succ k ih =>
    rw [behindLines, ih]
    rcases Nat.lt_or_ge k lines.length with hk | hk
    · rw [fileOf_drop hk, firstLine_append (hlines _ (List.getElem_mem hk)),
        List.append_cons _ _ (fileOf _), List.drop_left]
    · have hover : lines.drop (k + 1) = [] := List.drop_eq_nil_of_le (Nat.le_succ_of_le hk)
      rw [List.drop_eq_nil_of_le hk, hover]
      rfl

theorem firstLine_fileOf {k : Nat} (hk : k < lines.length) :
    firstLine (behindLines (fileOf lines) k) = lines[k] ++ ['\n'] := by
  rw [behindLines_fileOf hlines, fileOf_drop hk]
  exact firstLine_append (hlines _ (List.getElem_mem hk)) _

theorem lineText_fileOf {k : Nat} (hk : k < lines.length) : lineText (fileOf lines) k =
    trimmed (afterField '=' (cstr ((lines[k] ++ ['\n']).take (configBufferSize - 1)))) := by
  rw [lineText, bufferedLine, firstLine_fileOf hlines hk]

theorem linesOk_fileOf {n : Nat} (hn : n ≤ lines.length)
    (hmatch : ∀ l ∈ lines, l.length + 1 < configBufferSize ∧ NUL ∉ l ∧ '=' ∈ l) :
    LinesOk (fileOf lines) n := by
  intro k hk
  have hline := firstLine_fileOf hlines (k := k) (by omega)
  obtain ⟨hshort, hnul, hmem⟩ := hmatch _ (List.getElem_mem (show k < lines.length by omega))
  have hlength : (lines[k] ++ ['\n']).length < configBufferSize := by
    rw [List.length_append, List.length_singleton]
    exact hshort
  refine ⟨fun hnil => ?_, ?_, fun _ => hline.symm ▸ hlength⟩
  · rw [hnil] at hline
    exact List.append_ne_nil_of_right_ne_nil _ (List.cons_ne_nil _ _) hline.symm
  · unfold HasMatch bufferedLine
    rw [hline, List.take_of_length_le (by omega), cstr_append hnul]
    exact List.mem_append_left _ hmem

end

/-! ## The whole file -/

/-- Two lists of rules that are written to lines 13 and 14 of a file are the lists that
`get_config` builds, and it has no trouble with these lines. -/
theorem get_config_rule_lists (L : FloatLib) (stack : ConfigStack) (opens : Nat → Bool)
    (content : Str) (config : BeaconConfig) (rules : List PrefixRule)
    (nameRules : List DeviceNamePrefix)
    (hopen : (List.range fileOpenRetry).any opens = true)
    (hacc : (located content config).Accepted L)
    (hshort : ∀ k < 14, (firstLine (behindLines content k)).length < configBufferSize)
    (hmac : ListsRules PrefixRule.WrittenAs rules (firstLine (behindLines content 12)))
    (hname : ListsRules DeviceNamePrefix.WrittenAs nameRules
      (firstLine (behindLines content 13))) :
    let r := config.getConfig L stack opens content
    r.value.1 = .workSuccessfully ∧ r.value.2.1.macPrefixList = rules ∧
      r.value.2.1.deviceNamePrefixList = nameRules ∧
      (LinesOk content 17 → uuidLength L (located content config) < configBufferSize →
        (lineText content 14).length < networkAddrLength → r.faults = []) := by
  obtain ⟨mac, hmacText, hmacRules⟩ := hmac
  obtain ⟨name, hnameText, hnameRules⟩ := hname
  have hmac12 := hshort 12 (by decide)
  have hname13 := hshort 13 (by decide)
  obtain ⟨hmacOk, hmacBack⟩ :=
    RuleLineText.rules_back macPrefixRule_back (hmacText ▸ hmac12) hmacRules
  obtain ⟨hnameOk, hnameBack⟩ :=
    RuleLineText.rules_back deviceNameRule_back (hnameText ▸ hname13) hnameRules
  have hmacLine := (RuleLineText.lineText_eq hmacText hmac12).1
  have hnameLine := (RuleLineText.lineText_eq hnameText hname13).1
  have hrules : RulesOk content := ⟨hmacLine.symm ▸ hmacOk, hnameLine.symm ▸ hnameOk⟩
  have hlast : behindLines content 13 ≠ [] := by
    intro hnil
    rw [hnil] at hnameText
    exact List.append_ne_nil_of_right_ne_nil _ (List.cons_ne_nil _ _) hnameText
  have hown : ∀ k < 14, ReadsOwnLine content k :=
    (readsOwnLines_iff content 14).mpr fun k hk =>
      ⟨behindLines_ne_nil hlast (by omega), fun _ => hshort k hk⟩
  obtain ⟨hcode, hmacList, hnameList⟩ :=
    getConfig_lists stack hopen hown hacc hrules
  refine ⟨hcode, ?_, ?_, fun hlines huuid hgateway => ?_⟩
  · rw [hmacList, hmacLine, hmacBack]
  · rw [hnameList, hnameLine, hnameBack]
  · obtain ⟨hall, hmatch⟩ := (linesOk_iff content 17).mp hlines
    obtain ⟨-, -, hrest⟩ := getConfig_accepted stack hopen
      (fun k hk => hall k (by omega)) hacc
    exact (hrest hall).1.mpr ⟨hmatch, huuid, hrules, hgateway⟩

def configConf : List Str :=
  ["area_id=0004", "coordinate_X=0.00005000", "coordinate_Y=0.00001621", "coordinate_Z=1",
    "lowest_basement_level=20", "advertise_dongle_id=0", "advertise_interval_in_uints_0625_ms=480",
    "advertise_rssi_value=-50", "scan_dongle_id=0", "scan_interval_in_uints_0625_ms=480",
    "scan_window_in_uints_0625_ms=320", "scan_rssi_coverage=-100",
    "scan_mac_address_prefix=1,C1:;05C6;,",
    "scan_device_name_prefix=2,080954303520;0000;1;1,050942546167;05C7;0;0;,",
    "gateway_addr=192.168.1.104", "gateway_port=8888", "local_client_port=9999"].map String.toList

theorem configConf_lines : ∀ l ∈ configConf,
    '\n' ∉ l ∧ l.length + 1 < configBufferSize ∧ NUL ∉ l ∧ '=' ∈ l := by
  decide +kernel

theorem get_config_rule_lists_conf :
    let r := (placeAt "0" "0").getConfig decimalLib ⟨fun _ => [], fun _ _ => NUL⟩ (fun _ => true)
      (fileOf configConf)
    r.value.1 = .workSuccessfully ∧
      r.value.2.1.macPrefixList = [⟨"C1:".toList, "05C6".toList⟩] ∧
      r.value.2.1.deviceNamePrefixList =
        [⟨"080954303520".toList, "0000".toList, true, true⟩,
          ⟨"050942546167".toList, "05C7".toList, false, false⟩] ∧
      r.faults = [] := by
  have hlines : ∀ l ∈ configConf, '\n' ∉ l := fun l hl => (configConf_lines l hl).1
  have hfile := linesOk_fileOf hlines (n := 17) (by decide) fun l hl => (configConf_lines l hl).2
  have htext {k : Nat} (hk : k < configConf.length) := lineText_fileOf hlines hk
  have hlocated : (located (fileOf configConf) (placeAt "0" "0")).Accepted decimalLib ∧
      uuidLength decimalLib (located (fileOf configConf) (placeAt "0" "0")) < configBufferSize := by
    unfold located
    rw [htext (k := 0) (by decide), htext (k := 1) (by decide), htext (k := 2) (by decide),
      htext (k := 3) (by decide), htext (k := 4) (by decide)]
    decide
  have hgateway : (lineText (fileOf configConf) 14).length < networkAddrLength := by
    rw [htext (k := 14) (by decide)]
    decide
  have hmac : ListsRules PrefixRule.WrittenAs [⟨"C1:".toList, "05C6".toList⟩]
      (firstLine (behindLines (fileOf configConf) 12)) := by
    refine ⟨⟨"scan_mac_address_prefix".toList,
      [⟨["C1:".toList, "05C6".toList], true, by decide, by decide⟩], true, ['\n'],
      by decide, List.forall_mem_singleton.mpr rfl⟩, ?_, ?_⟩
    · rw [firstLine_fileOf hlines (by decide)]
      decide
    · exact List.Forall₂.cons ⟨rfl, by decide, by decide⟩ List.Forall₂.nil
  have hname : ListsRules DeviceNamePrefix.WrittenAs
      [⟨"080954303520".toList, "0000".toList, true, true⟩,
        ⟨"050942546167".toList, "05C7".toList, false, false⟩]
      (firstLine (behindLines (fileOf configConf) 13)) := by
    refine ⟨⟨"scan_device_name_prefix".toList,
      [⟨["080954303520".toList, "0000".toList, ['1'], ['1']], false, by decide, by decide⟩,
        ⟨["050942546167".toList, "05C7".toList, ['0'], ['0']], true, by decide, by decide⟩],
      true, ['\n'], by decide, List.forall_mem_singleton.mpr rfl⟩, ?_, ?_⟩
    · rw [firstLine_fileOf hlines (by decide)]
      decide
    · refine List.Forall₂.cons ⟨⟨['1'], ['1'], rfl, ?_, ?_⟩, ?_, ?_⟩
        (List.Forall₂.cons ⟨⟨['0'], ['0'], rfl, ?_, ?_⟩, ?_, ?_⟩ List.Forall₂.nil) <;> decide
  obtain ⟨hcode, hmacList, hnameList, hclean⟩ := get_config_rule_lists decimalLib
    ⟨fun _ => [], fun _ _ => NUL⟩ (fun _ => true) (fileOf configConf) (placeAt "0" "0") _ _ rfl
    hlocated.1 (fun k hk => (hfile k (by omega)).2.2 (by omega)) hmac hname
  exact ⟨hcode, hmacList, hnameList, hclean hfile hlocated.2 hgateway⟩

end LBeacon
