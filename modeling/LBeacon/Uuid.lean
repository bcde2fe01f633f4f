import LBeacon.Advertising
import LBeacon.Lib.CInt
import LBeacon.Lib.Digits
import LBeacon.Receive

/-!
# The UUID of a location

`generate_uuid` puts it together from the area id, the level and what stands behind the decimal
points of the coordinates.
-/

open CText CMemory

namespace LBeacon

/-! ## Data -/

inductive ConfigCode where
  | workSuccessfully
  | eOpenFile
  | eInputParameter
  deriving DecidableEq

def configBufferSize : Nat := 4096

/-- The fields of `Config` that come from the configuration file. -/
structure BeaconConfig where
  areaId : Str
  coordinateX : Str
  coordinateY : Str
  coordinateZ : Str
  lowestBasementLevel : Int
  uuid : Str
  advertiseDongleId : Int
  advertiseIntervalInUnits0625Ms : Int
  advertiseRssiValue : Int
  scanDongleId : Int
  scanIntervalInUnits0625Ms : Int
  scanWindowInUnits0625Ms : Int
  scanRssiCoverage : Int
  macPrefixList : List PrefixRule
  deviceNamePrefixList : List DeviceNamePrefix
  gatewayAddr : Str
  gatewayPort : Int
  localAddr : Str
  localClientPort : Int

/-- The `double` of the C library, with `atof`, the comparison with zero and the text of `%.8f`.
The longest of these texts has 309 digits, a sign, the point and eight digits, and each starts
with a sign, a digit or the name of what is not a number. -/
structure FloatLib where
  Double : Type
  atof : Str → Double
  isNegative : Double → Bool
  format8 : Double → Str
  format8_short : ∀ d, (format8 d).length < configBufferSize
  format8_noNul : ∀ d, NUL ∉ format8 d
  format8_whole : ∀ d, field '.' (format8 d) ≠ []

/-! ## generate_uuid -/

/-- The text behind the point. -/
def fractionText (L : FloatLib) (d : L.Double) : Watched Str := do
  let coordinate ← strcpy configBufferSize (L.format8 d)
  let tempString ← strtokSave '.' (some (Ptr.ofBuf coordinate configBufferSize)) .null
  let token ← readToken tempString.str
  return coordinate.drop (token.length + 1)

def BeaconConfig.level (config : BeaconConfig) : Int :=
  CInt.toInt (config.lowestBasementLevel + atoi config.coordinateZ)

def generateUuid (L : FloatLib) (config : BeaconConfig) : Watched (ConfigCode × BeaconConfig) := do
  let config := { config with uuid := [] }
  let coordinateX := L.atof config.coordinateX
  let coordinateY := L.atof config.coordinateY
  let coordinateZ := config.level
  if L.isNegative coordinateX ∨ L.isNegative coordinateY ∨ coordinateZ < 0 then
    return (.eInputParameter, config)
  let uuid ← strcpy configBufferSize (cstr config.areaId ++ "00".toList ++
    hexText (coordinateZ / 16).toNat ++ hexText (coordinateZ % 16).toNat ++ "0000".toList)
  let remainString ← fractionText L coordinateX
  let uuid ← strcat configBufferSize uuid remainString
  let uuid ← strcat configBufferSize uuid "0000".toList
  let remainString ← fractionText L coordinateY
  let uuid ← strcat configBufferSize uuid remainString
  return (.workSuccessfully, { config with uuid })

/-! ## Its text -/

def BeaconConfig.Accepted (L : FloatLib) (c : BeaconConfig) : Prop :=
  L.isNegative (L.atof c.coordinateX) = false ∧ L.isNegative (L.atof c.coordinateY) = false ∧
    0 ≤ c.level

instance (L : FloatLib) (c : BeaconConfig) : Decidable (c.Accepted L) :=
  inferInstanceAs (Decidable (_ ∧ _))

/-- The digits behind the point. -/
def fraction (L : FloatLib) (text : Str) : Str := afterField '.' (L.format8 (L.atof text))

def uuidText (L : FloatLib) (c : BeaconConfig) : Str :=
  cstr c.areaId ++ "00".toList ++ hexText (c.level / 16).toNat ++ hexText (c.level % 16).toNat ++
    "0000".toList ++ fraction L c.coordinateX ++ "0000".toList ++ fraction L c.coordinateY

theorem fractionText_eq (L : FloatLib) (text : Str) :
    fractionText L (L.atof text) = pure (fraction L text) := by
  let d := L.atof text
  let p := Ptr.ofBuf (L.format8 d) configBufferSize
  have htext : p.text = L.format8 d := by
    rw [text_ofBuf (L.format8_short d).le, cstr_eq_self (L.format8_noNul d)]
  have hahead : Ahead '.' p (fields '.' p.text) := by
    refine ⟨?_, Or.inl rfl⟩
    unfold Ptr.Terminated
    rw [htext]
    exact L.format8_short d
  have hfirst : (fields '.' p.text).headD [] = field '.' (L.format8 d) := by
    rw [← hahead.field_eq, htext]
  obtain ⟨q, hvalue, hfaults, -⟩ := strtokSave_first hahead
    (hfirst ▸ L.format8_whole d) .null
  unfold fractionText
  rw [strcpy_fits (L.format8_short d), watched_pure_bind]
  apply Watched.ext
  · simp only [value_bind, value_pure]
    change (L.format8 d).drop ((readToken (strtokSave '.' (some p) .null).value.str).value.length
      + 1) = afterField '.' (L.format8 d)
    rw [hvalue, ← drop_field_length, hfirst]
    rfl
  · simp only [faults_bind, faults_pure, List.append_nil]
    change (strtokSave '.' (some p) .null).faults ++
      (readToken (strtokSave '.' (some p) .null).value.str).faults = []
    rw [hfaults, hvalue]
    rfl

theorem generateUuid_rejected {L : FloatLib} {c : BeaconConfig} (h : ¬ c.Accepted L) :
    generateUuid L c = pure (.eInputParameter, { c with uuid := [] }) := by
  have hneg : L.isNegative (L.atof c.coordinateX) = true ∨
      L.isNegative (L.atof c.coordinateY) = true ∨ c.level < 0 := by
    by_contra hall
    simp only [not_or, Bool.not_eq_true, not_lt] at hall
    exact h hall
  exact if_pos hneg

theorem generateUuid_accepted {L : FloatLib} {c : BeaconConfig} (h : c.Accepted L) :
    (generateUuid L c).value = (.workSuccessfully, { c with uuid := uuidText L c }) ∧
      ((generateUuid L c).faults = [] ↔ (uuidText L c).length < configBufferSize) := by
  have hneg : ¬ (L.isNegative (L.atof c.coordinateX) = true ∨
      L.isNegative (L.atof c.coordinateY) = true ∨ c.level < 0) := by
    obtain ⟨hx, hy, hz⟩ := h
    simp only [hx, hy, Bool.false_eq_true, false_or, not_lt, hz]
  have heq : generateUuid L c = (do
      let uuid ← strcpy configBufferSize (cstr c.areaId ++ "00".toList ++
        hexText (c.level / 16).toNat ++ hexText (c.level % 16).toNat ++ "0000".toList)
      let uuid ← strcat configBufferSize uuid (fraction L c.coordinateX)
      let uuid ← strcat configBufferSize uuid "0000".toList
      let uuid ← strcat configBufferSize uuid (fraction L c.coordinateY)
      return (.workSuccessfully, { c with uuid })) := by
    unfold generateUuid
    simp only [fractionText_eq, watched_pure_bind]
    exact if_neg hneg
  rw [heq]
  refine ⟨rfl, ?_⟩
  simp only [faults_bind, faults_pure, List.append_nil, List.append_eq_nil_iff, value_strcpy,
    value_strcat, faults_strcpy, faults_strcat, uuidText, List.length_append]
  omega

/-! ## Locations -/

/-- A configuration that `generate_uuid` accepts, with an area id of four hexadecimal digits.
Its coordinates are `x` and `y` hundred-millionths, without a rounding error. -/
structure Locates (L : FloatLib) (c : BeaconConfig) (x y : Nat) : Prop where
  area_length : c.areaId.length = 4
  area_hex : ∀ d ∈ c.areaId, d ∈ hexDigits
  exact_x : L.format8 (L.atof c.coordinateX) = decimal8 x
  exact_y : L.format8 (L.atof c.coordinateY) = decimal8 y
  accepted : (generateUuid L c).value.1 = .workSuccessfully

def generatedUuid (L : FloatLib) (c : BeaconConfig) : Str := (generateUuid L c).value.2.uuid

/-- Thirty-two digits as `aaaa00zz0000xxxxxxxx0000yyyyyyyy`. -/
structure UuidFormat (c : BeaconConfig) (uuid : Str) : Prop where
  length : uuid.length = 32
  hex : ∀ d ∈ uuid, d ∈ hexDigits
  layout : ∃ zz xs ys : Str, zz.length = 2 ∧ xs.length = 8 ∧ ys.length = 8 ∧
    uuid = c.areaId ++ "00".toList ++ zz ++ "0000".toList ++ xs ++ "0000".toList ++ ys

def levelText (level : Int) : Str := hexText (level / 16).toNat ++ hexText (level % 16).toNat

section

variable {L : FloatLib} {c c' : BeaconConfig} {x y x' y' : Nat}

theorem Locates.isAccepted (h : Locates L c x y) : c.Accepted L := by
  by_contra hrejected
  have haccepted := h.accepted
  rw [generateUuid_rejected hrejected] at haccepted
  cases haccepted

theorem Locates.uuid_eq (h : Locates L c x y) : generatedUuid L c =
    c.areaId ++ "00".toList ++ levelText c.level ++ "0000".toList ++ fixedDigits 8 x ++
      "0000".toList ++ fixedDigits 8 y := by
  have hpoint (n : Nat) : afterField '.' (decimal8 n) = fixedDigits 8 n := by
    apply afterField_append
    intro hmem
    have := Nat.isDigit_of_mem_toDigits (by decide) (by decide) hmem
    exact absurd this (by decide)
  have hnul : cstr c.areaId = c.areaId := by
    apply cstr_eq_self
    intro hmem
    exact absurd (h.area_hex NUL hmem) (by decide)
  rw [generatedUuid, (generateUuid_accepted h.isAccepted).1]
  simp only [uuidText, fraction, h.exact_x, h.exact_y, hpoint, hnul, levelText, List.append_assoc]

theorem Locates.uuid_length (h : Locates L c x y) :
    (generatedUuid L c).length = 30 + (levelText c.level).length := by
  have hzeros : "0000".toList.length = 4 := rfl
  have hzero : "00".toList.length = 2 := rfl
  rw [h.uuid_eq]
  simp only [List.length_append, h.area_length, fixedDigits_length, hzeros, hzero]
  omega

theorem levelText_length_eq_two_iff {level : Int} (h : 0 ≤ level) :
    (levelText level).length = 2 ↔ level < 256 := by
  have hlow : (hexText (level % 16).toNat).length = 1 :=
    (hexText_length_eq_one_iff _).mpr (by omega)
  have hhigh := hexText_length_eq_one_iff (level / 16).toNat
  rw [levelText, List.length_append, hlow]
  omega

theorem levelText_inj {level level' : Int} (h : 0 ≤ level) (h' : 0 ≤ level')
    (hlt : level < 256) (hlt' : level' < 256) (heq : levelText level = levelText level') :
    level = level' := by
  unfold levelText at heq
  rw [hexText_of_lt (by omega), hexText_of_lt (by omega), hexText_of_lt (by omega),
    hexText_of_lt (by omega)] at heq
  obtain ⟨hhigh, htail⟩ := List.cons.inj heq
  have hhigh' := digitChar_inj (by omega) (by omega) hhigh
  have hlow' := digitChar_inj (by omega) (by omega) (List.cons.inj htail).1
  omega

theorem digitChar_mem_hexDigits {d : Nat} (hd : d < 16) :
    Nat.digitChar d ∈ hexDigits ∧ (Nat.digitChar d).toUpper ∈ hexDigits := by
  have hall : ∀ d < 16, Nat.digitChar d ∈ hexDigits ∧ (Nat.digitChar d).toUpper ∈ hexDigits := by
    decide
  exact hall d hd

theorem Locates.format_iff (h : Locates L c x y) :
    UuidFormat c (generatedUuid L c) ↔ c.level < 256 := by
  have hlevel := h.isAccepted.2.2
  constructor
  · intro hformat
    have hlen := h.uuid_length
    rw [hformat.length] at hlen
    exact (levelText_length_eq_two_iff hlevel).mp (by omega)
  · intro hlt
    have htwo := (levelText_length_eq_two_iff hlevel).mpr hlt
    have hfixed (n : Nat) : ∀ d ∈ fixedDigits 8 n, d ∈ hexDigits := by
      intro d hd
      obtain ⟨k, hk, rfl⟩ := exists_of_mem_fixedDigits hd
      exact (digitChar_mem_hexDigits (by omega)).1
    have hdigits : ∀ d ∈ levelText c.level, d ∈ hexDigits := by
      intro d hd
      rw [levelText, hexText_of_lt (by omega), hexText_of_lt (by omega)] at hd
      rcases List.mem_cons.mp hd with rfl | hd
      · exact (digitChar_mem_hexDigits (by omega)).2
      · rw [List.mem_singleton.mp hd]
        exact (digitChar_mem_hexDigits (by omega)).2
    have hzeros : ∀ d ∈ "0000".toList, d ∈ hexDigits :=
      fun _ hd => (by decide : "0000".toList ⊆ hexDigits) hd
    have hzero : ∀ d ∈ "00".toList, d ∈ hexDigits :=
      fun _ hd => (by decide : "00".toList ⊆ hexDigits) hd
    refine ⟨by rw [h.uuid_length, htwo], ?_, levelText c.level, fixedDigits 8 x, fixedDigits 8 y,
      htwo, fixedDigits_length 8 x, fixedDigits_length 8 y, h.uuid_eq⟩
    rw [h.uuid_eq]
    simp only [List.forall_mem_append]
    exact ⟨⟨⟨⟨⟨⟨h.area_hex, hzero⟩, hdigits⟩, hzeros⟩, hfixed x⟩, hzeros⟩, hfixed y⟩

theorem Locates.uuid_inj (h : Locates L c x y) (h' : Locates L c' x' y') (hlt : c.level < 256)
    (hlt' : c'.level < 256) (heq : generatedUuid L c = generatedUuid L c') :
    c.areaId = c'.areaId ∧ c.level = c'.level ∧ x % 10 ^ 8 = x' % 10 ^ 8 ∧
      y % 10 ^ 8 = y' % 10 ^ 8 := by
  have htwo := (levelText_length_eq_two_iff h.isAccepted.2.2).mpr hlt
  have htwo' := (levelText_length_eq_two_iff h'.isAccepted.2.2).mpr hlt'
  have hfixed (n n' : Nat) : (fixedDigits 8 n).length = (fixedDigits 8 n').length := by
    rw [fixedDigits_length, fixedDigits_length]
  rw [h.uuid_eq, h'.uuid_eq] at heq
  obtain ⟨heq, hy⟩ := List.append_inj' heq (hfixed y y')
  obtain ⟨heq, -⟩ := List.append_inj' heq rfl
  obtain ⟨heq, hx⟩ := List.append_inj' heq (hfixed x x')
  obtain ⟨heq, -⟩ := List.append_inj' heq rfl
  obtain ⟨heq, hlevel⟩ := List.append_inj' heq (by rw [htwo, htwo'])
  obtain ⟨harea, -⟩ := List.append_inj' heq rfl
  exact ⟨harea, levelText_inj h.isAccepted.2.2 h'.isAccepted.2.2 hlt hlt' hlevel,
    fixedDigits_inj hx, fixedDigits_inj hy⟩

end

/-- The UUIDs of two locations have the format, and differ where the locations do, exactly when
the levels are below 256 and it is not only in what stands in front of the points that the
locations differ. -/
theorem location_uuids_iff (L : FloatLib) {c c' : BeaconConfig} {x y x' y' : Nat}
    (h : Locates L c x y) (h' : Locates L c' x' y') :
    (UuidFormat c (generatedUuid L c) ∧ UuidFormat c' (generatedUuid L c') ∧
      (c.areaId ≠ c'.areaId ∨ c.level ≠ c'.level ∨ x ≠ x' ∨ y ≠ y' →
        generatedUuid L c ≠ generatedUuid L c')) ↔
    c.level < 256 ∧ c'.level < 256 ∧
      (c.areaId = c'.areaId → c.level = c'.level → x % 10 ^ 8 = x' % 10 ^ 8 →
        y % 10 ^ 8 = y' % 10 ^ 8 → x / 10 ^ 8 = x' / 10 ^ 8 ∧ y / 10 ^ 8 = y' / 10 ^ 8) := by
  rw [h.format_iff, h'.format_iff]
  refine and_congr_right fun hlt => and_congr_right fun hlt' => ?_
  constructor
  · intro hdiffer harea hlevel hx hy
    by_contra hwhole
    refine hdiffer (Or.inr (Or.inr ?_)) ?_
    · omega
    · rw [h.uuid_eq, h'.uuid_eq, harea, hlevel, ← fixedDigits_mod 8 x, hx, fixedDigits_mod,
        ← fixedDigits_mod 8 y, hy, fixedDigits_mod]
  · intro hwhole hdiffer heq
    obtain ⟨harea, hlevel, hx, hy⟩ := h.uuid_inj h' hlt hlt' heq
    obtain ⟨hx', hy'⟩ := hwhole harea hlevel hx hy
    rcases hdiffer with hne | hne | hne | hne
    · exact hne harea
    · exact hne hlevel
    · omega
    · omega

/-! ## Three places -/

def decimalText (d : Bool × Nat) : Str :=
  (if d.1 then ['-'] else []) ++ if d.2 < 10 ^ 208 then decimal8 d.2 else "inf".toList

theorem decimalText_length (d : Bool × Nat) : (decimalText d).length ≤ 210 := by
  have hsign : (if d.1 then ['-'] else []).length ≤ 1 := by
    split <;> decide
  have hrest : (if d.2 < 10 ^ 208 then decimal8 d.2 else "inf".toList).length ≤ 209 := by
    split
    · next h => exact decimal8_length (k := 200) (by decide) (by omega)
    · decide
  rw [decimalText, List.length_append]
  omega

theorem mem_decimalText {d : Bool × Nat} {c : Char} (h : c ∈ decimalText d) :
    c.isDigit = true ∨ c = '.' ∨ c ∈ "-inf".toList := by
  rcases List.mem_append.mp h with hsign | hrest
  · split at hsign
    · rw [List.mem_singleton.mp hsign]
      exact Or.inr (Or.inr (by decide))
    · exact absurd hsign List.not_mem_nil
  · split at hrest
    · rcases digit_of_mem_decimal8 hrest with hdigit | hpoint
      · exact Or.inl hdigit
      · exact Or.inr (Or.inl hpoint)
    · exact Or.inr (Or.inr (List.mem_cons_of_mem _ hrest))

theorem decimalText_whole (d : Bool × Nat) : field '.' (decimalText d) ≠ [] := by
  have hwhole : field '.' (if d.2 < 10 ^ 208 then decimal8 d.2 else "inf".toList) ≠ [] := by
    split
    · have hpoint : '.' ∉ Nat.toDigits 10 (d.2 / 10 ^ 8) := fun hmem =>
        absurd (Nat.isDigit_of_mem_toDigits (by decide) (by decide) hmem) (by decide)
      rw [decimal8, field_append hpoint]
      exact Nat.toDigits_ne_nil
    · decide
  rw [decimalText]
  split
  · exact List.cons_ne_nil '-' _
  · exact hwhole

/-- `atof` of a decimal with at most eight digits behind the point, as a sign and
hundred-millionths. -/
def decimalLib : FloatLib where
  Double := Bool × Nat
  atof s :=
    let magnitude := if s.head? = some '-' then s.tail else s
    let digits (t : Str) : Nat := t.foldl (fun n c => 10 * n + (c.toNat - 48)) 0
    (s.head? = some '-', digits (field '.' magnitude) * 10 ^ 8 +
      digits ((afterField '.' magnitude ++ "00000000".toList).take 8))
  isNegative d := d.1 && d.2 ≠ 0
  format8 := decimalText
  format8_short d := Nat.lt_of_le_of_lt (decimalText_length d) (by decide)
  format8_noNul _ h := by
    rcases mem_decimalText h with hdigit | hpoint | hname
    · exact absurd hdigit (by decide)
    · exact absurd hpoint (by decide)
    · exact absurd hname (by decide)
  format8_whole := decimalText_whole

def placeAt (coordinateX coordinateZ : String) : BeaconConfig where
  areaId := "0004".toList
  coordinateX := coordinateX.toList
  coordinateY := "0.00001621".toList
  coordinateZ := coordinateZ.toList
  lowestBasementLevel := 20
  uuid := []
  advertiseDongleId := 0
  advertiseIntervalInUnits0625Ms := 480
  advertiseRssiValue := -50
  scanDongleId := 0
  scanIntervalInUnits0625Ms := 480
  scanWindowInUnits0625Ms := 320
  scanRssiCoverage := -100
  macPrefixList := []
  deviceNamePrefixList := []
  gatewayAddr := []
  gatewayPort := 8888
  localAddr := []
  localClientPort := 9999

example : generatedUuid decimalLib (placeAt "0.00005000" "1") =
    "00040015000000005000000000001621".toList := by decide

theorem placeAt_area (coordinateX coordinateZ : String) :
    ∀ d ∈ (placeAt coordinateX coordinateZ).areaId, d ∈ hexDigits :=
  fun _ hd => (by decide : "0004".toList ⊆ hexDigits) hd

theorem location_uuids_floors :
    UuidFormat (placeAt "0.00005000" "1") (generatedUuid decimalLib (placeAt "0.00005000" "1")) ∧
    UuidFormat (placeAt "0.00005000" "2") (generatedUuid decimalLib (placeAt "0.00005000" "2")) ∧
    ((placeAt "0.00005000" "1").areaId ≠ (placeAt "0.00005000" "2").areaId ∨
      (placeAt "0.00005000" "1").level ≠ (placeAt "0.00005000" "2").level ∨
      5000 ≠ 5000 ∨ 1621 ≠ 1621 →
      generatedUuid decimalLib (placeAt "0.00005000" "1") ≠
        generatedUuid decimalLib (placeAt "0.00005000" "2")) :=
  have hfirst : Locates decimalLib (placeAt "0.00005000" "1") 5000 1621 :=
    ⟨by decide, placeAt_area _ _, by decide, by decide, by decide⟩
  have hsecond : Locates decimalLib (placeAt "0.00005000" "2") 5000 1621 :=
    ⟨by decide, placeAt_area _ _, by decide, by decide, by decide⟩
  (location_uuids_iff decimalLib hfirst hsecond).mpr
    ⟨by decide, by decide, fun _ _ _ _ => by decide⟩

/-- Places that are a whole unit apart have the same UUID, and one on level 256 has a digit too
many. -/
theorem location_uuids_clash :
    (∃ x x' y, Locates decimalLib (placeAt "0.50000000" "1") x y ∧
      Locates decimalLib (placeAt "1.50000000" "1") x' y ∧ x ≠ x' ∧
      generatedUuid decimalLib (placeAt "0.50000000" "1") =
        generatedUuid decimalLib (placeAt "1.50000000" "1")) ∧
    ∃ x y, Locates decimalLib (placeAt "0.50000000" "236") x y ∧
      ¬ UuidFormat (placeAt "0.50000000" "236")
        (generatedUuid decimalLib (placeAt "0.50000000" "236")) := by
  constructor
  · exact ⟨50000000, 150000000, 1621, ⟨by decide, placeAt_area _ _, by decide, by decide, by decide⟩,
      ⟨by decide, placeAt_area _ _, by decide, by decide, by decide⟩, by decide, by decide⟩
  · refine ⟨50000000, 1621, ⟨by decide, placeAt_area _ _, by decide, by decide, by decide⟩, fun h => ?_⟩
    exact absurd h.length (by decide)

end LBeacon
