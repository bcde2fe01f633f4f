import LBeacon.Payload
import LBeacon.Lib.CInt
import LBeacon.Lib.CMemory
import LBeacon.Lib.LengthPrefixed

/-!
# The advertisement of a beacon

The advertising data that `enable_advertising` hands to the controller, and what a receiver
reads from it.
-/

open CText CMemory LengthPrefixed

namespace LBeacon

/-! ## The source -/

def eirFlags : UInt8 := 0x01

def conversion : Str := "0123456789ABCDEF".toList

/-- `strchr(s, c) - s`. The NUL is a character of the string. `none` is a NULL pointer, whose
distance from `s` means nothing. -/
def strchr (s : Str) (c : Char) : Option Nat := (cstr s ++ [NUL]).idxOf? c

/-- One round of the loop, with `c` and `d` at `uuid_counter`. -/
def uuidByte (c d : Char) : Option Nat := do
  let high ← strchr conversion c.toUpper
  let low ← strchr conversion d.toUpper
  return high * 16 + low

/-- A string of odd length is read up to its NUL. -/
def uuidStrToData : Str → Option (List Nat)
  | [] => some []
  | [c] => do return [← uuidByte c NUL]
  | c :: d :: uuid => do return (← uuidByte c d) :: (← uuidStrToData uuid)

/-- `unsigned int` -/
def twoc (n : Int) (t : Nat) : Nat := CInt.toSize (if n < 0 then n + 2 <<< (t - 1) else n)

/-- The host is little-endian. -/
def htobs (n : Nat) : Nat := n % 2 ^ 16

/-- `n & 0x00FF` -/
def lowByte (n : Int) : Nat := (n % 256).toNat

def sizeOfAdvertisingData : Nat := 31

/-- `advertisement_data_copy`, with `segment_length`. -/
structure AdvertisingData where
  length : UInt8
  data : List UInt8
  segmentLength : UInt8
  size : data.length = sizeOfAdvertisingData

namespace AdvertisingData

/-- `memset` -/
def zeroed : AdvertisingData := ⟨0, List.replicate 31 0, 1, rfl⟩

/-- `data[index] = htobs(value)` -/
def write (d : AdvertisingData) (index value : Nat) : Watched AdvertisingData :=
  access (decide (index < sizeOfAdvertisingData)) .writePastEnd
    { d with
      data := d.data.set index (UInt8.ofNat (htobs value))
      size := by rw [List.length_set, d.size] }

/-- `data[length + segment_length] = htobs(value)`, and `segment_length++` -/
def put (d : AdvertisingData) (value : Nat) : Watched AdvertisingData := do
  let d ← d.write (d.length.toNat + d.segmentLength.toNat) value
  return { d with segmentLength := d.segmentLength + 1 }

/-- The same for one value after the other. -/
def putAll (d : AdvertisingData) : List Nat → Watched AdvertisingData
  | [] => pure d
  | value :: values => do (← d.put value).putAll values

/-- `segment_length = 1` -/
def openSegment (d : AdvertisingData) : AdvertisingData := { d with segmentLength := 1 }

/-- The length byte goes to the place that was left free for it. -/
def closeSegment (d : AdvertisingData) : Watched AdvertisingData := do
  let d ← d.write d.length.toNat (d.segmentLength.toNat - 1)
  return { d with length := d.length + d.segmentLength }

end AdvertisingData

/-- The request's parameter. `none` is an UUID with a character that is no hexadecimal digit. -/
def enableAdvertising (advertisingUuid : Str) (majorNumber minorNumber rssiValue : Int) :
    Option (Watched AdvertisingData) := do
  let uuid ← uuidStrToData advertisingUuid
  return do
    let d := AdvertisingData.zeroed.openSegment
    let d ← d.putAll [eirFlags.toNat, 0x1A]
    let d ← d.closeSegment
    let d := d.openSegment
    let d ← d.putAll [eirManufactureSpecificData.toNat, 0x0F, 0x00, 0x02, 0x15]
    let d ← d.putAll (uuid.take (strlen advertisingUuid / 2))
    let d ← d.putAll [lowByte (majorNumber >>> (8 : Nat)), lowByte majorNumber]
    let d ← d.putAll [lowByte (minorNumber >>> (8 : Nat)), lowByte minorNumber]
    let d ← d.putAll [twoc rssiValue 8]
    d.closeSegment

/-- What the controller sends. -/
def AdvertisingData.bytes (d : AdvertisingData) : List UInt8 := d.data.take d.length.toNat

/-! ## Filling the array -/

namespace AdvertisingData

variable {d : AdvertisingData} {values : List Nat}

/-- Where the next byte of the open segment goes. -/
def next (d : AdvertisingData) : Nat := d.length.toNat + d.segmentLength.toNat

def byteOf (value : Nat) : UInt8 := UInt8.ofNat (htobs value)

theorem put_spec (value : Nat) (h : d.next < sizeOfAdvertisingData) :
    (d.put value).faults = [] ∧ (d.put value).value.length = d.length ∧
      (d.put value).value.segmentLength.toNat = d.segmentLength.toNat + 1 ∧
      (d.put value).value.data = d.data.set d.next (byteOf value) := by
  have hsegment : (d.segmentLength + 1).toNat = d.segmentLength.toNat + 1 := by
    rw [UInt8.toNat_add]
    unfold next sizeOfAdvertisingData at h
    apply Nat.mod_eq_of_lt
    have hone : (1 : UInt8).toNat = 1 := rfl
    omega
  refine ⟨?_, rfl, hsegment, rfl⟩
  unfold put write
  rw [faults_bind, faults_pure, List.append_nil, faults_access]
  exact decide_eq_true h

theorem putAll_spec (values : List Nat) (h : d.next + values.length ≤ sizeOfAdvertisingData) :
    (d.putAll values).faults = [] ∧ (d.putAll values).value.length = d.length ∧
      (d.putAll values).value.segmentLength.toNat = d.segmentLength.toNat + values.length ∧
      (d.putAll values).value.data =
        d.data.take d.next ++ values.map byteOf ++ d.data.drop (d.next + values.length) := by
  induction values generalizing d with
  | nil => simp [putAll]
  | cons value values ih =>
    rw [List.length_cons] at h
    obtain ⟨hsafe, hlength, hsegment, hdata⟩ := put_spec value (by omega : d.next < _)
    have hnext : (d.put value).value.next = d.next + 1 := by
      unfold next
      rw [hlength, hsegment]
      omega
    obtain ⟨ihsafe, ihlength, ihsegment, ihdata⟩ := ih (by omega : (d.put value).value.next + _ ≤ _)
    rw [putAll, faults_bind, value_bind]
    refine ⟨by rw [hsafe, ihsafe]; rfl, ihlength.trans hlength, ?_, ?_⟩
    · rw [ihsegment, hsegment, List.length_cons]
      omega
    · have hin : d.next < d.data.length := by
        rw [d.size]
        omega
      rw [ihdata, hnext, hdata, List.take_add_one, List.take_set_of_le (Nat.le_refl _),
        List.getElem?_set_self hin, List.drop_set_of_lt (by omega), List.length_cons, List.map_cons]
      simp [Nat.add_assoc, Nat.add_comm 1]

theorem putAll_append (d : AdvertisingData) (xs ys : List Nat) :
    d.putAll (xs ++ ys) = (do (← d.putAll xs).putAll ys) := by
  induction xs generalizing d with
  | nil => rfl
  | cons x xs ih =>
    have hrest := ih (d.put x).value
    rw [List.cons_append, putAll, putAll]
    ext1
    · simp only [value_bind, hrest]
    · simp only [value_bind, faults_bind, hrest, List.append_assoc]

theorem take_filled {l values : List UInt8} {i : Nat} (h : i < l.length) (byte : UInt8) {n : Nat}
    (hn : values.length = n) :
    ((l.take (i + 1) ++ values ++ l.drop (i + 1 + n)).set i byte).take (i + 1 + n) =
      l.take i ++ byte :: values := by
  have hstart : (l.take i).length = i := by
    rw [List.length_take]
    omega
  have hfilled : (l.take (i + 1) ++ values ++ l.drop (i + 1 + n)).set i byte =
      (l.take i ++ byte :: values) ++ l.drop (i + 1 + n) := by
    rw [List.take_add_one, List.getElem?_eq_getElem h, List.append_assoc, List.append_assoc,
      List.set_append_right _ _ (by omega), hstart, Nat.sub_self]
    simp
  rw [hfilled]
  apply List.take_left'
  rw [List.length_append, hstart, List.length_cons]
  omega

theorem segment_spec (d : AdvertisingData) (values : List Nat)
    (h : d.length.toNat + 1 + values.length ≤ sizeOfAdvertisingData) :
    let run := do (← d.openSegment.putAll values).closeSegment
    run.faults = [] ∧ run.value.length.toNat = d.length.toNat + 1 + values.length ∧
      run.value.bytes = d.bytes ++ UInt8.ofNat values.length :: values.map byteOf := by
  have hnext : d.openSegment.next = d.length.toNat + 1 := rfl
  have hvalues : values.length < 31 := by
    unfold sizeOfAdvertisingData at h
    omega
  obtain ⟨hsafe, hlength, hsegment, hdata⟩ := d.openSegment.putAll_spec values (by omega)
  rw [hnext] at hdata
  generalize d.openSegment.putAll values = filled at *
  have hsegment : filled.value.segmentLength.toNat = 1 + values.length := hsegment
  have hlength : filled.value.length = d.length := hlength
  have hend : (filled.value.length + filled.value.segmentLength).toNat =
      d.length.toNat + 1 + values.length := by
    unfold sizeOfAdvertisingData at h
    rw [UInt8.toNat_add, hlength, hsegment]
    omega
  refine ⟨?_, hend, ?_⟩
  · unfold closeSegment write
    simp only [faults_bind, faults_pure, List.append_nil, value_access, hsafe, List.nil_append,
      faults_access, decide_eq_true_eq, hlength]
    omega
  · have hcount : UInt8.ofNat (htobs (filled.value.segmentLength.toNat - 1)) =
        UInt8.ofNat values.length := by
      rw [hsegment, htobs, Nat.add_sub_cancel_left, Nat.mod_eq_of_lt (by omega)]
    have hin : d.length.toNat < d.data.length := by
      rw [d.size]
      omega
    unfold closeSegment write bytes
    simp only [value_bind, value_pure, value_access]
    rw [hend, hcount, hlength, hdata]
    exact take_filled hin _ (List.length_map _)

end AdvertisingData

/-! ## What a receiver reads -/

structure IBeacon where
  uuid : List UInt8
  major : Nat
  minor : Nat
  rssi : Int
  deriving DecidableEq

/-- Two bytes, the high one first. -/
def bigEndian (high low : UInt8) : Nat := 256 * high.toNat + low.toNat

def IBeacon.ofManufacturerData : List UInt8 → Option IBeacon
  | 0x0F :: 0x00 :: 0x02 :: 0x15 :: rest =>
    match rest.drop 16 with
    | [majorHigh, majorLow, minorHigh, minorLow, power] =>
      some ⟨rest.take 16, bigEndian majorHigh majorLow, bigEndian minorHigh minorLow,
        power.toInt8.toInt⟩
    | _ => none
  | _ => none

def hexDigits : Str := "0123456789ABCDEFabcdef".toList

/-- The value of a hexadecimal digit, by the ranges of the character set. -/
def digitValue (c : Char) : Nat :=
  if c.toNat < 'A'.toNat then c.toNat - '0'.toNat
  else if c.toNat < 'a'.toNat then c.toNat - 'A'.toNat + 10
  else c.toNat - 'a'.toNat + 10

/-- The bytes that a string of hexadecimal digits denotes. -/
def denotedBytes : Str → List UInt8
  | c :: d :: rest => UInt8.ofNat (16 * digitValue c + digitValue d) :: denotedBytes rest
  | _ => []

/-! ## The UUID -/

theorem strchr_conversion : ∀ c ∈ hexDigits,
    strchr conversion c.toUpper = some (digitValue c) ∧ digitValue c < 16 := by
  have hall : hexDigits.all (fun c =>
      decide (strchr conversion c.toUpper = some (digitValue c) ∧ digitValue c < 16)) = true := by
    decide
  exact fun c hc => of_decide_eq_true (List.all_eq_true.mp hall c hc)

theorem uuidByte_spec {c d : Char} (hc : c ∈ hexDigits) (hd : d ∈ hexDigits) :
    ∃ value, uuidByte c d = some value ∧
      AdvertisingData.byteOf value = UInt8.ofNat (16 * digitValue c + digitValue d) := by
  obtain ⟨hhigh, hhighLt⟩ := strchr_conversion c hc
  obtain ⟨hlow, hlowLt⟩ := strchr_conversion d hd
  refine ⟨digitValue c * 16 + digitValue d, ?_, ?_⟩
  · unfold uuidByte
    rw [hhigh, hlow]
    rfl
  · unfold AdvertisingData.byteOf htobs
    rw [Nat.mod_eq_of_lt (by omega), Nat.mul_comm]

theorem uuidStrToData_spec {n : Nat} {uuid : Str} (hlen : uuid.length = 2 * n)
    (hhex : ∀ c ∈ uuid, c ∈ hexDigits) :
    ∃ data, uuidStrToData uuid = some data ∧ data.length = n ∧
      data.map AdvertisingData.byteOf = denotedBytes uuid := by
  induction n generalizing uuid with
  | zero =>
    rw [List.eq_nil_of_length_eq_zero hlen]
    exact ⟨[], rfl, rfl, rfl⟩
  | succ n ih =>
    obtain ⟨c, d, rest, rfl⟩ : ∃ c d rest, uuid = c :: d :: rest := by
      match uuid, hlen with
      | c :: d :: rest, _ => exact ⟨c, d, rest, rfl⟩
    simp only [List.length_cons, List.forall_mem_cons] at hlen hhex
    obtain ⟨hc, hd, hrest⟩ := hhex
    obtain ⟨value, hvalue, hbyte⟩ := uuidByte_spec hc hd
    obtain ⟨data, hdata, hcount, hbytes⟩ := ih (by omega) hrest
    refine ⟨value :: data, ?_, by rw [List.length_cons, hcount], ?_⟩
    · rw [uuidStrToData, hvalue, hdata]
      rfl
    · rw [List.map_cons, hbyte, hbytes, denotedBytes]

theorem length_denotedBytes {n : Nat} {uuid : Str} (hlen : uuid.length = 2 * n) :
    (denotedBytes uuid).length = n := by
  induction n generalizing uuid with
  | zero =>
    rw [List.eq_nil_of_length_eq_zero hlen]
    rfl
  | succ n ih =>
    match uuid, hlen with
    | c :: d :: rest, hlen =>
      simp only [List.length_cons] at hlen
      rw [denotedBytes, List.length_cons, ih (by omega)]

/-! ## The round trip -/

open AdvertisingData

def flagsRecord : Record := ⟨eirFlags, [0x1A], by decide⟩

/-- The numbers behind the UUID. -/
def numberBytes (majorNumber minorNumber rssiValue : Int) : List UInt8 :=
  ([lowByte (majorNumber >>> (8 : Nat)), lowByte majorNumber, lowByte (minorNumber >>> (8 : Nat)),
    lowByte minorNumber, twoc rssiValue 8] : List Nat).map byteOf

theorem byteOf_toNat {n : Nat} (h : n < 256) : (byteOf n).toNat = n := by
  unfold byteOf htobs
  rw [UInt8.toNat_ofNat', Nat.mod_eq_of_lt (by omega), Nat.mod_eq_of_lt (by omega)]

theorem bigEndian_lowByte {n : Int} (h0 : 0 ≤ n) (h : n < 2 ^ 16) :
    (bigEndian (byteOf (lowByte (n >>> (8 : Nat)))) (byteOf (lowByte n)) : Int) = n := by
  have hshift : n >>> (8 : Nat) = n / 256 := Int.shiftRight_eq_div_pow n 8
  have hhigh : lowByte (n >>> (8 : Nat)) < 256 := by
    unfold lowByte
    omega
  have hlow : lowByte n < 256 := by
    unfold lowByte
    omega
  unfold bigEndian
  rw [byteOf_toNat hhigh, byteOf_toNat hlow, hshift]
  unfold lowByte
  omega

theorem toInt_twoc {n : Int} (hlow : -128 ≤ n) (hhigh : n ≤ 127) :
    (byteOf (twoc n 8)).toInt8.toInt = n := by
  have htwoc : twoc n 8 = (n % 256).toNat := by
    unfold twoc CInt.toSize
    have hpow : (2 <<< (8 - 1) : Int) = 256 := rfl
    rw [hpow]
    split <;> omega
  have hlt : twoc n 8 < 256 := by omega
  rw [Int8.toInt, UInt8.toBitVec_toInt8, BitVec.toInt_eq_toNat_bmod, UInt8.toNat_toBitVec,
    byteOf_toNat hlt, htwoc]
  rw [Int.bmod_def]
  split <;> omega

/-- The values of the second segment. -/
def manufacturerValues (uuid : List Nat) (majorNumber minorNumber rssiValue : Int) : List Nat :=
  [eirManufactureSpecificData.toNat, 0x0F, 0x00, 0x02, 0x15] ++ uuid ++
    [lowByte (majorNumber >>> (8 : Nat)), lowByte majorNumber] ++
    [lowByte (minorNumber >>> (8 : Nat)), lowByte minorNumber] ++ [twoc rssiValue 8]

theorem enableAdvertising_eq {uuid : Str} {data : List Nat} (hdata : uuidStrToData uuid = some data)
    (hall : data.length = strlen uuid / 2) (majorNumber minorNumber rssiValue : Int) :
    ∃ run, enableAdvertising uuid majorNumber minorNumber rssiValue = some run ∧
      run = (do
        let d ← (do (← zeroed.openSegment.putAll [eirFlags.toNat, 0x1A]).closeSegment)
        (← d.openSegment.putAll
          (manufacturerValues data majorNumber minorNumber rssiValue)).closeSegment) := by
  have htake : data.take (strlen uuid / 2) = data := by rw [← hall, List.take_length]
  unfold enableAdvertising
  rw [hdata]
  refine ⟨_, rfl, ?_⟩
  unfold manufacturerValues
  simp only [putAll_append, htake]
  ext1
  · simp only [value_bind]
  · simp only [value_bind, faults_bind, List.append_assoc]

theorem ofManufacturerData_body {uuid : List UInt8} (huuid : uuid.length = 16)
    {majorNumber minorNumber rssiValue : Int} (hmajor : 0 ≤ majorNumber ∧ majorNumber < 2 ^ 16)
    (hminor : 0 ≤ minorNumber ∧ minorNumber < 2 ^ 16) (hrssi : -128 ≤ rssiValue ∧ rssiValue ≤ 127) :
    IBeacon.ofManufacturerData
        ([0x0F, 0x00, 0x02, 0x15] ++ uuid ++ numberBytes majorNumber minorNumber rssiValue) =
      some ⟨uuid, majorNumber.toNat, minorNumber.toNat, rssiValue⟩ := by
  have hbig {n : Int} (h : 0 ≤ n ∧ n < 2 ^ 16) :
      bigEndian (byteOf (lowByte (n >>> (8 : Nat)))) (byteOf (lowByte n)) = n.toNat := by
    have := bigEndian_lowByte h.1 h.2
    omega
  have hdrop : (uuid ++ numberBytes majorNumber minorNumber rssiValue).drop 16 =
      numberBytes majorNumber minorNumber rssiValue := List.drop_left' huuid
  have htake : (uuid ++ numberBytes majorNumber minorNumber rssiValue).take 16 = uuid :=
    List.take_left' huuid
  unfold IBeacon.ofManufacturerData
  simp only [List.cons_append, List.nil_append, hdrop, htake]
  unfold numberBytes
  simp only [List.map_cons, List.map_nil, hbig hmajor, hbig hminor, toInt_twoc hrssi.1 hrssi.2]

theorem advertisement_round_trip {uuid : Str} (hlen : uuid.length = 32)
    (hhex : ∀ c ∈ uuid, c ∈ hexDigits) {majorNumber minorNumber rssiValue : Int}
    (hmajor : 0 ≤ majorNumber ∧ majorNumber < 2 ^ 16)
    (hminor : 0 ≤ minorNumber ∧ minorNumber < 2 ^ 16) (hrssi : -128 ≤ rssiValue ∧ rssiValue ≤ 127) :
    ∃ run manufacturer, enableAdvertising uuid majorNumber minorNumber rssiValue = some run ∧
      run.faults = [] ∧ run.value.length = 30 ∧
      (∀ records : List Record, records.flatMap Record.bytes = run.value.bytes ↔
        records = [flagsRecord, manufacturer]) ∧
      manufacturer.kind = eirManufactureSpecificData ∧
      manufacturer.body.take 4 = [0x0F, 0x00, 0x02, 0x15] ∧
      manufacturer.body.length = 4 + (16 + 2 + 2 + 1) ∧
      IBeacon.ofManufacturerData manufacturer.body =
        some ⟨denotedBytes uuid, majorNumber.toNat, minorNumber.toNat, rssiValue⟩ := by
  obtain ⟨data, hdata, hcount, hbytes⟩ := uuidStrToData_spec (n := 16) hlen hhex
  have huuid : (denotedBytes uuid).length = 16 := length_denotedBytes hlen
  have hstrlen : strlen uuid = 32 := by
    have hnul : NUL ∉ uuid := fun h => absurd (hhex NUL h) (by decide)
    rw [strlen, cstr_eq_self hnul, hlen]
  obtain ⟨run, hrun, rfl⟩ := enableAdvertising_eq hdata (by rw [hcount, hstrlen])
    majorNumber minorNumber rssiValue
  -- The two segments, one behind the other.
  have hvalues : (manufacturerValues data majorNumber minorNumber rssiValue).length = 26 := by
    simp [manufacturerValues, hcount]
  obtain ⟨hsafe, hlength, hflags⟩ := segment_spec zeroed [eirFlags.toNat, 0x1A] (by decide)
  generalize hfirst : (do (← zeroed.openSegment.putAll [eirFlags.toNat, 0x1A]).closeSegment) =
    first at *
  have hthree : first.value.length.toNat = 3 := hlength
  obtain ⟨hsafe', hlength', hmanufacturer⟩ :=
    segment_spec first.value (manufacturerValues data majorNumber minorNumber rssiValue) (by
      rw [hthree, hvalues]
      decide)
  rw [hthree, hvalues] at hlength'
  let body := [0x0F, 0x00, 0x02, 0x15] ++ denotedBytes uuid ++
    numberBytes majorNumber minorNumber rssiValue
  have hbody : body.length = 25 := by simp [body, huuid, numberBytes]
  let manufacturer : Record := ⟨eirManufactureSpecificData, body, by omega⟩
  have hrecord : manufacturer.bytes = UInt8.ofNat 26 ::
      (manufacturerValues data majorNumber minorNumber rssiValue).map byteOf := by
    have hcount : manufacturer.length = 26 := congrArg (· + 1) hbody
    unfold Record.bytes manufacturerValues
    rw [hcount]
    simp only [manufacturer, body, numberBytes, List.map_append, hbytes, List.append_assoc]
    rfl
  refine ⟨_, manufacturer, hrun, ?_, UInt8.toNat_inj.mp hlength', fun records => ?_, rfl, rfl, hbody,
    ofManufacturerData_body huuid hmajor hminor hrssi⟩
  · rw [faults_bind, hsafe]
    exact hsafe'
  · have hcover : [flagsRecord, manufacturer].flatMap Record.bytes =
        (do
          let d ← first
          (← d.openSegment.putAll
            (manufacturerValues data majorNumber minorNumber rssiValue)).closeSegment).value.bytes := by
      rw [value_bind]
      refine Eq.trans ?_ hmanufacturer.symm
      rw [hflags, hvalues, ← hrecord, List.flatMap_cons, List.flatMap_cons, List.flatMap_nil,
        List.append_nil]
      rfl
    rw [← hcover]
    constructor
    · apply Record.flatMap_bytes_inj
    · rintro rfl
      rfl

theorem mixed_case_hex : ∀ c ∈ "0123456789abcdefABCDEF0123456789".toList, c ∈ hexDigits := by
  have hall : "0123456789abcdefABCDEF0123456789".toList.all (fun c => decide (c ∈ hexDigits)) =
      true := by decide
  exact fun c hc => of_decide_eq_true (List.all_eq_true.mp hall c hc)

theorem advertisement_round_trip_mixed_case :
    ∃ run manufacturer,
      enableAdvertising "0123456789abcdefABCDEF0123456789".toList 258 3 (-60) = some run ∧
      run.faults = [] ∧ run.value.length = 30 ∧
      IBeacon.ofManufacturerData manufacturer =
        some ⟨denotedBytes "0123456789abcdefABCDEF0123456789".toList, 258, 3, -60⟩ := by
  obtain ⟨run, manufacturer, hrun, hsafe, hlength, -, -, -, -, hread⟩ :=
    @advertisement_round_trip "0123456789abcdefABCDEF0123456789".toList (by decide) mixed_case_hex
      258 3 (-60) (by omega) (by omega) (by omega)
  exact ⟨run, manufacturer.body, hrun, hsafe, hlength, hread⟩

end LBeacon
