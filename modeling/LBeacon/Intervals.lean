import LBeacon.Steps

/-!
# The list invariants of `LBeacon.h`

Distinct addresses in `BLE_object_list` and in `scanned_list`, and disjoint intervals in
`BR_object_list`.
-/

open CText

namespace LBeacon

/-! ## Addresses and times of slots -/

def Tracker.mac (s : Tracker) (a : Slot) : Str := cstr (s.dev a).scannedMacAddress

def Tracker.initial (s : Tracker) (a : Slot) : Int := (s.dev a).initialScannedTime.toInt

def Tracker.final (s : Tracker) (a : Slot) : Int := (s.dev a).finalScannedTime.toInt

def World.time (w : World) (k : Nat) : Int := (w.clock k).toInt

/-- `XX:XX:XX:XX:XX:XX` has seventeen characters. -/
def FullMac (address : Str) : Prop := address.length = 17 ∧ NUL ∉ address

def Op.MacsFull : Op → Prop
  | .push _ args => FullMac args.macAddress
  | _ => True

theorem FullMac.cstr_eq {address : Str} (h : FullMac address) : cstr address = address :=
  cstr_eq_self h.2

theorem FullMac.strncpy_eq {address : Str} (h : FullMac address) :
    strncpy address lengthOfMacAddress = address := by
  rw [strncpy, h.cstr_eq, List.take_of_length_le]
  rw [h.1]
  decide

theorem FullMac.fits {address : Str} (h : FullMac address) : FitsMac address := by
  rw [FitsMac, strlen, h.cstr_eq, h.1]
  decide

/-! ## The claim of the header -/

/-- No second lies in both intervals. -/
def IntervalsApart (s : Tracker) (a b : Slot) : Prop :=
  ∀ t, ¬ (s.initial a ≤ t ∧ t ≤ s.final a ∧ s.initial b ≤ t ∧ t ≤ s.final b)

structure ListInvariants (s : Tracker) : Prop where
  ble_distinct : s.bleObjectList.Pairwise fun a b => s.mac a ≠ s.mac b
  scanned_distinct : s.scannedList.Pairwise fun a b => s.mac a ≠ s.mac b
  br_apart : s.brObjectList.Pairwise fun a b => s.mac a = s.mac b → IntervalsApart s a b

/-- Updated more than 600 seconds after its first sighting. The lookup tests the age before
the update reads the clock again, so the clock can pass the limit between the two. -/
def Tracker.Late (s : Tracker) (a : Slot) : Prop :=
  s.final a - s.initial a > intervalForCleanupScannedListInSec

instance (s : Tracker) (a : Slot) : Decidable (s.Late a) := inferInstanceAs (Decidable (_ > _))

/-- When a BR_EDR sighting comes, a late node of its address was updated in an earlier second. -/
def LateNodesPast (w : World) (s : Tracker) : Op → Prop
  | .push .brEdr args => ∀ a ∈ s.brObjectList, hasMac args.macAddress (s.dev a) = true →
      s.Late a → s.final a < w.time s.readings
  | _ => True

/-! ## The invariant -/

/-- In the BR list an older node of the same address has left the scanned list and its
interval is over. -/
structure Timeline (w : World) (s : Tracker) : Prop where
  fits : ∀ a, s.Linked a → FitsMac (s.dev a).scannedMacAddress
  ble_distinct : s.bleObjectList.Pairwise fun a b => s.mac a ≠ s.mac b
  scanned_distinct : s.scannedList.Pairwise fun a b => s.mac a ≠ s.mac b
  newest_first : s.scannedList.Pairwise fun a b => s.initial b ≤ s.initial a
  spans : ∀ a, s.Linked a → s.initial a ≤ s.final a
  past : ∀ a, s.Linked a → ∀ j, s.readings ≤ j → s.final a ≤ w.time j
  evicted_past : ∀ a ∈ s.brObjectList, a ∉ s.scannedList → ¬ s.Late a →
    ∀ j, s.readings ≤ j → s.final a < w.time j
  ordered : s.brObjectList.Pairwise fun a b =>
    s.mac a = s.mac b → a ∉ s.scannedList ∧ s.final a < s.initial b

theorem timeline_init (w : World) : Timeline w .init := by
  constructor <;> simp [Tracker.init, Tracker.Linked]

theorem Timeline.listInvariants {w : World} {s : Tracker} (h : Timeline w s) :
    ListInvariants s where
  ble_distinct := h.ble_distinct
  scanned_distinct := h.scanned_distinct
  br_apart := by
    refine h.ordered.imp ?_
    intro a b hord hmac t
    obtain ⟨-, hlt⟩ := hord hmac
    omega

theorem Timeline.hasMac_iff {w : World} {s : Tracker} (h : Timeline w s) {address : Str}
    (hfull : FullMac address) {a : Slot} (ha : s.Linked a) :
    hasMac address (s.dev a) = true ↔ s.mac a = address := by
  rw [LBeacon.hasMac_iff (h.fits a ha), hfull.cstr_eq]
  exact eq_comm

theorem Timeline.congr {w : World} {s s' : Tracker} (h : Timeline w s)
    (hsc : s'.scannedList = s.scannedList) (hbr : s'.brObjectList = s.brObjectList)
    (hble : s'.bleObjectList = s.bleObjectList) (hread : s.readings ≤ s'.readings)
    (hdev : ∀ a, s.Linked a → (s'.dev a).scannedMacAddress = (s.dev a).scannedMacAddress ∧
      (s'.dev a).initialScannedTime = (s.dev a).initialScannedTime ∧
      (s'.dev a).finalScannedTime = (s.dev a).finalScannedTime) : Timeline w s' := by
  have hmac : ∀ a, s.Linked a → s'.mac a = s.mac a := fun a ha => by
    rw [Tracker.mac, (hdev a ha).1]; rfl
  have hinit : ∀ a, s.Linked a → s'.initial a = s.initial a := fun a ha => by
    rw [Tracker.initial, (hdev a ha).2.1]; rfl
  have hfin : ∀ a, s.Linked a → s'.final a = s.final a := fun a ha => by
    rw [Tracker.final, (hdev a ha).2.2]; rfl
  have hlinked : ∀ a, s'.Linked a → s.Linked a := by
    intro a
    rw [Tracker.Linked, hsc, hbr, hble]
    exact id
  constructor
  · intro a ha
    rw [(hdev a (hlinked a ha)).1]
    exact h.fits a (hlinked a ha)
  · rw [hble]
    refine h.ble_distinct.imp_of_mem ?_
    intro a b ha hb hne
    rw [hmac a (Or.inr (Or.inr ha)), hmac b (Or.inr (Or.inr hb))]
    exact hne
  · rw [hsc]
    refine h.scanned_distinct.imp_of_mem ?_
    intro a b ha hb hne
    rw [hmac a (Or.inl ha), hmac b (Or.inl hb)]
    exact hne
  · rw [hsc]
    refine h.newest_first.imp_of_mem ?_
    intro a b ha hb hle
    rw [hinit a (Or.inl ha), hinit b (Or.inl hb)]
    exact hle
  · intro a ha
    rw [hinit a (hlinked a ha), hfin a (hlinked a ha)]
    exact h.spans a (hlinked a ha)
  · intro a ha j hj
    rw [hfin a (hlinked a ha)]
    exact h.past a (hlinked a ha) j (hread.trans hj)
  · rw [hbr, hsc]
    intro a ha hn hlate j hj
    have hl : s.Linked a := Or.inr (Or.inl ha)
    rw [Tracker.Late, hinit a hl, hfin a hl] at hlate
    rw [hfin a hl]
    exact h.evicted_past a ha hn hlate j (hread.trans hj)
  · rw [hbr, hsc]
    refine h.ordered.imp_of_mem ?_
    intro a b ha hb hord
    have hla : s.Linked a := Or.inr (Or.inl ha)
    have hlb : s.Linked b := Or.inr (Or.inl hb)
    rw [hmac a hla, hmac b hlb, hfin a hla, hinit b hlb]
    exact hord

theorem Timeline.shrinks {w : World} {s s' : Tracker} {freed : List Slot} (h : Timeline w s)
    (hshr : Shrinks s s' freed) (hread : s.readings ≤ s'.readings)
    (hgone : ∀ a ∈ s'.brObjectList, a ∈ s.scannedList → a ∉ s'.scannedList → ¬ s.Late a →
      ∀ j, s'.readings ≤ j → s.final a < w.time j) : Timeline w s' := by
  have hmac : s'.mac = s.mac := by unfold Tracker.mac; rw [hshr.dev]
  have hinit : s'.initial = s.initial := by unfold Tracker.initial; rw [hshr.dev]
  have hfin : s'.final = s.final := by unfold Tracker.final; rw [hshr.dev]
  constructor
  · intro a ha
    rw [hshr.dev]
    exact h.fits a (hshr.linked_of_linked ha)
  · rw [hmac]
    exact h.ble_distinct.sublist hshr.ble
  · rw [hmac]
    exact h.scanned_distinct.sublist hshr.scanned
  · rw [hinit]
    exact h.newest_first.sublist hshr.scanned
  · intro a ha
    rw [hinit, hfin]
    exact h.spans a (hshr.linked_of_linked ha)
  · intro a ha j hj
    rw [hfin]
    exact h.past a (hshr.linked_of_linked ha) j (hread.trans hj)
  · intro a ha hn hlate j hj
    rw [Tracker.Late, hfin, hinit] at hlate
    rw [hfin]
    by_cases hsc : a ∈ s.scannedList
    · exact hgone a ha hsc hn hlate j hj
    · exact h.evicted_past a (hshr.br.subset ha) hsc hlate j (hread.trans hj)
  · rw [hmac, hinit, hfin]
    refine (h.ordered.sublist hshr.br).imp ?_
    intro a b hord heq
    obtain ⟨hn, hlt⟩ := hord heq
    exact ⟨fun hc => hn (hshr.scanned.subset hc), hlt⟩

/-! ## Sightings -/

theorem World.time_le {w : World} (hclock : w.Nondecreasing) {i j : Nat} (h : i ≤ j) :
    w.time i ≤ w.time j := hclock i j h

/-! ### A node that is found -/

section

variable (s : Tracker) (a : Slot) (now : Int32) (args : PushArgs)

theorem updated_mac : (s.updated a now args).mac = s.mac := by
  funext x
  simp only [Tracker.mac, Tracker.updated, Tracker.tick, Tracker.setDev]
  split
  next hx => rw [hx, updateDevice]
  next => rfl

theorem updated_initial : (s.updated a now args).initial = s.initial := by
  funext x
  simp only [Tracker.initial, Tracker.updated, Tracker.tick, Tracker.setDev]
  split
  next hx => rw [hx, updateDevice]
  next => rfl

theorem updated_final_self : (s.updated a now args).final a = now.toInt := by
  simp only [Tracker.final, Tracker.updated, Tracker.tick, Tracker.setDev, updateDevice, if_true]

theorem updated_final_other {x : Slot} (hx : x ≠ a) :
    (s.updated a now args).final x = s.final x := by
  simp only [Tracker.final, Tracker.updated, Tracker.tick, Tracker.setDev, if_neg hx]

end

theorem Timeline.updated {w : World} {s : Tracker} (h : Timeline w s) (hs : Placed s)
    (hclock : w.Nondecreasing) {a : Slot} (ha : a ∈ s.scannedList ∨ a ∈ s.bleObjectList)
    (args : PushArgs) : Timeline w (s.updated a (w.clock s.readings) args) := by
  have hmac := updated_mac s a (w.clock s.readings) args
  have hinit := updated_initial s a (w.clock s.readings) args
  have hself : (s.updated a (w.clock s.readings) args).final a = w.time s.readings :=
    updated_final_self s a _ args
  have hother : ∀ x, x ≠ a → (s.updated a (w.clock s.readings) args).final x = s.final x :=
    fun x => updated_final_other s a _ args
  have hlinked : s.Linked a := ha.elim Or.inl fun hb => Or.inr (Or.inr hb)
  have hevicted : ∀ x ∈ s.brObjectList, x ∉ s.scannedList → x ≠ a := by
    rintro x hx hn rfl
    rcases ha with ha | ha
    · exact hn ha
    · exact hs.ble_br x ha hx
  constructor
  · intro x hx
    have hfit := h.fits x hx
    have hx' := congrFun hmac x
    rw [Tracker.mac, Tracker.mac] at hx'
    rw [FitsMac, strlen] at hfit ⊢
    rw [hx']
    exact hfit
  · rw [hmac]
    exact h.ble_distinct
  · rw [hmac]
    exact h.scanned_distinct
  · rw [hinit]
    exact h.newest_first
  · intro x hx
    rw [hinit]
    by_cases hxa : x = a
    · subst hxa
      rw [hself]
      exact Int.le_trans (h.spans x hx) (h.past x hx _ (Nat.le_refl _))
    · rw [hother x hxa]
      exact h.spans x hx
  · intro x hx j hj
    have hj' : s.readings ≤ j := Nat.le_of_succ_le hj
    by_cases hxa : x = a
    · subst hxa
      rw [hself]
      exact World.time_le hclock hj'
    · rw [hother x hxa]
      exact h.past x hx j hj'
  · intro x hx hn hlate j hj
    have hxa := hevicted x hx hn
    rw [Tracker.Late, hother x hxa, hinit] at hlate
    rw [hother x hxa]
    exact h.evicted_past x hx hn hlate j (Nat.le_of_succ_le hj)
  · rw [hmac, hinit]
    refine h.ordered.imp_of_mem ?_
    intro x y hx _ hord heq
    obtain ⟨hn, hlt⟩ := hord heq
    rw [hother x (hevicted x hx hn)]
    exact ⟨hn, hlt⟩

/-- A slot that is written and stamped but not yet linked. -/
structure Stamped (w : World) (s : Tracker) (a : Slot) : Prop where
  unlinked : ¬ s.Linked a
  fits : FitsMac (s.dev a).scannedMacAddress
  spans : s.initial a ≤ s.final a
  past : ∀ j, s.readings ≤ j → s.final a ≤ w.time j

theorem Stamped.joined {w : World} {s : Tracker} {a b : Slot} (ha : Stamped w s a)
    (h : Timeline w s) (hb : s.Linked b ∨ b = a) :
    FitsMac (s.dev b).scannedMacAddress ∧ s.initial b ≤ s.final b ∧
      ∀ j, s.readings ≤ j → s.final b ≤ w.time j := by
  rcases hb with hb | rfl
  · exact ⟨h.fits b hb, h.spans b hb, h.past b hb⟩
  · exact ⟨ha.fits, ha.spans, ha.past⟩

theorem Timeline.insert_ble {w : World} {s : Tracker} (h : Timeline w s) {a : Slot}
    (ha : Stamped w s a) (hnew : ∀ b ∈ s.bleObjectList, s.mac b ≠ s.mac a) :
    Timeline w (s.insert .ble a) := by
  have hlinked : ∀ b, (s.insert .ble a).Linked b → s.Linked b ∨ b = a := by
    simp only [Tracker.insert, Tracker.Linked, List.mem_append, List.mem_singleton]
    tauto
  constructor
  · exact fun b hb => (ha.joined h (hlinked b hb)).1
  · refine List.pairwise_append.mpr ⟨h.ble_distinct, List.pairwise_singleton _ a, ?_⟩
    intro b hb c hc
    rw [List.mem_singleton.mp hc]
    exact hnew b hb
  · exact h.scanned_distinct
  · exact h.newest_first
  · exact fun b hb => (ha.joined h (hlinked b hb)).2.1
  · exact fun b hb => (ha.joined h (hlinked b hb)).2.2
  · exact h.evicted_past
  · exact h.ordered

/-- The new node starts after every older node of its address has ended. -/
theorem Timeline.insert_br {w : World} {s : Tracker} (h : Timeline w s) {a : Slot}
    (ha : Stamped w s a) (hnew : ∀ b ∈ s.scannedList, s.mac b ≠ s.mac a)
    (hnewest : ∀ b ∈ s.scannedList, s.initial b ≤ s.initial a)
    (hover : ∀ b ∈ s.brObjectList, s.mac b = s.mac a → s.final b < s.initial a) :
    Timeline w (s.insert .brEdr a) := by
  have hlinked : ∀ b, (s.insert .brEdr a).Linked b → s.Linked b ∨ b = a := by
    simp only [Tracker.insert, Tracker.Linked, List.mem_append, List.mem_cons, List.not_mem_nil,
      or_false]
    tauto
  have hbr : a ∉ s.brObjectList := fun hc => ha.unlinked (Or.inr (Or.inl hc))
  constructor
  · exact fun b hb => (ha.joined h (hlinked b hb)).1
  · exact h.ble_distinct
  · refine List.pairwise_cons.mpr ⟨?_, h.scanned_distinct⟩
    intro b hb heq
    exact hnew b hb heq.symm
  · exact List.pairwise_cons.mpr ⟨hnewest, h.newest_first⟩
  · exact fun b hb => (ha.joined h (hlinked b hb)).2.1
  · exact fun b hb => (ha.joined h (hlinked b hb)).2.2
  · intro b hb hn
    rcases List.mem_append.mp hb with hb | hb
    · exact h.evicted_past b hb fun hc => hn (List.mem_cons_of_mem a hc)
    · rw [List.mem_singleton.mp hb] at hn
      exact absurd List.mem_cons_self hn
  · refine List.pairwise_append.mpr ⟨?_, List.pairwise_singleton _ a, ?_⟩
    · refine h.ordered.imp_of_mem ?_
      intro b c hb _ hord heq
      obtain ⟨hn, hlt⟩ := hord heq
      refine ⟨fun hc => ?_, hlt⟩
      rcases List.mem_cons.mp hc with rfl | hc
      · exact hbr hb
      · exact hn hc
    · intro b hb c hc heq
      rw [List.mem_singleton.mp hc] at heq ⊢
      refine ⟨fun hmem => ?_, hover b hb heq⟩
      rcases List.mem_cons.mp hmem with rfl | hmem
      · exact hbr hb
      · exact hnew b hmem heq

/-- The slot of a new sighting, before it is linked. -/
def Tracker.stamped (s : Tracker) (pool : Pool) (a : Slot) (d : ScannedDevice) : Tracker :=
  ({ s with pool }.setDev a d).tick

theorem newDevice_mac {now : Int32} {args : PushArgs} (hfull : FullMac args.macAddress) :
    (newDevice now args).scannedMacAddress = args.macAddress := hfull.strncpy_eq

theorem stamped_spec {w : World} {s : Tracker} (hclock : w.Nondecreasing) {args : PushArgs}
    (hfull : FullMac args.macAddress) {q : Pool} {a : Slot} (ha : ¬ s.Linked a) :
    Stamped w (s.stamped q a (newDevice (w.clock s.readings) args)) a where
  unlinked := ha
  fits := by
    simp only [Tracker.stamped, Tracker.tick, Tracker.setDev, if_true, newDevice_mac hfull]
    exact hfull.fits
  spans := by
    simp only [Tracker.initial, Tracker.final, Tracker.stamped, Tracker.tick, Tracker.setDev,
      if_true, newDevice]
    exact Int.le_refl _
  past j hj := by
    simp only [Tracker.final, Tracker.stamped, Tracker.tick, Tracker.setDev, if_true, newDevice]
    exact hclock _ _ (Nat.le_of_succ_le hj)

theorem stamped_dev {s : Tracker} {q : Pool} {a b : Slot} {d : ScannedDevice} (hb : b ≠ a) :
    (s.stamped q a d).dev b = s.dev b := if_neg hb

theorem Timeline.stamped {w : World} {s : Tracker} (h : Timeline w s) {q : Pool} {a : Slot}
    (ha : ¬ s.Linked a) (d : ScannedDevice) : Timeline w (s.stamped q a d) := by
  refine h.congr rfl rfl rfl (Nat.le_succ _) fun b hb => ?_
  rw [stamped_dev (by rintro rfl; exact ha hb)]
  exact ⟨rfl, rfl, rfl⟩

theorem stamped_mac_of_linked {s : Tracker} {q : Pool} {a b : Slot} {d : ScannedDevice}
    (ha : ¬ s.Linked a) (hb : s.Linked b) : (s.stamped q a d).mac b = s.mac b := by
  unfold Tracker.mac
  rw [stamped_dev (by rintro rfl; exact ha hb)]

theorem stamped_mac_self {s : Tracker} {q : Pool} {a : Slot} {now : Int32} {args : PushArgs}
    (hfull : FullMac args.macAddress) :
    (s.stamped q a (newDevice now args)).mac a = args.macAddress := by
  simp only [Tracker.mac, Tracker.stamped, Tracker.tick, Tracker.setDev, if_true,
    newDevice_mac hfull, hfull.cstr_eq]

theorem Timeline.pushNew_ble {w : World} {s : Tracker} (h : Timeline w s) (hs : Placed s)
    (hclock : w.Nondecreasing) {args : PushArgs} (hfull : FullMac args.macAddress)
    (hnew : ∀ b ∈ s.bleObjectList, s.mac b ≠ args.macAddress) :
    Timeline w (pushFound w .ble args (none, s)) := by
  rcases pushNew_cases w .ble args s with ⟨q, -, -, heq⟩ | ⟨a, q, ha, -, -, heq⟩
  · rw [heq]
    exact h.congr rfl rfl rfl (Nat.le_refl _) fun _ _ => ⟨rfl, rfl, rfl⟩
  · have hfresh : ¬ s.Linked a := fun hc => ha (hs.allocated a hc)
    rw [heq]
    refine (h.stamped hfresh _).insert_ble (stamped_spec hclock hfull hfresh) ?_
    intro b hb
    rw [stamped_mac_self hfull, stamped_mac_of_linked hfresh (Or.inr (Or.inr hb))]
    exact hnew b hb

theorem Timeline.pushNew_br {w : World} {s : Tracker} (h : Timeline w s) (hs : Placed s)
    (hclock : w.Nondecreasing) {args : PushArgs} (hfull : FullMac args.macAddress)
    (hnew : ∀ b ∈ s.scannedList, s.mac b ≠ args.macAddress)
    (hover : ∀ b ∈ s.brObjectList, s.mac b = args.macAddress → s.final b < w.time s.readings) :
    Timeline w (pushFound w .brEdr args (none, s)) := by
  rcases pushNew_cases w .brEdr args s with ⟨q, -, -, heq⟩ | ⟨a, q, ha, -, -, heq⟩
  · rw [heq]
    exact h.congr rfl rfl rfl (Nat.le_refl _) fun _ _ => ⟨rfl, rfl, rfl⟩
  · have hfresh : ¬ s.Linked a := fun hc => ha (hs.allocated a hc)
    have hinit : (s.stamped q a (newDevice (w.clock s.readings) args)).initial a =
        w.time s.readings := by
      simp only [Tracker.initial, Tracker.stamped, Tracker.tick, Tracker.setDev, if_true, newDevice,
        World.time]
    have hdev : ∀ b, s.Linked b →
        (s.stamped q a (newDevice (w.clock s.readings) args)).dev b = s.dev b := fun b hb =>
      stamped_dev (by rintro rfl; exact hfresh hb)
    rw [heq]
    refine (h.stamped hfresh _).insert_br (stamped_spec hclock hfull hfresh) ?_ ?_ ?_
    · intro b hb
      rw [stamped_mac_self hfull, stamped_mac_of_linked hfresh (Or.inl hb)]
      exact hnew b hb
    · intro b hb
      rw [hinit, Tracker.initial, hdev b (Or.inl hb)]
      exact Int.le_trans (h.spans b (Or.inl hb)) (h.past b (Or.inl hb) _ (Nat.le_refl _))
    · intro b hb
      rw [stamped_mac_self hfull, stamped_mac_of_linked hfresh (Or.inr (Or.inl hb)), hinit,
        Tracker.final, hdev b (Or.inr (Or.inl hb))]
      exact hover b hb

/-! ## Evictions -/

theorem timedOut_behind {s : Tracker}
    (hsorted : s.scannedList.Pairwise fun a b => s.initial b ≤ s.initial a)
    {kept gone : List Slot} (hsplit : s.scannedList = kept ++ gone) {now : Int32}
    (hgone : ∀ b rest, gone = b :: rest → timedOut now (s.dev b).initialScannedTime) :
    ∀ a ∈ gone, timedOut now (s.dev a).initialScannedTime := by
  intro a ha
  obtain ⟨b, rest, rfl⟩ := List.exists_cons_of_ne_nil (List.ne_nil_of_mem ha)
  have hold := hgone b rest rfl
  rw [hsplit] at hsorted
  rcases List.mem_cons.mp ha with rfl | hrest
  · exact hold
  · have hle := (List.pairwise_cons.mp (List.pairwise_append.mp hsorted).2.1).1 a hrest
    unfold timedOut at hold ⊢
    unfold Tracker.initial at hle
    omega

theorem Timeline.evicted {w : World} {s : Tracker} (h : Timeline w s) (hs : Placed s)
    (hclock : w.Nondecreasing) {kept gone : List Slot} (hsplit : s.scannedList = kept ++ gone)
    (hgone : ∀ b rest, gone = b :: rest →
      timedOut (w.clock (s.readings + kept.length)) (s.dev b).initialScannedTime) :
    Timeline w (s.evicted gone (kept.length + min gone.length 1)) := by
  refine h.shrinks (shrinks_evicted hs _ hsplit) (Nat.le_add_right _ _) ?_
  intro a _ hsc hn hlate j hj
  rw [evicted_scannedList hs _ hsplit] at hn
  rw [hsplit, List.mem_append] at hsc
  have hmem : a ∈ gone := hsc.resolve_left hn
  have hold := timedOut_behind h.newest_first hsplit hgone a hmem
  have hpos := List.length_pos_of_mem hmem
  have hlater : w.time (s.readings + kept.length) ≤ w.time j := by
    apply World.time_le hclock
    simp only [Tracker.evicted] at hj
    omega
  simp only [timedOut, Tracker.Late, Tracker.initial, World.time] at *
  omega

/-! ## Steps and runs -/

theorem Timeline.newBle {w : World} {s : Tracker} (h : Timeline w s) (hs : Placed s)
    (hclock : w.Nondecreasing) {args : PushArgs} (hfull : FullMac args.macAddress)
    (hnone : ∀ a ∈ s.bleObjectList, hasMac args.macAddress (s.dev a) = false) :
    Timeline w (pushFound w .ble args (none, s)) := by
  refine h.pushNew_ble hs hclock hfull fun b hb hmac => ?_
  rw [← h.hasMac_iff hfull (Or.inr (Or.inr hb)), hnone b hb] at hmac
  exact Bool.false_ne_true hmac

theorem Timeline.newBr {w : World} {s : Tracker} (h : Timeline w s) (hs : Placed s)
    (hclock : w.Nondecreasing) {args : PushArgs} (hfull : FullMac args.macAddress)
    (hlate : LateNodesPast w s (.push .brEdr args)) {kept gone : List Slot}
    (hsplit : s.scannedList = kept ++ gone)
    (hkept : ∀ b ∈ kept, hasMac args.macAddress (s.dev b) = false)
    (hgone : ∀ b rest, gone = b :: rest →
      timedOut (w.clock (s.readings + kept.length)) (s.dev b).initialScannedTime) :
    Timeline w
      (pushFound w .brEdr args (none, s.evicted gone (kept.length + min gone.length 1))) := by
  have hevict := h.evicted hs hclock hsplit hgone
  have hleft := evicted_scannedList hs (kept.length + min gone.length 1) hsplit
  have hkeptmac : ∀ b ∈ kept, s.mac b ≠ args.macAddress := by
    intro b hb hmac
    have hlinked : s.Linked b := Or.inl (by rw [hsplit]; exact List.mem_append_left gone hb)
    rw [← h.hasMac_iff hfull hlinked, hkept b hb] at hmac
    exact Bool.false_ne_true hmac
  refine hevict.pushNew_br (hs.shrinks (shrinks_evicted hs _ hsplit)) hclock hfull ?_ ?_
  · rw [hleft]
    exact hkeptmac
  · intro b hb hmac
    have hle : w.time s.readings ≤ w.time (s.readings + (kept.length + min gone.length 1)) :=
      World.time_le hclock (Nat.le_add_right _ _)
    by_cases hl : s.Late b
    · exact Int.lt_of_lt_of_le
        (hlate b hb ((h.hasMac_iff hfull (Or.inr (Or.inl hb))).mpr hmac) hl) hle
    · refine hevict.evicted_past b hb ?_ hl _ (Nat.le_refl _)
      rw [hleft]
      exact fun hc => hkeptmac b hc hmac

theorem Timeline.step {cfg : Config} {w : World} {s s' : Tracker} (h : Timeline w s)
    (hs : Placed s) (hclock : w.Nondecreasing) {op : Op} (hfull : op.MacsFull)
    (hlate : LateNodesPast w s op) (hstep : StepTo cfg w s op s') : Timeline w s' := by
  cases hstep with
  | looked _ n => exact h.congr rfl rfl rfl (Nat.le_add_right _ n) fun _ _ => ⟨rfl, rfl, rfl⟩
  | sighted deviceType args n a ha =>
    have hread : Timeline w { s with readings := s.readings + n } :=
      h.congr rfl rfl rfl (Nat.le_add_right _ n) fun _ _ => ⟨rfl, rfl, rfl⟩
    exact hread.updated (hs.congr rfl rfl rfl rfl) hclock (ha.imp And.right And.right) args
  | newBle args hnone => exact h.newBle hs hclock hfull hnone
  | newBr args kept gone hsplit hkept hgone =>
    exact h.newBr hs hclock hfull hlate hsplit hkept hgone
  | responded macAddress payload a =>
    refine h.congr rfl rfl rfl (Nat.le_refl _) fun b _ => ?_
    simp only [Tracker.setDev]
    split
    next hb =>
      rw [hb]
      exact ⟨rfl, rfl, rfl⟩
    next => exact ⟨rfl, rfl, rfl⟩
  | evicted address kept gone hsplit hgone => exact h.evicted hs hclock hsplit hgone
  | polled =>
    exact h.shrinks (shrinks_polled hs cfg w) (Nat.le_add_right _ 2)
      fun a _ hsc hn => absurd hsc hn
  | cleaned list =>
    refine h.shrinks (shrinks_list hs list) (Nat.le_refl _) fun a hbr hsc hn => ?_
    -- What cleanup takes out of the scanned list, it takes out of the BR list.
    have hkept := (hs.br_nodup.mem_sdiff_iff.mp hbr).2
    exact absurd (hs.scanned_nodup.mem_sdiff_iff.mpr ⟨hsc, hkept⟩) hn

theorem timeline_run {cfg : Config} {w : World} {ops : List Op} (hclock : w.Nondecreasing)
    (hfull : ∀ op ∈ ops, op.MacsFull)
    (hlate : ∀ pre op, pre ++ [op] <+: ops → LateNodesPast w (run cfg w pre) op) :
    Timeline w (run cfg w ops) := by
  apply run_invariant (timeline_init w)
  intro pre op hpre hs h
  exact h.step hs hclock (hfull op (Machine.mem_of_step hpre)) (hlate pre op hpre)
    (step_spec hs cfg w op)

/-- In a run where no sighting meets a late node in the very second of its last update, the
header's invariants hold in every state. -/
theorem list_invariants_of_run (cfg : Config) (w : World) (ops : List Op)
    (hclock : w.Nondecreasing) (hfull : ∀ op ∈ ops, op.MacsFull)
    (hlate : ∀ pre op, pre ++ [op] <+: ops → LateNodesPast w (run cfg w pre) op) :
    ∀ pre, pre <+: ops → ListInvariants (run cfg w pre) := by
  intro pre hpre
  refine (timeline_run hclock ?_ ?_).listInvariants
  · exact fun op hop => hfull op (hpre.subset hop)
  · exact fun pre' op hpre' => hlate pre' op (hpre'.trans hpre)

/-! ## A clock that ticks between the lookup and the update -/

def tickConfig : Config := ⟨[], [], -80, [], []⟩

/-- The lookup reads 600, the update 601, the next lookup and its new node 601. -/
def tickWorld : World := ⟨fun k => if k = 0 then 0 else if k = 1 then 600 else 601, some, some⟩

def tickSighting : Op :=
  .push .brEdr ⟨"AA:BB:CC:DD:EE:FF".toList, -60, 0, 0, false, false, []⟩

theorem tickWorld_nondecreasing : tickWorld.Nondecreasing := by
  intro i j hij
  simp only [tickWorld]
  split
  · split <;> [decide; (split <;> decide)]
  · split
    · rw [if_neg (by omega)]
      split <;> decide
    · apply Int.le_of_eq
      rw [if_neg (by omega), if_neg (by omega)]

/-- Three sightings of one device give the intervals 0 to 601 and 601 to 601. -/
theorem intervals_touch : tickWorld.Nondecreasing ∧ (∀ op ∈ [tickSighting, tickSighting, tickSighting],
    op.MacsFull) ∧ ¬ ListInvariants
      (run tickConfig tickWorld [tickSighting, tickSighting, tickSighting]) := by
  refine ⟨tickWorld_nondecreasing, ?_, ?_⟩
  · intro op hop
    have : op = tickSighting := by simpa using hop
    rw [this]
    exact ⟨by decide, by decide⟩
  · intro h
    have hbr : (run tickConfig tickWorld [tickSighting, tickSighting, tickSighting]).brObjectList =
        [0, 1] := by decide +kernel
    have happart := h.br_apart
    rw [hbr] at happart
    refine (List.pairwise_pair.mp happart) (by decide +kernel) 601 ?_
    decide +kernel

theorem list_invariants_of_two_sightings :
    ListInvariants (run tickConfig tickWorld [tickSighting, tickSighting]) := by
  refine list_invariants_of_run tickConfig tickWorld [tickSighting, tickSighting]
    tickWorld_nondecreasing ?_ ?_ _ List.prefix_rfl
  · intro op hop
    have : op = tickSighting := by simpa using hop
    rw [this]
    exact ⟨by decide, by decide⟩
  · intro pre op hpre
    rcases pre with _ | ⟨op', _ | ⟨op'', rest⟩⟩
    · obtain ⟨rfl, -⟩ := List.cons_prefix_cons.mp hpre
      intro a ha
      exact absurd ha List.not_mem_nil
    · obtain ⟨rfl, hrest⟩ := List.cons_prefix_cons.mp hpre
      obtain ⟨rfl, -⟩ := List.cons_prefix_cons.mp hrest
      intro a ha _ hlate
      have hbr : (run tickConfig tickWorld [tickSighting]).brObjectList = [0] := by decide +kernel
      rw [hbr, List.mem_singleton] at ha
      rw [ha] at hlate
      exact absurd hlate (by decide +kernel)
    · have hlen := hpre.length_le
      simp at hlen

end LBeacon
