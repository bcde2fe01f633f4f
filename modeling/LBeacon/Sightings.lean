import LBeacon.Intervals
import LBeacon.Ownership

/-!
# What becomes of a sighting

After `send_to_push_dongle` a node of the address awaits the next upload, and shows the time and
the strength of the sighting. A BR_EDR device that was uploaded is only kept up to date in the
scanned list, until it times out there.
-/

open CText

namespace LBeacon

/-! ## Nodes that show a sighting -/

/-- The node has the address, the time of the call from `s` to `s'`, and at least the rssi. -/
structure Shows (w : World) (s s' : Tracker) (args : PushArgs) (a : Slot) : Prop where
  mac : s'.mac a = args.macAddress
  time : ∃ k, s.readings ≤ k ∧ k < s'.readings ∧ s'.final a = w.time k
  rssi : args.rssi.toInt ≤ (s'.dev a).rssi.toInt

def TrackedList.searched : TrackedList → SearchList
  | .br => .scanned
  | .ble => .ble

/-- If the call asks for a slot, it gets one. -/
def Served (w : World) (s : Tracker) (list : TrackedList) (args : PushArgs) : Prop :=
  let found := checkIsInList w s args.macAddress list.searched
  found.1 = none → (mpAlloc w.offer found.2.pool).1 ≠ none

section Sightings

variable {w : World} {s s' s₁ : Tracker} {args : PushArgs}

theorem cstr_eq_of_hasMac {address : Str} {d : ScannedDevice} (hfull : FullMac address)
    (h : hasMac address d = true) : cstr d.scannedMacAddress = address := by
  simp only [hasMac, Bool.and_eq_true, decide_eq_true_eq, compareMacAddress_eq_zero] at h
  obtain ⟨-, heq, -⟩ := h
  have hwhole : (address ++ [NUL]).take lengthOfMacAddress = address ++ [NUL] := by
    apply List.take_of_length_le
    simp [hfull.1, lengthOfMacAddress]
  rw [strncmp_eq_zero, hfull.cstr_eq, hwhole] at heq
  rcases Nat.lt_or_ge (cstr d.scannedMacAddress).length lengthOfMacAddress with hlt | hge
  · rw [List.take_of_length_le (by simp; omega)] at heq
    exact (List.append_left_inj _).mp heq.symm
  · rw [List.take_append_of_le_length hge] at heq
    have hnul : NUL ∈ (cstr d.scannedMacAddress).take lengthOfMacAddress := heq ▸ by simp
    exact absurd (List.mem_of_mem_take hnul) (nul_notMem_cstr _)

theorem updated_shows (hfull : FullMac args.macAddress) (hread : s.readings ≤ s₁.readings)
    {a : Slot} (hmac : hasMac args.macAddress (s₁.dev a) = true) :
    Shows w s (s₁.updated a (w.clock s₁.readings) args) args a := by
  constructor
  · unfold Tracker.mac
    simp [Tracker.updated, Tracker.tick, Tracker.setDev, updateDevice,
      cstr_eq_of_hasMac hfull hmac]
  · refine ⟨s₁.readings, hread, Nat.lt_succ_self _, ?_⟩
    simp [Tracker.final, Tracker.updated, Tracker.tick, Tracker.setDev, updateDevice, World.time]
  · simp only [Tracker.updated, Tracker.tick, Tracker.setDev, updateDevice, if_true]
    split
    next => exact Int.le_refl _
    next hle => exact Int32.le_iff_toInt_le.mp (Int32.not_lt.mp hle)

theorem added_readings (s : Tracker) (q : Pool) (deviceType : DeviceType) (a : Slot)
    (d : ScannedDevice) : (s.added q deviceType a d).readings = s.readings + 1 := by
  cases deviceType <;> rfl

theorem added_shows (hfull : FullMac args.macAddress) (hread : s.readings ≤ s₁.readings) {q : Pool}
    (deviceType : DeviceType) (a : Slot) :
    Shows w s (s₁.added q deviceType a (newDevice (w.clock s₁.readings) args)) args a := by
  constructor
  · unfold Tracker.mac
    rw [added_dev]
    simp [newDevice_mac hfull, hfull.cstr_eq]
  · refine ⟨s₁.readings, hread, ?_, ?_⟩
    · rw [added_readings]
      exact Nat.lt_succ_self _
    · unfold Tracker.final
      rw [added_dev]
      simp [newDevice, World.time]
  · rw [added_dev]
    simp [newDevice]

theorem pushNew_shows (hfull : FullMac args.macAddress) (hread : s.readings ≤ s₁.readings)
    (list : TrackedList) (hserved : (mpAlloc w.offer s₁.pool).1 ≠ none) :
    let s' := pushFound w list.deviceType args (none, s₁)
    ∃ a ∈ s'.tracked list, Shows w s s' args a ∧ (list = .br → a ∈ s'.scannedList) := by
  intro s'
  rcases mpAlloc_cases w.offer s₁.pool with ⟨q, hq, -, -⟩ | ⟨a, q, hq, -, -, -⟩
  · rw [hq] at hserved
    exact absurd rfl hserved
  · have heq : s' = s₁.added q list.deviceType a (newDevice (w.clock s₁.readings) args) := by
      unfold s' pushFound
      dsimp only
      rw [hq]
      rfl
    rw [heq]
    refine ⟨a, ?_, added_shows hfull hread _ a, ?_⟩
    · cases list <;> exact List.mem_append_right _ List.mem_cons_self
    · rintro rfl
      exact List.mem_cons_self

theorem push_shows (hfull : FullMac args.macAddress) (list : TrackedList)
    (hserved : Served w s list args) :
    let s' := sendToPushDongle w s list.deviceType args
    ∃ a, Shows w s s' args a ∧ (list = .br → a ∈ s'.scannedList) ∧
      (a ∈ s'.tracked list ∨ list = .br ∧ a ∈ s.scannedList ∧ a ∉ s.brObjectList) := by
  intro s'
  unfold Served at hserved
  cases list with
  | ble =>
    have hstep : s' = pushFound w .ble args (checkIsInList w s args.macAddress .ble) := rfl
    simp only [TrackedList.searched] at hserved
    rcases check_ble_cases w s args.macAddress with ⟨a, ha, hmac, heq⟩ | ⟨-, heq⟩
    · rw [hstep, heq]
      exact ⟨a, updated_shows hfull (Nat.le_refl _) hmac, TrackedList.noConfusion, Or.inl ha⟩
    · rw [heq] at hserved
      rw [hstep, heq]
      obtain ⟨a, ha, hshows, hsc⟩ := pushNew_shows (s := s) hfull (Nat.le_refl _) .ble (hserved rfl)
      exact ⟨a, hshows, hsc, Or.inl ha⟩
  | br =>
    have hstep : s' =
        pushFound w .brEdr args (searchScanned w args.macAddress s.scannedList false s) := rfl
    simp only [TrackedList.searched, checkIsInList] at hserved
    rcases searchScanned_cases w args.macAddress s.scannedList s with
      ⟨a, n, ha, -, hmac, heq⟩ | ⟨kept, gone, -, -, -, heq⟩
    · rw [hstep, heq]
      have hread : s.readings ≤ ({ s with readings := s.readings + n } : Tracker).readings :=
        Nat.le_add_right _ n
      refine ⟨a, updated_shows hfull hread hmac, fun _ => ha, ?_⟩
      by_cases hbr : a ∈ s.brObjectList
      · exact Or.inl hbr
      · exact Or.inr ⟨rfl, ha, hbr⟩
    · rw [heq] at hserved
      rw [hstep, heq]
      obtain ⟨a, ha, hshows, hsc⟩ := pushNew_shows (s := s) hfull
        (Nat.le_add_right _ (kept.length + min gone.length 1)) .br (hserved rfl)
      exact ⟨a, hshows, hsc, Or.inl ha⟩

/-! ## Where a node leaves the upload list alone -/

theorem pollCount_br_pos {cfg : Config} (h : (basicInfo cfg w s).length ≤ maxLengthRespBasicInfo)
    (hne : s.nodes .br ≠ []) : 0 < pollCount cfg w s .br := by
  apply numberToSend_pos _ hne
  simp only [pollBudget, brBudget, sizeT, wifiMessageLength, maxLengthRespBasicInfo,
    maxLengthRespDeviceInfo] at *
  omega

theorem pushNew_scanned_only {deviceType : DeviceType} {a : Slot}
    (hsc : a ∈ (pushFound w deviceType args (none, s)).scannedList)
    (hbr : a ∉ (pushFound w deviceType args (none, s)).brObjectList) :
    a ∈ s.scannedList ∧ a ∉ s.brObjectList := by
  rcases pushNew_cases w deviceType args s with ⟨q, -, -, heq⟩ | ⟨b, q, -, -, -, heq⟩
  · rw [heq] at hsc hbr
    exact ⟨hsc, hbr⟩
  · rw [heq] at hsc hbr
    cases deviceType with
    | brEdr =>
      have hbr : a ∉ s.brObjectList ++ [b] := hbr
      simp only [List.mem_append, List.mem_singleton, not_or] at hbr
      exact ⟨(List.mem_cons.mp hsc).resolve_left hbr.2, hbr.1⟩
    | ble => exact ⟨hsc, hbr⟩
    | maxType => exact ⟨hsc, hbr⟩

theorem scanned_only_step (hs : Placed s) {cfg : Config} {op : Op} (hstep : StepTo cfg w s op s')
    {a : Slot} (hsc : a ∈ s'.scannedList) (hbr : a ∉ s'.brObjectList) :
    a ∈ s.scannedList ∧
      (a ∉ s.brObjectList ∨ op = .poll ∧ a ∈ pollMoved cfg w s .br) := by
  cases hstep with
  | looked => exact ⟨hsc, Or.inl hbr⟩
  | sighted => exact ⟨hsc, Or.inl hbr⟩
  | newBle args => exact (pushNew_scanned_only hsc hbr).imp_right Or.inl
  | newBr args kept gone hsplit =>
    obtain ⟨hsc, hbr⟩ := pushNew_scanned_only hsc hbr
    exact ⟨(shrinks_evicted hs _ hsplit).scanned.subset hsc, Or.inl hbr⟩
  | responded => exact ⟨hsc, Or.inl hbr⟩
  | evicted address kept gone hsplit =>
    exact ⟨(shrinks_evicted hs _ hsplit).scanned.subset hsc, Or.inl hbr⟩
  | polled hfits =>
    refine ⟨hsc, ?_⟩
    by_cases hmem : a ∈ s.brObjectList
    · have hmoved := moved_or_kept cfg w .br (pollCount_br_pos hfits) hmem
      exact Or.inr ⟨rfl, hmoved.resolve_right hbr⟩
    · exact Or.inl hmem
  | cleaned list =>
    -- What cleanup leaves in the scanned list, it leaves in the BR list.
    have hkept := hs.scanned_nodup.mem_sdiff_iff.mp hsc
    exact ⟨hkept.1, Or.inl fun hmem => hbr (hs.br_nodup.mem_sdiff_iff.mpr ⟨hmem, hkept.2⟩)⟩

end Sightings

/-- A poll of the run has put the node in its message, and the scanned list has held it since. -/
def Uploaded (cfg : Config) (w : World) (ops : List Op) (a : Slot) : Prop :=
  ∃ pre post, ops = pre ++ .poll :: post ∧ a ∈ pollMoved cfg w (run cfg w pre) .br ∧
    ∀ mid, mid <+: post → a ∈ (run cfg w (pre ++ .poll :: mid)).scannedList

theorem uploaded_of_scanned (cfg : Config) (w : World) (ops : List Op) {a : Slot}
    (hsc : a ∈ (run cfg w ops).scannedList) (hbr : a ∉ (run cfg w ops).brObjectList) :
    Uploaded cfg w ops a := by
  induction ops using List.reverseRecOn with
  | nil => exact absurd hsc List.not_mem_nil
  | append_singleton ops op ih =>
    have hnow := hsc
    have hs := placed_run cfg w ops
    rw [run_snoc] at hsc hbr
    obtain ⟨hbefore, hold | ⟨rfl, hmoved⟩⟩ :=
      scanned_only_step hs (step_spec hs cfg w op) hsc hbr
    · obtain ⟨pre, post, rfl, hmoved, hsince⟩ := ih hbefore hold
      refine ⟨pre, post ++ [op], by simp, hmoved, fun mid hmid => ?_⟩
      rcases List.prefix_concat_iff.mp hmid with rfl | hmid
      · simpa using hnow
      · exact hsince mid hmid
    · refine ⟨ops, [], rfl, hmoved, fun mid hmid => ?_⟩
      rw [List.prefix_nil.mp hmid]
      exact hnow

/-- After the call a node shows the sighting. It awaits the next upload, unless it is that of a
BR_EDR device which a poll has uploaded and the scanned list still holds. -/
theorem sighting_shown (cfg : Config) (w : World) (ops : List Op) (list : TrackedList)
    {args : PushArgs} (hfull : FullMac args.macAddress)
    (hserved : Served w (run cfg w ops) list args) :
    let s := run cfg w ops
    let s' := sendToPushDongle w s list.deviceType args
    ∃ a, Shows w s s' args a ∧ (list = .br → a ∈ s'.scannedList) ∧
      (a ∈ s'.tracked list ∨ list = .br ∧ Uploaded cfg w ops a) := by
  intro s s'
  obtain ⟨a, hshows, hsc, hwhere⟩ := push_shows hfull list hserved
  refine ⟨a, hshows, hsc, hwhere.imp_right ?_⟩
  rintro ⟨hlist, hbefore, hbr⟩
  exact ⟨hlist, uploaded_of_scanned cfg w ops hbefore hbr⟩

def sightingArgs : PushArgs := ⟨"AA:BB:CC:DD:EE:FF".toList, -60, 0, 0, false, false, []⟩

theorem sighting_shown_again :
    let ops := [.push .brEdr sightingArgs, .poll]
    let s := run ownershipConfig ownershipWorld ops
    let s' := sendToPushDongle ownershipWorld s TrackedList.br.deviceType sightingArgs
    ∃ a, Shows ownershipWorld s s' sightingArgs a ∧ (TrackedList.br = .br → a ∈ s'.scannedList) ∧
      (a ∈ s'.tracked .br ∨ TrackedList.br = .br ∧ Uploaded ownershipConfig ownershipWorld ops a) :=
  sighting_shown ownershipConfig ownershipWorld _ .br ⟨by decide, by decide⟩
    (by unfold Served; decide +kernel)

/-- A phone is seen, uploaded and seen again: nothing awaits an upload after that. -/
theorem sighting_not_tracked :
    let s := run ownershipConfig ownershipWorld [.push .brEdr sightingArgs, .poll]
    let s' := sendToPushDongle ownershipWorld s .brEdr sightingArgs
    FullMac sightingArgs.macAddress ∧ Served ownershipWorld s .br sightingArgs ∧
      ¬ ∃ a ∈ s'.tracked .br, Shows ownershipWorld s s' sightingArgs a := by
  refine ⟨⟨by decide, by decide⟩, by unfold Served; decide +kernel, ?_⟩
  have hnone : (sendToPushDongle ownershipWorld (run ownershipConfig ownershipWorld
      [.push .brEdr sightingArgs, .poll]) .brEdr sightingArgs).tracked .br = [] := by
    decide +kernel
  rintro ⟨a, ha, -⟩
  rw [hnone] at ha
  exact List.not_mem_nil ha

end LBeacon
