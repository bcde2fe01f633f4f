import LBeacon.Tracking

/-!
# What one poll does

`consolidate_tracked_data` and `handle_tracked_object_data` in closed form: which nodes
leave, which slots are freed, what is sent. The later modules use these instead of the loops.
-/

open CText

namespace LBeacon

/-! ## Many frees -/

def freeAll (p : Pool) (slots : List Slot) : Pool := slots.foldl mpFree p

@[simp] theorem freeAll_nil (p : Pool) : freeAll p [] = p := rfl

@[simp] theorem freeAll_cons (p : Pool) (a : Slot) (slots : List Slot) :
    freeAll p (a :: slots) = freeAll (mpFree p a) slots := rfl

theorem freeAll_append (p : Pool) (xs ys : List Slot) :
    freeAll p (xs ++ ys) = freeAll (freeAll p xs) ys := by
  rw [freeAll, List.foldl_append]
  rfl

theorem freeAll_frees (p : Pool) (slots : List Slot) : (freeAll p slots).frees = p.frees ++ slots := by
  induction slots generalizing p with
  | nil => rw [freeAll_nil, List.append_nil]
  | cons a slots ih => rw [freeAll_cons, ih, mpFree_frees, List.append_assoc, List.singleton_append]

theorem mem_freeAll {p : Pool} {slots : List Slot} {b : Slot} :
    b ∈ (freeAll p slots).outstanding ↔ b ∈ p.outstanding ∧ b ∉ slots := by
  induction slots generalizing p with
  | nil => simp
  | cons a slots ih =>
    rw [freeAll_cons, ih, mem_mpFree, List.mem_cons, not_or]
    tauto

/-! ## consolidate_tracked_data -/

/-- The devices of a tracked list, in its order. -/
def Tracker.nodes (s : Tracker) (list : TrackedList) : List ScannedDevice :=
  (s.tracked list).map s.dev

/-- Of the slots that leave a tracked list, those that the last loop frees. -/
def Tracker.released (s : Tracker) (list : TrackedList) (slots : List Slot) : List Slot :=
  match list with
  | .ble => slots
  | .br => slots.filter s.scIsolated

theorem release_foldl (list : TrackedList) (slots : List Slot) (s : Tracker) :
    slots.foldl (Tracker.release list) s =
      { s with pool := freeAll s.pool (s.released list slots) } := by
  induction slots generalizing s with
  | nil => cases list <;> rfl
  | cons a slots ih =>
    rw [List.foldl_cons, ih]
    cases list with
    | ble => rfl
    | br =>
      simp only [Tracker.release, Tracker.released, List.filter_cons]
      split <;> rfl

theorem consolidate_eq (s : Tracker) (list : TrackedList) (m : Nat) :
    consolidateTrackedData s list m =
      (consolidateText list.deviceType (s.nodes list) m,
        { s.setTracked list ((s.tracked list).drop (max (numberToSend (s.nodes list) m) 1)) with
          pool := freeAll s.pool
            (s.released list ((s.tracked list).take (numberToSend (s.nodes list) m))) }) := by
  rw [consolidateTrackedData, release_foldl]
  cases list <;> rfl

/-! ## handle_tracked_object_data -/

def basicInfo (cfg : Config) (w : World) (s : Tracker) : Str :=
  basicInfoText cfg (w.clock s.readings)

theorem beaconBasicInfo_long {cfg : Config} {w : World} {s : Tracker}
    (h : maxLengthRespBasicInfo < (basicInfo cfg w s).length) :
    beaconBasicInfo cfg w s = (.eBufferSize, basicInfo cfg w s, s.tick) := by
  rw [beaconBasicInfo]
  exact if_pos h

theorem beaconBasicInfo_fits {cfg : Config} {w : World} {s : Tracker}
    (h : (basicInfo cfg w s).length ≤ maxLengthRespBasicInfo) :
    beaconBasicInfo cfg w s = (.workSuccessfully, basicInfo cfg w s, s.tick) := by
  rw [beaconBasicInfo]
  exact if_neg (Nat.not_lt.mpr h)

def brBudget (cfg : Config) (w : World) (s : Tracker) : Nat :=
  sizeT (wifiMessageLength - (basicInfo cfg w s).length)

def brText (cfg : Config) (w : World) (s : Tracker) : Str :=
  consolidateText .brEdr (s.nodes .br) (brBudget cfg w s)

def bleBudget (cfg : Config) (w : World) (s : Tracker) : Nat :=
  sizeT (wifiMessageLength - (basicInfo cfg w s ++ brText cfg w s).length)

def bleText (cfg : Config) (w : World) (s : Tracker) : Str :=
  consolidateText .ble (s.nodes .ble) (bleBudget cfg w s)

def pollBudget (cfg : Config) (w : World) (s : Tracker) : TrackedList → Nat
  | .br => brBudget cfg w s
  | .ble => bleBudget cfg w s

/-- How many nodes of a list the poll selects. -/
def pollCount (cfg : Config) (w : World) (s : Tracker) (list : TrackedList) : Nat :=
  numberToSend (s.nodes list) (pollBudget cfg w s list)

/-- The slots that the poll moves to its local list. -/
def pollMoved (cfg : Config) (w : World) (s : Tracker) (list : TrackedList) : List Slot :=
  (s.tracked list).take (pollCount cfg w s list)

/-- What stays linked in a tracked list. -/
def pollKept (cfg : Config) (w : World) (s : Tracker) (list : TrackedList) : List Slot :=
  (s.tracked list).drop (max (pollCount cfg w s list) 1)

def pollMessage (cfg : Config) (w : World) (s : Tracker) : Str :=
  basicInfo cfg w s ++ brText cfg w s ++ bleText cfg w s

/-- The slots that the poll passes to `mp_free`, in order. -/
def pollFreed (cfg : Config) (w : World) (s : Tracker) : List Slot :=
  s.released .br (pollMoved cfg w s .br) ++ pollMoved cfg w s .ble

/-- The state after a poll that sends a message. -/
def Tracker.polled (cfg : Config) (w : World) (s : Tracker) : Tracker :=
  { s with
    brObjectList := pollKept cfg w s .br
    bleObjectList := pollKept cfg w s .ble
    pool := freeAll s.pool (pollFreed cfg w s)
    readings := s.readings + 2
    sent := s.sent ++ [pollMessage cfg w s] }

theorem handle_cases (cfg : Config) (w : World) (s : Tracker) :
    (s.brObjectList = [] ∧ s.bleObjectList = [] ∧
      handleTrackedObjectData cfg w s = (.workSuccessfully, s)) ∨
    (¬ (s.brObjectList = [] ∧ s.bleObjectList = []) ∧
      maxLengthRespBasicInfo < (basicInfo cfg w s).length ∧
      handleTrackedObjectData cfg w s = (.ePrepareResponseBasicInfo, s.tick)) ∨
    (¬ (s.brObjectList = [] ∧ s.bleObjectList = []) ∧
      (basicInfo cfg w s).length ≤ maxLengthRespBasicInfo ∧
      handleTrackedObjectData cfg w s = (.workSuccessfully, s.polled cfg w)) := by
  unfold handleTrackedObjectData
  split
  next hempty => exact Or.inl ⟨hempty.1, hempty.2, rfl⟩
  next hempty =>
    right
    rcases Nat.lt_or_ge maxLengthRespBasicInfo (basicInfo cfg w s).length with hlong | hfits
    · refine Or.inl ⟨hempty, hlong, ?_⟩
      rw [beaconBasicInfo_long hlong]
    · refine Or.inr ⟨hempty, hfits, ?_⟩
      rw [beaconBasicInfo_fits hfits]
      simp only [consolidate_eq, Tracker.polled, pollFreed, freeAll_append]
      rfl

/-! ## With an empty BR list -/

theorem brText_of_nil (cfg : Config) (w : World) {s : Tracker} (h : s.brObjectList = []) :
    brText cfg w s = "0;0;".toList := by
  have hheader : listHeader .brEdr 0 = "0;0;".toList := by decide
  rw [brText, Tracker.nodes, Tracker.tracked, h, ← hheader]
  exact List.append_nil _

/-- The BR header takes four characters, so the BLE list has room for one node at least. -/
theorem pollCount_ble_pos {cfg : Config} {w : World} {s : Tracker} (hbr : s.brObjectList = [])
    (hble : s.bleObjectList ≠ []) (hbasic : (basicInfo cfg w s).length ≤ maxLengthRespBasicInfo) :
    0 < pollCount cfg w s .ble := by
  obtain ⟨a, rest, hcons⟩ := List.exists_cons_of_ne_nil hble
  have hbudget : bleBudget cfg w s > maxLengthRespDeviceInfo := by
    rw [bleBudget, brText_of_nil cfg w hbr, List.length_append]
    simp only [sizeT, wifiMessageLength, maxLengthRespBasicInfo, maxLengthRespDeviceInfo] at *
    simp
    omega
  rw [pollCount, pollBudget, Tracker.nodes, Tracker.tracked, hcons, List.map_cons, numberToSend,
    if_pos hbudget]
  exact Nat.succ_pos _

theorem pollMoved_ble {cfg : Config} {w : World} {s : Tracker} (hbr : s.brObjectList = [])
    (hbasic : (basicInfo cfg w s).length ≤ maxLengthRespBasicInfo) :
    pollMoved cfg w s .ble ++ pollKept cfg w s .ble = s.bleObjectList := by
  by_cases hble : s.bleObjectList = []
  · rw [pollMoved, pollKept, Tracker.tracked, hble, List.take_nil, List.drop_nil]
    rfl
  · have hpos := pollCount_ble_pos hbr hble hbasic
    rw [pollMoved, pollKept, max_eq_left hpos]
    exact List.take_append_drop _ _

theorem bleText_eq (cfg : Config) (w : World) (s : Tracker) :
    bleText cfg w s =
      listHeader .ble (((pollMoved cfg w s .ble).map s.dev).filter fun d => !isDiscarded d).length ++
        (((pollMoved cfg w s .ble).map s.dev).filter fun d => !isDiscarded d).flatMap
          deviceRecord := by
  rw [bleText, consolidateText, pollMoved, List.map_take]
  rfl

end LBeacon
