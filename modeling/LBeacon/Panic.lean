import LBeacon.Identity

/-!
# Panic presses

From the panic nibble of a report to the button field of the record that a poll sends.
-/

open CText

namespace LBeacon

/-! ## The nibble -/

/-- The button field of a report. `05C6` and `4153` have the panic nibble at the same place, and
other reports carry zero. -/
def HasNibble (temp : TempBleDevice) (args : PushArgs) : Prop :=
  args.isButtonPressed = 0 ∨ ∃ payload,
    eirParseSpecificData temp.payload eirManufactureSpecificData lengthOfAdvertisement =
      some payload ∧
    args.isButtonPressed =
      Int32.ofInt (hexToDecimal (payload.getD blePayloadFormat05C6IndexOfPanic NUL))

theorem applyMacRule_button {temp : TempBleDevice} {rule : PrefixRule} {args : PushArgs}
    (h : (applyMacRule temp rule).2 = some args) :
    HasNibble temp args := by
  simp only [applyMacRule] at h
  split at h
  · rw [← Option.some.inj h]; exact Or.inl rfl
  · split at h
    · simp at h
    next payload hparse =>
      split at h
      · split at h
        · rw [← Option.some.inj h]; exact Or.inr ⟨payload, hparse, rfl⟩
        · simp at h
      · simp at h

theorem matchMacRules_button {temp : TempBleDevice} {rules : List PrefixRule} {args : PushArgs}
    (h : (matchMacRules temp rules).2 = some args) :
    HasNibble temp args := by
  induction rules with
  | nil => simp [matchMacRules] at h
  | cons rule rest ih =>
    rw [matchMacRules] at h
    split at h
    · exact applyMacRule_button h
    · exact ih h

theorem applyNameRule_button {temp : TempBleDevice} {rule : DeviceNamePrefix} {args : PushArgs}
    (h : applyNameRule temp rule = some args) :
    HasNibble temp args := by
  simp only [applyNameRule] at h
  split at h
  · rw [← Option.some.inj h]; exact Or.inl rfl
  · split at h
    · simp at h
    next payload hparse =>
      split at h
      · split at h
        · rw [← Option.some.inj h]; exact Or.inl rfl
        · split at h
          · rw [← Option.some.inj h]; exact Or.inr ⟨payload, hparse, rfl⟩
          · simp at h
      · simp at h

theorem matchReport_button {cfg : Config} {temp : TempBleDevice} {args : PushArgs}
    (h : matchReport cfg temp = some args) :
    HasNibble temp args := by
  rw [matchReport_eq] at h
  split at h
  · exact matchMacRules_button h
  · obtain ⟨rule, -, happly⟩ := Option.bind_eq_some_iff.mp h
    exact applyNameRule_button happly

/-! ## The sightings merged into a node -/

/-- For each slot, the sightings that were merged into its node since it was created. -/
abbrev Merged := Slot → List PushArgs

def Merged.set (m : Merged) (a : Slot) (sightings : List PushArgs) : Merged :=
  fun x => if x = a then sightings else m x

def mergeStep (w : World) (s : Tracker) (m : Merged) : Op → Merged
  | .push .ble args =>
    match (checkIsInList w s args.macAddress .ble).1 with
    | some a => m.set a (m a ++ [args])
    | none =>
      match (mpAlloc w.offer s.pool).1 with
      | some a => m.set a [args]
      | none => m
  | _ => m

def mergedRun (cfg : Config) (w : World) (ops : List Op) : Tracker × Merged :=
  ops.foldl (fun p op => (step cfg w p.1 op, mergeStep w p.1 p.2 op)) (.init, fun _ => [])

theorem mergedRun_snoc (cfg : Config) (w : World) (ops : List Op) (op : Op) :
    mergedRun cfg w (ops ++ [op]) =
      (step cfg w (mergedRun cfg w ops).1 op,
        mergeStep w (mergedRun cfg w ops).1 (mergedRun cfg w ops).2 op) := by
  rw [mergedRun, mergedRun, List.foldl_append]
  rfl

theorem mergedRun_fst (cfg : Config) (w : World) (ops : List Op) :
    (mergedRun cfg w ops).1 = run cfg w ops := by
  induction ops using List.reverseRecOn with
  | nil => rfl
  | append_singleton ops op ih => rw [mergedRun_snoc, run_snoc, ih]

/-- What an update does to the button field. -/
def keepPress (pressed : Int32) (args : PushArgs) : Int32 :=
  if args.isButtonPressed = 1 then args.isButtonPressed else pressed

/-- The button field of a node, from the sightings merged into it. -/
def pressOf : List PushArgs → Int32
  | [] => 0
  | first :: later => later.foldl keepPress first.isButtonPressed

theorem pressOf_snoc {sightings : List PushArgs} (h : sightings ≠ []) (args : PushArgs) :
    pressOf (sightings ++ [args]) = keepPress (pressOf sightings) args := by
  obtain ⟨first, later, rfl⟩ := List.exists_cons_of_ne_nil h
  rw [List.cons_append, pressOf, pressOf, List.foldl_append]
  rfl

/-- The first report was pressed with any value, or a later one with the value 1. -/
def Pressed (sightings : List PushArgs) : Prop :=
  ∃ first later, sightings = first :: later ∧
    (first.isButtonPressed ≠ 0 ∨ ∃ args ∈ later, args.isButtonPressed = 1)

theorem foldl_keepPress_ne_zero {later : List PushArgs} {pressed : Int32}
    (h : pressed ≠ 0 ∨ ∃ args ∈ later, args.isButtonPressed = 1) :
    later.foldl keepPress pressed ≠ 0 := by
  induction later generalizing pressed with
  | nil =>
    rcases h with h | ⟨args, hargs, -⟩
    · exact h
    · simp at hargs
  | cons args later ih =>
    rw [List.foldl_cons]
    refine ih ?_
    by_cases hone : args.isButtonPressed = 1
    · left
      rw [keepPress, if_pos hone, hone]
      decide
    · rw [keepPress, if_neg hone]
      rcases h with h | ⟨args', hargs', hone'⟩
      · exact Or.inl h
      · rcases List.mem_cons.mp hargs' with rfl | hlater
        · exact absurd hone' hone
        · exact Or.inr ⟨args', hlater, hone'⟩

theorem pressOf_ne_zero {sightings : List PushArgs} (h : Pressed sightings) :
    pressOf sightings ≠ 0 := by
  obtain ⟨first, later, rfl, hpress⟩ := h
  exact foldl_keepPress_ne_zero hpress

/-! ## Runs without inquiries -/

/-- Nothing was inserted into the BR lists. -/
def Op.BleOnly : Op → Prop
  | .push .brEdr _ => False
  | _ => True

/-- The BR list is empty, and every BLE node shows the presses merged into it. -/
structure Remembers (s : Tracker) (m : Merged) : Prop where
  br : s.brObjectList = []
  nonempty : ∀ a ∈ s.bleObjectList, m a ≠ []
  pressed : ∀ a ∈ s.bleObjectList, (s.dev a).isButtonPressed = pressOf (m a)

theorem Remembers.shrinks {s s' : Tracker} {m : Merged} {freed : List Slot} (h : Remembers s m)
    (hshr : Shrinks s s' freed) : Remembers s' m where
  br := by
    have := hshr.br
    rw [h.br] at this
    exact List.sublist_nil.mp this
  nonempty a ha := h.nonempty a (hshr.ble.subset ha)
  pressed a ha := by
    rw [hshr.dev]
    exact h.pressed a (hshr.ble.subset ha)

theorem Remembers.push {w : World} {s : Tracker} {m : Merged} (h : Remembers s m) (hs : Placed s)
    (args : PushArgs) :
    Remembers (sendToPushDongle w s .ble args) (mergeStep w s m (.push .ble args)) := by
  rw [sendToPushDongle, mergeStep]
  rcases check_ble_cases w s args.macAddress with ⟨a, ha, -, heq⟩ | ⟨-, heq⟩
  · rw [heq]
    refine ⟨h.br, fun b hb => ?_, fun b hb => ?_⟩
    · simp only [Merged.set]
      split
      · simp
      · exact h.nonempty b hb
    · simp only [pushFound, Tracker.tick, Tracker.setDev, Merged.set]
      split
      next hba =>
        rw [pressOf_snoc (h.nonempty a ha), ← h.pressed a ha]
        rfl
      next => exact h.pressed b hb
  · rw [heq]
    simp only [pushFound]
    rcases mpAlloc_cases w.offer s.pool with ⟨q, hq, -, -⟩ | ⟨a, q, hq, hfresh, -, -⟩
    · rw [hq]
      exact ⟨h.br, h.nonempty, h.pressed⟩
    · rw [hq]
      have hne : ∀ b ∈ s.bleObjectList, b ≠ a := by
        rintro b hb rfl
        exact hfresh (hs.allocated b (Or.inr (Or.inr hb)))
      refine ⟨h.br, fun b hb => ?_, fun b hb => ?_⟩
      · simp only [Merged.set]
        split
        · simp
        next hba =>
          rcases List.mem_append.mp hb with hb | hb
          · exact h.nonempty b hb
          · exact absurd (List.mem_singleton.mp hb) hba
      · simp only [Tracker.tick, Tracker.setDev, Tracker.insert, Merged.set]
        split
        · rfl
        next hba =>
          rcases List.mem_append.mp hb with hb | hb
          · exact h.pressed b hb
          · exact absurd (List.mem_singleton.mp hb) hba

theorem Remembers.quiet {cfg : Config} {w : World} {s s' : Tracker} {m : Merged} {op : Op}
    (h : Remembers s m) (hs : Placed s) (hstep : StepTo cfg w s op s')
    (hop : ∀ deviceType args, op ≠ .push deviceType args) : Remembers s' m := by
  cases hstep with
  | looked => exact ⟨h.br, h.nonempty, h.pressed⟩
  | sighted deviceType args => exact absurd rfl (hop deviceType args)
  | newBle args => exact absurd rfl (hop .ble args)
  | newBr args => exact absurd rfl (hop .brEdr args)
  | responded macAddress payload a =>
    refine ⟨h.br, h.nonempty, fun b hb => ?_⟩
    simp only [Tracker.setDev]
    split
    next hba =>
      rw [hba]
      exact h.pressed a (hba ▸ hb)
    next => exact h.pressed b hb
  | evicted address kept gone hsplit => exact h.shrinks (shrinks_evicted hs _ hsplit)
  | polled => exact h.shrinks (shrinks_polled hs cfg w)
  | cleaned list => exact h.shrinks (shrinks_list hs list)

theorem remembers_step {cfg : Config} {w : World} {s : Tracker} {m : Merged} (h : Remembers s m)
    (hs : Placed s) {op : Op} (hop : op.BleOnly) :
    Remembers (step cfg w s op) (mergeStep w s m op) := by
  have hspec := step_spec hs cfg w op
  cases op with
  | push deviceType args =>
    cases deviceType with
    | ble => exact h.push hs args
    | brEdr => exact absurd hop id
    | maxType => exact h
  | scanRsp | check | poll | cleanup =>
    exact h.quiet hs hspec fun _ _ => Op.noConfusion

theorem remembers_run {cfg : Config} {w : World} {ops : List Op} (hops : ∀ op ∈ ops, op.BleOnly) :
    Remembers (run cfg w ops) (mergedRun cfg w ops).2 := by
  rw [← mergedRun_fst]
  apply Machine.foldl_invariant (P := fun p : Tracker × Merged => Remembers p.1 p.2)
  · constructor <;> simp [Tracker.init]
  · intro pre op hpre h
    have hplaced : Placed (mergedRun cfg w pre).1 := by
      rw [mergedRun_fst]
      exact placed_run cfg w pre
    exact remembers_step h hplaced (hops op (Machine.mem_of_step hpre))

/-! ## Polls -/

def Event.BleOnly : Event → Prop
  | .inquiry _ _ => False
  | _ => True

theorem op_bleOnly {cfg : Config} {e : Event} {op : Op} (he : e.BleOnly)
    (h : e.op cfg = some op) : op.BleOnly := by
  cases e with
  | report temp =>
    simp only [Event.op, reportOp] at h
    split at h
    · simp at h
    · split at h
      · obtain ⟨args, -, rfl⟩ := Option.map_eq_some_iff.mp h
        trivial
      · split at h
        · rw [← Option.some.inj h]; trivial
        · simp at h
  | inquiry address rssi => exact absurd he id
  | poll => rw [← Option.some.inj h]; trivial
  | cleanup list => rw [← Option.some.inj h]; trivial

/-- The sightings merged into the node of a slot, over a run of events. -/
def mergedInto (cfg : Config) (w : World) (events : List Event) (a : Slot) : List PushArgs :=
  (mergedRun cfg w (events.filterMap (Event.op cfg))).2 a

theorem remembers_eventRun (cfg : Config) (w : World) {events : List Event}
    (hble : ∀ e ∈ events, e.BleOnly) :
    Remembers (eventRun cfg w events) (mergedInto cfg w events) := by
  refine remembers_run fun op hop => ?_
  obtain ⟨e, he, hop⟩ := List.mem_filterMap.mp hop
  exact op_bleOnly (hble e he) hop

theorem record_within {d : ScannedDevice} {nodes : List ScannedDevice} (h : d ∈ nodes) :
    deviceRecord d <:+: nodes.flatMap deviceRecord := by
  obtain ⟨before, after, rfl⟩ := List.append_of_mem h
  rw [List.flatMap_append, List.flatMap_cons, ← List.append_assoc]
  exact List.infix_append _ _ _

theorem record_in_message {cfg : Config} {w : World} {s : Tracker} {a : Slot}
    (ha : a ∈ pollMoved cfg w s .ble) (hkeep : isDiscarded (s.dev a) = false) :
    deviceRecord (s.dev a) <:+: pollMessage cfg w s := by
  have hmem : s.dev a ∈ ((pollMoved cfg w s .ble).map s.dev).filter fun d => !isDiscarded d := by
    refine List.mem_filter.mpr ⟨List.mem_map_of_mem ha, ?_⟩
    rw [hkeep]
    rfl
  rw [pollMessage, bleText_eq]
  exact (record_within hmem).trans ((List.suffix_append _ _).trans (List.suffix_append _ _)).isInfix

/-- A press with any value in the first report, or with the value 1 in a later one, is in the
record that the poll sends when it removes the node and does not discard it. -/
theorem panic_press_sent (cfg : Config) (w : World) (events : List Event) (a : Slot)
    (hble : ∀ e ∈ events, e.BleOnly)
    (ha : a ∈ (eventRun cfg w events).bleObjectList)
    (hgone : a ∉ (eventStep cfg w (eventRun cfg w events) .poll).bleObjectList)
    (hpress : Pressed (mergedInto cfg w events a))
    (hkeep : isDiscarded ((eventRun cfg w events).dev a) = false) :
    ((eventRun cfg w events).dev a).isButtonPressed ≠ 0 ∧
      ∃ message, (eventStep cfg w (eventRun cfg w events) .poll).sent =
          (eventRun cfg w events).sent ++ [message] ∧
        deviceRecord ((eventRun cfg w events).dev a) <:+: message := by
  have hrem := remembers_eventRun cfg w hble
  refine ⟨?_, ?_⟩
  · rw [hrem.pressed a ha]
    exact pressOf_ne_zero hpress
  · change a ∉ (handleTrackedObjectData cfg w _).2.bleObjectList at hgone
    change ∃ message, (handleTrackedObjectData cfg w _).2.sent = _ ∧ _
    rcases handle_cases cfg w (eventRun cfg w events) with
      ⟨-, hnil, -⟩ | ⟨-, -, heq⟩ | ⟨-, hbasic, heq⟩
    · rw [hnil] at ha
      simp at ha
    · rw [heq] at hgone
      exact absurd ha hgone
    · rw [heq] at hgone ⊢
      refine ⟨_, rfl, record_in_message ?_ hkeep⟩
      rw [← pollMoved_ble hrem.br hbasic, List.mem_append] at ha
      exact ha.resolve_right hgone

/-! ## No press without a report -/

theorem merged_pushed {cfg : Config} {w : World} {ops : List Op} {a : Slot} {args : PushArgs}
    (h : args ∈ (mergedRun cfg w ops).2 a) : .push .ble args ∈ ops := by
  induction ops using List.reverseRecOn generalizing a with
  | nil => exact absurd h List.not_mem_nil
  | append_singleton ops op ih =>
    rw [mergedRun_snoc] at h
    have hold {b : Slot} (h : args ∈ (mergedRun cfg w ops).2 b) : .push .ble args ∈ ops ++ [op] :=
      List.mem_append_left _ (ih h)
    have hset {b : Slot} {sightings : List PushArgs}
        (hnew : args ∈ sightings → .push .ble args ∈ ops ++ [op])
        (h : args ∈ (mergedRun cfg w ops).2.set b sightings a) : .push .ble args ∈ ops ++ [op] := by
      unfold Merged.set at h
      split at h
      · exact hnew h
      · exact hold h
    unfold mergeStep at h
    split at h
    · rename_i pushed
      have hlast (h : args ∈ [pushed]) : .push .ble args ∈ ops ++ [.push .ble pushed] := by
        rw [List.mem_singleton.mp h]
        exact List.mem_append_right _ (List.mem_singleton_self _)
      split at h
      · exact hset (fun h => (List.mem_append.mp h).elim hold hlast) h
      · split at h
        · exact hset hlast h
        · exact hold h
    · exact hold h

theorem report_of_push {cfg : Config} {e : Event} {args : PushArgs}
    (h : e.op cfg = some (.push .ble args)) :
    ∃ temp, e = .report temp ∧ matchReport cfg temp = some args := by
  cases e with
  | report temp =>
    refine ⟨temp, rfl, ?_⟩
    simp only [Event.op, reportOp] at h
    split at h
    · cases h
    · split at h
      · obtain ⟨found, hfound, heq⟩ := Option.map_eq_some_iff.mp h
        cases heq
        exact hfound
      · split at h <;> cases h
  | inquiry address rssi =>
    simp only [Event.op] at h
    split at h <;> cases h
  | poll => cases h
  | cleanup list => cases h

theorem foldl_keepPress_mem (later : List PushArgs) (pressed : Int32) :
    later.foldl keepPress pressed = pressed ∨
      ∃ args ∈ later, later.foldl keepPress pressed = args.isButtonPressed := by
  induction later generalizing pressed with
  | nil => exact Or.inl rfl
  | cons args later ih =>
    rw [List.foldl_cons]
    rcases ih (keepPress pressed args) with heq | ⟨args', hargs', heq⟩
    · rw [heq]
      unfold keepPress
      split
      · exact Or.inr ⟨args, List.mem_cons_self, rfl⟩
      · exact Or.inl rfl
    · exact Or.inr ⟨args', List.mem_cons_of_mem _ hargs', heq⟩

theorem pressOf_mem {sightings : List PushArgs} (h : pressOf sightings ≠ 0) :
    ∃ args ∈ sightings, pressOf sightings = args.isButtonPressed := by
  cases sightings with
  | nil => exact absurd rfl h
  | cons first later =>
    rcases foldl_keepPress_mem later first.isButtonPressed with heq | ⟨args, hargs, heq⟩
    · exact ⟨first, List.mem_cons_self, heq⟩
    · exact ⟨args, List.mem_cons_of_mem _ hargs, heq⟩

/-- A node shows a press only if one of the reports has that value in the place of the panic
nibble. -/
theorem no_false_alarm (cfg : Config) (w : World) (events : List Event) (a : Slot)
    (hble : ∀ e ∈ events, e.BleOnly) (ha : a ∈ (eventRun cfg w events).bleObjectList)
    (hpress : ((eventRun cfg w events).dev a).isButtonPressed ≠ 0) :
    ∃ temp payload, .report temp ∈ events ∧
      eirParseSpecificData temp.payload eirManufactureSpecificData lengthOfAdvertisement =
        some payload ∧
      ((eventRun cfg w events).dev a).isButtonPressed =
        Int32.ofInt (hexToDecimal (payload.getD blePayloadFormat05C6IndexOfPanic NUL)) := by
  have hrem := remembers_eventRun cfg w hble
  rw [hrem.pressed a ha] at hpress ⊢
  obtain ⟨args, hargs, heq⟩ := pressOf_mem hpress
  obtain ⟨e, he, hop⟩ := List.mem_filterMap.mp (merged_pushed hargs)
  obtain ⟨temp, rfl, hmatch⟩ := report_of_push hop
  rw [heq] at hpress ⊢
  obtain hzero | ⟨payload, hparse, hnibble⟩ := matchReport_button hmatch
  · exact absurd hzero hpress
  · exact ⟨temp, payload, he, hparse, hnibble⟩

/-! ## Two pressed tags -/

/-- `05C6` tags by their address, `4153` tags by their name. The latter need both payloads. -/
def pressConfig : Config :=
  ⟨"0000".toList, "192.168.0.2".toList, -100, [⟨"AA".toList, bidaetechTagIdentifier05C6⟩],
    [⟨"0209".toList, bidaetechTagIdentifier4153, true, true⟩]⟩

def pressWorld : World := ⟨fun _ => 0, some, some⟩

theorem pressed_mac_complete : isCompleteMac "AA:BB:CC:DD:EE:FF".toList = true := by decide

def pressed05C6 : Event :=
  .report ⟨⟨"AA:BB:CC:DD:EE:FF".toList, pressed_mac_complete⟩, eventTypeAdvInd,
    [7, 0xFF, 0, 0, 0x05, 0xC6, 0x01, 0x64], -60⟩

theorem press_05C6_sent :
    ((eventRun pressConfig pressWorld [pressed05C6]).dev 0).isButtonPressed ≠ 0 ∧
      ∃ message, (eventStep pressConfig pressWorld
            (eventRun pressConfig pressWorld [pressed05C6]) .poll).sent =
          (eventRun pressConfig pressWorld [pressed05C6]).sent ++ [message] ∧
        deviceRecord ((eventRun pressConfig pressWorld [pressed05C6]).dev 0) <:+: message :=
  panic_press_sent pressConfig pressWorld [pressed05C6] 0 (by simp [pressed05C6, Event.BleOnly])
    (by decide +kernel) (by decide +kernel)
    ⟨_, [], by rfl, Or.inl (by decide +kernel)⟩ (by decide +kernel)

theorem alarm_05C6_reported :
    ∃ temp payload, .report temp ∈ [pressed05C6] ∧
      eirParseSpecificData temp.payload eirManufactureSpecificData lengthOfAdvertisement =
        some payload ∧
      ((eventRun pressConfig pressWorld [pressed05C6]).dev 0).isButtonPressed =
        Int32.ofInt (hexToDecimal (payload.getD blePayloadFormat05C6IndexOfPanic NUL)) :=
  no_false_alarm pressConfig pressWorld [pressed05C6] 0 (by simp [pressed05C6, Event.BleOnly])
    (by decide +kernel) (by decide +kernel)

def pressed4153 : Event :=
  .report ⟨⟨"BB:BB:CC:DD:EE:FF".toList, by decide⟩, eventTypeAdvInd,
    [2, eirNameComplete, 0x41, 7, 0xFF, 0, 0, 0x41, 0x53, 0x01, 0], -60⟩

/-- Its scan response has not come when the poll removes it: no record, no alarm. -/
theorem press_4153_discarded : (∀ e ∈ [pressed4153], e.BleOnly) ∧
    (eventRun pressConfig pressWorld [pressed4153]).bleObjectList = [0] ∧
    (eventStep pressConfig pressWorld (eventRun pressConfig pressWorld [pressed4153])
      .poll).bleObjectList = [] ∧
    (mergedInto pressConfig pressWorld [pressed4153] 0).map PushArgs.isButtonPressed = [1] ∧
    ∀ message ∈ (eventStep pressConfig pressWorld
        (eventRun pressConfig pressWorld [pressed4153]) .poll).sent,
      ∀ d, cstr d.scannedMacAddress = "BB:BB:CC:DD:EE:FF".toList → ¬ deviceRecord d <:+: message := by
  refine ⟨by simp [pressed4153, Event.BleOnly], by decide +kernel, by decide +kernel,
    by decide +kernel, ?_⟩
  intro message hmessage d hmac hinfix
  have hsent : (eventStep pressConfig pressWorld
      (eventRun pressConfig pressWorld [pressed4153]) .poll).sent =
      ["8;4;1.3;0000;0;192.168.0.2;0;0;1;0;".toList] := by decide +kernel
  rw [hsent, List.mem_singleton] at hmessage
  have hcolon : ':' ∈ deviceRecord d := by
    have : ':' ∈ cstr d.scannedMacAddress := by rw [hmac]; decide
    simp only [deviceRecord, List.mem_append]
    tauto
  have := hinfix.subset hcolon
  rw [hmessage] at this
  exact absurd this (by decide)

end LBeacon
