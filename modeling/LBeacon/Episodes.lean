import LBeacon.Panic

/-!
# BLE tracking as a log of episodes

What the BLE list is for, said without slots and lists of nodes: the sightings of an address
form episodes, a poll closes the oldest open ones, and a node is the summary of an episode.
-/

open CText

namespace LBeacon

/-! ## Episodes -/

/-- A sighting, with the number of the clock reading that stamped it. -/
structure Sighting where
  args : PushArgs
  reading : Nat
  time : Int32

inductive Touch where
  | sighting (s : Sighting)
  | response (payload : List UInt8)

structure Episode where
  first : Sighting
  later : List Touch

def Touch.sighting? : Touch → Option Sighting
  | .sighting s => some s
  | .response _ => none

def Episode.mac (e : Episode) : Str := cstr e.first.args.macAddress

def Episode.laterSightings (e : Episode) : List Sighting := e.later.filterMap Touch.sighting?

def Episode.sightings (e : Episode) : List Sighting := e.first :: e.laterSightings

def Episode.last (e : Episode) : Sighting := e.laterSightings.getLastD e.first

/-- The responses that came while one was needed. -/
def heededResponses : Bool → List Touch → List (List UInt8)
  | _, [] => []
  | _, .sighting s :: rest => heededResponses s.args.isScanRspNeeded rest
  | true, .response payload :: rest => payload :: heededResponses true rest
  | false, .response _ :: rest => heededResponses false rest

def Episode.responses (e : Episode) : List (List UInt8) :=
  heededResponses e.first.args.isScanRspNeeded e.later

def Episode.payloads (e : Episode) : List (List UInt8) :=
  (e.sightings.filter fun s => s.args.isPayloadNeeded).map fun s => s.args.payload

/-- The node of an episode. -/
def Episode.summary (e : Episode) : ScannedDevice where
  scannedMacAddress := strncpy e.first.args.macAddress lengthOfMacAddress
  initialScannedTime := e.first.time
  finalScannedTime := e.last.time
  rssi := (e.laterSightings.map fun s => s.args.rssi).foldl max e.first.args.rssi
  isButtonPressed := pressOf (e.sightings.map fun s => s.args)
  batteryVoltage := e.last.args.batteryVoltage
  payload := e.payloads.getLastD []
  isPayloadNeeded := e.last.args.isPayloadNeeded
  isScanRspNeeded := e.last.args.isScanRspNeeded
  scanRsp := e.responses.getLastD []

def Episode.add (e : Episode) (t : Touch) : Episode := { e with later := e.later ++ [t] }

/-! ## The log -/

structure EpisodeLog where
  closed : List Episode
  opened : List Episode

inductive Input where
  | sighting (s : Sighting)
  | response (macAddress : Str) (payload : List UInt8)
  | poll (count : Nat)

/-- The open episode of the address goes on. -/
def continueEpisode (mac : Str) (t : Touch) (episodes : List Episode) : List Episode :=
  episodes.map fun e => if e.mac = mac then e.add t else e

def EpisodeLog.step (log : EpisodeLog) : Input → EpisodeLog
  | .sighting s =>
    if ∃ e ∈ log.opened, e.mac = cstr s.args.macAddress then
      { log with opened := continueEpisode (cstr s.args.macAddress) (.sighting s) log.opened }
    else { log with opened := log.opened ++ [⟨s, []⟩] }
  | .response macAddress payload =>
    { log with opened := continueEpisode (cstr macAddress) (.response payload) log.opened }
  | .poll count => ⟨log.closed ++ log.opened.take count, log.opened.drop count⟩

/-! ## Summaries of longer episodes -/

theorem laterSightings_add_sighting (e : Episode) (s : Sighting) :
    (e.add (.sighting s)).laterSightings = e.laterSightings ++ [s] := by
  rw [Episode.laterSightings, Episode.add, List.filterMap_append]
  rfl

theorem laterSightings_add_response (e : Episode) (payload : List UInt8) :
    (e.add (.response payload)).laterSightings = e.laterSightings := by
  rw [Episode.laterSightings, Episode.add, List.filterMap_append]
  exact List.append_nil _

theorem heededResponses_sighting (need : Bool) (touches : List Touch) (s : Sighting) :
    heededResponses need (touches ++ [.sighting s]) = heededResponses need touches := by
  induction touches generalizing need with
  | nil => rfl
  | cons t rest ih =>
    cases t with
    | sighting s' => exact ih _
    | response payload =>
      cases need with
      | true => exact congrArg (payload :: ·) (ih true)
      | false => exact ih false

theorem heededResponses_response (first : Sighting) (touches : List Touch)
    (payload : List UInt8) :
    heededResponses first.args.isScanRspNeeded (touches ++ [.response payload]) =
      heededResponses first.args.isScanRspNeeded touches ++
        (if ((touches.filterMap Touch.sighting?).getLastD first).args.isScanRspNeeded
          then [payload] else []) := by
  have hgen : ∀ need, heededResponses need (touches ++ [.response payload]) =
      heededResponses need touches ++
        (if ((touches.filterMap Touch.sighting?).getLast?.elim need fun s =>
          s.args.isScanRspNeeded) then [payload] else []) := by
    induction touches with
    | nil => rintro (_ | _) <;> rfl
    | cons t rest ih =>
      intro need
      cases t with
      | sighting s =>
        rw [List.cons_append, heededResponses, heededResponses, ih]
        rw [List.filterMap_cons_some (show Touch.sighting? (.sighting s) = some s from rfl)]
        rw [List.getLast?_cons]
        cases (rest.filterMap Touch.sighting?).getLast? <;> rfl
      | response payload' =>
        rw [List.filterMap_cons_none (show Touch.sighting? (.response payload') = none from rfl)]
        cases need with
        | true => exact congrArg (payload' :: ·) (ih true)
        | false => exact ih false
  rw [hgen, List.getLastD_eq_getLast?]
  cases (touches.filterMap Touch.sighting?).getLast? <;> rfl

theorem max_eq_ite (a b : Int32) : max a b = if b > a then b else a := by
  rw [show max a b = if a ≤ b then b else a from rfl]
  simp only [Int32.le_iff_toInt_le, GT.gt, Int32.lt_iff_toInt_lt]
  split <;> split
  · rfl
  next h1 h2 => exact Int32.toInt_inj.mp (by omega)
  next h1 h2 => omega
  · rfl

theorem summary_first (s : Sighting) : Episode.summary ⟨s, []⟩ = newDevice s.time s.args := by
  simp only [Episode.summary, Episode.last, Episode.laterSightings, Episode.payloads,
    Episode.sightings, Episode.responses, newDevice, ScannedDevice.zeroed]
  cases hneed : s.args.isPayloadNeeded <;> simp [hneed, heededResponses, pressOf]

theorem summary_sighting (e : Episode) (s : Sighting) :
    (e.add (.sighting s)).summary = updateDevice s.time s.args e.summary := by
  have hlater := laterSightings_add_sighting e s
  have hall : (e.add (.sighting s)).sightings = e.sightings ++ [s] := by
    rw [Episode.sightings, hlater]
    rfl
  have hlast : (e.add (.sighting s)).last = s := by
    rw [Episode.last, hlater]
    simp
  have hresponses : (e.add (.sighting s)).responses = e.responses :=
    heededResponses_sighting _ _ s
  have hpress : pressOf ((e.sightings ++ [s]).map fun s => s.args) =
      keepPress (pressOf (e.sightings.map fun s => s.args)) s.args := by
    rw [List.map_append]
    exact pressOf_snoc (by simp [Episode.sightings]) s.args
  have hpayloads : (e.add (.sighting s)).payloads.getLastD [] =
      if s.args.isPayloadNeeded then s.args.payload else e.payloads.getLastD [] := by
    rw [Episode.payloads, hall, List.filter_append, List.map_append]
    cases hneed : s.args.isPayloadNeeded <;> simp [hneed, Episode.payloads]
  rw [Episode.summary, updateDevice, hlast, hall, hresponses, hpress, hpayloads, hlater]
  rw [List.map_append, List.foldl_append]
  simp only [List.map_cons, List.map_nil, List.foldl_cons, List.foldl_nil, max_eq_ite]
  rfl

theorem summary_response (e : Episode) (payload : List UInt8) :
    (e.add (.response payload)).summary =
      if e.summary.isScanRspNeeded then { e.summary with scanRsp := payload } else e.summary := by
  have hlater := laterSightings_add_response e payload
  have hall : (e.add (.response payload)).sightings = e.sightings := by
    rw [Episode.sightings, hlater]
    rfl
  have hlast : (e.add (.response payload)).last = e.last := by
    rw [Episode.last, hlater]
    rfl
  have hresponses : (e.add (.response payload)).responses =
      e.responses ++ if e.last.args.isScanRspNeeded then [payload] else [] :=
    heededResponses_response e.first e.later payload
  have hneed : e.summary.isScanRspNeeded = e.last.args.isScanRspNeeded := rfl
  rw [hneed, Episode.summary, hlast, hall, hresponses, hlater, Episode.payloads, hall]
  cases hlastneed : e.last.args.isScanRspNeeded with
  | true =>
    simp only [if_true, List.getLastD_concat, Episode.summary, hlastneed]
    rfl
  | false =>
    simp only [Bool.false_eq_true, if_false, List.append_nil, Episode.summary, hlastneed]
    rfl

end LBeacon
