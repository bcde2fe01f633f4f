import LBeacon.Episodes
import Mathlib.Data.List.Pairwise

/-!
# The BLE list refines the log

One step of the list is one step of the log. So the nodes that the polls removed, followed
by those still linked, are the summaries of the episodes.
-/

open CText

namespace LBeacon

/-! ## Observing a run -/

/-- The nodes that one step took out of the BLE list, in its order. -/
def removedBy (s s' : Tracker) : List ScannedDevice :=
  (s.bleObjectList.filter fun a => a ∉ s'.bleObjectList).map s.dev

/-- What the log hears of an operation. -/
def heard (cfg : Config) (w : World) (s : Tracker) : Op → Option Input
  | .push .ble args => some (.sighting ⟨args, s.readings, w.clock s.readings⟩)
  | .scanRsp macAddress payload => some (.response macAddress payload)
  | .poll => some (.poll (removedBy s (step cfg w s .poll)).length)
  | _ => none

structure Observed where
  tracker : Tracker
  removed : List ScannedDevice
  log : EpisodeLog

def observe (cfg : Config) (w : World) (o : Observed) (op : Op) : Observed where
  tracker := step cfg w o.tracker op
  removed :=
    if op = .poll then o.removed ++ removedBy o.tracker (step cfg w o.tracker .poll) else o.removed
  log := (heard cfg w o.tracker op).elim o.log o.log.step

def observedRun (cfg : Config) (w : World) (ops : List Op) : Observed :=
  ops.foldl (observe cfg w) ⟨.init, [], [], []⟩

theorem observedRun_snoc (cfg : Config) (w : World) (ops : List Op) (op : Op) :
    observedRun cfg w (ops ++ [op]) = observe cfg w (observedRun cfg w ops) op := by
  rw [observedRun, observedRun, List.foldl_append]
  rfl

theorem observedRun_tracker (cfg : Config) (w : World) (ops : List Op) :
    (observedRun cfg w ops).tracker = run cfg w ops := by
  induction ops using List.reverseRecOn with
  | nil => rfl
  | append_singleton ops op ih => rw [observedRun_snoc, run_snoc, observe, ih]

/-- Sightings with full addresses, responses and polls. -/
def Op.BleTraffic : Op → Prop
  | .push .ble args => FullMac args.macAddress
  | .scanRsp _ _ => True
  | .poll => True
  | _ => False

/-- `mp_alloc` has a slot whenever a sighting finds no node. -/
def AllocSucceeds (w : World) (s : Tracker) : Op → Prop
  | .push .ble args => (checkIsInList w s args.macAddress .ble).1 = none →
      (mpAlloc w.offer s.pool).1 ≠ none
  | _ => True

/-! ## The refinement -/

def EpisodeLog.firsts (log : EpisodeLog) : List Sighting :=
  (log.closed ++ log.opened).map Episode.first

structure Refines (o : Observed) : Prop where
  br : o.tracker.brObjectList = []
  opened : o.tracker.nodes .ble = o.log.opened.map Episode.summary
  closed : o.removed = o.log.closed.map Episode.summary
  fits : ∀ s ∈ o.log.opened.map Episode.first, FitsMac s.args.macAddress
  distinct : (o.log.opened.map Episode.first).Pairwise fun s t =>
    cstr s.args.macAddress ≠ cstr t.args.macAddress
  before : ∀ s ∈ o.log.firsts, s.reading < o.tracker.readings
  ordered : o.log.firsts.Pairwise fun s t => s.reading < t.reading

theorem summary_mac {e : Episode} (h : FitsMac e.first.args.macAddress) :
    cstr e.summary.scannedMacAddress = e.mac := by
  rw [Episode.summary, strncpy, List.take_of_length_le (Nat.le_of_lt h), cstr_cstr]
  rfl

theorem hasMac_summary {e : Episode} (h : FitsMac e.first.args.macAddress) (address : Str) :
    hasMac address e.summary = true ↔ e.mac = cstr address := by
  have hfits : FitsMac e.summary.scannedMacAddress := by
    rw [FitsMac, strlen, summary_mac h]
    exact h
  rw [hasMac_iff hfits, summary_mac h]
  exact eq_comm

theorem continueEpisode_first (mac : Str) (t : Touch) (episodes : List Episode) :
    (continueEpisode mac t episodes).map Episode.first = episodes.map Episode.first := by
  rw [continueEpisode, List.map_map]
  refine List.map_congr_left fun e _ => ?_
  rw [Function.comp]
  split <;> rfl

theorem continueEpisode_of_none {mac : Str} {t : Touch} {episodes : List Episode}
    (h : ∀ e ∈ episodes, e.mac ≠ mac) : continueEpisode mac t episodes = episodes := by
  rw [continueEpisode]
  conv_rhs => rw [← List.map_id episodes]
  exact List.map_congr_left fun e he => if_neg (h e he)

theorem Refines.fits_mem {o : Observed} (h : Refines o) {e : Episode} (he : e ∈ o.log.opened) :
    FitsMac e.first.args.macAddress := h.fits _ (List.mem_map_of_mem he)

theorem Refines.exists_episode {o : Observed} (h : Refines o) (address : Str) :
    (∃ a ∈ o.tracker.bleObjectList, hasMac address (o.tracker.dev a) = true) ↔
      ∃ e ∈ o.log.opened, e.mac = cstr address := by
  have hnodes : (∃ d ∈ o.tracker.nodes .ble, hasMac address d = true) ↔
      ∃ a ∈ o.tracker.bleObjectList, hasMac address (o.tracker.dev a) = true := by
    simp [Tracker.nodes, Tracker.tracked]
  rw [← hnodes, h.opened]
  simp only [List.mem_map, exists_exists_and_eq_and]
  constructor
  · rintro ⟨e, he, hmac⟩
    exact ⟨e, he, (hasMac_summary (h.fits_mem he) address).mp hmac⟩
  · rintro ⟨e, he, hmac⟩
    exact ⟨e, he, (hasMac_summary (h.fits_mem he) address).mpr hmac⟩

theorem Refines.unique {o : Observed} (h : Refines o) {a b : Slot}
    (ha : a ∈ o.tracker.bleObjectList) (hb : b ∈ o.tracker.bleObjectList) (hab : a ≠ b) :
    o.tracker.mac a ≠ o.tracker.mac b := by
  have hsummaries : (o.log.opened.map Episode.summary).Pairwise fun d d' =>
      cstr d.scannedMacAddress ≠ cstr d'.scannedMacAddress := by
    rw [List.pairwise_map]
    have := h.distinct
    rw [List.pairwise_map] at this
    refine this.imp_of_mem fun he hf hne => ?_
    rw [summary_mac (h.fits_mem he), summary_mac (h.fits_mem hf)]
    exact hne
  rw [← h.opened, Tracker.nodes, List.pairwise_map] at hsummaries
  have : Std.Symm fun x y : Slot => o.tracker.mac x ≠ o.tracker.mac y := ⟨fun _ _ hne => hne.symm⟩
  exact List.Pairwise.forall (R := fun x y => o.tracker.mac x ≠ o.tracker.mac y) hsummaries ha hb hab

theorem Refines.write {o : Observed} (h : Refines o) {address : Str} {a : Slot}
    (ha : a ∈ o.tracker.bleObjectList) (hmac : hasMac address (o.tracker.dev a) = true)
    (f : ScannedDevice → ScannedDevice) (t : Touch)
    (hf : ∀ e : Episode, (e.add t).summary = f e.summary) :
    (o.tracker.setDev a (f (o.tracker.dev a))).nodes .ble =
      (continueEpisode (cstr address) t o.log.opened).map Episode.summary := by
  have hfit : ∀ b ∈ o.tracker.bleObjectList, FitsMac (o.tracker.dev b).scannedMacAddress := by
    intro b hb
    have hmem : o.tracker.dev b ∈ o.log.opened.map Episode.summary := by
      rw [← h.opened]
      exact List.mem_map_of_mem hb
    obtain ⟨e, he, heq⟩ := List.mem_map.mp hmem
    rw [← heq, FitsMac, strlen, summary_mac (h.fits_mem he)]
    exact h.fits_mem he
  have haddr : cstr address = o.tracker.mac a := (hasMac_iff (hfit a ha)).mp hmac
  have hlist : (o.tracker.setDev a (f (o.tracker.dev a))).nodes .ble =
      (o.tracker.nodes .ble).map fun d =>
        if cstr d.scannedMacAddress = cstr address then f d else d := by
    rw [Tracker.nodes, Tracker.nodes, List.map_map]
    refine List.map_congr_left fun b hb => ?_
    simp only [Tracker.setDev, Function.comp]
    by_cases hba : b = a
    · rw [if_pos hba, hba, haddr, if_pos (show cstr _ = o.tracker.mac a from rfl)]
    · rw [if_neg hba, haddr]
      exact (if_neg (h.unique hb ha hba)).symm
  rw [hlist, h.opened, continueEpisode, List.map_map, List.map_map]
  refine List.map_congr_left fun e he => ?_
  simp only [Function.comp, summary_mac (h.fits_mem he)]
  split
  · exact (hf e).symm
  · rfl

/-! ## Sightings and responses -/

theorem Refines.continue {o o' : Observed} (h : Refines o) (address : Str) (t : Touch)
    (hbr : o'.tracker.brObjectList = o.tracker.brObjectList)
    (hread : o.tracker.readings ≤ o'.tracker.readings)
    (hopened : o'.tracker.nodes .ble =
      (continueEpisode (cstr address) t o.log.opened).map Episode.summary)
    (hremoved : o'.removed = o.removed)
    (hlog : o'.log = { o.log with opened := continueEpisode (cstr address) t o.log.opened }) :
    Refines o' := by
  have hfirst := continueEpisode_first (cstr address) t o.log.opened
  have hfirsts : o'.log.firsts = o.log.firsts := by
    rw [hlog, EpisodeLog.firsts, EpisodeLog.firsts, List.map_append, List.map_append, hfirst]
  constructor
  · rw [hbr]
    exact h.br
  · rw [hopened, hlog]
  · rw [hremoved, hlog]
    exact h.closed
  · rw [hlog, hfirst]
    exact h.fits
  · rw [hlog, hfirst]
    exact h.distinct
  · rw [hfirsts]
    exact fun s hs => Nat.lt_of_lt_of_le (h.before s hs) hread
  · rw [hfirsts]
    exact h.ordered

theorem Refines.open {o o' : Observed} (h : Refines o) {s : Sighting}
    (hbr : o'.tracker.brObjectList = o.tracker.brObjectList)
    (hread : o'.tracker.readings = o.tracker.readings + 1)
    (hreading : s.reading = o.tracker.readings)
    (hopened : o'.tracker.nodes .ble = o.tracker.nodes .ble ++ [newDevice s.time s.args])
    (hremoved : o'.removed = o.removed) (hfull : FullMac s.args.macAddress)
    (hnew : ∀ e ∈ o.log.opened, e.mac ≠ cstr s.args.macAddress)
    (hlog : o'.log = { o.log with opened := o.log.opened ++ [⟨s, []⟩] }) : Refines o' := by
  have hfirsts : o'.log.firsts = o.log.firsts ++ [s] := by
    rw [hlog, EpisodeLog.firsts, EpisodeLog.firsts, ← List.append_assoc, List.map_append]
    rfl
  constructor
  · rw [hbr]
    exact h.br
  · rw [hopened, hlog, h.opened, List.map_append, ← summary_first]
    rfl
  · rw [hremoved, hlog]
    exact h.closed
  · rw [hlog, List.map_append]
    intro t ht
    rcases List.mem_append.mp ht with ht | ht
    · exact h.fits t ht
    · rw [List.mem_singleton.mp ht]
      exact hfull.fits
  · rw [hlog, List.map_append]
    refine List.pairwise_append.mpr ⟨h.distinct, List.pairwise_singleton _ _, ?_⟩
    intro t ht u hu
    rw [List.mem_singleton.mp hu]
    obtain ⟨e, he, rfl⟩ := List.mem_map.mp ht
    exact hnew e he
  · rw [hfirsts, hread]
    intro t ht
    rcases List.mem_append.mp ht with ht | ht
    · exact Nat.lt_succ_of_lt (h.before t ht)
    · rw [List.mem_singleton.mp ht, hreading]
      exact Nat.lt_succ_self _
  · rw [hfirsts]
    refine List.pairwise_append.mpr ⟨h.ordered, List.pairwise_singleton _ _, ?_⟩
    intro t ht u hu
    rw [List.mem_singleton.mp hu, hreading]
    exact h.before t ht

theorem Refines.push {cfg : Config} {w : World} {o : Observed} (h : Refines o)
    (hs : Placed o.tracker) {args : PushArgs} (hfull : FullMac args.macAddress)
    (halloc : AllocSucceeds w o.tracker (.push .ble args)) :
    Refines (observe cfg w o (.push .ble args)) := by
  have hexists := h.exists_episode args.macAddress
  rcases check_ble_cases w o.tracker args.macAddress with ⟨a, ha, hmac, heq⟩ | ⟨hnone, heq⟩
  · have hstep : step cfg w o.tracker (.push .ble args) =
        o.tracker.updated a (w.clock o.tracker.readings) args := by
      rw [step, sendToPushDongle, heq]
      rfl
    refine h.continue args.macAddress
      (.sighting ⟨args, o.tracker.readings, w.clock o.tracker.readings⟩) ?_ ?_ ?_ rfl ?_
    · rw [observe, hstep]
      rfl
    · rw [observe, hstep]
      exact Nat.le_succ _
    · rw [observe, hstep]
      exact h.write ha hmac _ _ fun e => summary_sighting e _
    · rw [observe, heard, Option.elim_some, EpisodeLog.step, if_pos (hexists.mp ⟨a, ha, hmac⟩)]
  · have hmiss : ∀ e ∈ o.log.opened, e.mac ≠ cstr args.macAddress := by
      intro e he hmac
      obtain ⟨a, ha, hmac'⟩ := hexists.mpr ⟨e, he, hmac⟩
      rw [hnone a ha] at hmac'
      exact Bool.false_ne_true hmac'
    rcases mpAlloc_cases w.offer o.tracker.pool with ⟨q, hq, -, -⟩ | ⟨a, q, hq, hfresh, -, -⟩
    · refine absurd ?_ (halloc (by rw [heq]))
      rw [hq]
    · have hstep : step cfg w o.tracker (.push .ble args) =
          o.tracker.added q .ble a (newDevice (w.clock o.tracker.readings) args) := by
        rw [step, sendToPushDongle, heq]
        simp only [pushFound, hq]
        rfl
      refine h.open (s := ⟨args, o.tracker.readings, w.clock o.tracker.readings⟩) ?_ ?_ rfl ?_ rfl
        hfull hmiss ?_
      · rw [observe, hstep]
        rfl
      · rw [observe, hstep]
        rfl
      · rw [observe, hstep, Tracker.nodes, added_dev]
        change (o.tracker.bleObjectList ++ [a]).map _ = _
        rw [List.map_append, List.map_singleton, if_pos rfl]
        refine congrArg (· ++ _) (List.map_congr_left fun b hb => if_neg ?_)
        rintro rfl
        exact hfresh (hs.allocated b (Or.inr (Or.inr hb)))
      · refine if_neg ?_
        rintro ⟨e, he, hmac⟩
        exact hmiss e he hmac

theorem Refines.scanRsp {cfg : Config} {w : World} {o : Observed} (h : Refines o)
    (macAddress : Str) (payload : List UInt8) :
    Refines (observe cfg w o (.scanRsp macAddress payload)) := by
  have hexists := h.exists_episode macAddress
  have hlog : (observe cfg w o (.scanRsp macAddress payload)).log =
      { o.log with opened := continueEpisode (cstr macAddress) (.response payload) o.log.opened } := by
    rw [observe, heard, Option.elim_some, EpisodeLog.step]
  rcases check_ble_cases w o.tracker macAddress with ⟨a, ha, hmac, heq⟩ | ⟨hnone, heq⟩
  · have hwrite := h.write ha hmac
      (fun d => if d.isScanRspNeeded then { d with scanRsp := payload } else d)
      (.response payload) fun e => summary_response e payload
    have hstep : step cfg w o.tracker (.scanRsp macAddress payload) =
        if (o.tracker.dev a).isScanRspNeeded then
          o.tracker.setDev a { o.tracker.dev a with scanRsp := payload }
        else o.tracker := by
      rw [step, sendToPushDongleScanRsp, heq]
    refine h.continue macAddress (.response payload) ?_ ?_ ?_ rfl hlog
    · rw [observe, hstep]
      split <;> rfl
    · rw [observe, hstep]
      split <;> exact Nat.le_refl _
    · rw [← hwrite, observe, hstep]
      by_cases hneed : (o.tracker.dev a).isScanRspNeeded = true
      · simp only [if_pos hneed]
      · simp only [if_neg hneed]
        refine List.map_congr_left fun b _ => ?_
        simp only [Tracker.setDev]
        split
        next hba => rw [hba]
        next => rfl
  · have hstep : step cfg w o.tracker (.scanRsp macAddress payload) = o.tracker := by
      rw [step, sendToPushDongleScanRsp, heq]
    refine h.continue macAddress (.response payload) ?_ ?_ ?_ rfl hlog
    · rw [observe, hstep]
    · rw [observe, hstep]
    · rw [observe, hstep, h.opened, continueEpisode_of_none]
      intro e he hmac
      obtain ⟨a, ha, hmac'⟩ := hexists.mpr ⟨e, he, hmac⟩
      rw [hnone a ha] at hmac'
      exact Bool.false_ne_true hmac'

/-! ## Polls -/

theorem poll_removes (cfg : Config) (w : World) {s : Tracker} (hs : Placed s)
    (hbr : s.brObjectList = []) :
    ∃ moved kept, moved ++ kept = s.bleObjectList ∧ removedBy s (step cfg w s .poll) = moved.map s.dev ∧
      (step cfg w s .poll).bleObjectList = kept ∧ (step cfg w s .poll).brObjectList = [] ∧
      (step cfg w s .poll).dev = s.dev ∧ s.readings ≤ (step cfg w s .poll).readings := by
  rw [step]
  rcases handle_cases cfg w s with ⟨-, -, heq⟩ | ⟨-, -, heq⟩ | ⟨-, hbasic, heq⟩
  · rw [heq]
    refine ⟨[], s.bleObjectList, rfl, ?_, rfl, hbr, rfl, Nat.le_refl _⟩
    rw [removedBy, filter_of_split hs.ble_nodup (List.nil_append _)]
  · rw [heq]
    refine ⟨[], s.bleObjectList, rfl, ?_, rfl, hbr, rfl, Nat.le_succ _⟩
    exact congrArg (List.map s.dev) (filter_of_split hs.ble_nodup (List.nil_append _))
  · rw [heq]
    have hsplit := pollMoved_ble hbr hbasic (w := w)
    refine ⟨_, _, hsplit, ?_, rfl, ?_, rfl, Nat.le_add_right _ 2⟩
    · exact congrArg (List.map s.dev) (filter_of_split hs.ble_nodup hsplit)
    · rw [Tracker.polled, pollKept, Tracker.tracked, hbr]
      exact List.drop_nil

theorem Refines.poll {cfg : Config} {w : World} {o : Observed} (h : Refines o)
    (hs : Placed o.tracker) : Refines (observe cfg w o .poll) := by
  obtain ⟨moved, kept, hsplit, hremoved, hkept, hbr, hdev, hread⟩ := poll_removes cfg w hs h.br
  have hnodes : moved.map o.tracker.dev ++ kept.map o.tracker.dev =
      o.log.opened.map Episode.summary := by
    rw [← List.map_append, hsplit]
    exact h.opened
  have hmoved : moved.map o.tracker.dev =
      (o.log.opened.take moved.length).map Episode.summary := by
    rw [List.map_take, ← hnodes, List.take_append_of_le_length (by simp), List.take_of_length_le
      (by simp)]
  have hstay : kept.map o.tracker.dev =
      (o.log.opened.drop moved.length).map Episode.summary := by
    rw [List.map_drop, ← hnodes, List.drop_append_of_le_length (by simp), List.drop_of_length_le
      (by simp), List.nil_append]
  have hlog : (observe cfg w o .poll).log =
      ⟨o.log.closed ++ o.log.opened.take moved.length, o.log.opened.drop moved.length⟩ := by
    rw [observe, heard, Option.elim_some, EpisodeLog.step, hremoved, List.length_map]
  have hfirsts : (observe cfg w o .poll).log.firsts = o.log.firsts := by
    rw [hlog, EpisodeLog.firsts, EpisodeLog.firsts, List.append_assoc, List.take_append_drop]
  have hsub : ((o.log.opened.drop moved.length).map Episode.first).Sublist
      (o.log.opened.map Episode.first) := (List.drop_sublist _ _).map _
  constructor
  · exact hbr
  · rw [hlog, ← hstay, Tracker.nodes, Tracker.tracked, observe, hkept, hdev]
  · rw [hlog, List.map_append, ← h.closed, ← hmoved, ← hremoved, observe]
    simp only [if_true]
  · rw [hlog]
    exact fun s hs' => h.fits s (hsub.subset hs')
  · rw [hlog]
    exact h.distinct.sublist hsub
  · rw [hfirsts]
    exact fun s hs' => Nat.lt_of_lt_of_le (h.before s hs') hread
  · rw [hfirsts]
    exact h.ordered

/-- The records of the removed nodes, each once and in order, without the discarded ones. -/
def recordsText (nodes : List ScannedDevice) : Str :=
  listHeader .ble (nodes.filter fun d => !isDiscarded d).length ++
    (nodes.filter fun d => !isDiscarded d).flatMap deviceRecord

/-- A poll removes nothing and sends nothing, or it sends the records of what it removes. -/
def PollPrints (cfg : Config) (w : World) (s : Tracker) : Prop :=
  (removedBy s (step cfg w s .poll) = [] ∧ (step cfg w s .poll).sent = s.sent) ∨
  ∃ now, (step cfg w s .poll).sent = s.sent ++
    [basicInfoText cfg now ++ "0;0;".toList ++ recordsText (removedBy s (step cfg w s .poll))]

theorem poll_prints (cfg : Config) (w : World) {s : Tracker} (hs : Placed s)
    (hbr : s.brObjectList = []) : PollPrints cfg w s := by
  unfold PollPrints
  rw [step]
  rcases handle_cases cfg w s with ⟨-, hnil, heq⟩ | ⟨-, -, heq⟩ | ⟨-, hbasic, heq⟩
  · rw [heq, removedBy, hnil]
    exact Or.inl ⟨rfl, rfl⟩
  · rw [heq]
    refine Or.inl ⟨?_, rfl⟩
    exact congrArg (List.map s.dev) (filter_of_split hs.ble_nodup (List.nil_append _))
  · rw [heq]
    refine Or.inr ⟨w.clock s.readings, ?_⟩
    have hremoved : removedBy s (s.polled cfg w) = (pollMoved cfg w s .ble).map s.dev :=
      congrArg (List.map s.dev) (filter_of_split hs.ble_nodup (pollMoved_ble hbr hbasic))
    rw [hremoved, recordsText, ← bleText_eq, ← brText_of_nil cfg w hbr]
    rfl

/-! ## Runs -/

theorem refines_step {cfg : Config} {w : World} {o : Observed} (h : Refines o)
    (hs : Placed o.tracker) {op : Op} (hop : op.BleTraffic) (halloc : AllocSucceeds w o.tracker op) :
    Refines (observe cfg w o op) := by
  cases op with
  | push deviceType args =>
    cases deviceType with
    | ble => exact h.push hs hop halloc
    | brEdr => exact absurd hop id
    | maxType => exact absurd hop id
  | scanRsp macAddress payload => exact h.scanRsp macAddress payload
  | check address list => exact absurd hop id
  | poll => exact h.poll hs
  | cleanup list => exact absurd hop id

theorem refines_run (cfg : Config) (w : World) {ops : List Op} (hops : ∀ op ∈ ops, op.BleTraffic)
    (halloc : ∀ pre op, pre ++ [op] <+: ops → AllocSucceeds w (run cfg w pre) op) :
    Refines (observedRun cfg w ops) := by
  apply Machine.foldl_invariant
  · constructor <;> simp [Tracker.init, Tracker.nodes, Tracker.tracked, EpisodeLog.firsts]
  · intro pre op hpre h
    have htracker : (pre.foldl (observe cfg w) ⟨.init, [], [], []⟩).tracker = run cfg w pre :=
      observedRun_tracker cfg w pre
    refine refines_step h ?_ (hops op (Machine.mem_of_step hpre)) ?_
    · rw [htracker]
      exact placed_run cfg w pre
    · rw [htracker]
      exact halloc pre op hpre

/-- The removed nodes and then the linked ones are the summaries of the episodes, in the order
of their first sightings, and every poll prints what it removes. -/
theorem ble_list_refines_episodes (cfg : Config) (w : World) (ops : List Op)
    (hops : ∀ op ∈ ops, op.BleTraffic)
    (halloc : ∀ pre op, pre ++ [op] <+: ops → AllocSucceeds w (run cfg w pre) op) :
    (observedRun cfg w ops).removed ++ (run cfg w ops).nodes .ble =
        ((observedRun cfg w ops).log.closed ++ (observedRun cfg w ops).log.opened).map
          Episode.summary ∧
      (observedRun cfg w ops).log.firsts.Pairwise (fun s t => s.reading < t.reading) ∧
      ∀ pre, pre ++ [.poll] <+: ops → PollPrints cfg w (run cfg w pre) := by
  have h := refines_run cfg w hops halloc
  refine ⟨?_, h.ordered, ?_⟩
  · rw [List.map_append, ← h.closed, ← h.opened, observedRun_tracker]
  · intro pre hpre
    refine poll_prints cfg w (placed_run cfg w pre) ?_
    have hpre' : pre <+: ops := (List.prefix_append _ _).trans hpre
    have hrefines := refines_run cfg w (fun op hop => hops op (hpre'.subset hop))
      fun pre' op hpre'' => halloc pre' op (hpre''.trans hpre')
    rw [← observedRun_tracker]
    exact hrefines.br

/-! ## A sighting, its response and a poll -/

def episodeConfig : Config := ⟨"0000".toList, "192.168.0.2".toList, -100, [], []⟩

def episodeWorld : World := ⟨fun k => if k = 0 then 100 else 160, some, some⟩

def episodeOps : List Op :=
  [.push .ble ⟨"AA:BB:CC:DD:EE:FF".toList, -60, 1, 0, true, true, [1, 2]⟩,
    .scanRsp "AA:BB:CC:DD:EE:FF".toList [3], .poll]

example : (run episodeConfig episodeWorld episodeOps).sent =
    ["8;4;1.3;0000;160;192.168.0.2;0;0;1;1;AA:BB:CC:DD:EE:FF;100;100;-60;1;0;010203;".toList] := by
  decide +kernel

theorem ble_list_refines_one_episode :
    (observedRun episodeConfig episodeWorld episodeOps).removed ++
          (run episodeConfig episodeWorld episodeOps).nodes .ble =
        ((observedRun episodeConfig episodeWorld episodeOps).log.closed ++
          (observedRun episodeConfig episodeWorld episodeOps).log.opened).map Episode.summary ∧
      (observedRun episodeConfig episodeWorld episodeOps).log.firsts.Pairwise
        (fun s t => s.reading < t.reading) ∧
      ∀ pre, pre ++ [.poll] <+: episodeOps →
        PollPrints episodeConfig episodeWorld (run episodeConfig episodeWorld pre) := by
  refine ble_list_refines_episodes episodeConfig episodeWorld episodeOps ?_ ?_
  · intro op hop
    simp only [episodeOps, List.mem_cons, List.not_mem_nil, or_false] at hop
    rcases hop with rfl | rfl | rfl
    · exact ⟨by decide, by decide⟩
    · trivial
    · trivial
  · intro pre op hpre
    rcases pre with _ | ⟨op₁, _ | ⟨op₂, _ | ⟨op₃, rest⟩⟩⟩
    · obtain ⟨rfl, -⟩ := List.cons_prefix_cons.mp hpre
      intro _
      decide +kernel
    · obtain ⟨-, hrest⟩ := List.cons_prefix_cons.mp hpre
      obtain ⟨rfl, -⟩ := List.cons_prefix_cons.mp hrest
      trivial
    · obtain ⟨-, hrest⟩ := List.cons_prefix_cons.mp hpre
      obtain ⟨-, hrest⟩ := List.cons_prefix_cons.mp hrest
      obtain ⟨rfl, -⟩ := List.cons_prefix_cons.mp hrest
      trivial
    · have hlen : (op₁ :: op₂ :: op₃ :: rest ++ [op]).length ≤ 3 := hpre.length_le
      simp only [List.length_append, List.length_cons, List.length_nil] at hlen
      omega

end LBeacon
