import LBeacon.Examine
import LBeacon.Lib.Machine

/-! # The slots of `temp_ble_device_mempool` -/

open CText

namespace LBeacon

/-! ## Runs -/

inductive ScanEvent where
  | report (info : TempBleDevice)
  | batch

def scanStep (cfg : Config) (w : World) (s : Scanner) : ScanEvent → Scanner
  | .report info => startBleScanning w s info
  | .batch => examineScannedBleDevice cfg w s

def TempBleDevice.blank : TempBleDevice := ⟨⟨"00:00:00:00:00:00".toList, by decide⟩, 0, [], 0⟩

def Scanner.init : Scanner := ⟨.init, fun _ => .blank, [], .empty⟩

def scanRun (cfg : Config) (w : World) (events : List ScanEvent) : Scanner :=
  events.foldl (scanStep cfg w) .init

theorem scanRun_snoc (cfg : Config) (w : World) (events : List ScanEvent) (e : ScanEvent) :
    scanRun cfg w (events ++ [e]) = scanStep cfg w (scanRun cfg w events) e := by
  simp [scanRun]

/-! ## One step -/

/-- The detached nodes that a batch passes to `mp_free`. -/
def strongNodes (cfg : Config) (s : Scanner) (slots : List Slot) : List Slot :=
  slots.filter fun a => !(s.temp a).isWeak cfg

theorem examineNode_temp (cfg : Config) (w : World) (s : Scanner) (a : Slot) :
    (examineNode cfg w s a).temp = s.temp ∧
      (examineNode cfg w s a).tempBleDeviceList = s.tempBleDeviceList := by
  unfold examineNode
  split <;> exact ⟨rfl, rfl⟩

theorem examineNode_pool (cfg : Config) (w : World) (s : Scanner) (a : Slot) :
    (examineNode cfg w s a).tempBleDeviceMempool =
      if (s.temp a).isWeak cfg then s.tempBleDeviceMempool
      else mpFree s.tempBleDeviceMempool a := by
  unfold examineNode
  split <;> rfl

theorem examine_loop (cfg : Config) (w : World) (slots : List Slot) (s : Scanner) :
    let s' := slots.foldl (examineNode cfg w) s
    s'.temp = s.temp ∧ s'.tempBleDeviceList = s.tempBleDeviceList ∧
      s'.tempBleDeviceMempool.frees = s.tempBleDeviceMempool.frees ++ strongNodes cfg s slots ∧
      ∀ b, b ∈ s'.tempBleDeviceMempool.outstanding ↔
        b ∈ s.tempBleDeviceMempool.outstanding ∧ b ∉ strongNodes cfg s slots := by
  induction slots generalizing s with
  | nil => simp [strongNodes]
  | cons a slots ih =>
    obtain ⟨htemp, hlist⟩ := examineNode_temp cfg w s a
    obtain ⟨ih1, ih2, ih3, ih4⟩ := ih (examineNode cfg w s a)
    have hstrong : strongNodes cfg (examineNode cfg w s a) slots = strongNodes cfg s slots := by
      rw [strongNodes, htemp]; rfl
    rw [hstrong] at ih3 ih4
    refine ⟨ih1.trans htemp, ih2.trans hlist, ?_, ?_⟩
    · rw [List.foldl_cons, ih3, examineNode_pool]
      by_cases hw : (s.temp a).isWeak cfg = true
      · simp [strongNodes, hw]
      · simp [strongNodes, hw]
    · intro b
      rw [List.foldl_cons, ih4, examineNode_pool]
      by_cases hw : (s.temp a).isWeak cfg = true
      · simp [strongNodes, hw]
      · rw [if_neg hw, mem_mpFree]
        simp only [strongNodes, List.filter_cons, hw, Bool.not_false, if_true, List.mem_cons, not_or]
        tauto

/-- Whatever the branches do, a linked node is allocated and linked once. -/
structure LinkedAllocated (s : Scanner) : Prop where
  allocated : ∀ a ∈ s.tempBleDeviceList, a ∈ s.tempBleDeviceMempool.outstanding
  nodup : s.tempBleDeviceList.Nodup

theorem linkedAllocated_step (cfg : Config) (w : World) (s : Scanner) (e : ScanEvent)
    (h : LinkedAllocated s) : LinkedAllocated (scanStep cfg w s e) := by
  cases e with
  | batch =>
    obtain ⟨-, hlist, -, -⟩ := examine_loop cfg w s.tempBleDeviceList { s with tempBleDeviceList := [] }
    constructor
    · intro a ha
      rw [scanStep, examineScannedBleDevice, hlist] at ha
      simp at ha
    · rw [scanStep, examineScannedBleDevice, hlist]
      exact List.nodup_nil
  | report info =>
    simp only [scanStep, startBleScanning]
    split
    · rcases mpAlloc_cases w.tempOffer s.tempBleDeviceMempool with
        ⟨q, hq, ho, -⟩ | ⟨a, q, hq, hfresh, ho, -⟩
      · rw [hq]
        exact ⟨fun a ha => by rw [ho]; exact h.allocated a ha, h.nodup⟩
      · rw [hq]
        constructor
        · intro b hb
          rw [ho]
          rcases List.mem_append.mp hb with hb | hb
          · exact List.mem_cons_of_mem _ (h.allocated b hb)
          · rw [List.mem_singleton.mp hb]
            exact List.mem_cons_self
        · refine List.nodup_append.mpr ⟨h.nodup, by simp, ?_⟩
          rintro b hb c hc rfl
          rw [List.mem_singleton] at hc
          subst hc
          exact hfresh (h.allocated b hb)
    · exact h

theorem linkedAllocated_run (cfg : Config) (w : World) (events : List ScanEvent) :
    LinkedAllocated (scanRun cfg w events) := by
  apply Machine.foldl_invariant
  · exact ⟨by simp [Scanner.init], List.nodup_nil⟩
  · intro pre e _ h
    exact linkedAllocated_step cfg w _ e h

/-! ## Conservation -/

/-- The outstanding slots are exactly the linked nodes. -/
def SlotsConserved (s : Scanner) : Prop :=
  ∀ a, a ∈ s.tempBleDeviceMempool.outstanding ↔ a ∈ s.tempBleDeviceList

/-- Every node that the batch detached was passed to `mp_free` exactly once. -/
def BatchFreesAll (cfg : Config) (w : World) (s : Scanner) : Prop :=
  (examineScannedBleDevice cfg w s).tempBleDeviceMempool.frees =
    s.tempBleDeviceMempool.frees ++ s.tempBleDeviceList

instance (cfg : Config) (w : World) (s : Scanner) : Decidable (BatchFreesAll cfg w s) :=
  inferInstanceAs (Decidable (_ = _))

/-- No node that the batch would detach is below the coverage. -/
def AllCovered (cfg : Config) (s : Scanner) : Prop :=
  ∀ a ∈ s.tempBleDeviceList, (s.temp a).isWeak cfg = false

theorem batchFreesAll_iff (cfg : Config) (w : World) (s : Scanner) :
    BatchFreesAll cfg w s ↔ AllCovered cfg s := by
  obtain ⟨-, -, hfrees, -⟩ := examine_loop cfg w s.tempBleDeviceList { s with tempBleDeviceList := [] }
  rw [BatchFreesAll, examineScannedBleDevice, hfrees, List.append_right_inj]
  simp [strongNodes, AllCovered, List.filter_eq_self]

theorem slotsConserved_step (cfg : Config) (w : World) (s : Scanner) (e : ScanEvent)
    (h : SlotsConserved s) (hcov : e = .batch → AllCovered cfg s) :
    SlotsConserved (scanStep cfg w s e) := by
  cases e with
  | batch =>
    obtain ⟨-, hlist, -, hout⟩ :=
      examine_loop cfg w s.tempBleDeviceList { s with tempBleDeviceList := [] }
    have hall : strongNodes cfg { s with tempBleDeviceList := [] } s.tempBleDeviceList =
        s.tempBleDeviceList := by
      rw [strongNodes, List.filter_eq_self]
      intro a ha
      simp [hcov rfl a ha]
    intro a
    rw [scanStep, examineScannedBleDevice, hout, hlist, hall]
    simp [h a]
  | report info =>
    simp only [scanStep, startBleScanning]
    split
    · rcases mpAlloc_cases w.tempOffer s.tempBleDeviceMempool with
        ⟨q, hq, ho, -⟩ | ⟨a, q, hq, -, ho, -⟩
      · rw [hq]
        intro b
        simp only [ho]
        exact h b
      · rw [hq]
        intro b
        simp only [ho, List.mem_cons, List.mem_append, List.not_mem_nil, or_false, h b]
        tauto
    · exact h

/-- Between the batches the slots that are out are the linked nodes, each linked once, and none when
the list is empty; and each batch frees all it detached. -/
structure RunConserves (cfg : Config) (w : World) (events : List ScanEvent) : Prop where
  nodup : ∀ pre, pre <+: events → (scanRun cfg w pre).tempBleDeviceList.Nodup
  conserved : ∀ pre, pre <+: events → SlotsConserved (scanRun cfg w pre)
  idle : ∀ pre, pre <+: events → (scanRun cfg w pre).tempBleDeviceList = [] →
    (scanRun cfg w pre).tempBleDeviceMempool.outstanding = []
  freed : ∀ pre, pre ++ [.batch] <+: events → BatchFreesAll cfg w (scanRun cfg w pre)

/-- A run conserves the slots exactly when no batch examines a report below the coverage. -/
theorem temp_slots_conserved_iff (cfg : Config) (w : World) (events : List ScanEvent) :
    RunConserves cfg w events ↔
      ∀ pre, pre ++ [.batch] <+: events → AllCovered cfg (scanRun cfg w pre) := by
  constructor
  · intro h pre hpre
    exact (batchFreesAll_iff cfg w _).mp (h.freed pre hpre)
  · intro hcov
    have hcons : ∀ pre, pre <+: events → SlotsConserved (scanRun cfg w pre) := by
      intro pre
      induction pre using List.reverseRecOn with
      | nil =>
        intro _ a
        simp [scanRun, Scanner.init, Pool.empty]
      | append_singleton pre e ih =>
        intro hpre
        rw [scanRun_snoc]
        refine slotsConserved_step cfg w _ e (ih ((List.prefix_append _ _).trans hpre)) ?_
        rintro rfl
        exact hcov pre hpre
    refine ⟨fun pre _ => (linkedAllocated_run cfg w pre).nodup, hcons, ?_,
      fun pre hpre => (batchFreesAll_iff cfg w _).mpr (hcov pre hpre)⟩
    intro pre hpre hnil
    refine List.eq_nil_iff_forall_not_mem.mpr fun a ha => ?_
    have := (hcons pre hpre a).mp ha
    simp [hnil] at this

/-! ## One weak report -/

def leakConfig : Config := ⟨[], [], -80, [], []⟩

def leakWorld : World := ⟨fun _ => 0, fun _ => none, fun k => some k⟩

/-- An ADV_IND report at -90 dBm, below the coverage of -80 dBm. -/
def weakReport : TempBleDevice := ⟨⟨"00:00:00:00:00:00".toList, by decide⟩, 0, [], -90⟩

/-- Its slot stays out although the list is empty again. -/
theorem temp_slot_leaks :
    ¬ RunConserves leakConfig leakWorld [.report weakReport, .batch] := by
  intro h
  have hfreed := h.freed [.report weakReport] List.prefix_rfl
  exact absurd hfreed (by decide +kernel)

end LBeacon
