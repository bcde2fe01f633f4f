import Mathlib.Data.List.Basic

/-!
# Length-prefixed records

A byte that counts what follows it, a byte for the kind, the body. A walk passes over the
records of kinds that it skips.
-/

namespace LengthPrefixed

structure Record where
  kind : UInt8
  body : List UInt8
  fits : body.length + 1 < 256

variable {r s : Record} {bs bs' rest rest' : List UInt8}

namespace Record

/-- What the length byte says: the kind and the body. -/
def length (r : Record) : Nat := r.body.length + 1

def bytes (r : Record) : List UInt8 := UInt8.ofNat r.length :: r.kind :: r.body

theorem toNat_length (r : Record) : (UInt8.ofNat r.length).toNat = r.length := by
  rw [UInt8.toNat_ofNat']
  apply Nat.mod_eq_of_lt r.fits

@[simp] theorem length_bytes (r : Record) : r.bytes.length = r.length + 1 := by
  simp [bytes, length]

theorem bytes_append_inj (h : r.bytes ++ rest = s.bytes ++ rest') : r = s ∧ rest = rest' := by
  have hhead : UInt8.ofNat r.length = UInt8.ofNat s.length := (List.cons.inj h).1
  have hlength : r.length = s.length := by
    rw [← r.toNat_length, hhead, s.toNat_length]
  obtain ⟨hbytes, hrest⟩ := List.append_inj h (by simp [hlength])
  simp only [bytes, List.cons.injEq] at hbytes
  obtain ⟨_, hkind, hbody⟩ := hbytes
  exact ⟨by cases r; cases s; simp_all, hrest⟩

theorem bytes_ne_nil (r : Record) : r.bytes ≠ [] := List.cons_ne_nil _ _

theorem flatMap_bytes_inj {rs ss : List Record} (h : rs.flatMap bytes = ss.flatMap bytes) :
    rs = ss := by
  induction rs generalizing ss with
  | nil =>
    cases ss with
    | nil => rfl
    | cons s ss => exact absurd (List.append_eq_nil_iff.mp h.symm).1 s.bytes_ne_nil
  | cons r rs ih =>
    cases ss with
    | nil => exact absurd (List.append_eq_nil_iff.mp h).1 r.bytes_ne_nil
    | cons s ss =>
      rw [List.flatMap_cons, List.flatMap_cons] at h
      obtain ⟨rfl, hrest⟩ := bytes_append_inj h
      rw [ih hrest]

theorem inside {L : UInt8} (h : L :: bs = r.bytes ++ rest) :
    L.toNat = r.length ∧ 0 < L.toNat ∧ L.toNat ≤ bs.length := by
  have hL : L.toNat = r.length := by rw [(List.cons.inj h).1, r.toNat_length]
  have hlength := congrArg List.length h
  simp only [List.length_cons, List.length_append, length_bytes] at hlength
  refine ⟨hL, ?_, by omega⟩
  rw [hL]
  apply Nat.succ_pos

end Record

/-! ## Walks -/

variable {skips : UInt8 → Prop}

/-- `rest` is what is left of `bs` after some records of kinds that are skipped. -/
inductive Walks (skips : UInt8 → Prop) : List UInt8 → List UInt8 → Prop
  | stay (bs : List UInt8) : Walks skips bs bs
  | skip {r : Record} {bs rest : List UInt8} (hskip : skips r.kind) (hwalk : Walks skips bs rest) :
    Walks skips (r.bytes ++ bs) rest

theorem walks_record_iff :
    Walks skips (r.bytes ++ bs) rest ↔
      rest = r.bytes ++ bs ∨ skips r.kind ∧ Walks skips bs rest := by
  constructor
  · intro h
    generalize hstart : r.bytes ++ bs = start at h
    cases h with
    | stay => exact Or.inl rfl
    | skip hskip hwalk =>
      obtain ⟨rfl, rfl⟩ := Record.bytes_append_inj hstart
      exact Or.inr ⟨hskip, hwalk⟩
  · rintro (rfl | ⟨hskip, hwalk⟩)
    · apply Walks.stay
    · apply Walks.skip hskip hwalk

/-- No record fits at the start. -/
def Stuck (bs : List UInt8) : Prop := ∀ (r : Record) (rest : List UInt8), bs ≠ r.bytes ++ rest

theorem walks_stuck_iff (hstuck : Stuck bs) : Walks skips bs rest ↔ rest = bs := by
  constructor
  · intro h
    cases h with
    | stay => rfl
    | skip => exact absurd rfl (hstuck _ _)
  · rintro rfl
    apply Walks.stay

theorem stuck_nil : Stuck [] := by
  intro r rest h
  simp [Record.bytes] at h

theorem stuck_cons {L : UInt8} (h : L.toNat = 0 ∨ bs.length < L.toNat) : Stuck (L :: bs) := by
  intro r rest heq
  obtain ⟨_, hpos, hle⟩ := Record.inside heq
  omega

/-! ## The first record of a kind that is not skipped -/

def Reaches (skips : UInt8 → Prop) (bs : List UInt8) (r : Record) : Prop :=
  ∃ rest, Walks skips bs (r.bytes ++ rest)

theorem reaches_record_iff :
    Reaches skips (r.bytes ++ bs) s ↔ s = r ∨ skips r.kind ∧ Reaches skips bs s := by
  unfold Reaches
  constructor
  · rintro ⟨rest, h⟩
    obtain heq | ⟨hskip, hwalk⟩ := walks_record_iff.mp h
    · exact Or.inl (Record.bytes_append_inj heq).1
    · exact Or.inr ⟨hskip, rest, hwalk⟩
  · rintro (rfl | ⟨hskip, rest, hwalk⟩)
    · exact ⟨bs, Walks.stay _⟩
    · exact ⟨rest, Walks.skip hskip hwalk⟩

theorem not_reaches_of_stuck (hstuck : Stuck bs) : ¬ Reaches skips bs r := by
  rintro ⟨rest, h⟩
  exact hstuck r rest ((walks_stuck_iff hstuck).mp h).symm

theorem first_unique (hr : Reaches skips bs r) (hs : Reaches skips bs s)
    (hrkind : ¬ skips r.kind) (hskind : ¬ skips s.kind) : r = s := by
  obtain ⟨rest, hwalk⟩ := hr
  generalize hend : r.bytes ++ rest = last at hwalk
  induction hwalk with
  | stay =>
    rw [← hend, reaches_record_iff] at hs
    simpa [hrkind, eq_comm] using hs
  | skip hskip _ ih =>
    obtain rfl | ⟨_, hs⟩ := reaches_record_iff.mp hs
    · exact absurd hskip hskind
    · exact ih hs hend

end LengthPrefixed
