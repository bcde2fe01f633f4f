import Mathlib.Algebra.Group.Nat.Defs
import Mathlib.Data.List.Basic

/-!
# Byte memory

Words of a given width in bytes, lowest byte first, and lists that are threaded through memory:
the word at each member is the address of the next.
-/

namespace Bytes

abbrev Memory := Nat → UInt8

def fill (m : Memory) (start length : Nat) (byte : UInt8) : Memory :=
  fun a => if start ≤ a ∧ a < start + length then byte else m a

def store (width : Nat) (m : Memory) (start value : Nat) : Memory :=
  fun a => if start ≤ a ∧ a < start + width then UInt8.ofNat (value / 256 ^ (a - start)) else m a

def load : Nat → Memory → Nat → Nat
  | 0, _, _ => 0
  | width + 1, m, start => (m start).toNat + 256 * load width m (start + 1)

variable {width start length value : Nat} {m m' : Memory}

/-! ## Ranges -/

def SameOn (start length : Nat) (m m' : Memory) : Prop :=
  ∀ a, start ≤ a → a < start + length → m a = m' a

theorem SameOn.refl (m : Memory) : SameOn start length m m := fun _ _ _ => rfl

theorem SameOn.trans {m'' : Memory} (h : SameOn start length m m')
    (h' : SameOn start length m' m'') : SameOn start length m m'' :=
  fun a hlow hhigh => (h a hlow hhigh).trans (h' a hlow hhigh)

theorem SameOn.mono {low short : Nat} (h : SameOn start length m m') (hlow : start ≤ low)
    (hhigh : low + short ≤ start + length) : SameOn low short m m' := by
  intro a ha ha'
  exact h a (by omega) (by omega)

/-- Two ranges of one length do not meet. -/
def Apart (length a b : Nat) : Prop := a + length ≤ b ∨ b + length ≤ a

theorem Apart.symm {a b : Nat} (h : Apart length a b) : Apart length b a := Or.symm h

instance : Std.Symm (Apart length) := ⟨fun _ _ h => h.symm⟩

theorem Apart.mono {short a b : Nat} (h : Apart length a b) (hle : short ≤ length) :
    Apart short a b := by
  unfold Apart at *
  omega

theorem fill_sameOn {a n : Nat} (h : a + n ≤ start ∨ start + length ≤ a) (byte : UInt8) :
    SameOn a n m (fill m start length byte) := by
  intro x hlow hhigh
  unfold fill
  rw [if_neg (by omega)]

theorem store_sameOn {a n : Nat} (h : a + n ≤ start ∨ start + width ≤ a) (value : Nat) :
    SameOn a n m (store width m start value) := by
  intro x hlow hhigh
  unfold store
  rw [if_neg (by omega)]

theorem fill_apply {a : Nat} (byte : UInt8) (h : start ≤ a) (h' : a < start + length) :
    fill m start length byte a = byte := if_pos ⟨h, h'⟩

/-! ## Words -/

theorem load_congr (h : SameOn start width m m') : load width m start = load width m' start := by
  induction width generalizing start with
  | zero => rfl
  | succ width ih =>
    have hrest : SameOn (start + 1) width m m' := fun a hlow hhigh => h a (by omega) (by omega)
    rw [load, load, h start (Nat.le_refl _) (by omega), ih hrest]

theorem store_succ (width : Nat) (m : Memory) (start value : Nat) :
    SameOn (start + 1) width (store (width + 1) m start value)
      (store width m (start + 1) (value / 256)) := by
  intro a hlow hhigh
  unfold store
  rw [if_pos (by omega), if_pos (by omega), Nat.div_div_eq_div_mul, ← Nat.pow_succ']
  congr
  omega

theorem load_store (h : value < 256 ^ width) :
    load width (store width m start value) start = value := by
  induction width generalizing start value with
  | zero =>
    rw [Nat.pow_zero] at h
    rw [load]
    omega
  | succ width ih =>
    have hrest : value / 256 < 256 ^ width := by
      rw [Nat.pow_succ] at h
      omega
    have hfirst : (store (width + 1) m start value start).toNat = value % 256 := by
      unfold store
      rw [if_pos (by omega), Nat.sub_self, Nat.pow_zero, Nat.div_one, UInt8.toNat_ofNat']
    rw [load, hfirst, load_congr (store_succ width m start value), ih hrest]
    omega

/-! ## Threaded lists -/

/-- From `head`, the words lead through these addresses to 0. -/
def Threaded (width : Nat) (m : Memory) : Nat → List Nat → Prop
  | head, [] => head = 0
  | head, a :: as => head = a ∧ a ≠ 0 ∧ Threaded width m (load width m a) as

theorem Threaded.congr {head : Nat} {as : List Nat} (h : Threaded width m head as)
    (hsame : ∀ a ∈ as, SameOn a width m m') : Threaded width m' head as := by
  induction as generalizing head with
  | nil => exact h
  | cons a as ih =>
    obtain ⟨hhead, hne, hrest⟩ := h
    rw [load_congr (hsame a (List.mem_cons_self ..))] at hrest
    exact ⟨hhead, hne, ih hrest fun b hb => hsame b (List.mem_cons_of_mem _ hb)⟩

theorem Threaded.push {head a : Nat} {as : List Nat} (h : Threaded width m head as) (ha : a ≠ 0)
    (hhead : head < 256 ^ width) (hapart : ∀ b ∈ as, Apart width a b) :
    Threaded width (store width m a head) a (a :: as) := by
  refine ⟨rfl, ha, ?_⟩
  rw [load_store hhead]
  exact h.congr fun b hb => store_sameOn (hapart b hb).symm _

theorem Threaded.pop {head a : Nat} {as : List Nat} (h : Threaded width m head (a :: as)) :
    head = a ∧ a ≠ 0 ∧ Threaded width m (load width m head) as := by
  obtain ⟨rfl, hne, hrest⟩ := h
  exact ⟨rfl, hne, hrest⟩

theorem Threaded.snoc {head last a : Nat} {as : List Nat}
    (h : Threaded width m head (as ++ [last])) (ha : a ≠ 0) (hfits : a < 256 ^ width)
    (hend : load width m a = 0) (hapart : Apart width last a)
    (hothers : ∀ b ∈ as, Apart width last b) :
    Threaded width (store width m last a) head (as ++ [last, a]) := by
  induction as generalizing head with
  | nil =>
    obtain ⟨hhead, hne, -⟩ := h
    have hsame : SameOn a width m (store width m last a) := store_sameOn hapart.symm _
    refine ⟨hhead, hne, ?_⟩
    rw [load_store hfits]
    exact ⟨rfl, ha, (load_congr hsame).symm.trans hend⟩
  | cons b as ih =>
    obtain ⟨hhead, hne, hrest⟩ := h
    have hsame : SameOn b width m (store width m last a) :=
      store_sameOn (hothers b (List.mem_cons_self ..)).symm _
    refine ⟨hhead, hne, ?_⟩
    rw [← load_congr hsame]
    exact ih hrest fun c hc => hothers c (List.mem_cons_of_mem _ hc)

theorem Threaded.eq_nil_iff {head : Nat} {as : List Nat} (h : Threaded width m head as) :
    head = 0 ↔ as = [] := by
  cases as with
  | nil => exact ⟨fun _ => rfl, fun _ => h⟩
  | cons a as =>
    obtain ⟨rfl, hne, -⟩ := h
    exact ⟨fun h => absurd h hne, fun h => absurd h (List.cons_ne_nil _ _)⟩

theorem Threaded.head_lt {head bound : Nat} {as : List Nat} (h : Threaded width m head as)
    (hbound : ∀ a ∈ as, a < bound) (hpos : 0 < bound) : head < bound := by
  cases as with
  | nil =>
    have hzero : head = 0 := h
    omega
  | cons a as => exact h.1 ▸ hbound a (List.mem_cons_self ..)

end Bytes
