import LBeacon.Lib.CMemory
import Mathlib.Algebra.BigOperators.Group.List.Basic

/-!
# Delimited texts

Parts with a delimiter between them, and perhaps one behind the last. The fields of such a text
are its parts again.
-/

open CText

namespace CMemory

/-- The parts, and an empty one when a delimiter stands at the end. -/
def delimited (delim : Char) (parts : List Str) (trailing : Bool) : Str :=
  [delim].intercalate (parts ++ if trailing then [[]] else [])

variable {delim : Char} {parts : List Str} {trailing : Bool}

theorem fields_delimited (hne : parts ≠ []) (hparts : ∀ p ∈ parts, delim ∉ p) :
    fields delim (delimited delim parts trailing) = parts ++ if trailing then [[]] else [] := by
  apply List.splitOn_intercalate delim
  · intro p hp
    rcases List.mem_append.mp hp with hp | hp
    · exact hparts p hp
    · split at hp
      · rw [List.mem_singleton.mp hp]
        exact List.not_mem_nil
      · exact absurd hp List.not_mem_nil
  · exact List.append_ne_nil_of_left_ne_nil hne _

theorem fieldAt_delimited (hne : parts ≠ []) (hparts : ∀ p ∈ parts, delim ∉ p) (k : Nat) :
    fieldAt delim (delimited delim parts trailing) k = parts.getD k [] := by
  rw [fieldAt, fields_delimited hne hparts, List.getD_eq_getElem?_getD,
    List.getD_eq_getElem?_getD]
  rcases Nat.lt_or_ge k parts.length with hk | hk
  · rw [List.getElem?_append_left hk]
  · rw [List.getElem?_append_right hk, List.getElem?_eq_none hk]
    split
    · cases k - parts.length <;> rfl
    · rfl

theorem length_le_delimited (hne : parts ≠ []) (hparts : ∀ p ∈ parts, p ≠ [] ∧ delim ∉ p) :
    parts.length ≤ (delimited delim parts trailing).length := by
  have hflat := flatten_fields delim (delimited delim parts trailing)
  rw [fields_delimited hne fun p hp => (hparts p hp).2, List.flatten_append] at hflat
  calc parts.length = (parts.map List.length).length := (List.length_map _).symm
    _ ≤ (parts.map List.length).sum := by
      apply List.length_le_sum_of_one_le
      intro n hn
      obtain ⟨p, hp, rfl⟩ := List.mem_map.mp hn
      exact List.length_pos_iff.mpr (hparts p hp).1
    _ = parts.flatten.length := List.length_flatten.symm
    _ ≤ ((delimited delim parts trailing).filter (· ≠ delim)).length := by
      rw [← hflat, List.length_append]
      exact Nat.le_add_right _ _
    _ ≤ (delimited delim parts trailing).length := List.length_filter_le _ _

theorem mem_intercalate {c : Char} {l : List Str} (h : c ∈ [delim].intercalate l) :
    c = delim ∨ ∃ p ∈ l, c ∈ p := by
  induction l with
  | nil => exact absurd h List.not_mem_nil
  | cons p l ih =>
    cases l with
    | nil =>
      rw [List.intercalate_singleton] at h
      exact Or.inr ⟨p, List.mem_singleton_self p, h⟩
    | cons q l =>
      rw [List.intercalate_cons_cons, List.append_assoc] at h
      rcases List.mem_append.mp h with hp | hrest
      · exact Or.inr ⟨p, List.mem_cons_self, hp⟩
      rcases List.mem_append.mp hrest with hdelim | hrest
      · exact Or.inl (List.mem_singleton.mp hdelim)
      · rcases ih hrest with hdelim | ⟨p', hp', hc⟩
        · exact Or.inl hdelim
        · exact Or.inr ⟨p', List.mem_cons_of_mem _ hp', hc⟩

theorem mem_delimited {c : Char} (h : c ∈ delimited delim parts trailing) :
    c = delim ∨ ∃ p ∈ parts, c ∈ p := by
  rcases mem_intercalate h with hdelim | ⟨p, hp, hc⟩
  · exact Or.inl hdelim
  rcases List.mem_append.mp hp with hp | hp
  · exact Or.inr ⟨p, hp, hc⟩
  · split at hp
    · rw [List.mem_singleton.mp hp] at hc
      exact absurd hc List.not_mem_nil
    · exact absurd hp List.not_mem_nil

end CMemory
