import LBeacon.Lib.CText

/-!
# Files of lines

`fgets` on what is left of a file, as documented.
-/

namespace CText

/-- The characters up to the first newline, with it if there is one. -/
def firstLine (stream : Str) : Str :=
  stream.takeWhile (· ≠ '\n') ++ (stream.dropWhile (· ≠ '\n')).take 1

/-- The line that goes to a buffer of `n` characters, unless the file is at its end, and what is
left of the file. A longer line is cut, and the next call reads on in it. -/
def fgets (n : Nat) (stream : Str) : Option Str × Str :=
  let line := (firstLine stream).take (n - 1)
  (if line = [] then none else some line, stream.drop line.length)

theorem firstLine_append {l : Str} (hl : '\n' ∉ l) (rest : Str) :
    firstLine (l ++ '\n' :: rest) = l ++ ['\n'] := by
  have hpos : ∀ c ∈ l, (decide (c ≠ '\n')) = true := fun c hc => by
    simpa using ne_of_mem_of_not_mem hc hl
  unfold firstLine
  rw [List.takeWhile_append_of_pos hpos, List.dropWhile_append_of_pos hpos]
  simp

theorem firstLine_ne_nil {stream : Str} (h : stream ≠ []) : firstLine stream ≠ [] := by
  unfold firstLine
  intro hnil
  obtain ⟨htake, hdrop⟩ := List.append_eq_nil_iff.mp hnil
  have hall : stream.takeWhile (· ≠ '\n') ++ stream.dropWhile (· ≠ '\n') = stream :=
    List.takeWhile_append_dropWhile
  rw [htake, List.nil_append] at hall
  rw [hall, List.take_eq_nil_iff] at hdrop
  exact hdrop.elim (fun h => absurd h (by decide)) h

end CText
