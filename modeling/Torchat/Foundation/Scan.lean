import Torchat.Foundation.CString

/-!
Contract: lines of a file and words of a line.

A line ends with the newline behind it or with the file; a word is what `%s` of
`sscanf` reads. Owns both, what they leave behind, and their lengths.

Does not own the buffers that they are copied into.
-/

set_option autoImplicit false

namespace Torchat.Foundation

abbrev newline : Byte := 0x0A

/-- `isspace` in the C locale. -/
def isWhite (byte : Byte) : Bool := byte = 0x20 || (0x09 ≤ byte && byte ≤ 0x0D)

/-- The lines that `getline` reads, each with its newline. -/
def lines : Bytes → List Bytes
  | [] => []
  | byte :: rest =>
      if byte = newline then [byte] :: lines rest
      else
        match lines rest with
        | [] => [[byte]]
        | line :: more => (byte :: line) :: more

/-- A word and the text behind it; no word is left where the word is empty. -/
def scanWord (text : Bytes) : Bytes × Bytes :=
  let rest := text.dropWhile isWhite
  (rest.takeWhile fun byte => !isWhite byte, rest.dropWhile fun byte => !isWhite byte)

/-! ## Words -/

section Words

variable {text blanks word rest : Bytes}

theorem scanWord_mem {byte : Byte} (member : byte ∈ (scanWord text).1) : byte ∈ text :=
  (List.dropWhile_sublist _).subset ((List.takeWhile_sublist _).subset member)

theorem scanWord_rest_mem {byte : Byte} (member : byte ∈ (scanWord text).2) : byte ∈ text :=
  (List.dropWhile_sublist _).subset ((List.dropWhile_sublist _).subset member)

/-- Blanks in front of a word are skipped. -/
theorem scanWord_blanks (white : ∀ byte ∈ blanks, isWhite byte = true) (rest : Bytes) :
    scanWord (blanks ++ rest) = scanWord rest := by
  rw [scanWord, scanWord, List.dropWhile_append_of_pos white]

/-- A word ends at the first blank behind it. -/
theorem scanWord_word (nonempty : word ≠ []) (solid : ∀ byte ∈ word, isWhite byte = false)
    (ends : ∀ byte, rest.head? = some byte → isWhite byte = true) :
    scanWord (word ++ rest) = (word, rest) := by
  have kept : ∀ byte ∈ word, (!isWhite byte) = true := by
    intro byte member
    rw [solid byte member]
    rfl
  have starts : (word ++ rest).dropWhile isWhite = word ++ rest := by
    obtain ⟨first, more, rfl⟩ := List.exists_cons_of_ne_nil nonempty
    have solidFirst : ¬ isWhite first = true := by simp [solid first List.mem_cons_self]
    rw [List.cons_append, List.dropWhile_cons_of_neg solidFirst]
  rw [scanWord, starts, List.takeWhile_append_of_pos kept, List.dropWhile_append_of_pos kept]
  cases rest with
  | nil => rw [List.takeWhile_nil, List.dropWhile_nil, List.append_nil]
  | cons byte behind =>
      have stops := ends byte rfl
      simp [stops]

end Words

end Torchat.Foundation
