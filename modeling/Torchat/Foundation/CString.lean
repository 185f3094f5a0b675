import Mathlib.Data.List.TakeWhile

/-!
Contract: bytes, NUL-terminated strings and fixed character arrays.

Owns the reading of a byte buffer as a C string, truncation at the first NUL,
and bounded copies into an array of fixed size.

Does not own character encodings: bytes are uninterpreted here.
-/

set_option autoImplicit false

namespace Torchat.Foundation

abbrev Byte := UInt8

abbrev Bytes := List Byte

/-- The bytes of an ASCII literal. -/
def ascii (text : String) : Bytes :=
  text.toList.map fun character => UInt8.ofNat character.toNat

/-- The bytes of a `char *` string in front of its terminator. -/
structure CString where
  bytes : Bytes
  noNul : 0 ∉ bytes
deriving DecidableEq

namespace CString

theorem ext {left right : CString} (same : left.bytes = right.bytes) : left = right := by
  cases left
  cases right
  cases same
  rfl

/-- `c_str()`: a buffer read as a C string stops at its first NUL. -/
def ofBytes (buffer : Bytes) : CString where
  bytes := buffer.takeWhile (· ≠ 0)
  noNul := by
    intro member
    have kept := List.mem_takeWhile_imp member
    simp at kept

/-- `strlen`. -/
def length (text : CString) : Nat := text.bytes.length

def literal (text : String) : CString := ofBytes (ascii text)

def empty : CString := ofBytes []

theorem ofBytes_eq_of_noNul {buffer : Bytes} (noNul : 0 ∉ buffer) :
    (ofBytes buffer).bytes = buffer := by
  simp only [ofBytes]
  rw [List.takeWhile_eq_self_iff]
  intro byte member
  have different : byte ≠ 0 := fun zero => noNul (zero ▸ member)
  simpa using different

@[simp] theorem ofBytes_bytes (text : CString) : ofBytes text.bytes = text :=
  ext (ofBytes_eq_of_noNul text.noNul)

/-- A C string ends where the zero bytes behind it begin. -/
theorem ofBytes_append_nul (text : CString) (rest : Bytes) :
    ofBytes (text.bytes ++ 0 :: rest) = text := by
  apply ext
  have kept : ∀ byte ∈ text.bytes, decide (byte ≠ 0) = true := by
    intro byte member
    have different : byte ≠ 0 := fun zero => text.noNul (zero ▸ member)
    simpa using different
  simp only [ofBytes]
  rw [List.takeWhile_append_of_pos kept]
  simp

/-- What follows the string in its buffer is nothing or a NUL and more. -/
theorem ofBytes_split (buffer : Bytes) :
    (ofBytes buffer).bytes = buffer ∨ ∃ rest, buffer = (ofBytes buffer).bytes ++ 0 :: rest := by
  simp only [ofBytes]
  induction buffer with
  | nil => exact Or.inl rfl
  | cons byte rest inductionHypothesis =>
      by_cases zero : byte = 0
      · right
        exact ⟨rest, by simp [zero]⟩
      · have kept : List.takeWhile (fun byte => decide (byte ≠ 0)) (byte :: rest) =
            byte :: List.takeWhile (fun byte => decide (byte ≠ 0)) rest := by
          simp [zero]
        rw [kept]
        rcases inductionHypothesis with whole | ⟨behind, split⟩
        · exact Or.inl (congrArg (byte :: ·) whole)
        · exact Or.inr ⟨behind, congrArg (byte :: ·) split⟩

theorem length_ofBytes_le (buffer : Bytes) : (ofBytes buffer).length ≤ buffer.length :=
  (List.takeWhile_sublist _).length_le

/-- A buffer with a terminator is longer than the string in it. -/
theorem length_ofBytes_lt {buffer : Bytes} (terminated : 0 ∈ buffer) :
    (ofBytes buffer).length < buffer.length := by
  rcases ofBytes_split buffer with whole | ⟨rest, split⟩
  · rw [← whole] at terminated
    exact absurd terminated (ofBytes buffer).noNul
  · have lengths := congrArg List.length split
    rw [List.length_append, List.length_cons] at lengths
    show (ofBytes buffer).bytes.length < buffer.length
    omega

end CString

/-- `char name[size]`. -/
structure CharArray (size : Nat) where
  bytes : Bytes
  length_eq : bytes.length = size
deriving DecidableEq

namespace CharArray

variable {size : Nat}

def zeroed (size : Nat) : CharArray size where
  bytes := List.replicate size 0
  length_eq := List.length_replicate

/-- Copy bytes to the front of an array; `none` when they run past its end. -/
def overwrite (array : CharArray size) (source : Bytes) : Option (CharArray size) :=
  if fits : source.length ≤ size then
    some
      { bytes := source ++ array.bytes.drop source.length
        length_eq := by
          rw [List.length_append, List.length_drop, array.length_eq]
          omega }
  else
    none

/-- Read an array as a C string; `none` when no terminator lies inside it. -/
def read (array : CharArray size) : Option CString :=
  if 0 ∈ array.bytes then some (CString.ofBytes array.bytes) else none

theorem overwrite_eq_none_iff (array : CharArray size) (source : Bytes) :
    array.overwrite source = none ↔ size < source.length := by
  unfold overwrite
  split
  next fits => simp only [reduceCtorEq, false_iff]; omega
  next overruns => simp only [true_iff]; omega

theorem overwrite_bytes {array result : CharArray size} {source : Bytes}
    (copied : array.overwrite source = some result) :
    result.bytes = source ++ array.bytes.drop source.length := by
  unfold overwrite at copied
  split at copied
  next fits =>
    cases copied
    rfl
  next overruns => contradiction

/-- A string shorter than the array survives the copy into a zeroed array. -/
theorem read_overwrite_zeroed {text : CString} (fits : text.length < size) :
    ((zeroed size).overwrite text.bytes).bind read = some text := by
  have bound : text.bytes.length ≤ size := Nat.le_of_lt fits
  have tail : List.drop text.bytes.length (List.replicate size (0 : Byte)) =
      0 :: List.replicate (size - text.bytes.length - 1) 0 := by
    rw [List.drop_replicate, ← List.replicate_succ]
    congr 1
    change text.bytes.length < size at fits
    omega
  simp only [overwrite, bound, ↓reduceDIte, Option.bind_some, read, zeroed, tail,
    List.mem_append, List.mem_cons, true_or, or_true, ↓reduceIte,
    CString.ofBytes_append_nul]

/-- What is read from an array leaves room for the terminator in it. -/
theorem length_lt_of_read {array : CharArray size} {text : CString}
    (found : array.read = some text) : text.length < size := by
  unfold read at found
  split at found
  next terminated =>
    cases found
    have shorter := CString.length_ofBytes_lt terminated
    rw [array.length_eq] at shorter
    exact shorter
  next => contradiction

/-- A string as long as the array leaves no room for the terminator. -/
theorem read_overwrite_full {array result : CharArray size} {text : CString}
    (full : text.length = size) (copied : array.overwrite text.bytes = some result) :
    result.read = none := by
  have content : result.bytes = text.bytes := by
    rw [overwrite_bytes copied, List.drop_of_length_le, List.append_nil]
    rw [array.length_eq]
    exact Nat.le_of_eq full.symm
  unfold read
  rw [content]
  exact if_neg text.noNul

/-- The block of `strdup`, which is as long as the string with its terminator. -/
def strdup (text : CString) : CharArray (text.length + 1) where
  bytes := text.bytes ++ [0]
  length_eq := List.length_append

/-- `strcpy`; `none` when the string and its terminator run past the end. -/
def strcpy (array : CharArray size) (source : CString) : Option (CharArray size) :=
  array.overwrite (source.bytes ++ [0])

theorem strcpy_eq_none_iff (array : CharArray size) (source : CString) :
    array.strcpy source = none ↔ size < source.length + 1 := by
  rw [strcpy, overwrite_eq_none_iff, List.length_append]
  rfl

theorem read_strcpy {array result : CharArray size} {source : CString}
    (copied : array.strcpy source = some result) : result.read = some source := by
  have content := overwrite_bytes copied
  rw [List.append_assoc, List.singleton_append] at content
  have terminated : 0 ∈ result.bytes := by
    rw [content]
    exact List.mem_append_right _ List.mem_cons_self
  rw [read, if_pos terminated, content, CString.ofBytes_append_nul]

end CharArray

end Torchat.Foundation
