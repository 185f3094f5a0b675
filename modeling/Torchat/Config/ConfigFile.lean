import Torchat.Config.ParseLines

/-!
Contract: the form of a config file, and that `parse_config` reads it.

A file has empty lines, lines of comment, and options, whose words hold none of the
characters that end them. Owns the form of a line and of a file, and what is returned
for one whose lines and words fit.

Does not own files of another form.
-/

set_option autoImplicit false

namespace Torchat.Config

open Torchat.Foundation
open Torchat.Daemon (Fault bind_eq_ok)

/-- A word in front of a comment. -/
structure Word where
  text : CString
  nonempty : text.bytes ≠ []
  solid : ∀ byte ∈ text.bytes, isWhite byte = false
  uncommented : commentChar ∉ text.bytes

/-- A line `name: value`, with the blanks in it and the comment behind it. -/
structure OptionLine where
  name : Word
  value : Word
  blanks : Bytes
  white : Bytes
  comment : Bytes
  unseparated : separator ∉ name.text.bytes
  blanksNonempty : blanks ≠ []
  blanksWhite : ∀ byte ∈ blanks, isWhite byte = true
  whiteWhite : ∀ byte ∈ white, isWhite byte = true
  commentStarts : comment = [] ∨ comment.head? = some commentChar

namespace OptionLine

/-- The line in front of its comment. -/
def body (option : OptionLine) : Bytes :=
  option.name.text.bytes ++ [separator] ++
    (option.blanks ++ (option.value.text.bytes ++ option.white))

/-- The bytes of the line, as `getline` reads them. -/
def line (option : OptionLine) : Bytes := option.body ++ option.comment

end OptionLine

/-- Lines of a file, with its options in order. -/
inductive Lists : List Bytes → List OptionLine → Prop where
  | done : Lists [] []
  | empty {rest : List Bytes} {options : List OptionLine} (others : Lists rest options) :
      Lists ([newline] :: rest) options
  | comment {rest : List Bytes} {options : List OptionLine} (text : Bytes)
      (others : Lists rest options) : Lists ((commentChar :: text) :: rest) options
  | option {rest : List Bytes} {options : List OptionLine} (option : OptionLine)
      (others : Lists rest options) : Lists (option.line :: rest) (option :: options)

/-- A text behind the prefix of a long option. -/
def prefixed (name : CString) : CString := CString.ofBytes (ascii "--" ++ name.bytes)

/-! ## Lines -/

private theorem notMem_white {blanks : Bytes} {byte : Byte}
    (white : ∀ blank ∈ blanks, isWhite blank = true) (solid : isWhite byte = false) :
    byte ∉ blanks := by
  intro member
  have blank := white byte member
  rw [solid] at blank
  contradiction

namespace OptionLine

variable (option : OptionLine)

/-- A byte that is no blank is in none of the parts of a line. -/
private theorem notMem_body {byte : Byte} (solid : isWhite byte = false)
    (inName : byte ∉ option.name.text.bytes) (inValue : byte ∉ option.value.text.bytes)
    (other : byte ≠ separator) : byte ∉ option.body := by
  simp only [body, List.mem_append, List.mem_singleton, not_or]
  exact ⟨⟨inName, other⟩, notMem_white option.blanksWhite solid, inValue,
    notMem_white option.whiteWhite solid⟩

theorem noNul_body : 0 ∉ option.body :=
  option.notMem_body rfl option.name.text.noNul option.value.text.noNul (by decide)

theorem comment_notMem_body : commentChar ∉ option.body :=
  option.notMem_body rfl option.name.uncommented option.value.uncommented (by decide)

/-- `strip` leaves the line in front of its comment. -/
theorem uncommented_line : (uncommented option.line).bytes = option.body := by
  have kept : (CString.ofBytes option.body).bytes = option.body :=
    CString.ofBytes_eq_of_noNul option.noNul_body
  rcases option.commentStarts with none_ | starts
  · rw [uncommented, line, none_, List.append_nil, strip_of_notMem option.comment_notMem_body, kept]
  · obtain ⟨text, comment⟩ : ∃ text, option.comment = commentChar :: text := by
      cases shape : option.comment with
      | nil =>
          rw [shape] at starts
          contradiction
      | cons first text =>
          rw [shape] at starts
          cases starts
          exact ⟨text, rfl⟩
    have ended := CString.ofBytes_append_nul (CString.ofBytes option.body) text
    rw [kept] at ended
    rw [uncommented, line, comment, strip_at option.noNul_body option.comment_notMem_body, ended,
      kept]

/-- The line is looked at when it is not too long. -/
theorem isConsidered_line :
    isConsidered option.line = true ↔ option.body.length ≤ 2 * sizeBuf - 2 := by
  have length : (uncommented option.line).length = option.body.length :=
    congrArg List.length option.uncommented_line
  have two : 1 < option.body.length := by
    have first := List.length_pos_iff.mpr option.name.nonempty
    rw [body, List.length_append, List.length_append, List.length_singleton]
    omega
  rw [isConsidered, length, Bool.and_eq_true, decide_eq_true_eq, decide_eq_true_eq]
  exact and_iff_left two

private theorem scan_name : scanWord option.body =
    (option.name.text.bytes ++ [separator],
      option.blanks ++ (option.value.text.bytes ++ option.white)) := by
  apply scanWord_word
  · simp
  · intro byte member
    rcases List.mem_append.mp member with inName | last
    · exact option.name.solid byte inName
    · rw [List.mem_singleton.mp last]
      rfl
  · intro byte first
    obtain ⟨blank, more, blanks⟩ := List.exists_cons_of_ne_nil option.blanksNonempty
    rw [blanks] at first
    cases first
    exact option.blanksWhite byte (by rw [blanks]; exact List.mem_cons_self)

/-- The words of the line are its name with the separator, and its value. -/
theorem optionWord_line : optionWord option.line = option.name.text.bytes ++ [separator] := by
  rw [optionWord, uncommented_line, scan_name]

theorem valueWord_line : valueWord option.line = option.value.text.bytes := by
  have ends : ∀ byte, option.white.head? = some byte → isWhite byte = true := by
    intro byte first
    exact option.whiteWhite byte (List.mem_of_head? first)
  rw [valueWord, uncommented_line, scan_name]
  show (scanWord (option.blanks ++ (option.value.text.bytes ++ option.white))).1 = _
  rw [scanWord_blanks option.blanksWhite,
    scanWord_word option.value.nonempty option.value.solid ends]

theorem isOption_line : isOption option.line = true := by
  rw [isOption, optionWord_line, List.getLast?_append_cons]
  rfl

private theorem solid_name : ∀ byte ∈ option.name.text.bytes, decide (byte ≠ separator) = true := by
  intro byte member
  have different : byte ≠ separator := fun same => option.unseparated (same ▸ member)
  simpa using different

theorem optionName_line : optionName (optionWord option.line) = option.name.text.bytes := by
  rw [optionWord_line, optionName, List.takeWhile_append_of_pos option.solid_name]
  simp

theorem behindName_line : behindName (optionWord option.line) = [] := by
  rw [optionWord_line, behindName, List.dropWhile_append_of_pos option.solid_name]
  simp

/-- The pair of a line is its name behind the prefix, and its value. -/
theorem formatted_line : formatted option.line = prefixed option.name.text := by
  rw [formatted, optionName_line, behindName_line, List.drop_nil, List.append_nil, prefixed]

theorem valueAfter_line (left : CString) : valueAfter option.line left = option.value.text := by
  rw [valueAfter, valueWord_line, if_neg option.value.nonempty, CString.ofBytes_bytes]

/-- A line whose name and value fit the buffers. -/
theorem readable_line : Readable option.line ↔
    option.name.text.length + 1 < sizeBuf ∧ option.value.text.length < sizeBuf := by
  have nameLength : (optionWord option.line).length = option.name.text.length + 1 := by
    rw [optionWord_line, List.length_append]
    rfl
  have valueLength : (valueWord option.line).length = option.value.text.length := by
    rw [valueWord_line]
    rfl
  constructor
  · intro readable
    rw [← nameLength, ← valueLength]
    exact ⟨readable.option, readable.value⟩
  · rintro ⟨nameFits, valueFits⟩
    refine ⟨?_, nameLength ▸ nameFits, valueLength ▸ valueFits⟩
    rw [optionWord_line]
    simp

/-- The words and the line are as long as the buffers allow. -/
structure Fits : Prop where
  name : option.name.text.length ≤ 253
  value : option.value.text.length < sizeBuf
  body : option.body.length ≤ 2 * sizeBuf - 2

/-- The entries of a line in the arrays. -/
def entry : CString × CString := (prefixed option.name.text, option.value.text)

/-- A line that fits is recorded. -/
theorem parseLine_line {option : OptionLine} (fits : option.Fits) {parser : Parser} {left : CString}
    (ready : parser.Ready left) (room : parser.options.length < nOpts) :
    ∃ after, parseLine parser option.line = .ok (some after) ∧ after.Ready option.value.text ∧
      after.options = parser.options ++ [option.entry] := by
  have looked := option.isConsidered_line.mpr fits.body
  have nameFits : option.name.text.length + 1 < sizeBuf := by
    have short := fits.name
    rw [sizeBuf]
    omega
  have readable := option.readable_line.mpr ⟨nameFits, fits.value⟩
  have short : (optionName (optionWord option.line)).length ≤ 253 := by
    rw [optionName_line]
    exact fits.name
  obtain ⟨after, parsed, afterReady, options⟩ :=
    parseLine_of_recorded ready looked readable option.isOption_line short room
  rw [valueAfter_line] at afterReady options
  rw [formatted_line] at options
  exact ⟨after, parsed, afterReady, options⟩

end OptionLine

/-! ## Files -/

private theorem ignored_empty : ¬ isConsidered [newline] = true := by decide

private theorem ignored_comment (text : Bytes) : ¬ isConsidered (commentChar :: text) = true := by
  have empty : uncommented (commentChar :: text) = CString.empty := rfl
  rw [isConsidered, empty]
  decide

/-- A file may have nothing but options. -/
theorem lists_of_options (options : List OptionLine) :
    Lists (options.map OptionLine.line) options := by
  induction options with
  | nil => exact .done
  | cons option rest inductionHypothesis => exact .option option inductionHypothesis

/-- The lines of a file that are looked at are options. -/
theorem considered_lists {lines : List Bytes} {options : List OptionLine}
    (lists : Lists lines options) :
    considered lines =
      (options.filter fun option => isConsidered option.line).map OptionLine.line := by
  induction lists with
  | done => rfl
  | empty others inductionHypothesis =>
      rw [considered, List.filter_cons_of_neg ignored_empty]
      exact inductionHypothesis
  | comment text others inductionHypothesis =>
      rw [considered, List.filter_cons_of_neg (ignored_comment text)]
      exact inductionHypothesis
  | option option others inductionHypothesis =>
      rw [considered, List.filter_cons, List.filter_cons]
      split
      next => exact congrArg (option.line :: ·) inductionHypothesis
      next => exact inductionHypothesis

/-- Behind a file whose lines fit, the arrays have its options in order. -/
theorem parseLines_lists {lines : List Bytes} {options : List OptionLine}
    (lists : Lists lines options) (fit : ∀ option ∈ options, option.Fits) {parser : Parser}
    {left : CString} (ready : parser.Ready left)
    (room : parser.options.length + options.length ≤ nOpts) :
    ∃ after, parseLines parser lines = .ok (some after) ∧
      after.options = parser.options ++ options.map OptionLine.entry := by
  induction lists generalizing parser left with
  | done => exact ⟨parser, rfl, (List.append_nil _).symm⟩
  | empty others inductionHypothesis =>
      rw [parseLines_cons (parseLine_of_ignored ignored_empty)]
      exact inductionHypothesis fit ready room
  | comment text others inductionHypothesis =>
      rw [parseLines_cons (parseLine_of_ignored (ignored_comment text))]
      exact inductionHypothesis fit ready room
  | @option rest more option others inductionHypothesis =>
      rw [List.length_cons] at room
      obtain ⟨next_, parsed, nextReady, recorded⟩ :=
        OptionLine.parseLine_line (fit option List.mem_cons_self) ready (by omega)
      have nextRoom : next_.options.length + more.length ≤ nOpts := by
        rw [recorded, List.length_append, List.length_singleton]
        omega
      obtain ⟨after, parsedRest, afterOptions⟩ := inductionHypothesis
        (fun other member => fit other (List.mem_cons_of_mem _ member)) nextReady nextRoom
      rw [parseLines_cons parsed]
      refine ⟨after, parsedRest, ?_⟩
      rw [afterOptions, recorded, List.append_assoc, List.singleton_append, List.map_cons]

/-- A file whose options fit, and which has all of them. -/
theorem parseConfig_lists {content : Bytes} {options : List OptionLine}
    (lists : Lists (lines content) options) (fit : ∀ option ∈ options, option.Fits)
    (all : options.length = nOpts) :
    parseConfig (.ok content) =
      .ok { rc := nOpts
            returnOpts := some (optsVector (options.map OptionLine.entry))
            errno := none } := by
  obtain ⟨after, parsed, recorded⟩ := parseLines_lists lists fit Parser.start_ready
    (Nat.le_of_eq (by rw [all]; rfl))
  have entries : after.options = options.map OptionLine.entry := recorded
  have full : after.options.length = nOpts := by rw [entries, List.length_map, all]
  simp only [parseConfig, parsed, returnOptions_of_full full, bind, Except.bind]
  rw [entries]

/-- A file of eleven options whose names and values have at most 250 bytes and whose
lines have at most 510 in front of their comments is read: its names behind the prefix
and its values, in order, and NULL. -/
theorem wellFormed_file_read (content : Bytes) (options : List OptionLine)
    (lists : Lists (lines content) options) (eleven : options.length = 11)
    (short : ∀ option ∈ options, option.name.text.length ≤ 250 ∧
      option.value.text.length ≤ 250 ∧ option.body.length ≤ 510) :
    parseConfig (.ok content) =
      .ok { rc := 11
            returnOpts := some
              (options.flatMap (fun option =>
                [some (prefixed option.name.text), some option.value.text]) ++ [none])
            errno := none } := by
  have fit : ∀ option ∈ options, option.Fits := by
    intro option member
    have ⟨name, value, body⟩ := short option member
    refine ⟨by omega, ?_, ?_⟩ <;> rw [sizeBuf] <;> omega
  have vector : optsVector (options.map OptionLine.entry) =
      options.flatMap (fun option =>
        [some (prefixed option.name.text), some option.value.text]) ++ [none] := by
    rw [optsVector, List.flatMap_map]
    rfl
  rw [← vector]
  exact parseConfig_lists lists fit eleven

/-- A text is solid when a look at each of its bytes finds no blank. -/
theorem solid_of_all {text : Bytes} (all : (text.all fun byte => !isWhite byte) = true) :
    ∀ byte ∈ text, isWhite byte = false := by
  intro byte member
  simpa using List.all_eq_true.mp all byte member

/-- A line `a: b # c`. -/
private def sampleLine : OptionLine where
  name := ⟨CString.literal "a", by decide, solid_of_all (by decide), by decide⟩
  value := ⟨CString.literal "b", by decide, solid_of_all (by decide), by decide⟩
  blanks := ascii " "
  white := ascii " "
  comment := ascii "# c\n"
  unseparated := by decide
  blanksNonempty := by decide
  blanksWhite := List.all_eq_true.mp (by decide)
  whiteWhite := List.all_eq_true.mp (by decide)
  commentStarts := Or.inr rfl

private def sampleFile : Bytes :=
  ascii "# names\n\n" ++ (List.replicate 11 (ascii "a: b # c\n")).flatten

private theorem sampleFile_lists : Lists (lines sampleFile) (List.replicate 11 sampleLine) := by
  have split : lines sampleFile =
      (commentChar :: ascii " names\n") :: [newline] ::
        (List.replicate 11 sampleLine).map OptionLine.line := by
    decide +kernel
  rw [split]
  exact .comment _ (.empty (lists_of_options (List.replicate 11 sampleLine)))

theorem wellFormed_file_read_sample :
    parseConfig (.ok sampleFile) =
      .ok { rc := 11
            returnOpts := some
              ((List.replicate 11 sampleLine).flatMap (fun option =>
                [some (prefixed option.name.text), some option.value.text]) ++ [none])
            errno := none } :=
  wellFormed_file_read sampleFile (List.replicate 11 sampleLine) sampleFile_lists (by decide)
    (fun option member => by
      rw [List.eq_of_mem_replicate member]
      decide)

end Torchat.Config
