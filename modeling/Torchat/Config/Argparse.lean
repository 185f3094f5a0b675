import Torchat.Foundation.Strtol

/-!
Contract: the bundled `argparse_parse`, for options that store what they are given.

Owns the loop over the arguments, long and short options, their values behind `=` or in
the argument behind, and what is left in `argv`.

Does not own options that count, set bits or collect arrays, negated options,
callbacks, and the texts that are printed; the table of the program has none of them.
-/

set_option autoImplicit false

namespace Torchat.Config

open Torchat.Foundation

/-- The type of an option, with the place that its `value` points to. -/
inductive Target (σ : Type) where
  | group
  | string (store : CString → σ → σ)
  | integer (store : Int → σ → σ)
  | long (store : Int → σ → σ)

/-- `struct argparse_option`; the short name of an option without one is 0. -/
structure ArgparseOption (σ : Type) where
  shortName : Byte
  longName : Option CString
  target : Target σ

/-- The members of `struct argparse` that change. `taken` says that the argument behind
the current one has been taken as a value, and `out` is what has been copied. -/
structure Argparse (σ : Type) where
  optvalue : Option CString
  taken : Bool
  out : List CString
  values : σ

/-- What `argparse_short_opt` and `argparse_long_opt` return. -/
inductive Found where
  | stored
  | failed
  | unknown
deriving DecidableEq

/-- What `argparse_parse` returns, with the front of `argv` and what has been stored. -/
structure Parsed (σ : Type) where
  rc : Int
  argv : List CString
  values : σ

section Model

variable {σ : Type}

/-- `prefix_skip`. -/
def prefixSkip (str skipped : Bytes) : Option Bytes :=
  if skipped.isPrefixOf str then some (str.drop skipped.length) else none

/-- The value of an option is `optvalue` or the argument behind the current one. -/
def takeValue (next : Option CString) (self : Argparse σ) : Option (CString × Argparse σ) :=
  match self.optvalue, next with
  | some value, _ => some (value, { self with optvalue := none })
  | none, some value => some (value, { self with taken := true })
  | none, none => none

/-- `opt_string`. -/
def optString (store : CString → σ → σ) (next : Option CString) (self : Argparse σ) :
    Found × Argparse σ :=
  match takeValue next self with
  | some (value, self) => (.stored, { self with values := store value self.values })
  | none => (.failed, self)

/-- What `opt_int` and `opt_longint` share: the number is stored before the text behind
it is looked at. -/
def optNumber (convert : Int → Int) (store : Int → σ → σ) (next : Option CString)
    (self : Argparse σ) : Found × Argparse σ :=
  match takeValue next self with
  | some (value, self) =>
      let (number, rest) := strtol value.bytes
      (if rest = [] then .stored else .failed,
        { self with values := store (convert number) self.values })
  | none => (.failed, self)

/-- `opt_int`. -/
def optInt (store : Int → σ → σ) : Option CString → Argparse σ → Found × Argparse σ :=
  optNumber toInt store

/-- `opt_longint`. -/
def optLongint (store : Int → σ → σ) : Option CString → Argparse σ → Found × Argparse σ :=
  optNumber id store

/-- `argparse_getvalue`; the `value` of a group is NULL. -/
def getvalue (target : Target σ) (next : Option CString) (self : Argparse σ) :
    Found × Argparse σ :=
  match target with
  | .group => (.stored, self)
  | .string store => optString store next self
  | .integer store => optInt store next self
  | .long store => optLongint store next self

/-- `argparse_short_opt`, on the first byte of `optvalue` and the text behind it. -/
def shortOpt (next : Option CString) (byte : Byte) (behind : Bytes) (self : Argparse σ) :
    List (ArgparseOption σ) → Found × Argparse σ
  | [] => (.unknown, self)
  | option :: more =>
      if option.shortName = byte then
        getvalue option.target next
          { self with optvalue := if behind = [] then none else some (CString.ofBytes behind) }
      else shortOpt next byte behind self more

/-- The short options of an argument; an option without a value leaves `optvalue` to
the next one. -/
def shortOpts (options : List (ArgparseOption σ)) (next : Option CString) :
    Bytes → Argparse σ → Found × Argparse σ
  | [], self => (.stored, self)
  | byte :: behind, self =>
      match shortOpt next byte behind self options with
      | (.stored, self) =>
          if self.optvalue = none then (.stored, self) else shortOpts options next behind self
      | other => other

/-- `argparse_long_opt`, on the text behind the dashes. -/
def longOpt (next : Option CString) (text : Bytes) (self : Argparse σ) :
    List (ArgparseOption σ) → Found × Argparse σ
  | [] => (.unknown, self)
  | option :: more =>
      match option.longName.bind fun name => prefixSkip text name.bytes with
      | some [] => getvalue option.target next self
      | some (0x3D :: value) =>
          getvalue option.target next { self with optvalue := some (CString.ofBytes value) }
      | _ => longOpt next text self more

/-- The arguments that have been copied, and those that are left behind the loop. -/
def finish (self : Argparse σ) (left : List CString) : Parsed σ where
  rc := (self.out ++ left).length
  argv := self.out ++ left
  values := self.values

/-- The loop of `argparse_parse`. -/
def parseArgs (options : List (ArgparseOption σ)) : List CString → Argparse σ → Parsed σ
  | [], self => finish self []
  | arg :: rest, self =>
      if self.taken then parseArgs options rest { self with taken := false }
      else
        match arg.bytes with
        | 0x2D :: second :: more =>
            if second = 0x2D ∧ more = [] then finish self rest
            else
              let found :=
                if second = 0x2D then longOpt rest.head? more self options
                else shortOpts options rest.head? (second :: more) self
              match found with
              | (.stored, self) => parseArgs options rest self
              | (_, self) => { rc := -1, argv := self.out, values := self.values }
        | _ => parseArgs options rest { self with out := self.out ++ [arg] }

/-- `argparse_parse`; the first argument stands for the name of the program. -/
def argparseParse (options : List (ArgparseOption σ)) (argv : List CString) (values : σ) :
    Parsed σ :=
  parseArgs options argv.tail { optvalue := none, taken := false, out := [], values }

end Model

/-! ## Values -/

section Values

variable {σ : Type} {self : Argparse σ} {value : CString}

/-- The argument behind an option becomes its value. -/
theorem takeValue_of_next (none_ : self.optvalue = none) :
    takeValue (some value) self = some (value, { self with taken := true }) := by
  simp only [takeValue, none_]

theorem getvalue_string (none_ : self.optvalue = none) (store : CString → σ → σ) :
    getvalue (.string store) (some value) self =
      (.stored, { self with taken := true, values := store value self.values }) := by
  rw [getvalue, optString, takeValue_of_next none_]

/-- A number without anything behind it is stored. -/
private theorem optNumber_of_strtol (none_ : self.optvalue = none) {number : Int}
    (read : strtol value.bytes = (number, [])) (convert : Int → Int) (store : Int → σ → σ) :
    optNumber convert store (some value) self =
      (.stored, { self with taken := true, values := store (convert number) self.values }) := by
  simp only [optNumber, takeValue_of_next none_, read, if_true]

theorem getvalue_integer (none_ : self.optvalue = none) {number : Int}
    (read : strtol value.bytes = (number, [])) (int : toInt number = number)
    (store : Int → σ → σ) :
    getvalue (.integer store) (some value) self =
      (.stored, { self with taken := true, values := store number self.values }) := by
  rw [getvalue, optInt, optNumber_of_strtol none_ read, int]

theorem getvalue_long (none_ : self.optvalue = none) {number : Int}
    (read : strtol value.bytes = (number, [])) (store : Int → σ → σ) :
    getvalue (.long store) (some value) self =
      (.stored, { self with taken := true, values := store number self.values }) := by
  rw [getvalue, optLongint, optNumber_of_strtol none_ read]
  rfl

end Values

/-! ## Arguments -/

section Arguments

variable {σ : Type} {options : List (ArgparseOption σ)} {self : Argparse σ}

/-- An argument that does not start with a dash is copied. -/
theorem parseArgs_of_value (idle : self.taken = false) {arg : CString}
    (noDash : arg.bytes.head? ≠ some 0x2D) (rest : List CString) :
    parseArgs options (arg :: rest) self =
      parseArgs options rest { self with out := self.out ++ [arg] } := by
  rw [parseArgs, idle, if_neg Bool.false_ne_true]
  split
  next second more shape =>
    rw [shape] at noDash
    exact absurd rfl noDash
  next => rfl

/-- A long option that stores the argument behind it. -/
theorem parseArgs_of_option (idle : self.taken = false) {arg value : CString} {name : Bytes}
    (dashes : arg.bytes = 0x2D :: 0x2D :: name) (nonempty : name ≠ []) {values : σ}
    (stores : longOpt (some value) name self options =
      (.stored, { self with taken := true, values := values })) (rest : List CString) :
    parseArgs options (arg :: value :: rest) self =
      parseArgs options rest { self with values := values } := by
  rw [parseArgs, idle, if_neg Bool.false_ne_true]
  simp only [dashes, if_true, List.head?_cons, stores, nonempty, and_false, if_false]
  rw [parseArgs, if_pos rfl, ← idle]

end Arguments

end Torchat.Config
