import Torchat.Foundation.Decimal

/-!
Contract: what a format string tells `printf` to do.

Owns the directives of a format, the arguments that each of them reads, and the
output for given arguments; too few arguments and malformed specifications have
none.

Does not own what a conversion makes of its arguments: that is a parameter.
-/

set_option autoImplicit false

namespace Torchat.Foundation

abbrev percent : Byte := 0x25

abbrev star : Byte := 0x2A

/-! ## Directives -/

/-- A byte to be copied; a conversion with a number of `*`; or a specification
that is none. -/
inductive Directive where
  | literal (byte : Byte)
  | conversion (stars : Nat) (letter : Byte)
  | malformed
deriving DecidableEq

/-- The part of a specification in which the next byte stands. Behind a `*` no
digit continues the number. -/
inductive SpecPart where
  | flags
  | width
  | widthDone
  | point
  | precision
  | precisionDone
  | length
deriving DecidableEq

def isFlag (byte : Byte) : Bool := byte ∈ ascii "-+ #0'I"

def isLengthModifier (byte : Byte) : Bool := byte ∈ ascii "hlqjzZtL"

def isConversion (byte : Byte) : Bool := byte ∈ ascii "diouxXeEfFgGaAcsCSpnm%"

def behindPrecision (byte : Byte) : Option SpecPart :=
  if isLengthModifier byte then some .length else none

def behindWidth (byte : Byte) : Option SpecPart :=
  if byte = 0x2E then some .point else behindPrecision byte

/-- The part behind a byte; `none` where the byte ends the specification. -/
def SpecPart.next : SpecPart → Byte → Option SpecPart
  | .flags, byte =>
      if isFlag byte then some .flags
      else if byte = star then some .widthDone
      else if isDigit byte then some .width
      else behindWidth byte
  | .width, byte => if isDigit byte then some .width else behindWidth byte
  | .widthDone, byte => behindWidth byte
  | .point, byte =>
      if byte = star then some .precisionDone
      else if isDigit byte then some .precision
      else behindPrecision byte
  | .precision, byte => if isDigit byte then some .precision else behindPrecision byte
  | .precisionDone, byte => behindPrecision byte
  | .length, byte => behindPrecision byte

/-- A specification that a byte has ended. -/
def endSpecification (stars : Nat) (byte : Byte) : Directive :=
  if isConversion byte then .conversion stars byte else .malformed

/-- The directives of a format, from inside a specification or from outside of any. -/
def directivesFrom : Option (SpecPart × Nat) → Bytes → List Directive
  | none, [] => []
  | some _, [] => [.malformed]
  | none, byte :: rest =>
      if byte = percent then directivesFrom (some (.flags, 0)) rest
      else .literal byte :: directivesFrom none rest
  | some (part, stars), byte :: rest =>
      match part.next byte with
      | some later =>
          directivesFrom (some (later, if byte = star then stars + 1 else stars)) rest
      | none => endSpecification stars byte :: directivesFrom none rest

def directives (format : Bytes) : List Directive := directivesFrom none format

/-! ## Output -/

section Output

variable {α : Type}

/-- The number of arguments that a directive reads. -/
def Directive.arguments : Directive → Option Nat
  | .literal _ => some 0
  | .conversion stars letter =>
      if letter = percent ∨ letter = 0x6D then some stars else some (stars + 1)
  | .malformed => none

/-- The output of a directive; `convert` is the output of the conversions. -/
def Directive.output (convert : Nat → Byte → List α → Bytes) (arguments : List α) :
    Directive → Bytes
  | .literal byte => [byte]
  | .conversion stars letter =>
      if letter = percent then [percent] else convert stars letter arguments
  | .malformed => []

/-- Directives one after the other, each with the arguments that the ones before
it have left; `none` where one reads an argument that is not there. -/
def printDirectives (convert : Nat → Byte → List α → Bytes) :
    List Directive → List α → Option Bytes
  | [], _ => some []
  | directive :: rest, arguments =>
      match directive.arguments with
      | none => none
      | some count =>
          if arguments.length < count then none
          else (printDirectives convert rest (arguments.drop count)).map
            (directive.output convert (arguments.take count) ++ ·)

/-- `vasprintf`. -/
def vasprintf (convert : Nat → Byte → List α → Bytes) (format : Bytes) (arguments : List α) :
    Option Bytes :=
  printDirectives convert (directives format) arguments

end Output

/-! ## Formats without conversions -/

end Torchat.Foundation
