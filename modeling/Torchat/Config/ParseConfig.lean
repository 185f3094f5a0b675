import Torchat.Foundation.Scan
import Torchat.Daemon.Util

/-!
Contract: the tokenizer of the config file in `parseconfig.c`.

Its buffers live as long as the loop over the lines and are written in place. Owns
the loop, the buffers with their bounds, and the vector of options.

Does not own what the options mean; see `Settings`.
-/

set_option autoImplicit false

namespace Torchat.Config

open Torchat.Foundation
open Torchat.Daemon (Fault)

/-- `COMMENT_CHAR`. -/
def commentChar : Byte := 0x23

/-- `SEPARATOR`. -/
def separator : Byte := 0x3A

/-- `N_OPTS`. -/
def nOpts : Nat := 11

/-- `SIZEBUF`. -/
def sizeBuf : Nat := 256

/-- `EINVAL`. -/
def einval : Int := 22

/-! ## Texts -/

/-- `strip` on the bytes of an array: the first `del` in front of the terminator
becomes a terminator, which ends the loop. -/
def strip (del : Byte) : Bytes → Bytes
  | [] => []
  | byte :: rest =>
      if byte = 0 then byte :: rest
      else if byte = del then 0 :: rest
      else byte :: strip del rest

theorem length_strip (del : Byte) (bytes : Bytes) : (strip del bytes).length = bytes.length := by
  induction bytes with
  | nil => rfl
  | cons byte rest inductionHypothesis =>
      unfold strip
      split
      · rfl
      split
      · rfl
      · rw [List.length_cons, inductionHypothesis, List.length_cons]

/-- `strip` on a buffer. -/
def stripBuf {size : Nat} (del : Byte) (buf : CharArray size) : CharArray size where
  bytes := strip del buf.bytes
  length_eq := (length_strip del buf.bytes).trans buf.length_eq

def readBuf {size : Nat} (buf : CharArray size) : Except Fault CString :=
  match buf.read with
  | some text => .ok text
  | none => .error .outOfBounds

def writeBuf {size : Nat} (buf : CharArray size) (bytes : Bytes) : Except Fault (CharArray size) :=
  match buf.overwrite bytes with
  | some buf => .ok buf
  | none => .error .outOfBounds

/-- `sscanf (lineBuf, "%s %s", optBuf, valBuf)`; a word that is not there leaves its
buffer as it is. -/
def scanLine (lineBuf : CString) (optBuf valBuf : CharArray sizeBuf) :
    Except Fault (CharArray sizeBuf × CharArray sizeBuf) :=
  let (option, rest) := scanWord lineBuf.bytes
  if option = [] then .ok (optBuf, valBuf)
  else do
    let optBuf ← writeBuf optBuf (option ++ [0])
    let (value, _) := scanWord rest
    if value = [] then .ok (optBuf, valBuf)
    else do
      let valBuf ← writeBuf valBuf (value ++ [0])
      .ok (optBuf, valBuf)

/-- `valid_opt`; the last byte of an empty option is in front of the buffer. -/
def validOpt (opt : CharArray sizeBuf) : Except Fault Bool := do
  let text ← readBuf opt
  match text.bytes.getLast? with
  | some last => .ok (last = separator)
  | none => .error .outOfBounds

/-- `format_option`: the prefix and the option are put together in `tmp` and copied
back without a terminator. -/
def formatOption (opt : CharArray sizeBuf) : Except Fault (CharArray sizeBuf) := do
  let text ← readBuf opt
  let tmp ← writeBuf (CharArray.zeroed sizeBuf) (ascii "--")
  let tmp ← writeBuf tmp (ascii "--" ++ text.bytes ++ [0])
  let formatted ← readBuf tmp
  writeBuf opt formatted.bytes

/-! ## The loop -/

/-- The variables of `parse_config` that live as long as its loop. `options` are the
entries of `opt` and `val` that have been written. -/
structure Parser where
  optBuf : CharArray sizeBuf
  valBuf : CharArray sizeBuf
  options : List (CString × CString)

def Parser.start : Parser where
  optBuf := CharArray.zeroed sizeBuf
  valBuf := CharArray.zeroed sizeBuf
  options := []

/-- Both arrays have an entry for each of `N_OPTS` options. -/
def storeOption (parser : Parser) (option value : CString) : Except Fault Parser :=
  if parser.options.length < nOpts then
    .ok { parser with options := parser.options ++ [(option, value)] }
  else .error .outOfBounds

/-- `lineBuf` behind `strip`. -/
def uncommented (line : Bytes) : CString := CString.ofBytes (strip commentChar line)

/-- The lines that are looked at: neither empty behind `strip` nor too long. -/
def isConsidered (line : Bytes) : Bool :=
  (uncommented line).length ≤ 2 * sizeBuf - 2 && 1 < (uncommented line).length

/-- The loop over a line; `none` where the option is invalid. -/
def parseLine (parser : Parser) (line : Bytes) : Except Fault (Option Parser) :=
  if isConsidered line then do
    let (optBuf, valBuf) ← scanLine (uncommented line) parser.optBuf parser.valBuf
    if ← validOpt optBuf then do
      let optBuf ← formatOption (stripBuf separator optBuf)
      let option ← readBuf optBuf
      let value ← readBuf valBuf
      let parser ← storeOption { parser with valBuf := valBuf } option value
      .ok (some { parser with optBuf := CharArray.zeroed sizeBuf })
    else .ok none
  else .ok (some parser)

def parseLines (parser : Parser) : List Bytes → Except Fault (Option Parser)
  | [] => .ok (some parser)
  | line :: rest => do
      match ← parseLine parser line with
      | some parser => parseLines parser rest
      | none => .ok none

/-! ## The result -/

/-- `fill_opts_vector`, with `left` entries in front of the NULL; `pos` is the next one. -/
def fillOptsVector (options : List (CString × CString)) :
    Nat → Nat → Except Fault (List (Option CString))
  | 0, _ => .ok [none]
  | left + 1, pos => do
      let entry ←
        match options[pos / 2]? with
        | some (option, value) => .ok (if pos % 2 = 0 then option else value)
        | none => .error .outOfBounds
      let rest ← fillOptsVector options left (pos + 1)
      .ok (some entry :: rest)

/-- `destroy_mat` on an array with so many entries; an entry that has not been
written is no block to be freed. -/
def destroyMat (written n : Nat) : Except Fault Unit :=
  if written < n then .error .danglingPointer else .ok ()

/-- What `parse_config` returns, with `*returnOpts` and the error that it has set. -/
structure Returned where
  rc : Int
  returnOpts : Option (List (Option CString))
  errno : Option Int
deriving DecidableEq

/-- Behind the loop. -/
def returnOptions (parser : Parser) : Except Fault Returned := do
  let nOpt := parser.options.length
  let retOpts ← fillOptsVector parser.options (2 * nOpt) 0
  destroyMat nOpt nOpts
  if nOpt = nOpts then .ok { rc := nOpt, returnOpts := some retOpts, errno := none }
  else .error .assertionFailed

/-- `parse_config` on a file, or on the error that `fopen` sets. -/
def parseConfig (file : Except Int Bytes) : Except Fault Returned :=
  match file with
  | .error errno => .ok { rc := -1, returnOpts := none, errno := some errno }
  | .ok content => do
      match ← parseLines Parser.start (lines content) with
      | some parser => returnOptions parser
      | none => .ok { rc := -1, returnOpts := none, errno := some einval }

end Torchat.Config
