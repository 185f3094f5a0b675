import Torchat.Foundation.Strtol
import Torchat.Proxy.Socket

/-!
Contract: what `proxysocket.c` needs of HTTP.

Owns the line reader that looks at the data before it takes them, the request with the
header of its response, and the encoding of a user and a password.

Does not own the meaning of the response codes; see `Proxysocket`.
-/

set_option autoImplicit false

namespace Torchat.Proxy

open Torchat.Foundation
open Torchat.Daemon (Fault)

abbrev lineFeed : Byte := 0x0A

abbrev carriageReturn : Byte := 0x0D

section Lines

variable {σ : Type} (kernel : SocketKernel σ)

/-- A line without the carriage return at its end. -/
def stripLine (line : Bytes) : Bytes :=
  if line.getLast? = some carriageReturn then line.dropLast else line

/-- `socket_receiveline` behind its loop; `failed` says that the last number was negative. -/
def endOfData (buf : Bytes) (failed : Bool) : Option CString :=
  if buf = [] ∧ failed = true then none else some (CString.ofBytes buf)

/-- The end of an iteration of `socket_receiveline`: `n` bytes are taken and joined to the
others, and `goOn` is the next iteration. -/
def readOn (sock n : Nat) (buf : Bytes) (goOn : Bytes → Attempt σ (Option CString)) :
    Attempt σ (Option CString) := do
  match ← Session.call fun state => kernel.recv state sock n false with
  | none => pure (endOfData buf true)
  | some [] => pure (endOfData buf false)
  | some bytes => goOn (buf ++ bytes)

/-- The loop of `socket_receiveline`, with the bytes that it has taken; it takes one of
`fuel` for each look at the data. Where a line break is in sight, but the line is not
delivered in one piece, the piece is overwritten by the data behind it. -/
def receivelineLoop (sock : Nat) : Nat → Bytes → Attempt σ (Option CString)
  | 0, _ => Session.abort (.fault .endlessLoop)
  | fuel + 1, buf => do
      match ← Session.call fun state => kernel.recv state sock 128 true with
      | none => pure (endOfData buf true)
      | some [] => pure (endOfData buf false)
      | some chunk =>
          match chunk.idxOf? lineFeed with
          | none => readOn kernel sock chunk.length buf (receivelineLoop sock fuel)
          | some i => do
              match ← Session.call fun state => kernel.recv state sock (i + 1) false with
              | none => readOn kernel sock (i + 1) buf (receivelineLoop sock fuel)
              | some bytes =>
                  if bytes.length = i + 1 then
                    pure (some (CString.ofBytes (stripLine (buf ++ bytes.take i))))
                  else readOn kernel sock (i + 1) buf (receivelineLoop sock fuel)

/-- `socket_receiveline`. -/
def socketReceiveline (fuel sock : Nat) : Attempt σ (Option CString) :=
  receivelineLoop kernel sock fuel []

/-! ## Requests -/

/-- `strtol (text, .., 10)`. -/
def strtolTen (text : Bytes) : Int :=
  let (negative, signed) := strtolSign (text.dropWhile isWhite)
  let value : Int := decimalValue (signed.takeWhile isDigit)
  clampLong (if negative then -value else value)

/-- `tolower` of an ASCII letter. -/
def lowerByte (byte : Byte) : Byte := if 0x41 ≤ byte && byte ≤ 0x5A then byte + 0x20 else byte

/-- The result code in a status line; `none` where the line is not one, or its code is 0. -/
def resultCode (responseline : CString) : Option Int :=
  if (responseline.bytes.take 5).map lowerByte ≠ ascii "http/" then none
  else
    match (responseline.bytes.drop 5).dropWhile fun byte => isDigit byte || byte = 0x2E with
    | 0x20 :: code =>
        if toInt (strtolTen code) = 0 then none else some (toInt (strtolTen code))
    | _ => none

/-- The rest of the response header, up to an empty line. -/
def headerLoop (sock : Nat) : Nat → Option CString → Bytes → Attempt σ Bytes
  | _, none, response => pure response
  | fuel, some responseline, response =>
      if responseline.bytes = [] then pure response
      else
        match fuel with
        | 0 => Session.abort (.fault .endlessLoop)
        | fuel + 1 => do
            let next ← socketReceiveline kernel fuel sock
            headerLoop sock fuel next (response ++ responseline.bytes ++ [lineFeed])

/-- `send_http_request`; -1 stands for every failure. That `send` has taken a part of the
request only is not looked at. -/
def sendHttpRequest (fuel sock : Nat) (request : Bytes) : Attempt σ (Int × Option Bytes) := do
  match ← Session.call fun state => kernel.send state sock request with
  | none => pure (-1, none)
  | some _ => do
      match ← socketReceiveline kernel fuel sock with
      | none => pure (-1, none)
      | some responseline =>
          match resultCode responseline with
          | none => pure (-1, none)
          | some code => do
              let response ← headerLoop kernel sock fuel (some responseline) []
              pure (code, some response)

end Lines

/-! ## Base 64 -/

def base64Alphabet : Bytes :=
  ascii "ABCDEFGHIJKLMNOPQRSTUVWXYZabcdefghijklmnopqrstuvwxyz0123456789+/"

def base64Digit (index : Nat) : Byte := base64Alphabet.getD index 0

/-- `igroup[n] >> count`. A byte from 128 on is a negative `char`; it stays negative, and
so does the index that it is made a part of. -/
def shiftedChar (byte : Byte) (count : Nat) : Except Fault Nat :=
  if 128 ≤ byte.toNat then .error .outOfBounds else .ok (byte.toNat >>> count)

/-- The four characters of a group of which `n` bytes are there. -/
def base64Group (n : Nat) (first second third : Byte) : Except Fault Bytes := do
  let high ← shiftedChar first 2
  let middle ← shiftedChar second 4
  let low ← shiftedChar third 6
  .ok [base64Digit high, base64Digit ((first.toNat &&& 3) <<< 4 ||| middle),
    if n < 2 then 0x3D else base64Digit ((second.toNat &&& 0xF) <<< 2 ||| low),
    if n < 3 then 0x3D else base64Digit (third.toNat &&& 0x3F)]

def base64Groups : Bytes → Except Fault Bytes
  | [] => .ok []
  | [first] => base64Group 1 first 0 0
  | [first, second] => base64Group 2 first second 0
  | first :: second :: third :: rest => do
      let group ← base64Group 3 first second third
      let groups ← base64Groups rest
      .ok (group ++ groups)

/-- `make_base64_string`. -/
def makeBase64String (str : CString) : Except Fault Bytes := base64Groups str.bytes

end Torchat.Proxy
