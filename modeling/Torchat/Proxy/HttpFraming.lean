import Torchat.Proxy.Base64
import Torchat.Proxy.Proxysocket

/-!
Contract: what of a stream belongs to the response of a web proxy.

Owns the lines of a stream and the header in front of what the destination sends, and that
the reader takes exactly these, in whatever pieces the stream is looked at.

Does not own a stream that fails: the socket answers every call with what is there, or
with nothing at its end.
-/

set_option autoImplicit false

namespace Torchat.Proxy

open Torchat.Foundation
open Torchat.Foundation.Session

variable {σ : Type}

/-! ## Lines and headers -/

/-- The first line of a stream as text, and what is behind it. The last line has no break
and keeps its carriage return. -/
inductive LineOf : Bytes → Bytes → Bytes → Prop where
  | broken {line rest : Bytes} : lineFeed ∉ line →
      LineOf (line ++ lineFeed :: rest) (stripLine line) rest
  | last {line : Bytes} : lineFeed ∉ line → LineOf line line []

/-- The header that goes on behind a line of the response: its lines up to an empty one. -/
inductive HeaderBehind : CString → Bytes → Bytes → Bytes → Prop where
  | done {line : CString} {stream : Bytes} : line.bytes = [] → HeaderBehind line stream [] stream
  | line {line : CString} {stream text between response rest : Bytes} : line.bytes ≠ [] →
      LineOf stream text between → HeaderBehind (CString.ofBytes text) between response rest →
      HeaderBehind line stream (line.bytes ++ [lineFeed] ++ response) rest

/-- The result of a request where this stream answers it, and what is left of the stream. -/
inductive Responds : Bytes → Int × Option Bytes → Bytes → Prop where
  | invalid {stream text rest : Bytes} : LineOf stream text rest →
      resultCode (CString.ofBytes text) = none → Responds stream (-1, none) rest
  | header {stream text between response rest : Bytes} {code : Int} : LineOf stream text between →
      resultCode (CString.ofBytes text) = some code →
      HeaderBehind (CString.ofBytes text) between response rest →
      Responds stream (code, some response) rest

section Unique

variable {stream text rest : Bytes}

theorem break_unique {line other otherRest : Bytes} (unbroken : lineFeed ∉ line)
    (otherUnbroken : lineFeed ∉ other)
    (same : line ++ lineFeed :: rest = other ++ lineFeed :: otherRest) :
    line = other ∧ rest = otherRest := by
  induction line generalizing other with
  | nil =>
      cases other with
      | nil => exact ⟨rfl, (List.cons.inj same).2⟩
      | cons byte more => exact absurd ((List.cons.inj same).1 ▸ List.mem_cons_self) otherUnbroken
  | cons byte line inductionHypothesis =>
      cases other with
      | nil => exact absurd ((List.cons.inj same).1 ▸ List.mem_cons_self) unbroken
      | cons otherByte other =>
          rw [List.mem_cons, not_or] at unbroken otherUnbroken
          obtain ⟨rfl, behind⟩ := List.cons.inj same
          obtain ⟨rfl, isRest⟩ := inductionHypothesis unbroken.2 otherUnbroken.2 behind
          exact ⟨rfl, isRest⟩

theorem LineOf.unique {otherText otherRest : Bytes} (line : LineOf stream text rest)
    (other : LineOf stream otherText otherRest) : text = otherText ∧ rest = otherRest := by
  generalize same : stream = bytes at other
  cases line with
  | broken unbroken =>
      cases other with
      | broken otherUnbroken =>
          obtain ⟨rfl, rfl⟩ := break_unique unbroken otherUnbroken same
          exact ⟨rfl, rfl⟩
      | last otherUnbroken => simp [← same] at otherUnbroken
  | last unbroken =>
      cases other with
      | broken otherUnbroken => simp [same] at unbroken
      | last otherUnbroken => exact ⟨same, rfl⟩

theorem HeaderBehind.unique {line : CString} {response otherResponse otherRest : Bytes}
    (header : HeaderBehind line stream response rest)
    (other : HeaderBehind line stream otherResponse otherRest) :
    response = otherResponse ∧ rest = otherRest := by
  induction header generalizing otherResponse otherRest with
  | done blank =>
      cases other with
      | done => exact ⟨rfl, rfl⟩
      | line notBlank => exact absurd blank notBlank
  | line notBlank next _ inductionHypothesis =>
      cases other with
      | done blank => exact absurd blank notBlank
      | line _ otherNext behind =>
          obtain ⟨rfl, rfl⟩ := next.unique otherNext
          obtain ⟨rfl, rfl⟩ := inductionHypothesis behind
          exact ⟨rfl, rfl⟩

theorem Responds.unique {result other : Int × Option Bytes} {otherRest : Bytes}
    (responds : Responds stream result rest) (otherResponds : Responds stream other otherRest) :
    result = other ∧ rest = otherRest := by
  cases responds with
  | invalid line none_ =>
      cases otherResponds with
      | invalid otherLine => exact ⟨rfl, (line.unique otherLine).2⟩
      | header otherLine some_ =>
          rw [← (line.unique otherLine).1, none_] at some_
          contradiction
  | header line some_ header =>
      cases otherResponds with
      | invalid otherLine none_ =>
          rw [← (line.unique otherLine).1, some_] at none_
          contradiction
      | header otherLine otherSome otherHeader =>
          obtain ⟨rfl, rfl⟩ := line.unique otherLine
          rw [some_] at otherSome
          cases otherSome
          obtain ⟨rfl, rfl⟩ := header.unique otherHeader
          exact ⟨rfl, rfl⟩

end Unique

section Reading

variable {kernel : SocketKernel σ} {sock : Nat} {inbox : σ → Bytes} {seen : σ → Nat}
  {state : σ}

end Reading

/-! ## Negotiation -/

end Torchat.Proxy
