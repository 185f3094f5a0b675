import Torchat.Json.Lexer

/-!
Contract: the recursive descent parser.

Owns the grammar, the order in which the exceptions of tokens and of values
appear, that the recursion bound of the model is never reached, and that the
strings of a parsed value are valid UTF-8 and no longer than their text.

Does not own conversions of the parsed values.
-/

set_option autoImplicit false

namespace Torchat.Json

open Torchat.Foundation

/-- A value, the token behind it and the input behind that token. -/
abbrev Parsed := Except JsonException (BasicJson × Token × Bytes)

mutual

/-- `parse_internal`: the value that starts with `token`. -/
def parseInternal : Nat → Token → Bytes → Parsed
  | 0, _, _ => .error .exhausted
  | fuel + 1, token, rest =>
      match token with
      | .beginObject =>
          match (scan rest).1 with
          | .endObject => .ok (.object [], scan (scan rest).2)
          | first => parseMembers fuel [] first (scan rest).2
      | .beginArray =>
          match (scan rest).1 with
          | .endArray => .ok (.array [], scan (scan rest).2)
          | first => parseElements fuel [] first (scan rest).2
      | .literalNull => .ok (.null, scan rest)
      | .literalTrue => .ok (.boolean true, scan rest)
      | .literalFalse => .ok (.boolean false, scan rest)
      | .valueString raw =>
          match getString raw with
          | some text => .ok (.string text, scan rest)
          | none => .error .parseError
      | .valueUnsigned _ | .valueInteger _ | .valueFloat _ => do
          let value ← getNumber token rest
          .ok (value, scan rest)
      | _ => .error .parseError

/-- The loop over the members of an object, at a key. -/
def parseMembers : Nat → List (Bytes × BasicJson) → Token → Bytes → Parsed
  | 0, _, _, _ => .error .exhausted
  | fuel + 1, members, token, rest =>
      match token with
      | .valueString raw =>
          match getString raw, (scan rest).1 with
          | some key, .nameSeparator => do
              let first := scan (scan rest).2
              let (value, next, behind) ← parseInternal fuel first.1 first.2
              match next with
              | .valueSeparator =>
                  parseMembers fuel (insertMember key value members) (scan behind).1 (scan behind).2
              | .endObject => .ok (.object (insertMember key value members), scan behind)
              | _ => .error .parseError
          | _, _ => .error .parseError
      | _ => .error .parseError

/-- The loop over the elements of an array. -/
def parseElements : Nat → List BasicJson → Token → Bytes → Parsed
  | 0, _, _, _ => .error .exhausted
  | fuel + 1, elements, token, rest => do
      let (value, next, behind) ← parseInternal fuel token rest
      match next with
      | .valueSeparator =>
          parseElements fuel (elements ++ [value]) (scan behind).1 (scan behind).2
      | .endArray => .ok (.array (elements ++ [value]), scan behind)
      | _ => .error .parseError

end

/-- `json::parse`. -/
def parse (text : Bytes) : Except JsonException BasicJson :=
  match parseInternal (2 * text.length + 3) (scan text).1 (scan text).2 with
  | .ok (value, .endOfInput, _) => .ok value
  | .ok _ => .error .parseError
  | .error exception => .error exception

/-! ## What every call of the parser does -/

/-- The strings of a value and of its members are valid UTF-8. -/
def StringsValid : BasicJson → Prop
  | .string text => ValidUtf8 text
  | .object members => ∀ member ∈ members, ∀ text, member.2 = .string text → ValidUtf8 text
  | _ => True

/-- The strings of a value and of its members satisfy a condition. -/
def StringsSatisfy (holds : Bytes → Prop) : BasicJson → Prop
  | .string text => holds text
  | .object members => ∀ member ∈ members, ∀ text, member.2 = .string text → holds text
  | _ => True

/-- The input still to be parsed, counted so that every token takes two. -/
private def cost (token : Token) (rest : Bytes) : Nat :=
  if token = .endOfInput then 0 else 2 * rest.length + 2

/-- The string that a token stands for satisfies a condition. -/
private def Scanned (holds : Bytes → Prop) (token : Token) : Prop :=
  ∀ raw text, token = .valueString raw → getString raw = some text → holds text

/-- A call takes no more input than it is given, finds strings that satisfy the
condition, and does not run into the recursion bound. -/
private def Sound (holds : Bytes → Prop) (bound : Nat) : Parsed → Prop
  | .ok (value, token, rest) => cost token rest ≤ bound ∧ StringsSatisfy holds value
  | .error exception => exception ≠ .exhausted

section Calls

variable {holds : Bytes → Prop} {limit : Nat}

private theorem Sound.mono {small large : Nat} {parsed : Parsed}
    (sound : Sound holds small parsed) (le : small ≤ large) : Sound holds large parsed := by
  cases parsed with
  | error exception => exact sound
  | ok result => exact ⟨Nat.le_trans sound.1 le, sound.2⟩

private theorem cost_of_ne {token : Token} (more : token ≠ .endOfInput) (rest : Bytes) :
    cost token rest = 2 * rest.length + 2 := if_neg more

private theorem cost_le (token : Token) (rest : Bytes) : cost token rest ≤ 2 * rest.length + 2 := by
  unfold cost
  split <;> omega

private theorem cost_scan (text : Bytes) :
    cost (scan text).1 (scan text).2 ≤ 2 * text.length := by
  by_cases more : (scan text).1 = .endOfInput
  · simp [cost, more]
  · have scanned : scan text = ((scan text).1, (scan text).2) := rfl
    have taken := scan_rest_lt scanned more
    rw [cost_of_ne more]
    omega

/-- A number token is read as a number, overflows, or fails. -/
private theorem getNumber_sound (holds : Bytes → Prop) (token : Token) (rest : Bytes) :
    (∃ value, getNumber token rest = .ok value ∧ StringsSatisfy holds value) ∨
      ∃ exception, getNumber token rest = .error exception ∧ exception ≠ .exhausted := by
  have float (lexeme : Bytes) : (∃ value, getFloat lexeme = .ok value ∧ StringsSatisfy holds value) ∨
      ∃ exception, getFloat lexeme = .error exception ∧ exception ≠ .exhausted := by
    unfold getFloat
    split
    · exact Or.inl ⟨_, rfl, trivial⟩
    · exact Or.inr ⟨_, rfl, JsonException.noConfusion⟩
  have large (lexeme : Bytes) :
      (∃ value, getLargeInteger lexeme rest = .ok value ∧ StringsSatisfy holds value) ∨
        ∃ exception, getLargeInteger lexeme rest = .error exception ∧ exception ≠ .exhausted := by
    unfold getLargeInteger
    split
    · exact Or.inr ⟨_, rfl, JsonException.noConfusion⟩
    · exact float lexeme
  unfold getNumber
  split
  · split
    · exact Or.inl ⟨_, rfl, trivial⟩
    · exact large _
  · split
    · exact Or.inl ⟨_, rfl, trivial⟩
    · exact large _
  · exact float _
  · exact Or.inr ⟨_, rfl, JsonException.noConfusion⟩

/-- What the three calls do when the recursion bound covers their input, in a text
whose tokens satisfy the condition. -/
private structure CallsSound (holds : Bytes → Prop) (limit fuel : Nat) : Prop where
  value : ∀ token rest, Scanned holds token → rest.length ≤ limit →
    cost token rest + 1 ≤ fuel → Sound holds (cost token rest) (parseInternal fuel token rest)
  members : ∀ members token rest, StringsSatisfy holds (.object members) →
    rest.length ≤ limit → cost token rest + 1 ≤ fuel →
    Sound holds (cost token rest) (parseMembers fuel members token rest)
  elements : ∀ elements token rest, Scanned holds token → rest.length ≤ limit →
    cost token rest + 2 ≤ fuel →
    Sound holds (cost token rest) (parseElements fuel elements token rest)

private theorem sound_error {bound : Nat} : Sound holds bound (.error .parseError) :=
  JsonException.noConfusion

/-- A value whose last token has been taken. -/
private theorem sound_scan {value : BasicJson} {rest : Bytes} {bound : Nat}
    (satisfied : StringsSatisfy holds value) (le : 2 * rest.length ≤ bound) :
    Sound holds bound (.ok (value, scan rest)) :=
  ⟨Nat.le_trans (cost_scan rest) le, satisfied⟩

private theorem stringsSatisfy_insertMember {members : List (Bytes × BasicJson)} {key : Bytes}
    {value : BasicJson} (satisfied : StringsSatisfy holds (.object members))
    (new : StringsSatisfy holds value) :
    StringsSatisfy holds (.object (insertMember key value members)) := by
  have fresh : ∀ text, value = .string text → holds text := by
    rintro text rfl
    exact new
  intro member inInserted
  induction members with
  | nil =>
      rw [insertMember, List.mem_singleton] at inInserted
      rw [inInserted]
      exact fresh
  | cons head tail inductionHypothesis =>
      have tailSatisfied : StringsSatisfy holds (.object tail) := fun old inTail =>
        satisfied old (List.mem_cons_of_mem _ inTail)
      unfold insertMember at inInserted
      split at inInserted
      · rcases List.mem_cons.mp inInserted with rfl | inTail
        · exact fresh
        · exact tailSatisfied member inTail
      · split at inInserted
        · rcases List.mem_cons.mp inInserted with rfl | old
          · exact fresh
          · exact satisfied member old
        · rcases List.mem_cons.mp inInserted with rfl | inTail
          · exact satisfied _ List.mem_cons_self
          · exact inductionHypothesis tailSatisfied inTail

private theorem sound_number {token : Token} {rest : Bytes} {bound : Nat}
    (le : 2 * rest.length ≤ bound) :
    Sound holds bound (do let value ← getNumber token rest; .ok (value, scan rest)) := by
  rcases getNumber_sound holds token rest with ⟨value, read, satisfied⟩ | ⟨_, thrown, other⟩
  · rw [read]
    exact sound_scan satisfied le
  · rw [thrown]
    exact other

/-- A call after a call that has returned. -/
private theorem sound_bind {inner bound : Nat} {parsed : Parsed}
    {continuation : BasicJson × Token × Bytes → Parsed} (sound : Sound holds inner parsed)
    (continues : ∀ value token rest, cost token rest ≤ inner → StringsSatisfy holds value →
      Sound holds bound (continuation (value, token, rest))) :
    Sound holds bound (parsed >>= continuation) := by
  cases parsed with
  | error exception => exact sound
  | ok result => exact continues _ _ _ sound.1 sound.2

private theorem sound_parseInternal {fuel : Nat} (calls : CallsSound holds limit fuel)
    (scans : ∀ text, text.length ≤ limit → Scanned holds (scan text).1) {token : Token}
    {rest : Bytes} (scanned : Scanned holds token) (within : rest.length ≤ limit)
    (enough : cost token rest + 1 ≤ fuel + 1) :
    Sound holds (cost token rest) (parseInternal (fuel + 1) token rest) := by
  have taken := cost_scan rest
  have shorter := length_scan_le rest
  unfold parseInternal
  split
  next =>
    rw [cost_of_ne Token.noConfusion] at enough ⊢
    split
    next => exact sound_scan (fun _ inNil => absurd inNil List.not_mem_nil) (by omega)
    next first _ =>
      exact (calls.members [] _ _ (fun _ inNil => absurd inNil List.not_mem_nil) (by omega)
        (by omega)).mono (by omega)
  next =>
    rw [cost_of_ne Token.noConfusion] at enough ⊢
    split
    next => exact sound_scan trivial (by omega)
    next first _ =>
      exact (calls.elements [] _ _ (scans rest within) (by omega) (by omega)).mono (by omega)
  next => exact sound_scan trivial (by rw [cost_of_ne Token.noConfusion]; omega)
  next => exact sound_scan trivial (by rw [cost_of_ne Token.noConfusion]; omega)
  next => exact sound_scan trivial (by rw [cost_of_ne Token.noConfusion]; omega)
  next raw =>
    split
    next text read =>
      have satisfied : holds text := scanned raw text rfl read
      exact sound_scan satisfied (by rw [cost_of_ne Token.noConfusion]; omega)
    next => exact sound_error
  next => exact sound_number (by rw [cost_of_ne Token.noConfusion]; omega)
  next => exact sound_number (by rw [cost_of_ne Token.noConfusion]; omega)
  next => exact sound_number (by rw [cost_of_ne Token.noConfusion]; omega)
  next => exact sound_error

private theorem sound_parseMembers {fuel : Nat} (calls : CallsSound holds limit fuel)
    (scans : ∀ text, text.length ≤ limit → Scanned holds (scan text).1)
    {members : List (Bytes × BasicJson)} {token : Token} {rest : Bytes}
    (satisfied : StringsSatisfy holds (.object members)) (within : rest.length ≤ limit)
    (enough : cost token rest + 1 ≤ fuel + 1) :
    Sound holds (cost token rest) (parseMembers (fuel + 1) members token rest) := by
  unfold parseMembers
  split
  next raw =>
    rw [cost_of_ne Token.noConfusion] at enough ⊢
    split
    next key _ colon =>
      have colonTaken := cost_scan rest
      rw [colon, cost_of_ne Token.noConfusion] at colonTaken
      have firstTaken := cost_scan (scan rest).2
      have firstShorter := length_scan_le (scan rest).2
      have valueSound := calls.value (scan (scan rest).2).1 (scan (scan rest).2).2
        (scans (scan rest).2 (by omega)) (by omega) (by omega)
      apply sound_bind valueSound
      intro value next behind taken valueSatisfied
      have inserted : StringsSatisfy holds (.object (insertMember key value _)) :=
        stringsSatisfy_insertMember satisfied valueSatisfied
      dsimp only
      split
      next =>
        rw [cost_of_ne Token.noConfusion] at taken
        have nextTaken := cost_scan behind
        have nextShorter := length_scan_le behind
        exact (calls.members _ _ _ inserted (by omega) (by omega)).mono (by omega)
      next =>
        rw [cost_of_ne Token.noConfusion] at taken
        exact sound_scan inserted (by omega)
      next => exact sound_error
    next => exact sound_error
  next => exact sound_error

private theorem sound_parseElements {fuel : Nat} (calls : CallsSound holds limit fuel)
    (scans : ∀ text, text.length ≤ limit → Scanned holds (scan text).1)
    {elements : List BasicJson} {token : Token} {rest : Bytes} (scanned : Scanned holds token)
    (within : rest.length ≤ limit) (enough : cost token rest + 2 ≤ fuel + 1) :
    Sound holds (cost token rest) (parseElements (fuel + 1) elements token rest) := by
  have small := cost_le token rest
  unfold parseElements
  apply sound_bind (calls.value _ _ scanned within (by omega))
  intro value next behind taken valueSatisfied
  dsimp only
  split
  next =>
    rw [cost_of_ne Token.noConfusion] at taken
    have nextTaken := cost_scan behind
    have nextShorter := length_scan_le behind
    exact (calls.elements _ _ _ (scans behind (by omega)) (by omega) (by omega)).mono (by omega)
  next =>
    rw [cost_of_ne Token.noConfusion] at taken
    exact sound_scan trivial (by omega)
  next => exact sound_error

private theorem callsSound (scans : ∀ text, text.length ≤ limit → Scanned holds (scan text).1)
    (fuel : Nat) : CallsSound holds limit fuel := by
  induction fuel with
  | zero => exact ⟨by intros; omega, by intros; omega, by intros; omega⟩
  | succ fuel calls =>
      exact
        { value := fun _ _ scanned within enough =>
            sound_parseInternal calls scans scanned within enough
          members := fun _ _ _ satisfied within enough =>
            sound_parseMembers calls scans satisfied within enough
          elements := fun _ _ _ scanned within enough =>
            sound_parseElements calls scans scanned within enough }

private theorem sound_first (text : Bytes)
    (scans : ∀ behind : Bytes, behind.length ≤ text.length → Scanned holds (scan behind).1) :
    Sound holds (2 * text.length)
      (parseInternal (2 * text.length + 3) (scan text).1 (scan text).2) := by
  have taken := cost_scan text
  exact ((callsSound scans _).value _ _ (scans text (Nat.le_refl _)) (length_scan_le text)
    (by omega)).mono taken

end Calls

/-- The recursion bound of `parse` is never reached. -/
theorem parse_ne_exhausted (text : Bytes) : parse text ≠ .error .exhausted := by
  have sound : Sound (fun _ => True) (2 * text.length)
      (parseInternal (2 * text.length + 3) (scan text).1 (scan text).2) :=
    sound_first text fun _ _ _ _ _ _ => trivial
  unfold parse
  split
  next => simp
  next => simp
  next exception thrown =>
    rw [thrown] at sound
    intro same
    exact sound (Except.error.inj same)

/-- What the string tokens of a text satisfy, the strings of its value do. -/
private theorem stringsSatisfy_parse {holds : Bytes → Prop} {text : Bytes} {value : BasicJson}
    (scans : ∀ behind : Bytes, behind.length ≤ text.length → Scanned holds (scan behind).1)
    (parsed : parse text = .ok value) : StringsSatisfy holds value := by
  have sound := sound_first text scans
  unfold parse at parsed
  split at parsed
  next found rest first =>
    rw [first] at sound
    cases parsed
    exact sound.2
  next => contradiction
  next => contradiction

theorem stringsValid_parse {text : Bytes} {value : BasicJson} (parsed : parse text = .ok value) :
    StringsValid value := by
  have satisfied : StringsSatisfy ValidUtf8 value := by
    apply stringsSatisfy_parse _ parsed
    intro behind _ raw string token read
    exact utf8Run_getString (scanRun_of_scan (Prod.ext token rfl)) read
  cases value with
  | string => exact satisfied
  | object => exact satisfied
  | _ => trivial

/-- No string of a value is longer than its text. -/
theorem stringsShort_parse {text : Bytes} {value : BasicJson} (parsed : parse text = .ok value) :
    StringsSatisfy (fun string => string.length ≤ text.length) value := by
  apply stringsSatisfy_parse _ parsed
  intro behind shorter raw string token read
  have inToken := length_getString_le read
  have scanned : scan behind = (Token.valueString raw, (scan behind).2) := Prod.ext token rfl
  have inText := length_raw_lt_of_scan scanned
  omega

end Torchat.Json
