/-!
Contract: computations that change a system and end with a value or an error.

Owns their composition, the clean-up behind an error, what a computation has gone through
when it has ended with a value, and the rules for an observation of the system that no part
of a computation changes and for what holds before and behind a computation.

Does not own any system: states, errors and values are parameters.
-/

set_option autoImplicit false

namespace Torchat.Foundation

/-- A computation on a system; it has changed the system also where it fails. -/
def Session (σ ε α : Type) : Type := σ → Except ε α × σ

namespace Session

variable {σ ε α β τ : Type}

instance : Monad (Session σ ε) where
  pure value := fun state => (.ok value, state)
  bind first continuation := fun state =>
    match first state with
    | (.ok value, state) => continuation value state
    | (.error error, state) => (.error error, state)

def abort (error : ε) : Session σ ε α := fun state => (.error error, state)

/-- A call of the system that ends with a value. -/
def call (operation : σ → α × σ) : Session σ ε α := fun state =>
  let (value, state) := operation state
  (.ok value, state)

/-- The clean-up runs where the computation fails, and the error stays. -/
def onError (body : Session σ ε α) (cleanUp : σ → σ) : Session σ ε α := fun state =>
  match body state with
  | (.ok value, state) => (.ok value, state)
  | (.error error, state) => (.error error, cleanUp state)

/-! ## One state -/

@[simp] theorem pure_apply (value : α) (state : σ) :
    (pure value : Session σ ε α) state = (.ok value, state) := rfl

@[simp] theorem call_apply (operation : σ → α × σ) (state : σ) :
    (call operation : Session σ ε α) state = (.ok (operation state).1, (operation state).2) := rfl

theorem bind_apply (first : Session σ ε α) (continuation : α → Session σ ε β) (state : σ) :
    (first >>= continuation) state =
      match first state with
      | (.ok value, state) => continuation value state
      | (.error error, state) => (.error error, state) := rfl

theorem bind_of_ok {first : Session σ ε α} {state between : σ} {value : α}
    (ended : first state = (.ok value, between)) (continuation : α → Session σ ε β) :
    (first >>= continuation) state = continuation value between := by
  rw [bind_apply, ended]

/-- A composition that ends with a value has ended its first part with one. -/
theorem bind_eq_ok {first : Session σ ε α} {continuation : α → Session σ ε β} {state last : σ}
    {result : β} (ended : (first >>= continuation) state = (.ok result, last)) :
    ∃ value between, first state = (.ok value, between) ∧
      continuation value between = (.ok result, last) := by
  rw [bind_apply] at ended
  split at ended
  next value between isFirst => exact ⟨value, between, isFirst, ended⟩
  next => cases ended

/-- The computation does not change an observation of the system. -/
def Keeps (observe : σ → τ) (session : Session σ ε α) : Prop :=
  ∀ state, observe (session state).2 = observe state

namespace Keeps

variable {observe : σ → τ} {first : Session σ ε α} {continuation : α → Session σ ε β}

theorem pure (value : α) : Keeps observe (Pure.pure value : Session σ ε α) := fun _ => rfl

theorem abort (error : ε) : Keeps observe (Session.abort error : Session σ ε α) := fun _ => rfl

theorem call {operation : σ → α × σ}
    (same : ∀ state, observe (operation state).2 = observe state) :
    Keeps observe (Session.call operation : Session σ ε α) := same

theorem bind (firstKeeps : Keeps observe first)
    (keeps : ∀ value, Keeps observe (continuation value)) :
    Keeps observe (first >>= continuation) := by
  intro state
  have before := firstKeeps state
  rw [bind_apply]
  split
  next value between isFirst =>
    rw [isFirst] at before
    exact (keeps value between).trans before
  next error between isFirst =>
    rw [isFirst] at before
    exact before

theorem ite {condition : Prop} [Decidable condition] {yes no : Session σ ε α}
    (yesKeeps : Keeps observe yes) (noKeeps : Keeps observe no) :
    Keeps observe (if condition then yes else no) := by
  split
  · exact yesKeeps
  · exact noKeeps

end Keeps

/-! ## What holds behind a computation -/

/-- From a state in `before` the computation comes to one in `ended` with its value, or to
one in `stopped` with an error. -/
def Ensures (before : σ → Prop) (session : Session σ ε α) (ended : α → σ → Prop)
    (stopped : σ → Prop) : Prop :=
  ∀ state, before state →
    (∀ value after, session state = (.ok value, after) → ended value after) ∧
      ∀ error after, session state = (.error error, after) → stopped after

namespace Ensures

variable {before stopped : σ → Prop} {first : Session σ ε α} {continuation : α → Session σ ε β}
  {between : α → σ → Prop} {ended : β → σ → Prop}

theorem pure {ended : α → σ → Prop} {value : α}
    (holds : ∀ state, before state → ended value state) :
    Ensures before (Pure.pure value : Session σ ε α) ended stopped :=
  fun state holdsBefore => ⟨by rintro _ _ ⟨⟩; exact holds state holdsBefore, nofun⟩

theorem abort {ended : α → σ → Prop} {error : ε}
    (holds : ∀ state, before state → stopped state) :
    Ensures before (Session.abort error : Session σ ε α) ended stopped :=
  fun state holdsBefore => ⟨nofun, by rintro _ _ ⟨⟩; exact holds state holdsBefore⟩

theorem call {ended : α → σ → Prop} {operation : σ → α × σ}
    (holds : ∀ state, before state → ended (operation state).1 (operation state).2) :
    Ensures before (Session.call operation : Session σ ε α) ended stopped :=
  fun state holdsBefore => ⟨by rintro _ _ ⟨⟩; exact holds state holdsBefore, nofun⟩

theorem bind (firstEnsures : Ensures before first between stopped)
    (ensures : ∀ value, Ensures (between value) (continuation value) ended stopped) :
    Ensures before (first >>= continuation) ended stopped := by
  intro state holds
  obtain ⟨onValue, onError⟩ := firstEnsures state holds
  rw [bind_apply]
  split
  next value middle isFirst => exact ensures value middle (onValue value middle isFirst)
  next error middle isFirst =>
    exact ⟨nofun, by rintro _ _ ⟨⟩; exact onError error middle isFirst⟩

theorem ite {condition : Prop} [Decidable condition] {yes no : Session σ ε α}
    {ended : α → σ → Prop} (yesEnsures : condition → Ensures before yes ended stopped)
    (noEnsures : ¬ condition → Ensures before no ended stopped) :
    Ensures before (if condition then yes else no) ended stopped := by
  split
  next holds => exact yesEnsures holds
  next fails => exact noEnsures fails

/-- A clean-up that leads from each state in which the body stops to one in `stopped`. -/
theorem onError {failed : σ → Prop} {ended : α → σ → Prop} {cleanUp : σ → σ}
    (bodyEnsures : Ensures before first ended failed)
    (cleans : ∀ state, failed state → stopped (cleanUp state)) :
    Ensures before (first.onError cleanUp) ended stopped := by
  intro state holds
  obtain ⟨onValue, onFailure⟩ := bodyEnsures state holds
  unfold Session.onError
  split
  next value after isBody =>
    exact ⟨by rintro _ _ ⟨⟩; exact onValue value after isBody, nofun⟩
  next error after isBody =>
    exact ⟨nofun, by rintro _ _ ⟨⟩; exact cleans after (onFailure error after isBody)⟩

end Ensures

/-- What is true of an observation that a computation keeps stays true. -/
theorem Keeps.ensures {observe : σ → τ} {session : Session σ ε α} (keeps : Keeps observe session)
    (holds : τ → Prop) :
    Ensures (fun state => holds (observe state)) session (fun _ state => holds (observe state))
      fun state => holds (observe state) := by
  intro state holdsBefore
  have same := keeps state
  constructor
  all_goals
    intro _ after ran
    rw [ran] at same
    show holds (observe after)
    rw [same]
    exact holdsBefore

end Session

end Torchat.Foundation
