import Mathlib.Data.Option.Basic

/-!
Contract: small numbers that stand for resources and are used again.

A descriptor stands for at most one resource at a time and a resource is behind
at most one descriptor; a resource that has left the table does not come back,
while its descriptor may be given to the next one. Owns the laws of assignment
and release.

Does not own who uses a descriptor, and for which resource.
-/

set_option autoImplicit false

namespace Torchat.Foundation

/-- Resources by descriptor, numbered in the order of their arrival. -/
structure DescriptorTable (δ : Type) where
  lookup : δ → Option Nat
  next : Nat
  below : ∀ {descriptor resource}, lookup descriptor = some resource → resource < next
  injective : ∀ {left right resource}, lookup left = some resource →
    lookup right = some resource → left = right

namespace DescriptorTable

variable {δ : Type}

/-- A resource that was in the table and will not be in it again. -/
def Gone (table : DescriptorTable δ) (resource : Nat) : Prop :=
  resource < table.next ∧ ∀ descriptor, table.lookup descriptor ≠ some resource

/-- What is still in the table is not gone. -/
theorem ne_of_gone {table : DescriptorTable δ} {descriptor : δ} {resource held : Nat}
    (gone : table.Gone resource) (found : table.lookup descriptor = some held) :
    held ≠ resource := by
  rintro rfl
  exact gone.2 descriptor found

def empty : DescriptorTable δ where
  lookup _ := none
  next := 0
  below found := by contradiction
  injective found := by contradiction

variable [DecidableEq δ]

/-- The next resource arrives behind a descriptor. -/
def assign (table : DescriptorTable δ) (descriptor : δ) : DescriptorTable δ where
  lookup other := if other = descriptor then some table.next else table.lookup other
  next := table.next + 1
  below := by
    intro other resource found
    split at found
    next => exact Nat.lt_succ_of_le (Nat.le_of_eq (Option.some.inj found).symm)
    next => exact Nat.lt_succ_of_lt (table.below found)
  injective := by
    intro left right resource leftFound rightFound
    split at leftFound <;> split at rightFound
    next leftHere rightHere => exact leftHere.trans rightHere.symm
    next =>
      have older := table.below rightFound
      exact absurd (Option.some.inj leftFound).symm (Nat.ne_of_lt older)
    next =>
      have older := table.below leftFound
      exact absurd (Option.some.inj rightFound).symm (Nat.ne_of_lt older)
    next => exact table.injective leftFound rightFound

/-- Whatever is behind a descriptor leaves. -/
def release (table : DescriptorTable δ) (descriptor : δ) : DescriptorTable δ where
  lookup other := if other = descriptor then none else table.lookup other
  next := table.next
  below := by
    intro other resource found
    split at found
    next => contradiction
    next => exact table.below found
  injective := by
    intro left right resource leftFound rightFound
    split at leftFound
    next => contradiction
    split at rightFound
    next => contradiction
    exact table.injective leftFound rightFound

variable {table : DescriptorTable δ} {descriptor other : δ} {resource : Nat}

theorem lookup_assign_self :
    (table.assign descriptor).lookup descriptor = some table.next := if_pos rfl

/-- What is found behind an assignment is the next resource, or was there before. -/
theorem lookup_of_assign (found : (table.assign descriptor).lookup other = some resource) :
    other = descriptor ∧ resource = table.next ∨ table.lookup other = some resource := by
  by_cases here : other = descriptor
  · subst here
    rw [lookup_assign_self] at found
    exact Or.inl ⟨rfl, (Option.some.inj found).symm⟩
  · exact Or.inr ((if_neg here).symm.trans found)

/-- A descriptor that is given away was free, so the others are as before. -/
theorem lookup_assign_of_free (free : table.lookup descriptor = none)
    (held : table.lookup other = some resource) :
    (table.assign descriptor).lookup other = some resource := by
  have different : other ≠ descriptor := by
    rintro rfl
    rw [free] at held
    contradiction
  exact (if_neg different).trans held

theorem lookup_release_self : (table.release descriptor).lookup descriptor = none := if_pos rfl

theorem lookup_release_of_ne (different : other ≠ descriptor) :
    (table.release descriptor).lookup other = table.lookup other := if_neg different

/-- What is found behind a release was there before. -/
theorem lookup_of_release (found : (table.release descriptor).lookup other = some resource) :
    table.lookup other = some resource := by
  by_cases here : other = descriptor
  · rw [here, lookup_release_self] at found
    contradiction
  · rw [lookup_release_of_ne here] at found
    exact found

theorem gone_release (held : table.lookup descriptor = some resource) :
    (table.release descriptor).Gone resource := by
  refine ⟨table.below held, fun other found => ?_⟩
  by_cases here : other = descriptor
  · subst here
    rw [lookup_release_self] at found
    contradiction
  · rw [lookup_release_of_ne here] at found
    exact here (table.injective found held)

theorem Gone.assign (gone : table.Gone resource) (descriptor : δ) :
    (table.assign descriptor).Gone resource := by
  refine ⟨Nat.lt_succ_of_lt gone.1, fun other found => ?_⟩
  by_cases here : other = descriptor
  · subst here
    rw [lookup_assign_self] at found
    exact absurd (Option.some.inj found).symm (Nat.ne_of_lt gone.1)
  · have elsewhere : table.lookup other = some resource := (if_neg here).symm.trans found
    exact gone.2 other elsewhere

theorem Gone.release (gone : table.Gone resource) (descriptor : δ) :
    (table.release descriptor).Gone resource := by
  refine ⟨gone.1, fun other found => ?_⟩
  by_cases here : other = descriptor
  · rw [here, lookup_release_self] at found
    contradiction
  · rw [lookup_release_of_ne here] at found
    exact gone.2 other found

end DescriptorTable

end Torchat.Foundation
