import Torchat.Foundation.Heap

/-!
Contract: cells that are linked in both directions.

A link forward is answered by a link back and the other way round, and it leads to
a younger cell, so following it ends. Owns the rules for a cell that joins without
links, one that is linked behind another and one without links that leaves, and
what is lost with a cell that leaves while it is linked.

Does not own the layout of a cell: the two linking fields are parameters.
-/

set_option autoImplicit false

namespace Torchat.Foundation.Heap

variable {α : Type}

/-- Both directions of the links between the cells of a heap. -/
structure Linked (next prev : α → Option Address) (heap : Heap α) : Prop where
  forward : ∀ {address cell later}, heap.load address = some cell → next cell = some later →
    address < later ∧ ∃ other, heap.load later = some other ∧ prev other = some address
  backward : ∀ {address cell earlier}, heap.load address = some cell →
    prev cell = some earlier → ∃ other, heap.load earlier = some other ∧ next other = some address

namespace Linked

variable {next prev : α → Option Address} {heap after : Heap α}

theorem empty : Linked next prev (Heap.empty : Heap α) where
  forward loaded := by contradiction
  backward loaded := by contradiction

/-- A cell that was there is not at an address without one. -/
private theorem ne_of_absent {fresh address : Address} {cell : α} (absent : heap.load fresh = none)
    (found : heap.load address = some cell) : address ≠ fresh := by
  rintro rfl
  rw [absent] at found
  contradiction

/-- A cell without links joins. -/
theorem add (linked : Linked next prev heap) {fresh : Address} {new : α}
    (absent : heap.load fresh = none) (loaded : after.load fresh = some new)
    (noNext : next new = none) (noPrev : prev new = none)
    (same : ∀ address, address ≠ fresh → after.load address = heap.load address) :
    Linked next prev after := by
  constructor
  · intro address cell later found link
    by_cases isNew : address = fresh
    · subst isNew
      rw [loaded] at found
      cases found
      rw [noNext] at link
      contradiction
    · rw [same address isNew] at found
      obtain ⟨below, other, laterFound, back⟩ := linked.forward found link
      exact ⟨below, other, (same later (ne_of_absent absent laterFound)).trans laterFound, back⟩
  · intro address cell earlier found link
    by_cases isNew : address = fresh
    · subst isNew
      rw [loaded] at found
      cases found
      rw [noPrev] at link
      contradiction
    · rw [same address isNew] at found
      obtain ⟨other, earlierFound, forth⟩ := linked.backward found link
      exact ⟨other, (same earlier (ne_of_absent absent earlierFound)).trans earlierFound, forth⟩

/-- A cell joins behind one that had no successor. -/
theorem extend (linked : Linked next prev heap) {tail fresh : Address} {old relinked new : α}
    (absent : heap.load fresh = none) (tailFound : heap.load tail = some old)
    (wasLast : next old = none) (younger : tail < fresh)
    (tailAfter : after.load tail = some relinked) (link : next relinked = some fresh)
    (kept : prev relinked = prev old)
    (freshAfter : after.load fresh = some new) (isLast : next new = none)
    (back : prev new = some tail)
    (same : ∀ address, address ≠ tail → address ≠ fresh →
      after.load address = heap.load address) :
    Linked next prev after := by
  -- Nothing is linked forward from the old tail.
  have notTail : ∀ {address cell later}, heap.load address = some cell →
      next cell = some later → address ≠ tail := by
    rintro address cell later found forth rfl
    rw [tailFound] at found
    cases found
    rw [wasLast] at forth
    contradiction
  constructor
  · intro address cell later found forth
    by_cases isTail : address = tail
    · subst isTail
      rw [tailAfter] at found
      cases found
      rw [link] at forth
      cases forth
      exact ⟨younger, new, freshAfter, back⟩
    by_cases isNew : address = fresh
    · subst isNew
      rw [freshAfter] at found
      cases found
      rw [isLast] at forth
      contradiction
    rw [same address isTail isNew] at found
    obtain ⟨below, other, laterFound, answered⟩ := linked.forward found forth
    refine ⟨below, ?_⟩
    by_cases toTail : later = tail
    · subst toTail
      rw [tailFound] at laterFound
      cases laterFound
      exact ⟨relinked, tailAfter, kept.trans answered⟩
    · exact ⟨other, (same later toTail (ne_of_absent absent laterFound)).trans laterFound, answered⟩
  · have unchanged : ∀ {address earlier other}, heap.load earlier = some other →
        next other = some address → after.load earlier = some other := by
      intro address earlier other found forth
      exact (same earlier (notTail found forth) (ne_of_absent absent found)).trans found
    intro address cell earlier found answered
    by_cases isTail : address = tail
    · subst isTail
      rw [tailAfter] at found
      cases found
      obtain ⟨other, earlierFound, forth⟩ := linked.backward tailFound (kept.symm.trans answered)
      exact ⟨other, unchanged earlierFound forth, forth⟩
    by_cases isNew : address = fresh
    · subst isNew
      rw [freshAfter] at found
      cases found
      rw [back] at answered
      cases answered
      exact ⟨relinked, tailAfter, link⟩
    rw [same address isTail isNew] at found
    obtain ⟨other, earlierFound, forth⟩ := linked.backward found answered
    exact ⟨other, unchanged earlierFound forth, forth⟩

/-- A cell without links leaves. -/
theorem remove (linked : Linked next prev heap) {gone : Address} {cell : α}
    (found : heap.load gone = some cell) (noNext : next cell = none) (noPrev : prev cell = none)
    (freed : after.load gone = none)
    (same : ∀ address, address ≠ gone → after.load address = heap.load address) :
    Linked next prev after := by
  have stays : ∀ {address other}, after.load address = some other →
      heap.load address = some other := by
    intro address other loaded
    by_cases isGone : address = gone
    · rw [isGone, freed] at loaded
      contradiction
    · rw [← same address isGone]
      exact loaded
  constructor
  · intro address other later loaded link
    obtain ⟨below, third, laterFound, back⟩ := linked.forward (stays loaded) link
    have notGone : later ≠ gone := by
      rintro rfl
      rw [found] at laterFound
      cases laterFound
      rw [noPrev] at back
      contradiction
    exact ⟨below, third, (same later notGone).trans laterFound, back⟩
  · intro address other earlier loaded link
    obtain ⟨third, earlierFound, forth⟩ := linked.backward (stays loaded) link
    have notGone : earlier ≠ gone := by
      rintro rfl
      rw [found] at earlierFound
      cases earlierFound
      rw [noNext] at forth
      contradiction
    exact ⟨third, (same earlier notGone).trans earlierFound, forth⟩

/-- The successor of a cell that leaves is still there, with a link back to it. -/
theorem dangling_of_free (linked : Linked next prev heap) {gone later : Address} {cell : α}
    (found : heap.load gone = some cell) (link : next cell = some later)
    (same : ∀ address, address ≠ gone → after.load address = heap.load address) :
    ∃ other, after.load later = some other ∧ prev other = some gone := by
  obtain ⟨below, other, laterFound, back⟩ := linked.forward found link
  exact ⟨other, (same later (Nat.ne_of_gt below)).trans laterFound, back⟩

/-- Following the links forward ends, since the cells get younger. -/
theorem exists_chain (linked : Linked next prev heap) (room : Nat) {start : Option Address}
    (starts : ∀ address, start = some address →
      heap.limit ≤ address + room ∧ ∃ cell, heap.load address = some cell) :
    ∃ cells, Chain next heap start cells := by
  induction room generalizing start with
  | zero =>
      cases start with
      | none => exact ⟨[], rfl⟩
      | some address =>
          obtain ⟨above, cell, loaded⟩ := starts address rfl
          exact absurd (lt_limit_of_load loaded) (Nat.not_lt_of_le above)
  | succ room inductionHypothesis =>
      cases start with
      | none => exact ⟨[], rfl⟩
      | some address =>
          obtain ⟨near, cell, loaded⟩ := starts address rfl
          have further : ∀ later, next cell = some later →
              heap.limit ≤ later + room ∧ ∃ other, heap.load later = some other := by
            intro later link
            obtain ⟨below, other, laterFound, _⟩ := linked.forward loaded link
            rw [← Nat.succ_add_eq_add_succ] at near
            exact ⟨Nat.le_trans near (Nat.add_le_add_right below room), other, laterFound⟩
          obtain ⟨cells, chain⟩ := inductionHypothesis further
          exact ⟨(address, cell) :: cells, rfl, loaded, chain⟩

end Linked

end Torchat.Foundation.Heap
