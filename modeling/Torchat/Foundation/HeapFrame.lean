import Torchat.Foundation.Heap

/-!
Contract: the same operations on a heap and on one with more cells.

What succeeds on the smaller heap succeeds on the larger one, with the same result, and
leaves the cells alone that only the larger one has. Owns that relation, its rules for
each operation, and the two ways in which a cell becomes one of those and ceases to be one.

Does not own what the further cells are for.
-/

set_option autoImplicit false

namespace Torchat.Foundation.Heap

variable {α : Type}

/-- The larger heap has these cells and all those of the smaller one, and both hand out
the same addresses. -/
structure Extends (large small : Heap α) (extra : List Address) : Prop where
  limit : large.limit = small.limit
  same : ∀ address, address ∉ extra → large.load address = small.load address
  absent : ∀ address ∈ extra, small.load address = none
  present : ∀ address ∈ extra, ∃ cell, large.load address = some cell
  nodup : extra.Nodup

namespace Extends

variable {large small after : Heap α} {extra : List Address} {target : Address} {cell : α}

theorem refl (heap : Heap α) : Extends heap heap [] where
  limit := rfl
  same _ _ := rfl
  absent := by simp
  present := by simp
  nodup := List.nodup_nil

theorem perm {other : List Address} (extends_ : Extends large small extra)
    (permuted : extra.Perm other) : Extends large small other where
  limit := extends_.limit
  same address outside := extends_.same address fun member => outside (permuted.mem_iff.mp member)
  absent address member := extends_.absent address (permuted.mem_iff.mpr member)
  present address member := extends_.present address (permuted.mem_iff.mpr member)
  nodup := permuted.nodup_iff.mp extends_.nodup

/-- An address of the smaller heap is none of the further ones. -/
theorem notMem (extends_ : Extends large small extra) (loaded : small.load target = some cell) :
    target ∉ extra := by
  intro member
  rw [extends_.absent target member] at loaded
  contradiction

theorem load (extends_ : Extends large small extra) (loaded : small.load target = some cell) :
    large.load target = some cell := by
  rw [extends_.same target (extends_.notMem loaded), loaded]

theorem alloc (extends_ : Extends large small extra) (cell : α) :
    (large.alloc cell).1 = (small.alloc cell).1 ∧
      Extends (large.alloc cell).2 (small.alloc cell).2 extra := by
  have outside : small.limit ∉ extra := by
    intro member
    obtain ⟨found, loaded⟩ := extends_.present _ member
    rw [← extends_.limit, load_limit] at loaded
    contradiction
  refine ⟨extends_.limit, congrArg (· + 1) extends_.limit, ?_, ?_, ?_, extends_.nodup⟩
  · intro address notExtra
    by_cases fresh : address = small.limit
    · rw [fresh, load_alloc_self, ← extends_.limit, load_alloc_self]
    · rw [load_alloc_of_ne cell fresh, load_alloc_of_ne cell (extends_.limit ▸ fresh),
        extends_.same address notExtra]
  · intro address member
    rw [load_alloc_of_ne cell fun fresh => outside (fresh ▸ member)]
    exact extends_.absent address member
  · intro address member
    rw [load_alloc_of_ne cell fun fresh => outside (extends_.limit ▸ fresh ▸ member)]
    exact extends_.present address member

/-- Both heaps change one cell of the smaller one in the same way. -/
private theorem changed {largeAfter : Heap α} (extends_ : Extends large small extra)
    (outside : target ∉ extra) (largeLimit : largeAfter.limit = large.limit)
    (smallLimit : after.limit = small.limit) (here : largeAfter.load target = after.load target)
    (largeSame : ∀ address, address ≠ target → largeAfter.load address = large.load address)
    (smallSame : ∀ address, address ≠ target → after.load address = small.load address) :
    Extends largeAfter after extra where
  limit := by rw [largeLimit, smallLimit, extends_.limit]
  same address notExtra := by
    by_cases isTarget : address = target
    · rw [isTarget, here]
    · rw [largeSame address isTarget, smallSame address isTarget, extends_.same address notExtra]
  absent address member := by
    rw [smallSame address fun isTarget => outside (isTarget ▸ member)]
    exact extends_.absent address member
  present address member := by
    rw [largeSame address fun isTarget => outside (isTarget ▸ member)]
    exact extends_.present address member
  nodup := extends_.nodup

theorem store (extends_ : Extends large small extra)
    (stored : small.store target cell = some after) :
    ∃ largeAfter, large.store target cell = some largeAfter ∧ Extends largeAfter after extra := by
  obtain ⟨old, loaded⟩ := exists_load_of_store stored
  obtain ⟨smallAfter, smallStored, smallLimit, smallNew, smallSame⟩ := store_of_load loaded cell
  cases stored.symm.trans smallStored
  obtain ⟨largeAfter, largeStored, largeLimit, largeNew, largeSame⟩ :=
    store_of_load (extends_.load loaded) cell
  exact ⟨largeAfter, largeStored, extends_.changed (extends_.notMem loaded) largeLimit smallLimit
    (largeNew.trans smallNew.symm) largeSame smallSame⟩

theorem free (extends_ : Extends large small extra) (freed : small.free target = some after) :
    ∃ largeAfter, large.free target = some largeAfter ∧ Extends largeAfter after extra := by
  obtain ⟨old, loaded⟩ := exists_load_of_free freed
  obtain ⟨smallAfter, smallFreed, smallLimit, smallGone, smallSame⟩ := free_of_load loaded
  cases freed.symm.trans smallFreed
  obtain ⟨largeAfter, largeFreed, largeLimit, largeGone, largeSame⟩ :=
    free_of_load (extends_.load loaded)
  exact ⟨largeAfter, largeFreed, extends_.changed (extends_.notMem loaded) largeLimit smallLimit
    (largeGone.trans smallGone.symm) largeSame smallSame⟩

/-- A cell that only the smaller heap releases becomes one of the further ones. -/
theorem keep (extends_ : Extends large small extra) (freed : small.free target = some after) :
    Extends large after (target :: extra) := by
  obtain ⟨old, loaded⟩ := exists_load_of_free freed
  obtain ⟨smallAfter, smallFreed, smallLimit, smallGone, smallSame⟩ := free_of_load loaded
  cases freed.symm.trans smallFreed
  refine ⟨by rw [smallLimit, extends_.limit], ?_, ?_, ?_, ?_⟩
  · intro address outside
    rw [List.mem_cons, not_or] at outside
    rw [smallSame address outside.1, extends_.same address outside.2]
  · intro address member
    by_cases isTarget : address = target
    · rw [isTarget, smallGone]
    · rw [smallSame address isTarget]
      exact extends_.absent address ((List.mem_cons.mp member).resolve_left isTarget)
  · intro address member
    rcases List.mem_cons.mp member with rfl | older
    · exact ⟨old, extends_.load loaded⟩
    · exact extends_.present address older
  · exact List.nodup_cons.mpr ⟨extends_.notMem loaded, extends_.nodup⟩

/-- The larger heap releases one of them later. -/
theorem release (extends_ : Extends large small (target :: extra)) :
    ∃ largeAfter, large.free target = some largeAfter ∧ Extends largeAfter small extra := by
  obtain ⟨old, loaded⟩ := extends_.present target List.mem_cons_self
  obtain ⟨outside, nodup⟩ := List.nodup_cons.mp extends_.nodup
  obtain ⟨largeAfter, freed, limit, gone, others⟩ := free_of_load loaded
  refine ⟨largeAfter, freed, by rw [limit, extends_.limit], ?_, ?_, ?_, nodup⟩
  · intro address notExtra
    by_cases isTarget : address = target
    · rw [isTarget, gone, extends_.absent target List.mem_cons_self]
    · rw [others address isTarget]
      exact extends_.same address fun member =>
        notExtra ((List.mem_cons.mp member).resolve_left isTarget)
  · exact fun address member => extends_.absent address (List.mem_cons_of_mem _ member)
  · intro address member
    rw [others address fun isTarget => outside (isTarget ▸ member)]
    exact extends_.present address (List.mem_cons_of_mem _ member)

theorem walk {next : α → Option Address} (extends_ : Extends large small extra) {fuel : Nat}
    {start : Option Address} {cells : List (Address × α)}
    (walked : Heap.walk next small fuel start = some cells) :
    Heap.walk next large fuel start = some cells := by
  induction fuel generalizing start cells with
  | zero =>
      cases start with
      | none => exact walked
      | some address => contradiction
  | succ fuel inductionHypothesis =>
      cases start with
      | none => exact walked
      | some address =>
          unfold Heap.walk at walked ⊢
          cases loaded : small.load address with
          | none =>
              rw [loaded] at walked
              contradiction
          | some cell =>
              simp only [loaded, Option.map_eq_some_iff] at walked
              obtain ⟨rest, walkedRest, rfl⟩ := walked
              simp only [extends_.load loaded, inductionHypothesis walkedRest, Option.map_some]

/-- The larger heap has as many more cells as there are further ones. -/
theorem allocated (extends_ : Extends large small extra) :
    large.allocated = small.allocated + extra.length := by
  induction extra generalizing large with
  | nil =>
      exact allocated_congr extends_.limit fun address => by
        rw [extends_.same address List.not_mem_nil]
  | cons target rest inductionHypothesis =>
      obtain ⟨largeAfter, freed, released⟩ := extends_.release
      rw [allocated_free freed, inductionHypothesis released, List.length_cons, Nat.add_assoc]

end Extends

end Torchat.Foundation.Heap
