import Torchat.Foundation.Heap

/-!
Contract: lists of cells with a link to the cell behind and to the cell in front.

`DoublyLinked` says that given cells form such a list in a given order. Its rules
are a cell that joins at the front or at the back, a cell that leaves, and the
chain that the forward links alone make.

Does not own the layout of a cell, so that one cell can be in several lists: what
the two links of an address are is a parameter.
-/

set_option autoImplicit false

namespace Torchat.Foundation

/-- The two links of a cell. -/
structure Ends where
  prev : Option Address
  next : Option Address
deriving DecidableEq

/-- The links in the cells of a heap. -/
def Heap.view {α : Type} (ends : α → Ends) (heap : Heap α) (address : Address) : Option Ends :=
  (heap.load address).map ends

/-- The links of a cell that has been changed. -/
theorem Heap.view_of_load {α : Type} {ends : α → Ends} {heap after : Heap α} {address : Address}
    {change : α → α} {adjust : Ends → Ends}
    (loads : after.load address = (heap.load address).map change)
    (same : ∀ cell, ends (change cell) = adjust (ends cell)) :
    after.view ends address = (heap.view ends address).map adjust := by
  rw [view, view, loads, Option.map_map, Option.map_map]
  exact congrArg (Option.map · (heap.load address)) (funext same)

/-- Cells that are linked to their neighbours, with `before` and `after` outside. -/
def Segment (links : Address → Option Ends) : Option Address → List Address → Option Address → Prop
  | _, [], _ => True
  | before, address :: rest, after =>
      links address = some { prev := before, next := rest.head?.or after } ∧
        Segment links (some address) rest after

/-- A list of cells with nothing outside. -/
structure DoublyLinked (links : Address → Option Ends) (cells : List Address) : Prop where
  nodup : cells.Nodup
  segment : Segment links none cells none

namespace Segment

variable {links changed : Address → Option Ends} {before after : Option Address}
variable {front back cells : List Address}

theorem append_iff : Segment links before (front ++ back) after ↔
    Segment links before front (back.head?.or after) ∧
      Segment links (front.getLast?.or before) back after := by
  induction front generalizing before with
  | nil => simp [Segment]
  | cons address rest inductionHypothesis =>
      rw [List.cons_append, Segment, Segment, inductionHypothesis, and_assoc,
        List.head?_append, Option.or_assoc]
      cases rest <;> rfl

/-- What leaves the links of the cells alone leaves the segment. -/
theorem frame (segment : Segment links before cells after)
    (same : ∀ address ∈ cells, changed address = links address) :
    Segment changed before cells after := by
  induction cells generalizing before with
  | nil => trivial
  | cons address rest inductionHypothesis =>
      obtain ⟨found, linked⟩ := segment
      refine ⟨(same address List.mem_cons_self).trans found, inductionHypothesis linked ?_⟩
      intro other member
      exact same other (List.mem_cons_of_mem address member)

/-- The first cell gets another neighbour outside. -/
theorem relinkFirst (segment : Segment links before cells after) (nodup : cells.Nodup)
    (outside : Option Address)
    (same : ∀ address ∈ cells, changed address = (links address).map fun ends =>
      if cells.head? = some address then { ends with prev := outside } else ends) :
    Segment changed outside cells after := by
  cases cells with
  | nil => trivial
  | cons address rest =>
      obtain ⟨found, linked⟩ := segment
      constructor
      · rw [same address List.mem_cons_self, found]
        simp
      · apply linked.frame
        intro other member
        have notFirst : (address :: rest).head? ≠ some other := by
          rintro ⟨⟩
          exact (List.nodup_cons.mp nodup).1 member
        rw [same other (List.mem_cons_of_mem address member)]
        simp only [if_neg notFirst, Option.map_id']

/-- The last cell gets another neighbour outside. -/
theorem relinkLast (segment : Segment links before cells after) (nodup : cells.Nodup)
    (outside : Option Address)
    (same : ∀ address ∈ cells, changed address = (links address).map fun ends =>
      if cells.getLast? = some address then { ends with next := outside } else ends) :
    Segment changed before cells outside := by
  induction cells generalizing before with
  | nil => trivial
  | cons address rest inductionHypothesis =>
      obtain ⟨found, linked⟩ := segment
      obtain ⟨absent, restNodup⟩ := List.nodup_cons.mp nodup
      cases rest with
      | nil =>
          refine ⟨?_, trivial⟩
          rw [same address List.mem_cons_self, found]
          simp
      | cons second others =>
          have notLast : (second :: others).getLast? ≠ some address :=
            fun isLast => absent (List.mem_of_getLast? isLast)
          constructor
          · rw [same address List.mem_cons_self, found, List.getLast?_cons_cons, Option.map_some,
              if_neg notLast]
            rfl
          · apply inductionHypothesis linked restNodup
            intro other member
            rw [same other (List.mem_cons_of_mem address member), List.getLast?_cons_cons]

end Segment

namespace DoublyLinked

variable {links changed : Address → Option Ends} {cells front back : List Address}
variable {gone fresh : Address}

theorem nil : DoublyLinked links [] := ⟨List.nodup_nil, trivial⟩

theorem frame (doubly : DoublyLinked links cells)
    (same : ∀ address ∈ cells, changed address = links address) : DoublyLinked changed cells :=
  ⟨doubly.nodup, doubly.segment.frame same⟩

/-- The links of a cell lead to its neighbours. -/
theorem links_of_split (doubly : DoublyLinked links (front ++ gone :: back)) :
    links gone = some { prev := front.getLast?, next := back.head? } := by
  have behind := (Segment.append_iff.mp doubly.segment).2.1
  rwa [Option.or_none, Option.or_none] at behind

theorem exists_links (doubly : DoublyLinked links cells) {address : Address}
    (member : address ∈ cells) : ∃ ends, links address = some ends := by
  obtain ⟨front, back, rfl⟩ := List.append_of_mem member
  exact ⟨_, doubly.links_of_split⟩

/-- A cell joins at the front. -/
theorem push (doubly : DoublyLinked links cells) (absent : fresh ∉ cells)
    (new : changed fresh = some { prev := none, next := cells.head? })
    (old : ∀ address ∈ cells, changed address = (links address).map fun ends =>
      if cells.head? = some address then { ends with prev := some fresh } else ends) :
    DoublyLinked changed (fresh :: cells) where
  nodup := List.nodup_cons.mpr ⟨absent, doubly.nodup⟩
  segment := by
    refine ⟨?_, doubly.segment.relinkFirst doubly.nodup (some fresh) old⟩
    rw [new, Option.or_none]

/-- A cell joins at the back. -/
theorem append (doubly : DoublyLinked links cells) (absent : fresh ∉ cells)
    (new : changed fresh = some { prev := cells.getLast?, next := none })
    (old : ∀ address ∈ cells, changed address = (links address).map fun ends =>
      if cells.getLast? = some address then { ends with next := some fresh } else ends) :
    DoublyLinked changed (cells ++ [fresh]) where
  nodup := List.nodup_append.mpr ⟨doubly.nodup, List.nodup_singleton fresh, by
    rintro address member other inNew rfl
    rw [List.mem_singleton.mp inNew] at member
    exact absent member⟩
  segment := by
    refine Segment.append_iff.mpr ⟨doubly.segment.relinkLast doubly.nodup (some fresh) old, ?_⟩
    refine ⟨?_, trivial⟩
    rw [new, Option.or_none]
    rfl

/-- A cell leaves, and its neighbours are linked to each other. -/
theorem remove (doubly : DoublyLinked links (front ++ gone :: back))
    (inFront : ∀ address ∈ front, changed address = (links address).map fun ends =>
      if front.getLast? = some address then { ends with next := back.head? } else ends)
    (inBack : ∀ address ∈ back, changed address = (links address).map fun ends =>
      if back.head? = some address then { ends with prev := front.getLast? } else ends) :
    DoublyLinked changed (front ++ back) where
  nodup := doubly.nodup.sublist ((List.sublist_cons_self gone back).append_left front)
  segment := by
    obtain ⟨frontNodup, backNodup, _⟩ := List.nodup_append.mp doubly.nodup
    obtain ⟨frontSegment, _, backSegment⟩ := Segment.append_iff.mp doubly.segment
    rw [Segment.append_iff, Option.or_none, Option.or_none]
    exact ⟨frontSegment.relinkLast frontNodup back.head? inFront,
      backSegment.relinkFirst (List.nodup_cons.mp backNodup).2 front.getLast? inBack⟩

/-- The cells that stay are the others. -/
theorem mem_without (doubly : DoublyLinked links (front ++ gone :: back)) {address : Address} :
    address ∈ front ++ back ↔ address ∈ front ++ gone :: back ∧ address ≠ gone := by
  obtain ⟨_, goneBack, apart⟩ := List.nodup_append.mp doubly.nodup
  rw [List.mem_append, List.mem_append, List.mem_cons]
  constructor
  · rintro (inFront | inBack)
    · exact ⟨Or.inl inFront, apart address inFront gone List.mem_cons_self⟩
    · refine ⟨Or.inr (Or.inr inBack), ?_⟩
      rintro rfl
      exact (List.nodup_cons.mp goneBack).1 inBack
  · rintro ⟨inFront | isGone | inBack, different⟩
    · exact Or.inl inFront
    · exact absurd isGone different
    · exact Or.inr inBack

/-- The neighbours of a cell are others. -/
theorem neighbours_ne (doubly : DoublyLinked links (front ++ gone :: back)) :
    front.getLast? ≠ some gone ∧ back.head? ≠ some gone := by
  constructor
  · intro isLast
    exact (doubly.mem_without.mp (List.mem_append_left back (List.mem_of_getLast? isLast))).2 rfl
  · intro isHead
    exact (doubly.mem_without.mp (List.mem_append_right front (List.mem_of_head? isHead))).2 rfl

/-- Every cell is allocated. -/
theorem exists_load {α : Type} {ends : α → Ends} {heap : Heap α}
    (doubly : DoublyLinked (heap.view ends) cells) {address : Address}
    (member : address ∈ cells) : ∃ cell, heap.load address = some cell := by
  obtain ⟨_, viewed⟩ := doubly.exists_links member
  obtain ⟨cell, loaded, _⟩ := Option.map_eq_some_iff.mp viewed
  exact ⟨cell, loaded⟩

/-- The cells are as many as the heap has at most. -/
theorem length_le_limit {α : Type} {ends : α → Ends} {heap : Heap α}
    (doubly : DoublyLinked (heap.view ends) cells) : cells.length ≤ heap.limit := by
  have inside : cells ⊆ List.range heap.limit := by
    intro address member
    obtain ⟨cell, loaded⟩ := doubly.exists_load member
    exact List.mem_range.mpr (Heap.lt_limit_of_load loaded)
  have bound := (doubly.nodup.subperm inside).length_le
  rwa [List.length_range] at bound

end DoublyLinked

/-- The forward links of a segment without a cell behind it are a chain. -/
theorem Segment.exists_chain {α : Type} {ends : α → Ends} {heap : Heap α}
    {before : Option Address} {cells : List Address}
    (segment : Segment (heap.view ends) before cells none) :
    ∃ contents, contents.map Prod.fst = cells ∧
      heap.Chain (fun cell => (ends cell).next) cells.head? contents := by
  induction cells generalizing before with
  | nil => exact ⟨[], rfl, rfl⟩
  | cons address rest inductionHypothesis =>
      obtain ⟨found, linked⟩ := segment
      obtain ⟨cell, loaded, same⟩ := Option.map_eq_some_iff.mp found
      obtain ⟨contents, addresses, chain⟩ := inductionHypothesis linked
      refine ⟨(address, cell) :: contents, by rw [List.map_cons, addresses], rfl, loaded, ?_⟩
      show heap.Chain _ (ends cell).next contents
      rw [same, Option.or_none]
      exact chain

end Torchat.Foundation
