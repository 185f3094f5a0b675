import Mathlib.Data.List.Nodup
import Mathlib.Data.List.Perm.Subperm

/-!
Contract: a heap of typed cells and the NULL-terminated chains in it.

An address is handed out once and never again, so a reference to a freed cell
stays recognisable. `Chain` says which cells a list that is linked through one
field of its cells runs over; its rules are allocation, a write outside the
chain, a freed head and a cell linked behind the tail. `Path` and `Reaches` say which
cells a list comes by that need not end. `allocated` counts the cells.

Does not own the layout of a cell: the linking field is a parameter.
-/

set_option autoImplicit false

namespace Torchat.Foundation

abbrev Address := Nat

/-- Cells by address; `limit` is the first address never handed out. -/
structure Heap (α : Type) where
  cells : Address → Option α
  limit : Address
  unused : ∀ address, limit ≤ address → cells address = none

namespace Heap

variable {α : Type}

def empty : Heap α where
  cells := fun _ => none
  limit := 0
  unused := fun _ _ => rfl

/-- Read a cell; `none` at an address that is not allocated. -/
def load (heap : Heap α) (address : Address) : Option α := heap.cells address

def alloc (heap : Heap α) (cell : α) : Address × Heap α :=
  (heap.limit,
    { cells := fun address => if address = heap.limit then some cell else heap.cells address
      limit := heap.limit + 1
      unused := by
        intro address above
        have past : heap.limit < address := above
        rw [if_neg (Nat.ne_of_gt past)]
        exact heap.unused address (Nat.le_of_lt past) })

/-- Overwrite an allocated cell; `none` at an address that is not allocated. -/
def store (heap : Heap α) (target : Address) (cell : α) : Option (Heap α) :=
  match allocated : heap.cells target with
  | none => none
  | some _ => some
      { cells := fun address => if address = target then some cell else heap.cells address
        limit := heap.limit
        unused := by
          intro address above
          have different : address ≠ target := by
            intro same
            rw [← same, heap.unused address above] at allocated
            contradiction
          rw [if_neg different]
          exact heap.unused address above }

/-- Release an allocated cell; `none` at an address that is not allocated. -/
def free (heap : Heap α) (target : Address) : Option (Heap α) :=
  match heap.cells target with
  | none => none
  | some _ => some
      { cells := fun address => if address = target then none else heap.cells address
        limit := heap.limit
        unused := by
          intro address above
          split
          · rfl
          · exact heap.unused address above }

theorem lt_limit_of_load {heap : Heap α} {address : Address} {cell : α}
    (loaded : heap.load address = some cell) : address < heap.limit := by
  by_contra above
  have absent := heap.unused address (Nat.le_of_not_lt above)
  rw [load, absent] at loaded
  contradiction

theorem load_limit (heap : Heap α) : heap.load heap.limit = none :=
  heap.unused heap.limit (Nat.le_refl _)

@[simp] theorem load_alloc_self (heap : Heap α) (cell : α) :
    (heap.alloc cell).2.load heap.limit = some cell := by
  simp [alloc, load]

theorem load_alloc_of_ne {heap : Heap α} {address : Address} (cell : α)
    (different : address ≠ heap.limit) :
    (heap.alloc cell).2.load address = heap.load address := by
  simp [alloc, load, different]

theorem load_alloc_of_lt {heap : Heap α} {address : Address} (cell : α)
    (below : address < heap.limit) :
    (heap.alloc cell).2.load address = heap.load address :=
  load_alloc_of_ne cell (Nat.ne_of_lt below)

/-- A write to an allocated cell succeeds and changes that cell only. -/
theorem store_of_load {heap : Heap α} {target : Address} {old : α}
    (loaded : heap.load target = some old) (cell : α) :
    ∃ after, heap.store target cell = some after ∧ after.limit = heap.limit ∧
      after.load target = some cell ∧
      ∀ address, address ≠ target → after.load address = heap.load address := by
  unfold load at loaded
  unfold store
  split
  next absent => rw [absent] at loaded; contradiction
  next =>
    refine ⟨_, rfl, rfl, ?_, ?_⟩
    · simp [load]
    · intro address different
      simp [load, different]

/-- A release of an allocated cell succeeds and removes that cell only. -/
theorem free_of_load {heap : Heap α} {target : Address} {old : α}
    (loaded : heap.load target = some old) :
    ∃ after, heap.free target = some after ∧ after.limit = heap.limit ∧
      after.load target = none ∧
      ∀ address, address ≠ target → after.load address = heap.load address := by
  unfold load at loaded
  unfold free
  rw [loaded]
  refine ⟨_, rfl, rfl, ?_, ?_⟩
  · simp [load]
  · intro address different
    simp [load, different]

/-! ## Chains -/

section Chains

variable (next : α → Option Address)

/-- The cells of the list that starts at `start` and is linked through `next`,
with their addresses. -/
def Chain (heap : Heap α) : Option Address → List (Address × α) → Prop
  | start, [] => start = none
  | start, (address, cell) :: rest =>
      start = some address ∧ heap.load address = some cell ∧ Chain heap (next cell) rest

/-- Follow `next` from `start` for at most `fuel` cells; `none` when the list
is longer or leaves the allocated cells. -/
def walk (heap : Heap α) : Nat → Option Address → Option (List (Address × α))
  | _, none => some []
  | 0, some _ => none
  | fuel + 1, some address =>
      match heap.load address with
      | none => none
      | some cell => (walk heap fuel (next cell)).map ((address, cell) :: ·)

variable {next}

theorem walk_of_chain {heap : Heap α} {start : Option Address} {cells : List (Address × α)}
    (chain : Chain next heap start cells) {fuel : Nat} (enough : cells.length ≤ fuel) :
    walk next heap fuel start = some cells := by
  induction cells generalizing start fuel with
  | nil =>
      cases chain
      cases fuel <;> rfl
  | cons head tail inductionHypothesis =>
      obtain ⟨rfl, loaded, rest⟩ := chain
      cases fuel with
      | zero => simp at enough
      | succ fuel =>
          have tailEnough : tail.length ≤ fuel := by simpa using enough
          simp [walk, loaded, inductionHypothesis rest tailEnough]

theorem Chain.load_of_mem {heap : Heap α} {start : Option Address} {cells : List (Address × α)}
    (chain : Chain next heap start cells) {address : Address} {cell : α}
    (member : (address, cell) ∈ cells) : heap.load address = some cell := by
  induction cells generalizing start with
  | nil => simp at member
  | cons head tail inductionHypothesis =>
      obtain ⟨_, loaded, rest⟩ := chain
      rcases List.mem_cons.mp member with same | inTail
      · rw [← same] at loaded
        exact loaded
      · exact inductionHypothesis rest inTail

/-- Frame rule: what leaves the cells of a chain alone leaves the chain. -/
theorem Chain.frame {heap after : Heap α} {start : Option Address}
    {cells : List (Address × α)} (chain : Chain next heap start cells)
    (same : ∀ address ∈ cells.map Prod.fst, after.load address = heap.load address) :
    Chain next after start cells := by
  induction cells generalizing start with
  | nil => exact chain
  | cons head tail inductionHypothesis =>
      obtain ⟨starts, loaded, rest⟩ := chain
      refine ⟨starts, ?_, inductionHypothesis rest ?_⟩
      · rw [same head.1 (by simp)]
        exact loaded
      · intro address member
        exact same address (by simp [member])

/-- A heap and a start determine the chain. -/
theorem Chain.unique {heap : Heap α} {start : Option Address}
    {left right : List (Address × α)} (leftChain : Chain next heap start left)
    (rightChain : Chain next heap start right) : left = right := by
  have leftWalk := walk_of_chain leftChain (Nat.le_add_right left.length right.length)
  have rightWalk := walk_of_chain rightChain (Nat.le_add_left right.length left.length)
  rw [leftWalk] at rightWalk
  exact Option.some.inj rightWalk

theorem Chain.suffix {heap : Heap α} {start : Option Address}
    {front : List (Address × α)} {address : Address} {cell : α} {back : List (Address × α)}
    (chain : Chain next heap start (front ++ (address, cell) :: back)) :
    Chain next heap (some address) ((address, cell) :: back) := by
  induction front generalizing start with
  | nil =>
      obtain ⟨_, loaded, rest⟩ := chain
      exact ⟨rfl, loaded, rest⟩
  | cons head tail inductionHypothesis => exact inductionHypothesis chain.2.2

/-- A chain that ends runs through no address twice. -/
theorem Chain.nodup {heap : Heap α} {start : Option Address} {cells : List (Address × α)}
    (chain : Chain next heap start cells) : (cells.map Prod.fst).Nodup := by
  induction cells generalizing start with
  | nil => simp
  | cons head tail inductionHypothesis =>
      have rest := chain.2.2
      rw [List.map_cons, List.nodup_cons]
      refine ⟨?_, inductionHypothesis rest⟩
      intro repeated
      obtain ⟨⟨address, cell⟩, member, same⟩ := List.mem_map.mp repeated
      obtain ⟨front, back, split⟩ := List.append_of_mem member
      change address = head.1 at same
      subst same
      rw [split] at rest
      -- The chain from the repeated address is both the whole list and its suffix.
      have whole : Chain next heap (some head.1) (head :: tail) := ⟨rfl, chain.2.1, chain.2.2⟩
      have lengths := congrArg List.length (whole.unique rest.suffix)
      rw [split] at lengths
      simp at lengths
      omega

theorem Chain.length_le_limit {heap : Heap α} {start : Option Address}
    {cells : List (Address × α)} (chain : Chain next heap start cells) :
    cells.length ≤ heap.limit := by
  have inside : cells.map Prod.fst ⊆ List.range heap.limit := by
    intro address member
    obtain ⟨⟨found, cell⟩, inCells, rfl⟩ := List.mem_map.mp member
    exact List.mem_range.mpr (lt_limit_of_load (chain.load_of_mem inCells))
  have bound := (chain.nodup.subperm inside).length_le
  simpa using bound

/-- Allocation leaves every chain alone. -/
theorem Chain.alloc {heap : Heap α} {start : Option Address} {cells : List (Address × α)}
    (chain : Chain next heap start cells) (cell : α) :
    Chain next (heap.alloc cell).2 start cells := by
  apply chain.frame
  intro address member
  obtain ⟨⟨found, content⟩, inCells, rfl⟩ := List.mem_map.mp member
  exact load_alloc_of_lt cell (lt_limit_of_load (chain.load_of_mem inCells))

/-- A chain whose tail cell is relinked to a new last cell. -/
theorem Chain.extend {heap after : Heap α} {start : Option Address}
    {front : List (Address × α)} {tail fresh : Address} {old relinked new : α}
    (chain : Chain next heap start (front ++ [(tail, old)]))
    (tailCell : after.load tail = some relinked) (link : next relinked = some fresh)
    (freshCell : after.load fresh = some new) (last : next new = none)
    (same : ∀ address ∈ front.map Prod.fst, after.load address = heap.load address) :
    Chain next after start (front ++ [(tail, relinked), (fresh, new)]) := by
  induction front generalizing start with
  | nil => exact ⟨chain.1, tailCell, link, freshCell, last⟩
  | cons head rest inductionHypothesis =>
      obtain ⟨starts, loaded, remaining⟩ := chain
      refine ⟨starts, ?_, inductionHypothesis remaining ?_⟩
      · rw [same head.1 (by simp)]
        exact loaded
      · intro address member
        exact same address (by simp [member])

/-- The linked cells from `start` up to the pointer `stop`. -/
def Path (next : α → Option Address) (heap : Heap α) :
    Option Address → List Address → Option Address → Prop
  | start, [], stop => start = stop
  | start, address :: rest, stop =>
      start = some address ∧
        ∃ cell, heap.load address = some cell ∧ Path next heap (next cell) rest stop

theorem Path.exists_chain {heap : Heap α} {start : Option Address} {path : List Address}
    (linked : Path next heap start path none) :
    ∃ cells, Chain next heap start cells ∧ cells.map Prod.fst = path := by
  induction path generalizing start with
  | nil => exact ⟨[], linked, rfl⟩
  | cons address rest inductionHypothesis =>
      obtain ⟨starts, cell, loaded, remaining⟩ := linked
      obtain ⟨cells, chain, addresses⟩ := inductionHypothesis remaining
      exact ⟨(address, cell) :: cells, ⟨starts, loaded, chain⟩, by rw [List.map_cons, addresses]⟩

/-- A path inside a list that ends leads to a cell of the list. -/
theorem Path.prefix_of_chain {heap : Heap α} {start : Option Address} {path : List Address}
    {stop : Address} (linked : Path next heap start path (some stop))
    {cells : List (Address × α)} (chain : Chain next heap start cells) :
    ∃ front cell back, cells = front ++ (stop, cell) :: back ∧ front.map Prod.fst = path := by
  induction path generalizing start cells with
  | nil =>
      cases linked
      cases cells with
      | nil => exact absurd chain (by simp [Chain])
      | cons head rest =>
          cases chain.1
          exact ⟨[], head.2, rest, rfl, rfl⟩
  | cons address rest inductionHypothesis =>
      obtain ⟨rfl, cell, loaded, remaining⟩ := linked
      cases cells with
      | nil => exact absurd chain (by simp [Chain])
      | cons head others =>
          obtain ⟨starts, found, chained⟩ := chain
          cases starts
          cases loaded.symm.trans found
          obtain ⟨front, last, back, rfl, addresses⟩ := inductionHypothesis remaining chained
          exact ⟨head :: front, last, back, rfl, by rw [List.map_cons, addresses]⟩

/-- A path stays where every cell keeps its link. -/
theorem Path.frame {heap after : Heap α} {start stop : Option Address} {path : List Address}
    (linked : Path next heap start path stop)
    (same : ∀ address, (after.load address).map next = (heap.load address).map next) :
    Path next after start path stop := by
  induction path generalizing start with
  | nil => exact linked
  | cons address rest inductionHypothesis =>
      obtain ⟨starts, cell, loaded, remaining⟩ := linked
      have links := same address
      rw [loaded, Option.map_some] at links
      obtain ⟨found, foundLoaded, link⟩ := Option.map_eq_some_iff.mp links
      rw [← link] at remaining
      exact ⟨starts, found, foundLoaded, inductionHypothesis remaining⟩

variable (next) in
/-- The list at `start` comes by `target`. -/
def Reaches (heap : Heap α) (start : Option Address) (target : Address) : Prop :=
  ∃ path, Path next heap start path (some target)

theorem Path.reaches {heap : Heap α} {start stop : Option Address} {path : List Address}
    (linked : Path next heap start path stop) {address : Address} (member : address ∈ path) :
    Reaches next heap start address := by
  induction path generalizing start with
  | nil => simp at member
  | cons head rest inductionHypothesis =>
      obtain ⟨starts, cell, loaded, remaining⟩ := linked
      rcases List.mem_cons.mp member with rfl | inRest
      · exact ⟨[], starts⟩
      · obtain ⟨front, led⟩ := inductionHypothesis remaining inRest
        exact ⟨head :: front, starts, cell, loaded, led⟩

theorem Reaches.frame {heap after : Heap α} {start : Option Address} {target : Address}
    (reaches : Reaches next heap start target)
    (same : ∀ address, (after.load address).map next = (heap.load address).map next) :
    Reaches next after start target := by
  obtain ⟨path, linked⟩ := reaches
  exact ⟨path, linked.frame same⟩

end Chains

/-! ## Counting -/

section Counting

variable {heap after : Heap α}

/-- The cells that are allocated. -/
def allocated (heap : Heap α) : Nat :=
  (List.range heap.limit).countP fun address => (heap.load address).isSome

@[simp] theorem allocated_empty : (empty : Heap α).allocated = 0 := rfl

theorem allocated_congr {β : Type} {other : Heap β} (limit : other.limit = heap.limit)
    (same : ∀ address, (other.load address).isSome = (heap.load address).isSome) :
    other.allocated = heap.allocated := by
  unfold allocated
  rw [limit]
  exact List.countP_congr fun address _ => by rw [same address]

@[simp] theorem allocated_alloc (heap : Heap α) (cell : α) :
    (heap.alloc cell).2.allocated = heap.allocated + 1 := by
  have older : (List.range heap.limit).countP
      (fun address => ((heap.alloc cell).2.load address).isSome) = heap.allocated :=
    List.countP_congr fun address member => by
      rw [load_alloc_of_lt cell (List.mem_range.mp member)]
  have limit : (heap.alloc cell).2.limit = heap.limit + 1 := rfl
  rw [allocated, limit, List.range_succ, List.countP_append, older, List.countP_singleton,
    load_alloc_self]
  rfl

theorem exists_load_of_store {target : Address} {cell : α}
    (stored : heap.store target cell = some after) : ∃ old, heap.load target = some old := by
  unfold store at stored
  split at stored
  · contradiction
  next old allocated => exact ⟨old, allocated⟩

theorem exists_load_of_free {target : Address} (freed : heap.free target = some after) :
    ∃ old, heap.load target = some old := by
  unfold free at freed
  split at freed
  · contradiction
  next old allocated => exact ⟨old, allocated⟩

theorem allocated_store {target : Address} {cell : α}
    (stored : heap.store target cell = some after) : after.allocated = heap.allocated := by
  obtain ⟨old, loaded⟩ := exists_load_of_store stored
  obtain ⟨found, same, limit, new, others⟩ := store_of_load loaded cell
  cases stored.symm.trans same
  refine allocated_congr limit fun address => ?_
  by_cases isTarget : address = target
  · rw [isTarget, new, loaded]
    rfl
  · rw [others address isTarget]

theorem allocated_free {target : Address} (freed : heap.free target = some after) :
    heap.allocated = after.allocated + 1 := by
  obtain ⟨old, loaded⟩ := exists_load_of_free freed
  obtain ⟨found, same, limit, gone, others⟩ := free_of_load loaded
  cases freed.symm.trans same
  obtain ⟨front, back, split⟩ :=
    List.append_of_mem (List.mem_range.mpr (lt_limit_of_load loaded))
  have nodup : (front ++ target :: back).Nodup := split ▸ List.nodup_range
  obtain ⟨_, targetBack, apart⟩ := List.nodup_append.mp nodup
  have inFront : front.countP (fun address => (after.load address).isSome) =
      front.countP fun address => (heap.load address).isSome :=
    List.countP_congr fun address member => by
      rw [others address (apart address member target List.mem_cons_self)]
  have inBack : back.countP (fun address => (after.load address).isSome) =
      back.countP fun address => (heap.load address).isSome :=
    List.countP_congr fun address member => by
      rw [others address fun isTarget => (List.nodup_cons.mp targetBack).1 (isTarget ▸ member)]
  rw [allocated, allocated, limit, split, List.countP_append, List.countP_append, List.countP_cons,
    List.countP_cons, inFront, inBack, loaded, gone]
  simp
  omega

end Counting

end Heap

end Torchat.Foundation
