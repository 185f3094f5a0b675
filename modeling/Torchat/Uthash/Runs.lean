import Torchat.Foundation.Simulation
import Torchat.Uthash.Integrity

/-!
Contract: a hash table in use, against a list of entries.

Owns the operations of a user as actions with answers, the list of key and value
pairs that explains the answers, and the simulation between the two over any run.

Does not own that keys are different, which the header leaves to its user: with a
repeated key any of its entries may be found or deleted.
-/

set_option autoImplicit false

namespace Torchat.Uthash

open Torchat.Foundation
open Torchat.Foundation.Heap
open Torchat.Daemon (Fault)

variable {β : Type}

def Hash.empty : Hash β where
  head := none
  elements := Heap.empty

inductive HashAction (β : Type) where
  | add (key : Bytes) (value : β)
  | find (key : Bytes)
  | assign (key : Bytes) (value : β)
  | delete (key : Bytes)
  | iter
  | fsck

inductive HashAnswer (β : Type) where
  | done
  | found (value : Option β)
  | listed (entries : List (Bytes × β))
  | checked (intact : Bool)

/-- The contents of the elements at some addresses. -/
def loadContents (elements : Heap (Element β)) :
    List Address → Except Fault (List (Bytes × β))
  | [] => .ok []
  | address :: rest => do
      let element ← loadElement elements address
      let contents ← loadContents elements rest
      .ok (element.content :: contents)

/-- A user of the table: an element is allocated for an entry, and found by its key
before its value is read or written or it is deleted. -/
def Hash.operate (hash : Hash β) : HashAction β → Except Fault (HashAnswer β × Hash β)
  | .add key value => do
      let (add, elements) := hash.elements.alloc { value := value, hh := UTHashHandle.zero }
      let hash ← hashAddKeyptr { hash with elements := elements } key add
      .ok (.done, hash)
  | .find key => do
      match ← hashFind hash key with
      | none => .ok (.found none, hash)
      | some out =>
          let element ← loadElement hash.elements out
          .ok (.found (some element.value), hash)
  | .assign key value => do
      match ← hashFind hash key with
      | none => .ok (.done, hash)
      | some out =>
          let elements ← updateElement hash.elements out fun element =>
            { element with value := value }
          .ok (.done, { hash with elements := elements })
  | .delete key => do
      match ← hashFind hash key with
      | none => .ok (.done, hash)
      | some out =>
          let hash ← hashDelete hash out
          .ok (.done, hash)
  | .iter => do
      let order ← hashIter hash
      let contents ← loadContents hash.elements order
      .ok (.listed contents, hash)
  | .fsck => do
      let intact ← hashFsck hash
      .ok (.checked intact, hash)

/-! ## The list of entries -/

/-- The elements of a hash hold the entries. -/
def HoldsEntries (hash : Hash β) (entries : List (Bytes × β)) : Prop :=
  ∃ order, ListedIn hash order ∧
    order.map (contentAt hash.elements) = entries.map some

theorem holdsEntries_empty : HoldsEntries (Hash.empty : Hash β) [] := ⟨[], rfl, rfl⟩

/-! ## Simulation -/

section Simulation

variable {hash : Hash β} {order : List Address} {entries : List (Bytes × β)}

/-- An element of the table is the element of one entry. -/
private theorem split_of_mem {content : Address → Option (Bytes × β)} {address : Address}
    (same : order.map content = entries.map some) (member : address ∈ order) :
    ∃ before after front entry back, order = before ++ address :: after ∧
      entries = front ++ entry :: back ∧ before.map content = front.map some ∧
      content address = some entry ∧ after.map content = back.map some := by
  obtain ⟨before, after, rfl⟩ := List.append_of_mem member
  rw [List.map_append, List.map_cons] at same
  obtain ⟨front, rest, rfl, sameFront, sameRest⟩ := List.map_eq_append_iff.mp same.symm
  obtain ⟨entry, back, rfl, sameEntry, sameBack⟩ := List.map_eq_cons_iff.mp sameRest
  exact ⟨before, after, front, entry, back, rfl, rfl, sameFront.symm, sameEntry.symm,
    sameBack.symm⟩

/-- What is found is the element of an entry with the key; nothing is found where there
is none. -/
theorem find_entry (listed : ListedIn hash order)
    (same : order.map (contentAt hash.elements) = entries.map some) (key : Bytes) :
    (hashFind hash key = .ok none ∧ key ∉ entries.map Prod.fst) ∨
      ∃ out before after front value back, hashFind hash key = .ok (some out) ∧
        order = before ++ out :: after ∧ entries = front ++ (key, value) :: back ∧
        before.map (contentAt hash.elements) = front.map some ∧
        contentAt hash.elements out = some (key, value) ∧
        after.map (contentAt hash.elements) = back.map some := by
  obtain ⟨out, found, hit, miss⟩ := hashFind_spec listed key
  cases out with
  | none =>
      left
      refine ⟨found, ?_⟩
      intro present
      obtain ⟨entry, member, rfl⟩ := List.mem_map.mp present
      have inContents : some entry ∈ order.map (contentAt hash.elements) := by
        rw [same]
        exact List.mem_map_of_mem member
      obtain ⟨address, inTable, content⟩ := List.mem_map.mp inContents
      exact miss rfl address inTable (by rw [content]; rfl)
  | some out =>
      right
      obtain ⟨inTable, sameKey⟩ := hit out rfl
      obtain ⟨before, after, front, ⟨found', value⟩, back, split, entriesSplit, sameFront, content,
        sameBack⟩ := split_of_mem same inTable
      rw [content] at sameKey
      cases Option.some.inj sameKey
      exact ⟨out, before, after, front, value, back, found, split, entriesSplit, sameFront, content,
        sameBack⟩

/-- A content is that of an element. -/
theorem load_of_content {elements : Heap (Element β)} {address : Address} {entry : Bytes × β}
    (content : contentAt elements address = some entry) :
    ∃ element, elements.load address = some element ∧ element.content = entry :=
  Option.map_eq_some_iff.mp content

/-- What leaves every content in its place neither allocates nor frees an element. -/
theorem allocated_of_contents {elements after : Heap (Element β)}
    (limit : after.limit = elements.limit)
    (contents : ∀ address, (contentAt after address).isSome = (contentAt elements address).isSome) :
    after.allocated = elements.allocated := by
  refine allocated_congr limit fun address => ?_
  have same := contents address
  rwa [contentAt, contentAt, Option.isSome_map, Option.isSome_map] at same

/-- An element that is allocated for an entry joins the table. -/
theorem add_simulates (holds : HoldsEntries hash entries) (key : Bytes) (value : β) :
    ∃ after, hash.operate (.add key value) = .ok (.done, after) ∧
      HoldsEntries after (entries ++ [(key, value)]) ∧
      after.elements.allocated = hash.elements.allocated + 1 := by
  obtain ⟨order, listed, same⟩ := holds
  have old : ∀ address ∈ order, address ≠ hash.elements.limit := by
    intro address member
    obtain ⟨_, _, _, _, _, _, _, _, content, _⟩ := split_of_mem same member
    obtain ⟨_, loaded, _⟩ := load_of_content content
    exact Nat.ne_of_lt (lt_limit_of_load loaded)
  let new : Element β := { value := value, hh := UTHashHandle.zero }
  have unchanged : ∀ address ∈ order,
      (hash.elements.alloc new).2.load address = hash.elements.load address :=
    fun address member => load_alloc_of_ne _ (old address member)
  have allocated : ListedIn { head := hash.head, elements := (hash.elements.alloc new).2 } order :=
    ListedIn.agree listed unchanged
  obtain ⟨after, added, afterListed, limit, content, others⟩ := hashAddKeyptr_spec allocated
    (fun member => old _ member rfl) (load_alloc_self hash.elements new) key
  refine ⟨after, ?_, ⟨order ++ [hash.elements.limit], afterListed, ?_⟩, ?_⟩
  · have added' : hashAddKeyptr { hash with elements := (hash.elements.alloc new).2 } key
        (hash.elements.alloc new).1 = .ok after := added
    simp only [Hash.operate, new, added', bind, Except.bind]
  · rw [List.map_append, List.map_append, ← same, List.map_singleton, content,
      List.map_singleton]
    refine congrArg (· ++ _) (List.map_congr_left fun address member => ?_)
    rw [others address (old address member), contentAt, unchanged address member, contentAt]
  · rw [← allocated_alloc hash.elements new]
    refine allocated_of_contents limit fun address => ?_
    by_cases isNew : address = hash.elements.limit
    · rw [isNew, content, contentAt, load_alloc_self]
      rfl
    · rw [others address isNew]

/-- A value that is changed in place changes one entry. -/
theorem updateValue_spec {before after : List Address} {out : Address}
    {front back : List (Bytes × β)} {key : Bytes} {old : β}
    (listed : ListedIn hash (before ++ out :: after))
    (sameFront : before.map (contentAt hash.elements) = front.map some)
    (content : contentAt hash.elements out = some (key, old))
    (sameBack : after.map (contentAt hash.elements) = back.map some) (change : β → β) :
    ∃ elements,
      updateElement hash.elements out
          (fun element => { element with value := change element.value }) = .ok elements ∧
      elements.allocated = hash.elements.allocated ∧
      ListedIn { hash with elements := elements } (before ++ out :: after) ∧
      (before ++ out :: after).map (contentAt elements) =
        (front ++ (key, change old) :: back).map some := by
  obtain ⟨element, loaded, isContent⟩ := load_of_content content
  obtain ⟨elements, updated, limit, loads⟩ := updateElement_spec loaded fun element =>
    { element with value := change element.value }
  have keeps : Keeps Element.hh hash.elements elements :=
    Keeps.of_load loads fun _ _ => by split <;> rfl
  obtain ⟨_, outAfter, apart⟩ := List.nodup_append.mp listed.nodup
  have others : ∀ address, out ≠ address →
      contentAt elements address = contentAt hash.elements address := by
    intro address different
    simp only [contentAt, loads, if_neg different, Option.map_id']
  have count : elements.allocated = hash.elements.allocated := by
    refine allocated_congr limit fun address => ?_
    rw [loads, Option.isSome_map]
  refine ⟨elements, updated, count, ListedIn.frame listed keeps, ?_⟩
  rw [List.map_append, List.map_cons, List.map_append, List.map_cons, ← sameFront, ← sameBack]
  congr 1
  · refine List.map_congr_left fun address member => others address ?_
    exact (apart address member out List.mem_cons_self).symm
  · congr 1
    · rw [contentAt, loads, loaded, Option.map_some, if_pos rfl]
      have sameKey : element.hh.key = key := congrArg Prod.fst isContent
      have sameValue : element.value = old := congrArg Prod.snd isContent
      rw [Option.map_some, Element.content, sameKey, sameValue]
    · refine List.map_congr_left fun address member => others address ?_
      rintro rfl
      exact (List.nodup_cons.mp outAfter).1 member

end Simulation

end Torchat.Uthash
