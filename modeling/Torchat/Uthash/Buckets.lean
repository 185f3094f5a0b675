import Torchat.Uthash.Table

/-!
Contract: the buckets of a table and what the macros do to them.

Owns the relation between the buckets and the items they hold, and the rules for a
handle that is linked in front of a bucket, for the doubling of the buckets and for
a handle that leaves.

Does not own the order of insertion; see `Integrity`.
-/

set_option autoImplicit false

namespace Torchat.Uthash

open Torchat.Foundation
open Torchat.Foundation.Heap
open Torchat.Daemon (Fault)

variable {β : Type}

/-! ## Assignments -/

theorem loadElement_of_load {elements : Heap (Element β)} {address : Address}
    {element : Element β} (loaded : elements.load address = some element) :
    loadElement elements address = .ok element := by
  rw [loadElement, loaded]

/-- An assignment through a valid pointer changes that element only. -/
theorem updateElement_spec {elements : Heap (Element β)} {address : Address}
    {element : Element β} (loaded : elements.load address = some element)
    (change : Element β → Element β) :
    ∃ after, updateElement elements address change = .ok after ∧
      after.limit = elements.limit ∧
      ∀ other, after.load other =
        (elements.load other).map fun element =>
          if address = other then change element else element := by
  obtain ⟨after, stored, limit, written, elsewhere⟩ := store_of_load loaded (change element)
  refine ⟨after, by rw [updateElement, loaded]; simp only [stored], limit, ?_⟩
  intro other
  by_cases same : address = other
  · subst same
    rw [written, loaded, Option.map_some, if_pos rfl]
  · simp only [if_neg same, Option.map_id']
    exact elsewhere other (Ne.symm same)

theorem updateHandle_spec {elements : Heap (Element β)} {address : Address}
    {element : Element β} (loaded : elements.load address = some element)
    (change : UTHashHandle → UTHashHandle) :
    ∃ after, updateHandle elements address change = .ok after ∧
      after.limit = elements.limit ∧
      ∀ other, after.load other =
        (elements.load other).map fun element =>
          if address = other then { element with hh := change element.hh } else element :=
  updateElement_spec loaded fun element => { element with hh := change element.hh }

theorem updateIfSome_spec {elements : Heap (Element β)} {address : Option Address}
    (valid : ∀ target, address = some target → ∃ element, elements.load target = some element)
    (change : UTHashHandle → UTHashHandle) :
    ∃ after, updateIfSome elements address change = .ok after ∧
      after.limit = elements.limit ∧
      ∀ other, after.load other =
        (elements.load other).map fun element =>
          if address = some other then { element with hh := change element.hh } else element := by
  cases address with
  | none => exact ⟨elements, rfl, rfl, by simp⟩
  | some target =>
      obtain ⟨element, loaded⟩ := valid target rfl
      obtain ⟨after, updated, limit, written⟩ := updateHandle_spec loaded change
      refine ⟨after, updated, limit, ?_⟩
      intro other
      simp only [written other, Option.some.injEq]

/-- An element without its links inside a bucket. -/
def Element.outsideBucket (element : Element β) : Element β :=
  { element with hh := { element.hh with hhPrev := none, hhNext := none } }

/-- An element without its links in the order of insertion. -/
def Element.outsideOrder (element : Element β) : Element β :=
  { element with hh := { element.hh with prev := none, next := none } }

/-- Every element keeps what `part` takes of it. -/
def Keeps {γ : Type} (part : Element β → γ) (elements after : Heap (Element β)) : Prop :=
  ∀ address, (after.load address).map part = (elements.load address).map part

theorem Keeps.refl {γ : Type} (part : Element β → γ) (elements : Heap (Element β)) :
    Keeps part elements elements := fun _ => rfl

theorem Keeps.trans {γ : Type} {part : Element β → γ} {first second third : Heap (Element β)}
    (left : Keeps part first second) (right : Keeps part second third) :
    Keeps part first third := fun address => (right address).trans (left address)

/-- A part is kept where every element is changed to one with the same part. -/
theorem Keeps.of_load {γ : Type} {part : Element β → γ} {elements after : Heap (Element β)}
    {change : Address → Element β → Element β}
    (loads : ∀ address, after.load address = (elements.load address).map (change address))
    (same : ∀ address element, part (change address element) = part element) :
    Keeps part elements after := by
  intro address
  rw [loads, Option.map_map]
  exact congrArg (Option.map · (elements.load address)) (funext (same address))

/-- What is computed from the part is kept too. -/
theorem Keeps.map {γ δ : Type} {part : Element β → γ} {elements after : Heap (Element β)}
    (keeps : Keeps part elements after) (f : γ → δ) :
    Keeps (fun element => f (part element)) elements after := by
  intro address
  have same := congrArg (Option.map f) (keeps address)
  simpa only [Option.map_map, Function.comp_def] using same

/-- The links of the elements inside the buckets. -/
abbrev inBucket (elements : Heap (Element β)) : Address → Option Ends :=
  elements.view fun element => bucketEnds element.hh

/-- The links of the elements in the order of insertion. -/
abbrev inOrder (elements : Heap (Element β)) : Address → Option Ends :=
  elements.view fun element => appEnds element.hh

/-- The bucket that an element belongs to. -/
def slot (elements : Heap (Element β)) (numBuckets : Nat) (address : Address) : Option Nat :=
  (elements.load address).map fun element => hashToBkt element.hh.hashv numBuckets

theorem slot_of_keeps {elements after : Heap (Element β)}
    (keeps : Keeps Element.outsideBucket elements after) (numBuckets : Nat) :
    slot after numBuckets = slot elements numBuckets := by
  funext address
  exact keeps.map (fun element => hashToBkt element.hh.hashv numBuckets) address

theorem inOrder_of_keeps {elements after : Heap (Element β)}
    (keeps : Keeps Element.outsideBucket elements after) : inOrder after = inOrder elements := by
  funext address
  exact keeps.map (fun element => appEnds element.hh) address

/-- What the buckets take of an element. -/
def Element.bucketPart (element : Element β) : Ends × UInt32 :=
  (bucketEnds element.hh, element.hh.hashv)

theorem hashToBkt_lt (hashv : UInt32) {numBkts : Nat} (nonempty : 0 < numBkts) :
    hashToBkt hashv numBkts < numBkts := by
  have below : hashToBkt hashv numBkts ≤ numBkts - 1 := Nat.and_le_right
  omega

/-! ## What the buckets hold -/

/-- The handles of a bucket: the items whose hash value leads to it. -/
structure Bucketed (elements : Heap (Element β)) (numBuckets : Nat) (items : List Address)
    (index : Nat) (bucket : UTHashBucket) (chain : List Address) : Prop where
  doubly : DoublyLinked (inBucket elements) chain
  head : bucket.hhHead = chain.head?
  count : bucket.count = chain.length
  members : ∀ address, address ∈ chain ↔
    address ∈ items ∧ slot elements numBuckets address = some index

/-- The buckets hold the items. -/
structure Buckets (elements : Heap (Element β)) (buckets : List UTHashBucket)
    (items : List Address) : Prop where
  chains : ∀ {index bucket}, buckets[index]? = some bucket →
    ∃ chain, Bucketed elements buckets.length items index bucket chain

/-- A bucket stays as it is where its handles keep their links and it neither gets
nor loses an item. -/
theorem Bucketed.frame {elements after : Heap (Element β)} {numBuckets index : Nat}
    {items others : List Address} {bucket : UTHashBucket} {chain : List Address}
    (bucketed : Bucketed elements numBuckets items index bucket chain)
    (links : ∀ address ∈ chain, inBucket after address = inBucket elements address)
    (same : ∀ address, (address ∈ others ∧ slot after numBuckets address = some index) ↔
      (address ∈ items ∧ slot elements numBuckets address = some index)) :
    Bucketed after numBuckets others index bucket chain where
  doubly := bucketed.doubly.frame links
  head := bucketed.head
  count := bucketed.count
  members address := (bucketed.members address).trans (same address).symm

/-- What keeps the links inside the buckets and the hash values keeps the buckets. -/
theorem Buckets.frame {elements after : Heap (Element β)} {buckets : List UTHashBucket}
    {items others : List Address} (holds : Buckets elements buckets items)
    (keeps : Keeps Element.bucketPart elements after)
    (same : ∀ address, address ∈ others ↔ address ∈ items) : Buckets after buckets others where
  chains found := by
    obtain ⟨chain, bucketed⟩ := holds.chains found
    refine ⟨chain, bucketed.frame (fun address _ => keeps.map Prod.fst address) fun address => ?_⟩
    have slots := keeps.map (fun part => hashToBkt part.2 buckets.length) address
    change slot after _ address = slot elements _ address at slots
    rw [slots, same]

/-- What leaves the items alone leaves the buckets alone. -/
theorem Buckets.agree {elements after : Heap (Element β)} {buckets : List UTHashBucket}
    {items : List Address} (holds : Buckets elements buckets items)
    (same : ∀ address ∈ items, after.load address = elements.load address) :
    Buckets after buckets items where
  chains found := by
    obtain ⟨chain, bucketed⟩ := holds.chains found
    refine ⟨chain, bucketed.frame ?_ ?_⟩
    · intro address member
      exact congrArg (Option.map _) (same address ((bucketed.members address).mp member).1)
    · intro address
      refine and_congr_right fun member => ?_
      rw [slot, slot, same address member]

/-- Buckets without handles hold nothing. -/
theorem Buckets.zero (elements : Heap (Element β)) (numBuckets : Nat) :
    Buckets elements (List.replicate numBuckets UTHashBucket.zero) [] where
  chains found := by
    obtain rfl := List.eq_of_mem_replicate (List.mem_of_getElem? found)
    exact ⟨[], DoublyLinked.nil, rfl, rfl, by simp⟩

/-- A bucket is replaced: the items of the others keep their links, and no other bucket
gets or loses an item. -/
theorem Buckets.replace {elements after : Heap (Element β)} {buckets : List UTHashBucket}
    {items others : List Address} {index : Nat} {replaced : UTHashBucket} {chain : List Address}
    (holds : Buckets elements buckets items)
    (slots : slot after buckets.length = slot elements buckets.length)
    (links : ∀ address, slot elements buckets.length address ≠ some index →
      inBucket after address = inBucket elements address)
    (same : ∀ address, slot elements buckets.length address ≠ some index →
      (address ∈ others ↔ address ∈ items))
    (bucketed : Bucketed after buckets.length others index replaced chain) :
    Buckets after (buckets.set index replaced) others where
  chains {other _} otherFound := by
    rw [List.length_set]
    by_cases here : index = other
    · subst here
      have inside := (List.getElem?_eq_some_iff.mp otherFound).1
      rw [List.length_set] at inside
      rw [List.getElem?_set_self inside] at otherFound
      cases otherFound
      exact ⟨chain, bucketed⟩
    · rw [List.getElem?_set_ne here] at otherFound
      obtain ⟨otherChain, otherBucketed⟩ := holds.chains otherFound
      have elsewhere : ∀ {address}, slot elements buckets.length address = some other →
          slot elements buckets.length address ≠ some index :=
        fun atOther atIndex => here (Option.some.inj (atIndex.symm.trans atOther))
      refine ⟨otherChain, otherBucketed.frame ?_ ?_⟩
      · intro address member
        exact links address (elsewhere ((otherBucketed.members address).mp member).2)
      · intro address
        rw [slots]
        exact and_congr_left fun atOther => same address (elsewhere atOther)

/-! ## A handle joins -/

section Link

variable {elements : Heap (Element β)} {buckets : List UTHashBucket} {items : List Address}
variable {fresh index : Nat} {element : Element β} {bucket : UTHashBucket}

/-- The links that a handle in front of a list gets, and the old first one. -/
theorem linkHandle_spec {chain : List Address} (doubly : DoublyLinked (inBucket elements) chain)
    (absent : fresh ∉ chain) (loaded : elements.load fresh = some element) :
    ∃ after, linkHandle elements chain.head? fresh = .ok after ∧
      after.limit = elements.limit ∧ DoublyLinked (inBucket after) (fresh :: chain) ∧
      Keeps Element.outsideBucket elements after ∧
      ∀ address, address ≠ fresh → address ∉ chain →
        after.load address = elements.load address := by
  obtain ⟨between, linked, betweenLimit, betweenLoad⟩ := updateHandle_spec loaded fun hh =>
    { hh with hhNext := chain.head?, hhPrev := none }
  have valid : ∀ target, chain.head? = some target →
      ∃ found, between.load target = some found := by
    intro target isHead
    obtain ⟨found, targetLoaded⟩ := doubly.exists_load (List.mem_of_head? isHead)
    rw [betweenLoad, targetLoaded]
    exact ⟨_, rfl⟩
  obtain ⟨after, relinked, afterLimit, afterLoad⟩ := updateIfSome_spec valid fun hh =>
    { hh with hhPrev := some fresh }
  have notHead : chain.head? ≠ some fresh := fun isHead => absent (List.mem_of_head? isHead)
  refine ⟨after, ?_, afterLimit.trans betweenLimit, doubly.push absent ?_ ?_, ?_, ?_⟩
  · simp only [linkHandle, linked, bind, Except.bind, relinked]
  · simp [view, afterLoad, betweenLoad, loaded, notHead, bucketEnds]
  · intro address member
    have different : fresh ≠ address := fun same => absent (same ▸ member)
    have unlinked : between.load address = elements.load address := by
      simp only [betweenLoad, if_neg different, Option.map_id']
    exact view_of_load (unlinked ▸ afterLoad address) fun other => by split <;> rfl
  · have linkedKeeps : Keeps Element.outsideBucket elements between :=
      Keeps.of_load betweenLoad fun _ _ => by split <;> rfl
    exact linkedKeeps.trans (Keeps.of_load afterLoad fun _ _ => by split <;> rfl)
  · intro address notFresh notMember
    have different : chain.head? ≠ some address :=
      fun isHead => notMember (List.mem_of_head? isHead)
    simp only [afterLoad, betweenLoad, if_neg (Ne.symm notFresh), if_neg different,
      Option.map_id']

/-- A handle that is linked in front of its bucket is one item more. -/
theorem Buckets.link (holds : Buckets elements buckets items) (absent : fresh ∉ items)
    (loaded : elements.load fresh = some element)
    (hashed : hashToBkt element.hh.hashv buckets.length = index)
    (found : buckets[index]? = some bucket) :
    ∃ after, linkHandle elements bucket.hhHead fresh = .ok after ∧
      after.limit = elements.limit ∧ Keeps Element.outsideBucket elements after ∧
      (∀ address, address ≠ fresh → address ∉ items →
        after.load address = elements.load address) ∧
      ∀ grown : UTHashBucket, grown.hhHead = some fresh → grown.count = bucket.count + 1 →
        Buckets after (buckets.set index grown) (fresh :: items) := by
  obtain ⟨chain, bucketed⟩ := holds.chains found
  have inItems : ∀ address ∈ chain, address ∈ items :=
    fun address member => ((bucketed.members address).mp member).1
  have notInChain : fresh ∉ chain := fun member => absent (inItems fresh member)
  obtain ⟨after, linked, limit, doubly, keeps, elsewhere⟩ :=
    linkHandle_spec bucketed.doubly notInChain loaded
  have slots := slot_of_keeps keeps buckets.length
  have freshSlot : slot elements buckets.length fresh = some index := by
    rw [slot, loaded, Option.map_some, hashed]
  refine ⟨after, by rw [bucketed.head]; exact linked, limit, keeps, ?_, ?_⟩
  · intro address notFresh notItem
    exact elsewhere address notFresh fun member => notItem (inItems address member)
  · intro grown grownHead grownCount
    have notFresh : ∀ address, slot elements buckets.length address ≠ some index →
        address ≠ fresh := by
      rintro address notHere rfl
      exact notHere freshSlot
    refine holds.replace slots ?_ ?_ ⟨doubly, grownHead, ?_, ?_⟩
    · intro address notHere
      have notMember : address ∉ chain := fun inChain =>
        notHere ((bucketed.members address).mp inChain).2
      exact congrArg (Option.map _) (elsewhere address (notFresh address notHere) notMember)
    · intro address notHere
      rw [List.mem_cons, or_iff_right (notFresh address notHere)]
    · rw [grownCount, bucketed.count, List.length_cons]
    · intro address
      rw [slots, List.mem_cons, List.mem_cons, bucketed.members]
      constructor
      · rintro (rfl | ⟨member, atIndex⟩)
        · exact ⟨Or.inl rfl, freshSlot⟩
        · exact ⟨Or.inr member, atIndex⟩
      · rintro ⟨rfl | member, atIndex⟩
        · exact Or.inl rfl
        · exact Or.inr ⟨member, atIndex⟩

end Link

/-! ## The buckets are doubled -/

/-- Handles have moved to the new buckets, which held `items` before. -/
structure Moves (before after : Expansion β) (cells items : List Address) : Prop where
  length : after.newBuckets.length = before.newBuckets.length
  limit : after.elements.limit = before.elements.limit
  keeps : Keeps Element.outsideBucket before.elements after.elements
  elsewhere : ∀ address, address ∉ cells → address ∉ items →
    after.elements.load address = before.elements.load address
  holds : Buckets after.elements after.newBuckets (cells.reverse ++ items)

section Expand

variable {numBuckets : Nat} {before : Expansion β} {items : List Address}

theorem Moves.trans {middle after : Expansion β} {first second : List Address}
    (left : Moves before middle first items)
    (right : Moves middle after second (first.reverse ++ items)) :
    Moves before after (first ++ second) items where
  length := right.length.trans left.length
  limit := right.limit.trans left.limit
  keeps := left.keeps.trans right.keeps
  elsewhere := by
    intro address notCell notItem
    rw [List.mem_append, not_or] at notCell
    rw [right.elsewhere address notCell.2 (by simp [notCell.1, notItem]),
      left.elsewhere address notCell.1 notItem]
  holds := by
    rw [List.reverse_append, List.append_assoc]
    exact right.holds

theorem moveHandle_spec (idealChainMaxlen : Nat) {thh : Address} {element : Element β}
    (holds : Buckets before.elements before.newBuckets items) (absent : thh ∉ items)
    (loaded : before.elements.load thh = some element)
    (doubled : before.newBuckets.length = numBuckets * 2) (nonempty : 0 < numBuckets) :
    ∃ after, moveHandle numBuckets idealChainMaxlen thh element.hh.hashv before = .ok after ∧
      Moves before after [thh] items := by
  have inside : hashToBkt element.hh.hashv (numBuckets * 2) < before.newBuckets.length := by
    rw [doubled]
    exact hashToBkt_lt _ (by omega)
  have found := List.getElem?_eq_getElem inside
  obtain ⟨after, linked, limit, keeps, elsewhere, grown⟩ :=
    holds.link absent loaded (by rw [doubled]) found
  refine ⟨_, by simp only [moveHandle, found, linked, bind, Except.bind]; rfl, ?_⟩
  constructor
  · exact List.length_set
  · exact limit
  · exact keeps
  · intro address notCell notItem
    exact elsewhere address (fun same => notCell (List.mem_singleton.mpr same)) notItem
  · exact grown _ rfl rfl

/-- The handles of one bucket move, whatever their number. -/
theorem moveChain_spec (idealChainMaxlen : Nat) {contents : List (Address × Element β)}
    {start : Option Address}
    (chain : before.elements.Chain (fun element => element.hh.hhNext) start contents)
    (holds : Buckets before.elements before.newBuckets items)
    (apart : ∀ address ∈ contents.map Prod.fst, address ∉ items) {fuel : Nat}
    (enough : contents.length ≤ fuel)
    (doubled : before.newBuckets.length = numBuckets * 2) (nonempty : 0 < numBuckets) :
    ∃ after, moveChain numBuckets idealChainMaxlen fuel start before = .ok after ∧
      Moves before after (contents.map Prod.fst) items := by
  induction contents generalizing before start items fuel with
  | nil =>
      cases chain
      refine ⟨before, by cases fuel <;> rfl, rfl, rfl, Keeps.refl _ _, ?_, holds⟩
      exact fun _ _ _ => rfl
  | cons cell rest inductionHypothesis =>
      have nodup := chain.nodup
      rw [List.map_cons, List.nodup_cons] at nodup
      obtain ⟨rfl, loaded, remaining⟩ := chain
      cases fuel with
      | zero => simp at enough
      | succ fuel =>
          have notItem : cell.1 ∉ items := apart cell.1 (by simp)
          obtain ⟨middle, moved, step⟩ :=
            moveHandle_spec idealChainMaxlen holds notItem loaded doubled nonempty
          have restApart : ∀ address ∈ rest.map Prod.fst, address ≠ cell.1 ∧ address ∉ items := by
            intro address member
            refine ⟨?_, apart address (List.mem_cons_of_mem _ member)⟩
            rintro rfl
            exact nodup.1 member
          -- What has not moved is read as it was before the step.
          have remainingAfter := remaining.frame fun address member =>
            step.elsewhere address (by simpa using (restApart address member).1)
              (restApart address member).2
          obtain ⟨after, movedRest, steps⟩ := inductionHypothesis remainingAfter step.holds
            (by
              intro address member
              obtain ⟨different, notOld⟩ := restApart address member
              simpa [notOld] using different)
            (Nat.le_of_succ_le_succ enough) (step.length.trans doubled)
          refine ⟨after, ?_, step.trans steps⟩
          simp only [moveChain, loadElement_of_load loaded, moved, movedRest, bind, Except.bind]

/-- The handles of the buckets from one on move; those of the buckets in front of
it have moved already. -/
theorem moveBuckets_spec (idealChainMaxlen : Nat) {elements : Heap (Element β)}
    {buckets : List UTHashBucket} (old : Buckets elements buckets items)
    (front rest : List UTHashBucket) (split : buckets = front ++ rest) (moved : List Address)
    (members : ∀ address, address ∈ moved ↔ address ∈ items ∧
      ∃ index, slot elements buckets.length address = some index ∧ index < front.length)
    (limit : before.elements.limit = elements.limit)
    (keeps : Keeps Element.outsideBucket elements before.elements)
    (unmoved : ∀ address, address ∉ moved →
      before.elements.load address = elements.load address)
    (holds : Buckets before.elements before.newBuckets moved)
    (doubled : before.newBuckets.length = numBuckets * 2) (nonempty : 0 < numBuckets) :
    ∃ after all, moveBuckets numBuckets idealChainMaxlen rest before = .ok after ∧
      (∀ address, address ∈ all ↔ address ∈ items ∧
        ∃ index, slot elements buckets.length address = some index ∧ index < buckets.length) ∧
      after.newBuckets.length = numBuckets * 2 ∧ after.elements.limit = elements.limit ∧
      Keeps Element.outsideBucket elements after.elements ∧
      Buckets after.elements after.newBuckets all := by
  induction rest generalizing front before moved with
  | nil =>
      rw [List.append_nil] at split
      subst split
      exact ⟨before, moved, rfl, members, doubled, limit, keeps, holds⟩
  | cons bucket rest inductionHypothesis =>
      have found : buckets[front.length]? = some bucket := by simp [split]
      obtain ⟨chain, bucketed⟩ := old.chains found
      have unmovedHere : ∀ address ∈ chain, address ∉ moved := by
        intro address member inMoved
        obtain ⟨_, index, atIndex, below⟩ := (members address).mp inMoved
        rw [((bucketed.members address).mp member).2] at atIndex
        cases atIndex
        exact Nat.lt_irrefl _ below
      obtain ⟨contents, addresses, forward⟩ := bucketed.doubly.segment.exists_chain
      have chainBefore : before.elements.Chain (fun element => element.hh.hhNext) bucket.hhHead
          contents := by
        rw [bucketed.head]
        apply forward.frame
        intro address member
        exact unmoved address (unmovedHere address (addresses ▸ member))
      have enough : contents.length ≤ before.elements.limit := by
        have bound := bucketed.doubly.length_le_limit
        rw [← addresses, List.length_map] at bound
        exact limit ▸ bound
      obtain ⟨middle, movedHere, moves⟩ := moveChain_spec idealChainMaxlen chainBefore holds
        (by rw [addresses]; exact unmovedHere) enough doubled nonempty
      rw [addresses] at moves
      have further : buckets = front ++ [bucket] ++ rest := by simp [split]
      obtain ⟨after, all, movedRest, result⟩ := inductionHypothesis (front ++ [bucket]) further
        (chain.reverse ++ moved)
        (by
          intro address
          rw [List.mem_append, List.mem_reverse, bucketed.members, members, ← and_or_left,
            List.length_append]
          refine and_congr_right fun _ => ?_
          constructor
          · rintro (atIndex | ⟨index, atIndex, below⟩)
            · exact ⟨front.length, atIndex, Nat.lt_succ_self _⟩
            · exact ⟨index, atIndex, Nat.lt_succ_of_lt below⟩
          · rintro ⟨index, atIndex, below⟩
            rcases Nat.lt_succ_iff_lt_or_eq.mp below with earlier | rfl
            · exact Or.inr ⟨index, atIndex, earlier⟩
            · exact Or.inl atIndex)
        (moves.limit.trans limit) (keeps.trans moves.keeps)
        (by
          intro address notMoved
          rw [List.mem_append, List.mem_reverse, not_or] at notMoved
          rw [moves.elsewhere address notMoved.1 notMoved.2, unmoved address notMoved.2])
        moves.holds (moves.length.trans doubled)
      refine ⟨after, all, ?_, result⟩
      simp only [moveBuckets, movedHere, movedRest, bind, Except.bind]

/-- What doubling leaves of a table. -/
structure Doubled (tbl grown : UTHashTable) (elements after : Heap (Element β))
    (items : List Address) : Prop where
  numBuckets : grown.numBuckets = tbl.numBuckets * 2
  log2NumBuckets : grown.log2NumBuckets = tbl.log2NumBuckets + 1
  sized : grown.buckets.length = grown.numBuckets
  numItems : grown.numItems = tbl.numItems
  tail : grown.tail = tbl.tail
  limit : after.limit = elements.limit
  keeps : Keeps Element.outsideBucket elements after
  holds : Buckets after grown.buckets items

theorem hashExpandBuckets_spec {elements : Heap (Element β)} {tbl : UTHashTable}
    (holds : Buckets elements tbl.buckets items) (sized : tbl.buckets.length = tbl.numBuckets)
    (nonempty : 0 < tbl.numBuckets)
    (allocated : ∀ address ∈ items, ∃ element, elements.load address = some element) :
    ∃ grown after, hashExpandBuckets tbl elements = .ok (grown, after) ∧
      Doubled tbl grown elements after items := by
  have zeroed : (Expansion.start tbl.numBuckets elements).newBuckets.length =
      tbl.numBuckets * 2 := by simp [Expansion.start, Nat.mul_comm]
  obtain ⟨after, all, moved, members, length, limit, keeps, held⟩ :=
    moveBuckets_spec tbl.doubledIdeal holds [] tbl.buckets rfl [] (by simp) rfl
      (Keeps.refl _ _) (fun _ _ => rfl) (Buckets.zero _ _) zeroed nonempty
  have complete : ∀ address, address ∈ items ↔ address ∈ all := by
    intro address
    rw [members]
    refine ⟨fun member => ⟨member, ?_⟩, And.left⟩
    obtain ⟨element, loaded⟩ := allocated address member
    refine ⟨hashToBkt element.hh.hashv tbl.buckets.length, by rw [slot, loaded]; rfl, ?_⟩
    exact hashToBkt_lt _ (sized ▸ nonempty)
  simp only [hashExpandBuckets, moved, bind, Except.bind]
  exact ⟨_, _, rfl, rfl, rfl, length, rfl, rfl, limit, keeps, held.frame (Keeps.refl _ _) complete⟩

end Expand

/-! ## A handle leaves -/

/-- The two assignments that link the neighbours of a cell to each other, for either
kind of links. -/
theorem unlink_spec {elements : Heap (Element β)} {ends : UTHashHandle → Ends}
    (setPrev setNext : Option Address → UTHashHandle → UTHashHandle)
    (prevSet : ∀ target hh, ends (setPrev target hh) = { ends hh with prev := target })
    (nextSet : ∀ target hh, ends (setNext target hh) = { ends hh with next := target })
    {front back : List Address} {gone : Address}
    (doubly : DoublyLinked (elements.view fun element => ends element.hh) (front ++ gone :: back)) :
    ∃ between after,
      updateIfSome elements front.getLast? (setNext back.head?) = .ok between ∧
      updateIfSome between back.head? (setPrev front.getLast?) = .ok after ∧
      after.limit = elements.limit ∧
      DoublyLinked (after.view fun element => ends element.hh) (front ++ back) ∧
      ∀ address, after.load address = (elements.load address).map fun element =>
        let hh :=
          if front.getLast? = some address then setNext back.head? element.hh else element.hh
        { element with
          hh := if back.head? = some address then setPrev front.getLast? hh else hh } := by
  have prevValid : ∀ target, front.getLast? = some target →
      ∃ element, elements.load target = some element := fun target isLast =>
    doubly.exists_load (List.mem_append_left _ (List.mem_of_getLast? isLast))
  obtain ⟨between, nextStored, betweenLimit, betweenLoad⟩ :=
    updateIfSome_spec prevValid (setNext back.head?)
  have nextValid : ∀ target, back.head? = some target →
      ∃ element, between.load target = some element := by
    intro target isHead
    have member : target ∈ front ++ gone :: back := by simp [List.mem_of_head? isHead]
    obtain ⟨element, loaded⟩ := doubly.exists_load member
    rw [betweenLoad, loaded]
    exact ⟨_, rfl⟩
  obtain ⟨after, prevStored, afterLimit, afterLoad⟩ :=
    updateIfSome_spec nextValid (setPrev front.getLast?)
  have loads : ∀ address, after.load address = (elements.load address).map fun element =>
      let hh :=
        if front.getLast? = some address then setNext back.head? element.hh else element.hh
      { element with
        hh := if back.head? = some address then setPrev front.getLast? hh else hh } := by
    intro address
    rw [afterLoad, betweenLoad, Option.map_map]
    congr 1
    funext element
    simp only [Function.comp_apply]
    split <;> split <;> rfl
  obtain ⟨_, _, apart⟩ := List.nodup_append.mp doubly.nodup
  refine ⟨between, after, nextStored, prevStored, afterLimit.trans betweenLimit,
    doubly.remove ?_ ?_, loads⟩
  · intro address member
    have notHead : back.head? ≠ some address := fun isHead =>
      apart address member address (List.mem_cons_of_mem _ (List.mem_of_head? isHead)) rfl
    refine view_of_load (loads address) fun element => ?_
    simp only [if_neg notHead]
    split
    · exact nextSet _ _
    · rfl
  · intro address member
    have notLast : front.getLast? ≠ some address := fun isLast =>
      apart address (List.mem_of_getLast? isLast) address (List.mem_cons_of_mem _ member) rfl
    refine view_of_load (loads address) fun element => ?_
    simp only [if_neg notLast]
    split
    · exact prevSet _ _
    · rfl

section Delete

variable {elements : Heap (Element β)} {buckets : List UTHashBucket} {items : List Address}
variable {gone index : Nat} {element : Element β} {bucket : UTHashBucket}

/-- A handle that leaves its bucket is one item less. -/
theorem Buckets.delete (holds : Buckets elements buckets items) (member : gone ∈ items)
    (loaded : elements.load gone = some element)
    (hashed : hashToBkt element.hh.hashv buckets.length = index)
    (found : buckets[index]? = some bucket) :
    ∃ shrunk after, hashDelInBkt elements bucket gone = .ok (shrunk, after) ∧
      after.limit = elements.limit ∧ Keeps Element.outsideBucket elements after ∧
      ∀ others : List Address, (∀ address, address ∈ others ↔ address ∈ items ∧ address ≠ gone) →
        Buckets after (buckets.set index shrunk) others := by
  obtain ⟨chain, bucketed⟩ := holds.chains found
  have goneSlot : slot elements buckets.length gone = some index := by
    rw [slot, loaded, Option.map_some, hashed]
  obtain ⟨front, back, rfl⟩ := List.append_of_mem ((bucketed.members gone).mpr ⟨member, goneSlot⟩)
  have links := bucketed.doubly.links_of_split
  simp only [view, loaded, Option.map_some, Option.some.injEq] at links
  have hhPrev : element.hh.hhPrev = front.getLast? := congrArg Ends.prev links
  have hhNext : element.hh.hhNext = back.head? := congrArg Ends.next links
  obtain ⟨between, after, nextStored, prevStored, limit, doubly, loads⟩ :=
    unlink_spec (fun target hh => { hh with hhPrev := target })
      (fun target hh => { hh with hhNext := target }) (fun _ _ => rfl) (fun _ _ => rfl)
      bucketed.doubly
  have keeps : Keeps Element.outsideBucket elements after :=
    Keeps.of_load loads fun _ _ => by dsimp only; split <;> split <;> rfl
  have slots := slot_of_keeps keeps buckets.length
  refine ⟨_, after, by
    simp only [hashDelInBkt, loadElement_of_load loaded, hhPrev, hhNext, nextStored, prevStored,
      bind, Except.bind]; rfl, limit, keeps, ?_⟩
  intro others same
  refine holds.replace slots ?_ ?_ ⟨doubly, ?_, ?_, ?_⟩
  · intro address notHere
    have notMember : address ∉ front ++ gone :: back := fun inChain =>
      notHere ((bucketed.members address).mp inChain).2
    have notLast : front.getLast? ≠ some address := fun isLast =>
      notMember (List.mem_append_left _ (List.mem_of_getLast? isLast))
    have notHead : back.head? ≠ some address := fun isHead =>
      notMember (List.mem_append_right _ (List.mem_cons_of_mem _ (List.mem_of_head? isHead)))
    simp [view, loads, notLast, notHead]
  · intro address notHere
    rw [same]
    refine and_iff_left ?_
    rintro rfl
    exact notHere goneSlot
  · rw [bucketed.head]
    cases front with
    | nil => simp
    | cons first rest =>
        have stays : first ∈ first :: rest ++ back := by simp
        have different := (bucketed.doubly.mem_without.mp stays).2
        simp [different]
  · simp only [bucketed.count, List.length_append, List.length_cons]
    omega
  · intro address
    rw [slots, same, bucketed.doubly.mem_without, bucketed.members, and_right_comm]

end Delete

end Torchat.Uthash
