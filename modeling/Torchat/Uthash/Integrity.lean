import Torchat.Uthash.Buckets

/-!
Contract: what every operation on a table keeps.

Owns the invariant of a table, that adding, finding, deleting and iterating do on
the elements in the order of insertion what they are for, and that the integrity
check of the header never objects in any run.

Does not own how a table is used; keys may be repeated here.
-/

set_option autoImplicit false

namespace Torchat.Uthash

open Torchat.Foundation
open Torchat.Foundation.Heap
open Torchat.Daemon (Fault)

variable {β : Type}

/-- What an element is in a table for. -/
def Element.content (element : Element β) : Bytes × β := (element.hh.key, element.value)

/-- The content of an element in memory. -/
def contentAt (elements : Heap (Element β)) (address : Address) : Option (Bytes × β) :=
  (elements.load address).map Element.content

/-- The handle has the hash value and the length of its key. -/
def Element.Hashed (element : Element β) : Prop :=
  element.hh.hashv = hashJen element.hh.key ∧ element.hh.keylen = element.hh.key.length

/-- A table of elements, in the order of their insertion. -/
structure TableOf (elements : Heap (Element β)) (tbl : UTHashTable) (order : List Address) :
    Prop where
  power : tbl.numBuckets = 2 ^ tbl.log2NumBuckets
  sized : tbl.buckets.length = tbl.numBuckets
  tail : tbl.tail = order.getLast?
  numItems : tbl.numItems = order.length
  ordered : DoublyLinked (inOrder elements) order
  hashed : ∀ address ∈ order, ∃ element, elements.load address = some element ∧ element.Hashed
  holds : Buckets elements tbl.buckets order

/-- The elements of a hash; a NULL pointer has none. -/
def ListedIn (hash : Hash β) (order : List Address) : Prop :=
  match hash.head with
  | none => order = []
  | some (head, tbl) => order.head? = some head ∧ TableOf hash.elements tbl order

theorem TableOf.nonempty {elements : Heap (Element β)} {tbl : UTHashTable} {order : List Address}
    (table : TableOf elements tbl order) : 0 < tbl.numBuckets := by
  rw [table.power]
  exact Nat.two_pow_pos _

theorem ListedIn.nodup {hash : Hash β} {order : List Address} (listed : ListedIn hash order) :
    order.Nodup := by
  obtain ⟨head, elements⟩ := hash
  cases head with
  | none =>
      cases show order = [] from listed
      exact List.nodup_nil
  | some found => exact listed.2.ordered.nodup

/-- Every hash value leads to a bucket. -/
theorem exists_bucket {tbl : UTHashTable} (sized : tbl.buckets.length = tbl.numBuckets)
    (power : tbl.numBuckets = 2 ^ tbl.log2NumBuckets) (hashv : UInt32) :
    ∃ bucket, tbl.buckets[hashToBkt hashv tbl.numBuckets]? = some bucket := by
  have inside : hashToBkt hashv tbl.numBuckets < tbl.buckets.length := by
    rw [sized]
    apply hashToBkt_lt
    rw [power]
    exact Nat.two_pow_pos _
  exact ⟨_, List.getElem?_eq_getElem inside⟩

/-! ## Adding -/

section Add

variable {elements after : Heap (Element β)} {tbl : UTHashTable} {order : List Address}
variable {add : Address} {element : Element β}

/-- The part of a handle that is set when its element is added. -/
private def label (element : Element β) : Bytes × Nat × UInt32 :=
  (element.hh.key, element.hh.keylen, element.hh.hashv)

private theorem hashed_of_keeps (keeps : Keeps label elements after)
    (hashed : ∀ address ∈ order, ∃ element, elements.load address = some element ∧ element.Hashed) :
    ∀ address ∈ order, ∃ element, after.load address = some element ∧ element.Hashed := by
  intro address member
  obtain ⟨element, loaded, isHashed⟩ := hashed address member
  have same := keeps address
  rw [loaded, Option.map_some] at same
  obtain ⟨changed, changedLoaded, outside⟩ := Option.map_eq_some_iff.mp same
  obtain ⟨keys, rest⟩ := Prod.mk.inj outside
  obtain ⟨lengths, values⟩ := Prod.mk.inj rest
  refine ⟨changed, changedLoaded, ?_, ?_⟩
  · exact values.trans (isHashed.1.trans (congrArg hashJen keys).symm)
  · exact lengths.trans (isHashed.2.trans (congrArg List.length keys).symm)

/-- A table with twice the buckets is a table of the same elements. -/
private theorem TableOf.double (table : TableOf elements tbl order) :
    ∃ grown after, hashExpandBuckets tbl elements = .ok (grown, after) ∧
      TableOf after grown order ∧ after.limit = elements.limit ∧
      Keeps Element.outsideBucket elements after := by
  obtain ⟨grown, after, expanded, doubled⟩ := hashExpandBuckets_spec table.holds table.sized
    table.nonempty fun address member => (table.hashed address member).imp fun _ found => found.1
  refine ⟨grown, after, expanded, ?_, doubled.limit, doubled.keeps⟩
  exact
    { power := by rw [doubled.numBuckets, doubled.log2NumBuckets, table.power, Nat.pow_succ]
      sized := doubled.sized
      tail := doubled.tail.trans table.tail
      numItems := doubled.numItems.trans table.numItems
      ordered := by
        rw [inOrder_of_keeps doubled.keeps]
        exact table.ordered
      hashed := hashed_of_keeps (doubled.keeps.map label) table.hashed
      holds := doubled.holds }

/-- A table in the middle of an addition: the element is in the order of insertion, but
neither counted nor in a bucket. -/
private structure Pending (elements : Heap (Element β)) (tbl : UTHashTable) (order : List Address)
    (add : Address) : Prop where
  power : tbl.numBuckets = 2 ^ tbl.log2NumBuckets
  sized : tbl.buckets.length = tbl.numBuckets
  tail : tbl.tail = some add
  numItems : tbl.numItems = order.length
  ordered : DoublyLinked (inOrder elements) (order ++ [add])
  hashed : ∀ address ∈ order ++ [add],
    ∃ element, elements.load address = some element ∧ element.Hashed
  holds : Buckets elements tbl.buckets order

/-- The last part of an addition: the bucket gets the handle, and may be doubled. -/
private theorem Pending.finish (pending : Pending elements tbl order add)
    (loaded : elements.load add = some element) :
    ∃ grown after,
      hashAddToBkt { tbl with numItems := tbl.numItems + 1 } elements
        (hashToBkt element.hh.hashv tbl.numBuckets) add = .ok (grown, after) ∧
      TableOf after grown (order ++ [add]) ∧ after.limit = elements.limit ∧
      Keeps Element.outsideBucket elements after := by
  have absent : add ∉ order := fun member =>
    (List.nodup_append.mp pending.ordered.nodup).2.2 add member add (by simp) rfl
  obtain ⟨bucket, found⟩ := exists_bucket pending.sized pending.power element.hh.hashv
  obtain ⟨between, linked, limit, keeps, _, grown⟩ :=
    pending.holds.link absent loaded (by rw [pending.sized]) found
  let filled : UTHashBucket := { bucket with hhHead := some add, count := bucket.count + 1 }
  let linkedTbl : UTHashTable :=
    { tbl with
      numItems := tbl.numItems + 1
      buckets := tbl.buckets.set (hashToBkt element.hh.hashv tbl.numBuckets) filled }
  have table : TableOf between linkedTbl (order ++ [add]) :=
    { power := pending.power
      sized := by simp [linkedTbl, pending.sized]
      tail := by simp [linkedTbl, pending.tail]
      numItems := by simp [linkedTbl, pending.numItems]
      ordered := by
        rw [inOrder_of_keeps keeps]
        exact pending.ordered
      hashed := hashed_of_keeps (keeps.map label) pending.hashed
      holds := (grown filled rfl rfl).frame (Keeps.refl _ _) fun address => by
        rw [List.mem_append, List.mem_singleton, List.mem_cons, or_comm] }
  simp only [hashAddToBkt, found, linked, bind, Except.bind]
  split
  next =>
    obtain ⟨doubled, after, expanded, result, afterLimit, afterKeeps⟩ := table.double
    exact ⟨doubled, after, expanded, result, afterLimit.trans limit, keeps.trans afterKeeps⟩
  next => exact ⟨linkedTbl, between, rfl, table, limit, keeps⟩

/-- The new element follows the last one. -/
private theorem hashAppendList_spec (ordered : DoublyLinked (inOrder elements) order)
    (tail : tbl.tail = order.getLast?) (nonempty : order ≠ []) (absent : add ∉ order)
    (loaded : elements.load add = some element) :
    ∃ after, hashAppendList tbl elements add = .ok ({ tbl with tail := some add }, after) ∧
      DoublyLinked (inOrder after) (order ++ [add]) ∧ after.limit = elements.limit ∧
      Keeps Element.outsideOrder elements after := by
  obtain ⟨last, isLast⟩ : ∃ last, order.getLast? = some last :=
    ⟨_, List.getLast?_eq_some_getLast nonempty⟩
  have inOrderLast := List.mem_of_getLast? isLast
  have different : add ≠ last := fun same => absent (same ▸ inOrderLast)
  obtain ⟨lastElement, lastLoaded⟩ := ordered.exists_load inOrderLast
  obtain ⟨between, newStored, betweenLimit, betweenLoad⟩ := updateHandle_spec loaded fun hh =>
    { hh with next := none, prev := some last }
  have lastBetween : between.load last = some lastElement := by
    rw [betweenLoad, lastLoaded, Option.map_some, if_neg different]
  obtain ⟨after, lastStored, afterLimit, afterLoad⟩ := updateHandle_spec lastBetween fun hh =>
    { hh with next := some add }
  refine ⟨after, ?_, ordered.append absent ?_ ?_, afterLimit.trans betweenLimit, ?_⟩
  · simp only [hashAppendList, tail, isLast, newStored, lastStored, bind, Except.bind]
  · simp [view, afterLoad, betweenLoad, loaded, Ne.symm different, isLast, appEnds]
  · intro address member
    have notNew : add ≠ address := fun same => absent (same ▸ member)
    have unlinked : between.load address = elements.load address := by
      simp only [betweenLoad, if_neg notNew, Option.map_id']
    rw [isLast]
    refine view_of_load (unlinked ▸ afterLoad address) fun other => ?_
    simp only [Option.some.injEq]
    split <;> rfl
  · have newKeeps : Keeps Element.outsideOrder elements between :=
      Keeps.of_load betweenLoad fun _ _ => by split <;> rfl
    exact newKeeps.trans (Keeps.of_load afterLoad fun _ _ => by split <;> rfl)

/-- The first part of an addition, for a table that is made and for one that is there. -/
private theorem hashLink_spec {head : Option (Address × UTHashTable)}
    (listed : ListedIn { head := head, elements := elements } order) (absent : add ∉ order)
    (loaded : elements.load add = some element) (hashed : element.Hashed) :
    ∃ first tbl after, hashLink head elements add = .ok (first, tbl, after) ∧
      (order ++ [add]).head? = some first ∧ Pending after tbl order add ∧
      after.limit = elements.limit ∧ Keeps Element.outsideOrder elements after := by
  cases head with
  | none =>
      cases show order = [] from listed
      obtain ⟨after, stored, limit, loads⟩ := updateHandle_spec loaded fun hh =>
        { hh with next := none, prev := none }
      have keeps : Keeps Element.outsideOrder elements after :=
        Keeps.of_load loads fun _ _ => by split <;> rfl
      refine ⟨add, hashMakeTable add, after, ?_, rfl, ?_, limit, keeps⟩
      · simp only [hashLink, stored, bind, Except.bind]
      · exact
          { power := rfl
            sized := List.length_replicate
            tail := rfl
            numItems := rfl
            ordered := by
              have none : DoublyLinked (inOrder elements) [] := DoublyLinked.nil
              apply none.push List.not_mem_nil
              · simp [view, loads, loaded, appEnds]
              · simp
            hashed := by
              apply hashed_of_keeps (keeps.map label)
              intro address member
              cases List.mem_singleton.mp member
              exact ⟨element, loaded, hashed⟩
            holds := Buckets.zero _ _ }
  | some found =>
      obtain ⟨first, tbl⟩ := found
      obtain ⟨isFirst, table⟩ := listed
      have nonempty : order ≠ [] := by
        rintro rfl
        contradiction
      obtain ⟨after, appended, ordered, limit, keeps⟩ :=
        hashAppendList_spec table.ordered table.tail nonempty absent loaded
      refine ⟨first, { tbl with tail := some add }, after, ?_, ?_, ?_, limit, keeps⟩
      · simp only [hashLink, appended, bind, Except.bind]
      · rw [List.head?_append, isFirst]
        rfl
      · exact
          { power := table.power
            sized := table.sized
            tail := rfl
            numItems := table.numItems
            ordered := ordered
            hashed := by
              apply hashed_of_keeps (keeps.map label)
              intro address member
              rcases List.mem_append.mp member with old | new
              · exact table.hashed address old
              · cases List.mem_singleton.mp new
                exact ⟨element, loaded, hashed⟩
            holds := table.holds.frame (keeps.map Element.bucketPart) fun _ => Iff.rfl }

/-- What leaves the elements of a table alone leaves the table. -/
theorem ListedIn.agree {head : Option (Address × UTHashTable)}
    (listed : ListedIn { head := head, elements := elements } order)
    (same : ∀ address ∈ order, after.load address = elements.load address) :
    ListedIn { head := head, elements := after } order := by
  cases head with
  | none => exact listed
  | some found =>
      obtain ⟨isFirst, table⟩ := listed
      refine ⟨isFirst, ?_⟩
      exact
        { power := table.power
          sized := table.sized
          tail := table.tail
          numItems := table.numItems
          ordered := table.ordered.frame fun address member =>
            congrArg (Option.map _) (same address member)
          hashed := fun address member => by
            rw [same address member]
            exact table.hashed address member
          holds := table.holds.agree same }

/-- What keeps the handles keeps the table. -/
theorem ListedIn.frame {head : Option (Address × UTHashTable)}
    (listed : ListedIn { head := head, elements := elements } order)
    (keeps : Keeps Element.hh elements after) :
    ListedIn { head := head, elements := after } order := by
  cases head with
  | none => exact listed
  | some found =>
      obtain ⟨isFirst, table⟩ := listed
      refine ⟨isFirst, ?_⟩
      exact
        { power := table.power
          sized := table.sized
          tail := table.tail
          numItems := table.numItems
          ordered := table.ordered.frame fun address _ => keeps.map appEnds address
          hashed := hashed_of_keeps (keeps.map fun hh => (hh.key, hh.keylen, hh.hashv)) table.hashed
          holds := table.holds.frame (keeps.map fun hh => (bucketEnds hh, hh.hashv))
            fun _ => Iff.rfl }

/-- `HASH_ADD_KEYPTR` of an element outside the table. -/
theorem hashAddKeyptr_spec {hash : Hash β} (listed : ListedIn hash order) (absent : add ∉ order)
    (loaded : hash.elements.load add = some element) (key : Bytes) :
    ∃ after, hashAddKeyptr hash key add = .ok after ∧ ListedIn after (order ++ [add]) ∧
      after.elements.limit = hash.elements.limit ∧
      contentAt after.elements add = some (key, element.value) ∧
      ∀ address, address ≠ add →
        contentAt after.elements address = contentAt hash.elements address := by
  obtain ⟨keyed, keyStored, keyLimit, keyLoad⟩ := updateHandle_spec loaded fun hh =>
    { hh with hashv := hashJen key, key := key, keylen := key.length }
  have untouched : ∀ address, address ≠ add →
      keyed.load address = hash.elements.load address := by
    intro address different
    simp only [keyLoad, if_neg (Ne.symm different), Option.map_id']
  obtain ⟨new, newLoaded, newHashed, newContent, newHashv⟩ : ∃ new, keyed.load add = some new ∧
      new.Hashed ∧ new.content = (key, element.value) ∧ new.hh.hashv = hashJen key := by
    rw [keyLoad, loaded, Option.map_some, if_pos rfl]
    exact ⟨_, rfl, ⟨rfl, rfl⟩, rfl, rfl⟩
  have keyedListed : ListedIn { head := hash.head, elements := keyed } order :=
    ListedIn.agree listed fun address member =>
      untouched address fun same => absent (same ▸ member)
  obtain ⟨first, tbl, linked, linkedEq, isFirst, pending, linkLimit, linkKeeps⟩ :=
    hashLink_spec keyedListed absent newLoaded newHashed
  have linkedNew := linkKeeps add
  rw [newLoaded, Option.map_some] at linkedNew
  obtain ⟨linkedElement, linkedLoaded, outside⟩ := Option.map_eq_some_iff.mp linkedNew
  have sameHashv : linkedElement.hh.hashv = hashJen key :=
    (congrArg (fun element => element.hh.hashv) outside).trans newHashv
  obtain ⟨grown, after, added, table, limit, keeps⟩ := pending.finish linkedLoaded
  rw [sameHashv] at added
  have content : ∀ address, contentAt after address = contentAt keyed address := fun address =>
    (keeps.map Element.content address).trans (linkKeeps.map Element.content address)
  refine ⟨{ head := some (first, grown), elements := after }, ?_, ⟨isFirst, table⟩,
    limit.trans (linkLimit.trans keyLimit), ?_, ?_⟩
  · simp only [hashAddKeyptr, keyStored, linkedEq, added, bind, Except.bind]
  · rw [content, contentAt, newLoaded, Option.map_some, newContent]
  · intro address different
    rw [content, contentAt, untouched address different, contentAt]

end Add

/-! ## Finding -/

section Find

variable {elements : Heap (Element β)} {order : List Address}

/-- The walk over a bucket stops at the first element with the key. -/
private theorem hashFindInBkt_spec (key : Bytes) {contents : List (Address × Element β)}
    {start : Option Address}
    (chain : elements.Chain (fun element => element.hh.hhNext) start contents)
    (hashed : ∀ cell ∈ contents, cell.2.Hashed) {fuel : Nat} (enough : contents.length ≤ fuel) :
    ∃ out, hashFindInBkt elements key (hashJen key) fuel start = .ok out ∧
      (∀ address, out = some address →
        ∃ cell ∈ contents, cell.1 = address ∧ cell.2.hh.key = key) ∧
      (out = none → ∀ cell ∈ contents, cell.2.hh.key ≠ key) := by
  induction contents generalizing start fuel with
  | nil =>
      cases chain
      exact ⟨none, by cases fuel <;> rfl, nofun, by simp⟩
  | cons cell rest inductionHypothesis =>
      obtain ⟨rfl, loaded, remaining⟩ := chain
      cases fuel with
      | zero => simp at enough
      | succ fuel =>
          rw [hashFindInBkt, loadElement_of_load loaded]
          simp only [bind, Except.bind]
          split
          next matching =>
            refine ⟨some cell.1, rfl, ?_, nofun⟩
            rintro address ⟨⟩
            exact ⟨cell, List.mem_cons_self, rfl, matching.2.2⟩
          next different =>
            obtain ⟨out, found, hit, miss⟩ := inductionHypothesis remaining
              (fun other member => hashed other (List.mem_cons_of_mem _ member))
              (Nat.le_of_succ_le_succ enough)
            refine ⟨out, found, ?_, ?_⟩
            · intro address isOut
              obtain ⟨other, member, rest⟩ := hit address isOut
              exact ⟨other, List.mem_cons_of_mem _ member, rest⟩
            · intro isNone other member
              rcases List.mem_cons.mp member with rfl | later
              · obtain ⟨value, length⟩ := hashed other List.mem_cons_self
                rintro rfl
                exact different ⟨value, length, rfl⟩
              · exact miss isNone other later

/-- `HASH_FIND` finds an element with the key where there is one. -/
theorem hashFind_spec {hash : Hash β} (listed : ListedIn hash order) (key : Bytes) :
    ∃ out, hashFind hash key = .ok out ∧
      (∀ address, out = some address →
        address ∈ order ∧ (contentAt hash.elements address).map Prod.fst = some key) ∧
      (out = none → ∀ address ∈ order,
        (contentAt hash.elements address).map Prod.fst ≠ some key) := by
  obtain ⟨head, elements⟩ := hash
  cases head with
  | none =>
      cases show order = [] from listed
      exact ⟨none, rfl, nofun, by simp⟩
  | some found =>
      obtain ⟨first, tbl⟩ := found
      obtain ⟨_, table⟩ := listed
      obtain ⟨bucket, bucketFound⟩ := exists_bucket table.sized table.power (hashJen key)
      obtain ⟨handles, bucketed⟩ := table.holds.chains bucketFound
      obtain ⟨contents, addresses, chain⟩ := bucketed.doubly.segment.exists_chain
      have listedCells :
          ∀ cell ∈ contents, cell.1 ∈ order ∧ elements.load cell.1 = some cell.2 := by
        intro cell member
        have inHandles : cell.1 ∈ handles := addresses ▸ List.mem_map_of_mem member
        exact ⟨((bucketed.members cell.1).mp inHandles).1, chain.load_of_mem member⟩
      have hashedCells : ∀ cell ∈ contents, cell.2.Hashed := by
        intro cell member
        obtain ⟨inTable, loaded⟩ := listedCells cell member
        obtain ⟨element, found, isHashed⟩ := table.hashed cell.1 inTable
        rw [loaded] at found
        cases found
        exact isHashed
      have enough : contents.length ≤ elements.limit := chain.length_le_limit
      rw [← bucketed.head] at chain
      obtain ⟨out, walked, hit, miss⟩ := hashFindInBkt_spec key chain hashedCells enough
      refine ⟨out, by simp only [hashFind, bucketFound, walked], ?_, ?_⟩
      · intro address isOut
        obtain ⟨cell, member, rfl, sameKey⟩ := hit address isOut
        obtain ⟨inTable, loaded⟩ := listedCells cell member
        refine ⟨inTable, ?_⟩
        simp [contentAt, loaded, Element.content, sameKey]
      · intro isNone address inTable sameKey
        obtain ⟨element, loaded, isHashed⟩ := table.hashed address inTable
        simp only [contentAt, loaded, Option.map_some, Element.content, Option.some.injEq]
          at sameKey
        -- The hash value of the key leads to the bucket that was searched.
        have inBucketHere : address ∈ handles := by
          rw [bucketed.members, slot, loaded, Option.map_some, isHashed.1, sameKey, table.sized]
          exact ⟨inTable, rfl⟩
        rw [← addresses] at inBucketHere
        obtain ⟨cell, member, rfl⟩ := List.mem_map.mp inBucketHere
        have same := (listedCells cell member).2
        rw [loaded] at same
        cases same
        exact miss isNone cell member sameKey

end Find

/-! ## Deleting -/

section Delete

variable {front back : List Address} {gone : Address}

/-- The last element of a list that one leaves. -/
private theorem tail_without (nodup : (front ++ gone :: back).Nodup) :
    (if some gone = (front ++ gone :: back).getLast? then front.getLast?
      else (front ++ gone :: back).getLast?) = (front ++ back).getLast? := by
  cases back with
  | nil => simp
  | cons second rest =>
      have notLast : some gone ≠ (front ++ gone :: second :: rest).getLast? := by
        intro isLast
        rw [List.getLast?_append_of_ne_nil _ (by simp), List.getLast?_cons_cons] at isLast
        have absent := (List.nodup_cons.mp (List.nodup_append.mp nodup).2.1).1
        exact absent (List.mem_of_getLast? isLast.symm)
      rw [if_neg notLast, List.getLast?_append_of_ne_nil _ (by simp),
        List.getLast?_append_of_ne_nil _ (by simp), List.getLast?_cons_cons]

/-- The first element of a list that one leaves. -/
private theorem head_without {first : Address}
    (isFirst : (front ++ gone :: back).head? = some first) :
    (if front.getLast? = none then back.head? else some first) = (front ++ back).head? := by
  cases front with
  | nil => rfl
  | cons other rest =>
      cases isFirst
      rw [if_neg (by simp)]
      rfl

/-- `HASH_DELETE` of an element of the table. -/
theorem hashDelete_spec {hash : Hash β} (listed : ListedIn hash (front ++ gone :: back)) :
    ∃ after, hashDelete hash gone = .ok after ∧ ListedIn after (front ++ back) ∧
      after.elements.limit = hash.elements.limit ∧
      ∀ address, contentAt after.elements address = contentAt hash.elements address := by
  obtain ⟨head, elements⟩ := hash
  have member : gone ∈ front ++ gone :: back := by simp
  cases head with
  | none => exact absurd listed (by simp [ListedIn])
  | some found =>
      obtain ⟨first, tbl⟩ := found
      obtain ⟨isFirst, table⟩ := listed
      obtain ⟨element, loaded, _⟩ := table.hashed gone member
      have links := table.ordered.links_of_split
      simp only [view, loaded, Option.map_some, Option.some.injEq] at links
      have prev : element.hh.prev = front.getLast? := congrArg Ends.prev links
      have next : element.hh.next = back.head? := congrArg Ends.next links
      simp only [hashDelete, loadElement_of_load loaded, bind, Except.bind, prev, next]
      split
      next alone =>
        obtain ⟨noFront, noBack⟩ := alone
        rw [List.getLast?_eq_none_iff] at noFront
        rw [List.head?_eq_none_iff] at noBack
        subst noFront noBack
        exact ⟨_, rfl, rfl, rfl, fun _ => rfl⟩
      next others =>
        obtain ⟨between, unlinked, nextStored, prevStored, limit, ordered, loads⟩ :=
          unlink_spec (fun target hh => { hh with prev := target })
            (fun target hh => { hh with next := target }) (fun _ _ => rfl) (fun _ _ => rfl)
            table.ordered
        have keeps : Keeps Element.outsideOrder elements unlinked :=
          Keeps.of_load loads fun _ _ => by dsimp only; split <;> split <;> rfl
        obtain ⟨notLast, notHead⟩ := table.ordered.neighbours_ne
        have goneUnlinked : unlinked.load gone = some element := by
          simp [loads, loaded, notLast, notHead]
        obtain ⟨bucket, bucketFound⟩ := exists_bucket table.sized table.power element.hh.hashv
        obtain ⟨shrunk, after, deleted, afterLimit, bucketKeeps, held⟩ :=
          (table.holds.frame (keeps.map Element.bucketPart) fun _ => Iff.rfl).delete member
            goneUnlinked (by rw [table.sized]) bucketFound
        have stay : front ++ back ≠ [] := by
          rintro same
          obtain ⟨rfl, rfl⟩ := List.append_eq_nil_iff.mp same
          exact others ⟨rfl, rfl⟩
        obtain ⟨newFirst, isNewFirst⟩ : ∃ newFirst, (front ++ back).head? = some newFirst :=
          ⟨_, List.head?_eq_some_head stay⟩
        have headAfter := (head_without isFirst).trans isNewFirst
        simp only [nextStored, prevStored, headAfter, bucketFound, deleted]
        refine ⟨_, rfl, ⟨isNewFirst, ?_⟩, afterLimit.trans limit, ?_⟩
        · exact
            { power := table.power
              sized := by simp [table.sized]
              tail := by
                rw [← tail_without table.ordered.nodup, ← table.tail]
              numItems := by simp [table.numItems]
              ordered := by
                rw [inOrder_of_keeps bucketKeeps]
                exact ordered
              hashed := hashed_of_keeps ((keeps.map label).trans (bucketKeeps.map label))
                fun address stays => table.hashed address (table.ordered.mem_without.mp stays).1
              holds := held _ fun _ => table.ordered.mem_without }
        · intro address
          exact (bucketKeeps.map Element.content address).trans
            (keeps.map Element.content address)

end Delete

/-! ## Iterating -/

private theorem iterate_spec {elements : Heap (Element β)} {contents : List (Address × Element β)}
    {start : Option Address}
    (chain : elements.Chain (fun element => element.hh.next) start contents) {fuel : Nat}
    (enough : contents.length ≤ fuel) :
    iterate elements fuel start = .ok (contents.map Prod.fst) := by
  induction contents generalizing start fuel with
  | nil =>
      cases chain
      cases fuel <;> rfl
  | cons cell rest inductionHypothesis =>
      obtain ⟨rfl, loaded, remaining⟩ := chain
      cases fuel with
      | zero => simp at enough
      | succ fuel =>
          have visited := inductionHypothesis remaining (Nat.le_of_succ_le_succ enough)
          simp only [iterate, loadElement_of_load loaded, visited, bind, Except.bind,
            List.map_cons]

/-- `HASH_ITER` visits the elements in the order of their insertion. -/
theorem hashIter_spec {hash : Hash β} {order : List Address} (listed : ListedIn hash order) :
    hashIter hash = .ok order := by
  obtain ⟨head, elements⟩ := hash
  cases head with
  | none =>
      cases show order = [] from listed
      unfold hashIter
      cases elements.limit <;> rfl
  | some found =>
      obtain ⟨isFirst, table⟩ := listed
      obtain ⟨contents, addresses, chain⟩ := table.ordered.segment.exists_chain
      have enough : contents.length ≤ elements.limit := chain.length_le_limit
      rw [isFirst] at chain
      rw [← addresses]
      exact iterate_spec chain enough

/-! ## The integrity check -/

section Check

variable {elements : Heap (Element β)} {ends : UTHashHandle → Ends}

private theorem fsckList_spec {before : Option Address} {cells : List Address}
    (segment : Segment (elements.view fun element => ends element.hh) before cells none)
    {fuel : Nat} (enough : cells.length ≤ fuel) :
    fsckList ends elements fuel before cells.head? = .ok (some cells.length) := by
  induction cells generalizing before fuel with
  | nil => cases fuel <;> rfl
  | cons address rest inductionHypothesis =>
      obtain ⟨found, linked⟩ := segment
      obtain ⟨element, loaded, links⟩ := Option.map_eq_some_iff.mp found
      cases fuel with
      | zero => simp at enough
      | succ fuel =>
          have counted := inductionHypothesis linked (Nat.le_of_succ_le_succ enough)
          rw [Option.or_none] at links
          simp only [List.head?_cons, fsckList, loadElement_of_load loaded, links, if_pos, counted,
            bind, Except.bind, Option.map_some, List.length_cons]

/-- The handles in the buckets from one on, counted. -/
private theorem fsckBuckets_spec {buckets : List UTHashBucket} {items : List Address}
    (holds : Buckets elements buckets items) (front rest : List UTHashBucket)
    (split : buckets = front ++ rest) :
    ∃ all : List Address, fsckBuckets elements rest = .ok (some all.length) ∧ all.Nodup ∧
      ∀ address, address ∈ all ↔ address ∈ items ∧
        ∃ index, slot elements buckets.length address = some index ∧ front.length ≤ index ∧
          index < buckets.length := by
  induction rest generalizing front with
  | nil =>
      refine ⟨[], rfl, List.nodup_nil, ?_⟩
      rw [List.append_nil] at split
      subst split
      intro address
      refine iff_of_false List.not_mem_nil ?_
      rintro ⟨_, index, _, above, below⟩
      exact Nat.not_lt_of_le above below
  | cons bucket rest inductionHypothesis =>
      have found : buckets[front.length]? = some bucket := by simp [split]
      obtain ⟨chain, bucketed⟩ := holds.chains found
      obtain ⟨others, counted, nodup, members⟩ :=
        inductionHypothesis (front ++ [bucket]) (by simp [split])
      have checked := fsckList_spec bucketed.doubly.segment bucketed.doubly.length_le_limit
      refine ⟨chain ++ others, ?_, ?_, ?_⟩
      · simp only [fsckBuckets, bucketed.head, checked, bucketed.count, if_pos, counted, bind,
          Except.bind, Option.map_some, List.length_append]
      · rw [List.nodup_append]
        refine ⟨bucketed.doubly.nodup, nodup, ?_⟩
        rintro address inChain other inOthers rfl
        obtain ⟨_, index, atIndex, above, _⟩ := (members address).mp inOthers
        rw [((bucketed.members address).mp inChain).2] at atIndex
        cases atIndex
        rw [List.length_append] at above
        exact Nat.not_succ_le_self _ above
      · have below : front.length < buckets.length := (List.getElem?_eq_some_iff.mp found).1
        intro address
        rw [List.mem_append, bucketed.members, members, ← and_or_left]
        refine and_congr_right fun _ => ?_
        rw [List.length_append, List.length_singleton]
        constructor
        · rintro (atIndex | ⟨index, atIndex, above, inside⟩)
          · exact ⟨front.length, atIndex, Nat.le_refl _, below⟩
          · exact ⟨index, atIndex, Nat.le_of_succ_le above, inside⟩
        · rintro ⟨index, atIndex, above, inside⟩
          rcases Nat.eq_or_lt_of_le above with rfl | later
          · exact Or.inl atIndex
          · exact Or.inr ⟨index, atIndex, later, inside⟩

/-- The integrity check does not object. -/
theorem hashFsck_spec {hash : Hash β} {order : List Address} (listed : ListedIn hash order) :
    hashFsck hash = .ok true := by
  obtain ⟨head, elements⟩ := hash
  cases head with
  | none => rfl
  | some found =>
      obtain ⟨first, tbl⟩ := found
      obtain ⟨isFirst, table⟩ := listed
      obtain ⟨all, counted, nodup, members⟩ := fsckBuckets_spec table.holds [] tbl.buckets rfl
      have complete : ∀ address, address ∈ all ↔ address ∈ order := by
        intro address
        rw [members, and_iff_left_iff_imp]
        intro member
        obtain ⟨element, loaded, _⟩ := table.hashed address member
        refine ⟨hashToBkt element.hh.hashv tbl.buckets.length, by rw [slot, loaded]; rfl,
          Nat.zero_le _, hashToBkt_lt _ ?_⟩
        rw [table.sized]
        exact table.nonempty
      have same := (List.perm_ext_iff_of_nodup nodup table.ordered.nodup).mpr complete
      have inOrder := fsckList_spec table.ordered.segment table.ordered.length_le_limit
      rw [isFirst] at inOrder
      have whole : tbl.buckets.take tbl.numBuckets = tbl.buckets := by
        rw [← table.sized, List.take_length]
      simp only [hashFsck, whole, counted, same.length_eq, table.numItems, if_pos, inOrder, bind,
        Except.bind, decide_true]

end Check

end Torchat.Uthash
