import Torchat.Foundation.DoublyLinked
import Torchat.Daemon.Util

/-!
Contract: the hash table of `uthash.h`.

Owns the handles, buckets and counters of a table and the macros that add, find,
delete and iterate, pointer by pointer, with the hash function and the doubling of
the buckets. `HASH_FSCK` is the integrity check that the header defines for its
developers.

Does not own what is stored: an element is a handle and a value. Counters are
natural numbers, since memory ends long before 2^32 items or buckets.
-/

set_option autoImplicit false

namespace Torchat.Uthash

open Torchat.Foundation
open Torchat.Daemon (Fault)

/-- `UT_hash_handle`. An element and its handle have one address here. `key` are
the `keylen` bytes at the key pointer, which nothing writes to while the element is
in a table. -/
structure UTHashHandle where
  prev : Option Address
  next : Option Address
  hhPrev : Option Address
  hhNext : Option Address
  key : Bytes
  keylen : Nat
  hashv : UInt32
deriving DecidableEq

/-- The handle of an element that `calloc` returned. -/
def UTHashHandle.zero : UTHashHandle where
  prev := none
  next := none
  hhPrev := none
  hhNext := none
  key := []
  keylen := 0
  hashv := 0

structure Element (β : Type) where
  value : β
  hh : UTHashHandle
deriving DecidableEq

/-- `UT_hash_bucket`. -/
structure UTHashBucket where
  hhHead : Option Address
  count : Nat
  expandMult : Nat
deriving DecidableEq

def UTHashBucket.zero : UTHashBucket where
  hhHead := none
  count := 0
  expandMult := 0

/-- `UT_hash_table`. -/
structure UTHashTable where
  buckets : List UTHashBucket
  numBuckets : Nat
  log2NumBuckets : Nat
  numItems : Nat
  tail : Option Address
  idealChainMaxlen : Nat
  nonidealItems : Nat
  ineffExpands : Nat
  noexpand : Bool
deriving DecidableEq

/-- A head pointer that is not NULL, with the table its handle points to. -/
structure Hash (β : Type) where
  head : Option (Address × UTHashTable)
  elements : Heap (Element β)

/-! ## The hash function -/

/-- `HASH_JEN_MIX`. -/
def hashJenMix (a b c : UInt32) : UInt32 × UInt32 × UInt32 :=
  let a := (a - b - c) ^^^ (c >>> 13)
  let b := (b - c - a) ^^^ (a <<< 8)
  let c := (c - a - b) ^^^ (b >>> 13)
  let a := (a - b - c) ^^^ (c >>> 12)
  let b := (b - c - a) ^^^ (a <<< 16)
  let c := (c - a - b) ^^^ (b >>> 5)
  let a := (a - b - c) ^^^ (c >>> 3)
  let b := (b - c - a) ^^^ (a <<< 10)
  let c := (c - a - b) ^^^ (b >>> 15)
  (a, b, c)

/-- A byte of the key, moved to its place; one behind the end adds nothing. -/
def keyByte (key : Bytes) (index : Nat) (shift : UInt32) : UInt32 :=
  (key.getD index 0).toUInt32 <<< shift

/-- Four bytes of the key from `index` on. -/
def keyWord (key : Bytes) (index : Nat) : UInt32 :=
  keyByte key index 0 + keyByte key (index + 1) 8 + keyByte key (index + 2) 16 +
    keyByte key (index + 3) 24

/-- The rounds of `HASH_JEN` over twelve bytes each. -/
def hashJenRounds : Nat → Bytes → UInt32 × UInt32 × UInt32 → UInt32 × UInt32 × UInt32
  | 0, _, state => state
  | rounds + 1, key, (i, j, hashv) =>
      hashJenRounds rounds (key.drop 12)
        (hashJenMix (i + keyWord key 0) (j + keyWord key 4) (hashv + keyWord key 8))

/-- `HASH_JEN`. The cases of the last switch fall through, so each of the bytes left
is added; the lowest byte of `hashv` is kept for the length. -/
def hashJen (key : Bytes) : UInt32 :=
  let rounds := key.length / 12
  let rest := key.drop (12 * rounds)
  let (i, j, hashv) := hashJenRounds rounds key (0x9e3779b9, 0x9e3779b9, 0xfeedbeef)
  let hashv := hashv + UInt32.ofNat key.length
  let hashv := hashv + keyByte rest 10 24 + keyByte rest 9 16 + keyByte rest 8 8
  (hashJenMix (i + keyWord rest 0) (j + keyWord rest 4) hashv).2.2

/-- `HASH_TO_BKT`. -/
def hashToBkt (hashv : UInt32) (numBkts : Nat) : Nat := hashv.toNat &&& (numBkts - 1)

/-! ## Memory -/

section Memory

variable {β : Type}

def loadElement (elements : Heap (Element β)) (address : Address) : Except Fault (Element β) :=
  match elements.load address with
  | some element => .ok element
  | none => .error .danglingPointer

/-- Assignments to an element. -/
def updateElement (elements : Heap (Element β)) (address : Address)
    (change : Element β → Element β) : Except Fault (Heap (Element β)) :=
  match elements.load address with
  | none => .error .danglingPointer
  | some element =>
      match elements.store address (change element) with
      | some elements => .ok elements
      | none => .error .danglingPointer

/-- Assignments to the handle of an element. -/
def updateHandle (elements : Heap (Element β)) (address : Address)
    (change : UTHashHandle → UTHashHandle) : Except Fault (Heap (Element β)) :=
  updateElement elements address fun element => { element with hh := change element.hh }

/-- An assignment through a pointer that is only made where it is not NULL. -/
def updateIfSome (elements : Heap (Element β)) (address : Option Address)
    (change : UTHashHandle → UTHashHandle) : Except Fault (Heap (Element β)) :=
  match address with
  | none => .ok elements
  | some address => updateHandle elements address change

/-! ## Doubling the buckets -/

/-- The links of a handle that becomes the first of a bucket whose first was `hhHead`. -/
def linkHandle (elements : Heap (Element β)) (hhHead : Option Address) (handle : Address) :
    Except Fault (Heap (Element β)) := do
  let elements ← updateHandle elements handle fun hh => { hh with hhNext := hhHead, hhPrev := none }
  updateIfSome elements hhHead fun hh => { hh with hhPrev := some handle }

/-- What the loops of `HASH_EXPAND_BUCKETS` write to. -/
structure Expansion (β : Type) where
  newBuckets : List UTHashBucket
  nonidealItems : Nat
  elements : Heap (Element β)

/-- The zeroed new buckets, twice as many. -/
def Expansion.start (numBuckets : Nat) (elements : Heap (Element β)) : Expansion β where
  newBuckets := List.replicate (2 * numBuckets) UTHashBucket.zero
  nonidealItems := 0
  elements := elements

/-- The body of the inner loop: a handle moves to its new bucket. -/
def moveHandle (numBuckets idealChainMaxlen : Nat) (thh : Address) (hashv : UInt32)
    (expansion : Expansion β) : Except Fault (Expansion β) :=
  let bkt := hashToBkt hashv (numBuckets * 2)
  match expansion.newBuckets[bkt]? with
  | none => .error .outOfBounds
  | some newbkt => do
      let count := newbkt.count + 1
      let nonideal := idealChainMaxlen < count
      let elements ← linkHandle expansion.elements newbkt.hhHead thh
      .ok
        { newBuckets := expansion.newBuckets.set bkt
            { hhHead := some thh
              count := count
              expandMult := if nonideal then count / idealChainMaxlen else newbkt.expandMult }
          nonidealItems :=
            if nonideal then expansion.nonidealItems + 1 else expansion.nonidealItems
          elements := elements }

/-- The inner loop, over the handles of one bucket. It takes one of `fuel` for each. -/
def moveChain (numBuckets idealChainMaxlen : Nat) :
    Nat → Option Address → Expansion β → Except Fault (Expansion β)
  | _, none, expansion => .ok expansion
  | 0, some _, _ => .error .endlessLoop
  | fuel + 1, some thh, expansion => do
      let element ← loadElement expansion.elements thh
      let expansion ← moveHandle numBuckets idealChainMaxlen thh element.hh.hashv expansion
      moveChain numBuckets idealChainMaxlen fuel element.hh.hhNext expansion

/-- The outer loop, over the buckets. -/
def moveBuckets (numBuckets idealChainMaxlen : Nat) :
    List UTHashBucket → Expansion β → Except Fault (Expansion β)
  | [], expansion => .ok expansion
  | bucket :: rest, expansion => do
      let expansion ←
        moveChain numBuckets idealChainMaxlen expansion.elements.limit bucket.hhHead expansion
      moveBuckets numBuckets idealChainMaxlen rest expansion

/-- The items over the doubled number of buckets, rounded up. -/
def UTHashTable.doubledIdeal (tbl : UTHashTable) : Nat :=
  (tbl.numItems >>> (tbl.log2NumBuckets + 1)) +
    (if tbl.numItems &&& (tbl.numBuckets * 2 - 1) ≠ 0 then 1 else 0)

/-- `HASH_EXPAND_BUCKETS`. -/
def hashExpandBuckets (tbl : UTHashTable) (elements : Heap (Element β)) :
    Except Fault (UTHashTable × Heap (Element β)) := do
  let idealChainMaxlen := tbl.doubledIdeal
  let expansion ← moveBuckets tbl.numBuckets idealChainMaxlen tbl.buckets
    (Expansion.start tbl.numBuckets elements)
  let ineffExpands :=
    if tbl.numItems >>> 1 < expansion.nonidealItems then tbl.ineffExpands + 1 else 0
  .ok
    ({ tbl with
        buckets := expansion.newBuckets
        numBuckets := tbl.numBuckets * 2
        log2NumBuckets := tbl.log2NumBuckets + 1
        idealChainMaxlen := idealChainMaxlen
        nonidealItems := expansion.nonidealItems
        ineffExpands := ineffExpands
        noexpand := if 1 < ineffExpands then true else tbl.noexpand },
      expansion.elements)

/-! ## Adding -/

/-- `HASH_MAKE_TABLE`. -/
def hashMakeTable (head : Address) : UTHashTable where
  buckets := List.replicate 32 UTHashBucket.zero
  numBuckets := 32
  log2NumBuckets := 5
  numItems := 0
  tail := some head
  idealChainMaxlen := 0
  nonidealItems := 0
  ineffExpands := 0
  noexpand := false

/-- `HASH_ADD_TO_BKT`. -/
def hashAddToBkt (tbl : UTHashTable) (elements : Heap (Element β)) (bkt : Nat) (add : Address) :
    Except Fault (UTHashTable × Heap (Element β)) :=
  match tbl.buckets[bkt]? with
  | none => .error .outOfBounds
  | some bucket => do
      let elements ← linkHandle elements bucket.hhHead add
      let bucket := { bucket with hhHead := some add, count := bucket.count + 1 }
      let tbl := { tbl with buckets := tbl.buckets.set bkt bucket }
      if (bucket.expandMult + 1) * 10 ≤ bucket.count ∧ tbl.noexpand = false then
        hashExpandBuckets tbl elements
      else .ok (tbl, elements)

/-- `HASH_APPEND_LIST`. -/
def hashAppendList (tbl : UTHashTable) (elements : Heap (Element β)) (add : Address) :
    Except Fault (UTHashTable × Heap (Element β)) :=
  match tbl.tail with
  | none => .error .danglingPointer
  | some tail => do
      let elements ← updateHandle elements add fun hh => { hh with next := none, prev := some tail }
      let elements ← updateHandle elements tail fun hh => { hh with next := some add }
      .ok ({ tbl with tail := some add }, elements)

/-- The branches of `HASH_ADD_KEYPTR`: the element gets a table, or follows the last. -/
def hashLink (head : Option (Address × UTHashTable)) (elements : Heap (Element β))
    (add : Address) : Except Fault (Address × UTHashTable × Heap (Element β)) :=
  match head with
  | none => do
      let elements ← updateHandle elements add fun hh => { hh with next := none, prev := none }
      .ok (add, hashMakeTable add, elements)
  | some (head, tbl) => do
      let (tbl, elements) ← hashAppendList tbl elements add
      .ok (head, tbl, elements)

/-- `HASH_ADD_KEYPTR`. -/
def hashAddKeyptr (hash : Hash β) (key : Bytes) (add : Address) : Except Fault (Hash β) := do
  let elements ← updateHandle hash.elements add fun hh =>
    { hh with hashv := hashJen key, key := key, keylen := key.length }
  let (head, tbl, elements) ← hashLink hash.head elements add
  let tbl := { tbl with numItems := tbl.numItems + 1 }
  let (tbl, elements) ← hashAddToBkt tbl elements (hashToBkt (hashJen key) tbl.numBuckets) add
  .ok { head := some (head, tbl), elements := elements }

/-! ## Finding -/

/-- `HASH_FIND_IN_BKT`. Its loop takes one of `fuel` for each handle. -/
def hashFindInBkt (elements : Heap (Element β)) (key : Bytes) (hashval : UInt32) :
    Nat → Option Address → Except Fault (Option Address)
  | _, none => .ok none
  | 0, some _ => .error .endlessLoop
  | fuel + 1, some out => do
      let element ← loadElement elements out
      if element.hh.hashv = hashval ∧ element.hh.keylen = key.length ∧ element.hh.key = key then
        .ok (some out)
      else hashFindInBkt elements key hashval fuel element.hh.hhNext

/-- `HASH_FIND`. -/
def hashFind (hash : Hash β) (key : Bytes) : Except Fault (Option Address) :=
  match hash.head with
  | none => .ok none
  | some (_, tbl) =>
      match tbl.buckets[hashToBkt (hashJen key) tbl.numBuckets]? with
      | none => .error .outOfBounds
      | some bucket =>
          hashFindInBkt hash.elements key (hashJen key) hash.elements.limit bucket.hhHead

/-! ## Deleting -/

/-- `HASH_DEL_IN_BKT`. -/
def hashDelInBkt (elements : Heap (Element β)) (bucket : UTHashBucket) (del : Address) :
    Except Fault (UTHashBucket × Heap (Element β)) := do
  let element ← loadElement elements del
  let hhHead := if bucket.hhHead = some del then element.hh.hhNext else bucket.hhHead
  let elements ← updateIfSome elements element.hh.hhPrev fun hh =>
    { hh with hhNext := element.hh.hhNext }
  let elements ← updateIfSome elements element.hh.hhNext fun hh =>
    { hh with hhPrev := element.hh.hhPrev }
  .ok ({ bucket with hhHead := hhHead, count := bucket.count - 1 }, elements)

/-- `HASH_DELETE`. The last element takes the table with it. -/
def hashDelete (hash : Hash β) (delptr : Address) : Except Fault (Hash β) := do
  let element ← loadElement hash.elements delptr
  match hash.head with
  | none => .error .nullDereference
  | some (head, tbl) =>
      if element.hh.prev = none ∧ element.hh.next = none then .ok { hash with head := none }
      else do
        let tail := if some delptr = tbl.tail then element.hh.prev else tbl.tail
        let elements ← updateIfSome hash.elements element.hh.prev fun hh =>
          { hh with next := element.hh.next }
        let elements ← updateIfSome elements element.hh.next fun hh =>
          { hh with prev := element.hh.prev }
        let head := if element.hh.prev = none then element.hh.next else some head
        let bkt := hashToBkt element.hh.hashv tbl.numBuckets
        match head, tbl.buckets[bkt]? with
        | some head, some bucket => do
            let (bucket, elements) ← hashDelInBkt elements bucket delptr
            let tbl :=
              { tbl with
                tail := tail
                buckets := tbl.buckets.set bkt bucket
                numItems := tbl.numItems - 1 }
            .ok { head := some (head, tbl), elements := elements }
        | _, _ => .error .outOfBounds

/-! ## Iterating -/

/-- The elements that `HASH_ITER` visits from one on, one of `fuel` for each. -/
def iterate (elements : Heap (Element β)) : Nat → Option Address → Except Fault (List Address)
  | _, none => .ok []
  | 0, some _ => .error .endlessLoop
  | fuel + 1, some el => do
      let element ← loadElement elements el
      let rest ← iterate elements fuel element.hh.next
      .ok (el :: rest)

/-- `HASH_ITER`. -/
def hashIter (hash : Hash β) : Except Fault (List Address) :=
  iterate hash.elements hash.elements.limit (hash.head.map Prod.fst)

/-! ## The integrity check -/

/-- A loop of `HASH_FSCK`: the links back answer the links forward. `none` stands for
`HASH_OOPS`; otherwise the number of handles is found. -/
def fsckList (ends : UTHashHandle → Ends) (elements : Heap (Element β)) :
    Nat → Option Address → Option Address → Except Fault (Option Nat)
  | _, _, none => .ok (some 0)
  | 0, _, some _ => .error .endlessLoop
  | fuel + 1, prev, some thh => do
      let element ← loadElement elements thh
      if prev = (ends element.hh).prev then do
        let count ← fsckList ends elements fuel (some thh) (ends element.hh).next
        .ok (count.map (· + 1))
      else .ok none

/-- The links in the order of insertion. -/
def appEnds (hh : UTHashHandle) : Ends := { prev := hh.prev, next := hh.next }

/-- The links inside a bucket. -/
def bucketEnds (hh : UTHashHandle) : Ends := { prev := hh.hhPrev, next := hh.hhNext }

/-- The loop over the buckets: the handles found in all of them. -/
def fsckBuckets (elements : Heap (Element β)) : List UTHashBucket → Except Fault (Option Nat)
  | [] => .ok (some 0)
  | bucket :: rest => do
      match ← fsckList bucketEnds elements elements.limit none bucket.hhHead with
      | none => .ok none
      | some bktCount =>
          if bucket.count = bktCount then do
            let count ← fsckBuckets elements rest
            .ok (count.map (bktCount + ·))
          else .ok none

/-- `HASH_FSCK`, with `false` for `HASH_OOPS`. -/
def hashFsck (hash : Hash β) : Except Fault Bool :=
  match hash.head with
  | none => .ok true
  | some (head, tbl) => do
      let inBuckets ← fsckBuckets hash.elements (tbl.buckets.take tbl.numBuckets)
      if inBuckets = some tbl.numItems then do
        let inOrder ← fsckList appEnds hash.elements hash.elements.limit none (some head)
        .ok (inOrder = some tbl.numItems)
      else .ok false

end Memory

end Torchat.Uthash
