import Torchat.Daemon.Replies

/-!
Contract: the list of peers as the client reads it.

`get_peer_list` puts a comma between the ids, which the peers choose, and no peers
are answered with an empty text. Owns the block that the list is written to, and when
the ids can be told from it.

Does not own the reply around the list; see `Replies`.
-/

set_option autoImplicit false

namespace Torchat.Daemon

open Torchat.Foundation
open Torchat.Json

/-! ## The block -/

/-- For every table that is not empty and has its ids terminated, `get_peer_list`
stays inside the block that it allocates and leaves the ids in it, in their order,
with single commas between them. -/
theorem getPeerList_joins (store : Store) (ids : List CString) (nonempty : store.head ≠ [])
    (terminated : store.head.map (fun entry => entry.2.id.read) = ids.map some) :
    ∃ list, getPeerList store = .ok (some list) ∧
      list.bytes = (ascii ",").intercalate (ids.map CString.bytes) :=
  ⟨_, getPeerList_of_terminated terminated nonempty,
    CString.ofBytes_eq_of_noNul (zero_notMem_commaList ids)⟩

/-- Two peers, one of them with an empty id. -/
def samplePeers : Store where
  head := ["peer", ""].filterMap fun id =>
    ((CharArray.zeroed 30).overwrite (ascii id)).map fun array =>
      (CString.literal id, { id := array, msg := none })
  messages := Heap.empty

theorem getPeerList_joins_two :
    ∃ list, getPeerList samplePeers = .ok (some list) ∧ list.bytes = ascii "peer," :=
  getPeerList_joins samplePeers [CString.literal "peer", CString.literal ""] (by decide)
    (by decide)

/-! ## What the client reads from it -/

/-- The `msg` field of the reply to GET_PEERS. -/
def peerListMsg (store : Store) : Except Fault CString := do
  let peerList ← getPeerList store
  .ok (peerList.getD CString.empty)

theorem sendPeerListToClient_eq (environment : Environment) (store : Store) (data : DataWrapper) :
    sendPeerListToClient environment store data =
      (do let msg ← peerListMsg store; .ok [environment.answer { data with msg := msg }]) := by
  unfold sendPeerListToClient peerListMsg
  cases getPeerList store <;> rfl

def HasUnread (store : Store) (id : CString) : Prop :=
  ∃ first later, queued store id = some (first :: later)

/-- What the list says when it is split at its commas are the ids of the peers with
unread messages, each once, and an empty text says that there are none. -/
def Unambiguous (store : Store) : Prop :=
  ∃ ids : List CString, ids.Nodup ∧ (∀ id, id ∈ ids ↔ HasUnread store id) ∧
    (∀ list, getPeerList store = .ok (some list) →
      list.bytes.splitOn comma = ids.map CString.bytes) ∧
    (peerListMsg store = .ok CString.empty → ids = [])

/-- No unread message is from an id with a comma in it, and not all of them are from the
empty id. -/
def Separable (store : Store) : Prop :=
  (∀ id, HasUnread store id → comma ∉ id.bytes) ∧
    ((∃ id, HasUnread store id) → ∃ id, HasUnread store id ∧ id ≠ CString.empty)

section Separation

variable {store : Store} {table : UnreadTable}

private theorem hasUnread_iff (refines : Refines store table) (id : CString) :
    HasUnread store id ↔ id ∈ table.keys := by
  rw [HasUnread, refines.queued, table.mem_keys_iff]
  cases table.lookup id <;> simp

private theorem notMem_of_mem_splitOn {separator : Byte} {text part : Bytes}
    (member : part ∈ text.splitOn separator) : separator ∉ part := by
  induction text generalizing part with
  | nil =>
      rw [List.splitOn_nil, List.mem_singleton] at member
      rw [member]
      exact List.not_mem_nil
  | cons byte rest inductionHypothesis =>
      rw [List.splitOn_cons_eq_if_modifyHead] at member
      split at member
      next isSeparator =>
        rcases List.mem_cons.mp member with rfl | later
        · exact List.not_mem_nil
        · exact inductionHypothesis later
      next isOther =>
        obtain ⟨first, others, parts⟩ := List.exists_cons_of_ne_nil (List.splitOn_ne_nil separator rest)
        rw [parts] at member inductionHypothesis
        rw [List.modifyHead_cons] at member
        rcases List.mem_cons.mp member with rfl | later
        · rw [List.mem_cons, not_or]
          refine ⟨fun same => isOther (beq_iff_eq.mpr same.symm), ?_⟩
          exact inductionHypothesis List.mem_cons_self
        · exact inductionHypothesis (List.mem_cons_of_mem _ later)

/-- A list without a byte is the list of the empty id alone. -/
private theorem eq_of_commaList_eq_nil {ids : List CString} (nonempty : ids ≠ [])
    (empty : commaList ids = []) : ids = [CString.empty] := by
  match ids, nonempty, empty with
  | [id], _, empty =>
      rw [commaList_singleton] at empty
      have isEmpty : id = CString.empty := CString.ext empty
      rw [isEmpty]
  | first :: second :: rest, _, empty =>
      rw [commaList_cons_cons] at empty
      simp at empty

private theorem getPeerList_of_keys (refines : Refines store table) (nonempty : table.keys ≠ []) :
    ∃ list, getPeerList store = .ok (some list) ∧ list.bytes = commaList table.keys := by
  refine ⟨_, ?_, CString.ofBytes_eq_of_noNul (zero_notMem_commaList table.keys)⟩
  rw [refines.getPeerList, if_neg nonempty]

private theorem unambiguous_of_separable (refines : Refines store table)
    (separable : Separable store) : Unambiguous store := by
  refine ⟨table.keys, table.nodup, fun id => (hasUnread_iff refines id).symm, ?_, ?_⟩
  · intro list listed
    have nonempty : table.keys ≠ [] := by
      intro none
      rw [refines.getPeerList, if_pos none] at listed
      cases listed
    obtain ⟨same, sameListed, bytes⟩ := getPeerList_of_keys refines nonempty
    rw [listed] at sameListed
    cases sameListed
    rw [bytes]
    apply List.splitOn_intercalate comma
    · intro part member
      obtain ⟨id, inKeys, rfl⟩ := List.mem_map.mp member
      exact separable.1 id ((hasUnread_iff refines id).mpr inKeys)
    · simpa using nonempty
  · intro empty
    by_contra nonempty
    obtain ⟨list, listed, bytes⟩ := getPeerList_of_keys refines nonempty
    have isEmpty : list = CString.empty := by
      rw [peerListMsg, listed] at empty
      exact Except.ok.inj empty
    rw [isEmpty] at bytes
    have alone := eq_of_commaList_eq_nil nonempty bytes.symm
    obtain ⟨id, unread, notEmpty⟩ := separable.2
      ⟨CString.empty, (hasUnread_iff refines _).mpr (by rw [alone]; exact List.mem_cons_self)⟩
    rw [hasUnread_iff refines, alone, List.mem_singleton] at unread
    exact notEmpty unread

private theorem separable_of_unambiguous (refines : Refines store table)
    (unambiguous : Unambiguous store) : Separable store := by
  obtain ⟨ids, nodup, mem, listed, silent⟩ := unambiguous
  constructor
  · intro id unread
    have nonempty : table.keys ≠ [] := List.ne_nil_of_mem ((hasUnread_iff refines id).mp unread)
    obtain ⟨list, isListed, _⟩ := getPeerList_of_keys refines nonempty
    apply @notMem_of_mem_splitOn _ list.bytes
    rw [listed list isListed]
    exact List.mem_map_of_mem ((mem id).mpr unread)
  · rintro ⟨id, unread⟩
    by_contra onlyEmpty
    have isEmpty : ∀ other ∈ table.keys, other = CString.empty := by
      intro other inKeys
      by_contra notEmpty
      exact onlyEmpty ⟨other, (hasUnread_iff refines other).mpr inKeys, notEmpty⟩
    have inKeys := (hasUnread_iff refines id).mp unread
    have alone : table.keys = [CString.empty] := by
      apply List.perm_singleton.mp
      apply (List.perm_ext_iff_of_nodup table.nodup (List.nodup_singleton _)).mpr
      intro other
      rw [List.mem_singleton]
      constructor
      · exact isEmpty other
      · rintro rfl
        rw [isEmpty id inKeys] at inKeys
        exact inKeys
    have empty : peerListMsg store = .ok CString.empty := by
      rw [peerListMsg, refines.getPeerList, alone]
      rfl
    have inIds := (mem id).mpr unread
    rw [silent empty] at inIds
    contradiction

/-- The ids are read from the field, so stores with the same field have the same ids. -/
private theorem hasUnread_congr {other : Store} {otherTable : UnreadTable}
    (refines : Refines store table) (otherRefines : Refines other otherTable)
    (unambiguous : Unambiguous store) (otherUnambiguous : Unambiguous other)
    (same : peerListMsg store = peerListMsg other) (id : CString) :
    HasUnread store id ↔ HasUnread other id := by
  obtain ⟨ids, _, mem, listed, silent⟩ := unambiguous
  obtain ⟨otherIds, _, otherMem, otherListed, otherSilent⟩ := otherUnambiguous
  rw [← mem, ← otherMem]
  by_cases empty : peerListMsg store = .ok CString.empty
  · rw [silent empty, otherSilent (same.symm.trans empty)]
  · have nonempty : table.keys ≠ [] := by
      intro none
      rw [peerListMsg, refines.getPeerList, if_pos none] at empty
      exact empty rfl
    have otherNonempty : otherTable.keys ≠ [] := by
      intro none
      rw [same, peerListMsg, otherRefines.getPeerList, if_pos none] at empty
      exact empty rfl
    obtain ⟨list, isListed, _⟩ := getPeerList_of_keys refines nonempty
    obtain ⟨otherList, otherIsListed, _⟩ := getPeerList_of_keys otherRefines otherNonempty
    rw [peerListMsg, peerListMsg, isListed, otherIsListed] at same
    cases same
    have parts := (listed list isListed).symm.trans (otherListed list otherIsListed)
    rw [List.map_injective_iff.mpr (fun _ _ => CString.ext) parts]

end Separation

/-- Of two stores that commands leave behind, the lists of peers are unambiguous, and
differ where the peers with unread messages do, exactly where no such peer has a comma
in its id and the empty id is not the only one. -/
theorem peerList_unambiguous_iff (first second : Store) (firstReachable : Reachable first)
    (secondReachable : Reachable second) :
    (Unambiguous first ∧ Unambiguous second ∧
        ((∃ id, ¬ (HasUnread first id ↔ HasUnread second id)) →
          peerListMsg first ≠ peerListMsg second)) ↔
      Separable first ∧ Separable second := by
  obtain ⟨firstTable, firstRefines, _⟩ := firstReachable.refines
  obtain ⟨secondTable, secondRefines, _⟩ := secondReachable.refines
  constructor
  · rintro ⟨firstUnambiguous, secondUnambiguous, _⟩
    exact ⟨separable_of_unambiguous firstRefines firstUnambiguous,
      separable_of_unambiguous secondRefines secondUnambiguous⟩
  · rintro ⟨firstSeparable, secondSeparable⟩
    have firstUnambiguous := unambiguous_of_separable firstRefines firstSeparable
    have secondUnambiguous := unambiguous_of_separable secondRefines secondSeparable
    refine ⟨firstUnambiguous, secondUnambiguous, ?_⟩
    rintro ⟨id, different⟩ same
    exact different
      (hasUnread_congr firstRefines secondRefines firstUnambiguous secondUnambiguous same id)

/-- A message of each of these ids has been accepted. -/
def messagesFrom (ids : List String) : List Request :=
  ids.map fun id => sampleRequest (sampleRecv id "hi").data

private theorem messagesFrom_accepted {ids : List String}
    (valid : ∀ id ∈ ids, ValidUtf8 (CString.literal id).bytes ∧ (CString.literal id).length ≤ 29 ∧
      (convertDatastructToChar (sampleRecv id "hi").data).length ≤ 511) :
    ∀ request ∈ messagesFrom ids,
      request.Accepted ∧ request.data.cmd = .recv ∧ request.data.id.length ≤ 29 := by
  intro request member
  obtain ⟨id, inIds, rfl⟩ := List.mem_map.mp member
  obtain ⟨isText, idFits, fits⟩ := valid id inIds
  have msg : ValidUtf8 (CString.literal "hi").bytes := by decide
  have date : ValidUtf8 CString.empty.bytes := by decide
  have validText : ValidText (sampleRecv id "hi").data := ⟨isText, msg, fun _ => date⟩
  exact ⟨⟨fits, decode_encode validText sampleTime⟩, rfl, idFits⟩

/-- Who has unread messages after a run of messages from these ids. -/
private theorem hasUnread_iff_of_run {ids : List String} {keys : List CString} {store : Store}
    {trace : List (Request × List Effect)}
    (ran : run Store.empty (messagesFrom ids) = .ok (store, trace))
    (evaluated : (QueueTable.empty.after (ops (messagesFrom ids))).keys = keys) (id : CString) :
    HasUnread store id ↔ id ∈ keys := by
  rw [hasUnread_iff (refines_of_run ran).1, evaluated]

theorem peerList_unambiguous_iff_alice :
    ∃ first second firstTrace secondTrace,
      run Store.empty (messagesFrom ["alice", ""]) = .ok (first, firstTrace) ∧
      run Store.empty (messagesFrom ["bob"]) = .ok (second, secondTrace) ∧
      Unambiguous first ∧ peerListMsg first ≠ peerListMsg second := by
  obtain ⟨first, firstTrace, firstRan⟩ : ∃ store trace,
      run Store.empty (messagesFrom ["alice", ""]) = .ok (store, trace) := ⟨_, _, rfl⟩
  obtain ⟨second, secondTrace, secondRan⟩ : ∃ store trace,
      run Store.empty (messagesFrom ["bob"]) = .ok (store, trace) := ⟨_, _, rfl⟩
  have firstUnread := @hasUnread_iff_of_run _ [CString.literal "alice", CString.literal ""]
    _ _ firstRan (by decide +kernel)
  have secondUnread := @hasUnread_iff_of_run _ [CString.literal "bob"] _ _ secondRan
    (by decide +kernel)
  have separable : Separable first ∧ Separable second := by
    simp only [Separable, firstUnread, secondUnread]
    exact ⟨⟨by decide +kernel, fun _ => ⟨CString.literal "alice", by decide +kernel⟩⟩,
      by decide +kernel, fun _ => ⟨CString.literal "bob", by decide +kernel⟩⟩
  obtain ⟨unambiguous, _, differ⟩ :=
    (peerList_unambiguous_iff first second ⟨_, _, firstRan⟩ ⟨_, _, secondRan⟩).mpr separable
  refine ⟨first, second, firstTrace, secondTrace, firstRan, secondRan, unambiguous, differ ?_⟩
  refine ⟨CString.literal "bob", ?_⟩
  rw [firstUnread, secondUnread]
  decide +kernel

/-- The list of one peer is that of two others, since its id has a comma between theirs. -/
theorem comma_in_id_is_ambiguous :
    ∃ first second firstTrace secondTrace,
      (∀ request ∈ messagesFrom ["a,b"] ++ messagesFrom ["a", "b"],
        request.Accepted ∧ request.data.cmd = .recv ∧ request.data.id.length ≤ 29) ∧
      run Store.empty (messagesFrom ["a,b"]) = .ok (first, firstTrace) ∧
      run Store.empty (messagesFrom ["a", "b"]) = .ok (second, secondTrace) ∧
      ¬ HasUnread first (CString.literal "a") ∧ HasUnread second (CString.literal "a") ∧
      peerListMsg first = peerListMsg second := by
  obtain ⟨first, firstTrace, firstRan⟩ : ∃ store trace,
      run Store.empty (messagesFrom ["a,b"]) = .ok (store, trace) := ⟨_, _, rfl⟩
  obtain ⟨second, secondTrace, secondRan⟩ : ∃ store trace,
      run Store.empty (messagesFrom ["a", "b"]) = .ok (store, trace) := ⟨_, _, rfl⟩
  have firstKeys : (QueueTable.empty.after (ops (messagesFrom ["a,b"]))).keys =
      [CString.literal "a,b"] := by decide +kernel
  have secondKeys : (QueueTable.empty.after (ops (messagesFrom ["a", "b"]))).keys =
      [CString.literal "a", CString.literal "b"] := by decide +kernel
  refine ⟨first, second, firstTrace, secondTrace, ?_, firstRan, secondRan, ?_, ?_, ?_⟩
  · intro request member
    rcases List.mem_append.mp member with one | two
    · exact messagesFrom_accepted (by decide +kernel) request one
    · exact messagesFrom_accepted (by decide +kernel) request two
  · rw [hasUnread_iff_of_run firstRan firstKeys]
    decide +kernel
  · rw [hasUnread_iff_of_run secondRan secondKeys]
    exact List.mem_cons_self
  · rw [peerListMsg, peerListMsg, (refines_of_run firstRan).1.getPeerList,
      (refines_of_run secondRan).1.getPeerList, firstKeys, secondKeys]
    decide +kernel

end Torchat.Daemon
