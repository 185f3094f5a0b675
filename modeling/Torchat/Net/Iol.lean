import Torchat.Foundation.Heap
import Torchat.Daemon.Util

/-!
Contract: `iol.c`, the lists of buffers that are given to the socket functions.

Owns the check of such a list with the marks it leaves while it runs, the copy of a
list into an array, which lists are accepted, and what a refused list is left with, also
behind any further checks.

Does not own the buffers; what is sent is a list of bytes, what is received to a span of
memory.
-/

set_option autoImplicit false

namespace Torchat.Net

open Torchat.Foundation
open Torchat.Foundation.Heap
open Torchat.Daemon (Fault)

/-- What `iol_base` and `iol_len` stand for. -/
class Buffer (β : Type) where
  len : β → Nat

instance : Buffer Bytes := ⟨List.length⟩

/-- `struct iolist`. -/
structure Iolist (β : Type) where
  iolBase : β
  iolNext : Option Address
  iolRsvd : Int
deriving DecidableEq

variable {β : Type}

def Iolist.iolLen [Buffer β] (iol : Iolist β) : Nat := Buffer.len iol.iolBase

/-! ## Memory -/

def loadIol (iols : Heap (Iolist β)) (address : Address) : Except Fault (Iolist β) :=
  match iols.load address with
  | some iol => .ok iol
  | none => .error .danglingPointer

/-- An assignment to `iol_rsvd`. -/
def setRsvd (iols : Heap (Iolist β)) (address : Address) (rsvd : Int) :
    Except Fault (Heap (Iolist β)) := do
  let iol ← loadIol iols address
  match iols.store address { iol with iolRsvd := rsvd } with
  | some iols => .ok iols
  | none => .error .danglingPointer

/-! ## The check -/

/-- How the first loop of `iol_check` ends: behind the list or, after `goto error`, at a
cell; with `nbf` and `nbt` so far. -/
structure Pass (β : Type) where
  it : Option Address
  nbf : Nat
  nbt : Nat
  iols : Heap (Iolist β)

/-- The first loop. It marks every cell, so that it meets a marked one on a list that
does not end; it takes one of `fuel` for each cell. -/
def markLoop [Buffer β] (last : Address) : Nat → Pass β → Except Fault (Pass β)
  | _, ⟨none, nbf, nbt, iols⟩ => .ok ⟨none, nbf, nbt, iols⟩
  | 0, ⟨some _, _, _, _⟩ => .error .endlessLoop
  | fuel + 1, ⟨some it, nbf, nbt, iols⟩ => do
      let iol ← loadIol iols it
      if iol.iolRsvd ≠ 0 ∨ iol.iolNext = none ∧ it ≠ last then .ok ⟨some it, nbf, nbt, iols⟩
      else do
        let iols ← setRsvd iols it 1
        markLoop last fuel ⟨iol.iolNext, nbf + 1, (nbt + iol.iolLen) % 2 ^ 64, iols⟩

/-- The second loop takes every mark away. -/
def unmarkLoop : Nat → Option Address → Heap (Iolist β) → Except Fault (Heap (Iolist β))
  | _, none, iols => .ok iols
  | 0, some _, _ => .error .endlessLoop
  | fuel + 1, some it, iols => do
      let iols ← setRsvd iols it 0
      let iol ← loadIol iols it
      unmarkLoop fuel iol.iolNext iols

/-- The loop behind `error`. It runs over the cells in front of `it` and writes to `it`. -/
def errorLoop (it : Address) :
    Nat → Option Address → Heap (Iolist β) → Except Fault (Heap (Iolist β))
  | fuel, it2, iols =>
      if it2 = some it then .ok iols
      else
        match it2, fuel with
        | none, _ => .error .nullDereference
        | some _, 0 => .error .endlessLoop
        | some address, fuel + 1 => do
            let iols ← setRsvd iols it 0
            let iol ← loadIol iols address
            errorLoop it fuel iol.iolNext iols

/-- `iol_check`; `none` stands for -1 with `EINVAL`, otherwise there are the number of
buffers and the number of bytes. -/
def iolCheck [Buffer β] (iols : Heap (Iolist β)) (first last : Option Address) :
    Except Fault (Option (Nat × Nat) × Heap (Iolist β)) :=
  match first, last with
  | none, _ | _, none => .ok (none, iols)
  | some first, some last => do
      let tail ← loadIol iols last
      if tail.iolNext ≠ none then .ok (none, iols)
      else do
        let pass ← markLoop last (iols.limit + 1) ⟨some first, 0, 0, iols⟩
        match pass.it with
        | none => do
            let iols ← unmarkLoop (iols.limit + 1) (some first) pass.iols
            .ok (some (pass.nbf, pass.nbt), iols)
        | some it => do
            let iols ← errorLoop it (iols.limit + 1) (some first) pass.iols
            .ok (none, iols)

/-- Several checks, one after another, with what each of them answers. -/
def iolChecks [Buffer β] (iols : Heap (Iolist β)) :
    List (Option Address × Option Address) →
      Except Fault (List (Option (Nat × Nat)) × Heap (Iolist β))
  | [] => .ok ([], iols)
  | (first, last) :: later => do
      let (result, iols) ← iolCheck iols first last
      let (results, iols) ← iolChecks iols later
      .ok (result :: results, iols)

/-- `iol_toiov` into an array of `niov`. -/
def iolToiov (iols : Heap (Iolist β)) : Nat → Option Address → Except Fault (List β)
  | _, none => .ok []
  | 0, some _ => .error .outOfBounds
  | niov + 1, some first => do
      let iol ← loadIol iols first
      let iov ← iolToiov iols niov iol.iolNext
      .ok (iol.iolBase :: iov)

/-! ## Marks -/

/-- The same list with other values of `iol_rsvd`, given by address and former value. -/
structure Overlay (iols after : Heap (Iolist β)) (rsvd : Address → Int → Int) : Prop where
  limit : after.limit = iols.limit
  load : ∀ address, after.load address =
    (iols.load address).map fun iol => { iol with iolRsvd := rsvd address iol.iolRsvd }

/-- The marks of the cells that were passed. -/
def marks (passed : List Address) (address : Address) (old : Int) : Int :=
  if address ∈ passed then 1 else old

section Marks

variable {iols after : Heap (Iolist β)} {rsvd : Address → Int → Int} {address : Address}
  {iol : Iolist β}

theorem Overlay.loadIol (overlay : Overlay iols after rsvd)
    (loaded : iols.load address = some iol) :
    Net.loadIol after address = .ok { iol with iolRsvd := rsvd address iol.iolRsvd } := by
  rw [Net.loadIol, overlay.load, loaded]
  rfl

theorem Overlay.setRsvd (overlay : Overlay iols after rsvd)
    (loaded : iols.load address = some iol) (value : Int) :
    ∃ written, setRsvd after address value = .ok written ∧
      Overlay iols written fun other old => if other = address then value else rsvd other old := by
  have found : after.load address =
      some { iol with iolRsvd := rsvd address iol.iolRsvd } := by
    rw [overlay.load, loaded]
    rfl
  obtain ⟨written, stored, limit, target, others⟩ :=
    store_of_load found { iol with iolRsvd := value }
  refine ⟨written, ?_, limit.trans overlay.limit, ?_⟩
  · simp only [Net.setRsvd, overlay.loadIol loaded, stored, bind, Except.bind]
  · intro other
    by_cases same : other = address
    · rw [same, target, loaded]
      simp
    · rw [others other same, overlay.load]
      simp [same]

theorem overlay_refl : Overlay iols iols (marks []) where
  limit := rfl
  load address := by
    cases iols.load address <;> rfl

theorem Overlay.isSome (overlay : Overlay iols after rsvd) (address : Address) :
    (after.load address).isSome = (iols.load address).isSome := by
  rw [overlay.load, Option.isSome_map]

/-- No mark is part of a link. -/
theorem Overlay.links (overlay : Overlay iols after rsvd) (address : Address) :
    (after.load address).map Iolist.iolNext = (iols.load address).map Iolist.iolNext := by
  rw [overlay.load, Option.map_map]
  rfl

/-- The first loop marks one cell more. -/
private theorem Overlay.mark {passed : List Address} (overlay : Overlay iols after (marks passed))
    (loaded : iols.load address = some iol) :
    ∃ written, Net.setRsvd after address 1 = .ok written ∧
      Overlay iols written (marks (passed ++ [address])) := by
  obtain ⟨written, set, overlaid⟩ := overlay.setRsvd loaded 1
  have same : (fun other old => if other = address then 1 else marks passed other old) =
      marks (passed ++ [address]) := by
    funext other old
    by_cases isTarget : other = address <;> simp [marks, isTarget]
  rw [same] at overlaid
  exact ⟨written, set, overlaid⟩

/-- The cell at an address passes the test of the first loop. -/
def Passes (iols : Heap (Iolist β)) (last address : Address) : Prop :=
  ∃ iol, iols.load address = some iol ∧ iol.iolRsvd = 0 ∧ (iol.iolNext = none → address = last)

/-- It does not, behind the cells in `passed`. -/
def Refused (iols : Heap (Iolist β)) (last : Address) (passed : List Address) (it : Address) :
    Prop :=
  ∃ iol, iols.load it = some iol ∧
    (it ∈ passed ∨ iol.iolRsvd ≠ 0 ∨ iol.iolNext = none ∧ it ≠ last)

/-- The test of the first loop, on the mark that it reads. -/
private theorem stops_iff {last : Address} {passed : List Address}
    (loaded : iols.load address = some iol) :
    marks passed address iol.iolRsvd ≠ 0 ∨ iol.iolNext = none ∧ address ≠ last ↔
      Refused iols last passed address := by
  simp only [Refused, loaded, Option.some.injEq, exists_eq_left', marks]
  by_cases member : address ∈ passed <;> simp [member]

private theorem passes_of_not_refused {last : Address} {passed : List Address}
    (loaded : iols.load address = some iol) (notRefused : ¬ Refused iols last passed address) :
    address ∉ passed ∧ Passes iols last address := by
  refine ⟨fun member => notRefused ⟨iol, loaded, Or.inl member⟩, iol, loaded, ?_, fun ends => ?_⟩
  · by_contra marked
    exact notRefused ⟨iol, loaded, Or.inr (Or.inl marked)⟩
  · by_contra elsewhere
    exact notRefused ⟨iol, loaded, Or.inr (Or.inr ⟨ends, elsewhere⟩)⟩

/-- Every pointer to a cell leads to one. -/
def Valid (iols : Heap (Iolist β)) : Prop :=
  ∀ address iol next, iols.load address = some iol → iol.iolNext = some next →
    (iols.load next).isSome

theorem Overlay.valid (overlay : Overlay iols after rsvd) (valid : Valid iols) :
    Valid after := by
  intro address iol next loaded isNext
  have links := overlay.links address
  rw [loaded, Option.map_some] at links
  obtain ⟨found, foundLoaded, link⟩ := Option.map_eq_some_iff.mp links.symm
  rw [overlay.isSome]
  exact valid address found next foundLoaded (link.trans isNext)

/-- The pointers that a check is given, where they are not NULL, lead to cells. -/
def Allocated (iols : Heap (Iolist β)) (check : Option Address × Option Address) : Prop :=
  ∀ address, check.1 = some address ∨ check.2 = some address → (iols.load address).isSome

theorem Overlay.allocated (overlay : Overlay iols after rsvd)
    {check : Option Address × Option Address} (allocated : Allocated iols check) :
    Allocated after check := by
  intro address given
  rw [overlay.isSome]
  exact allocated address given

theorem Overlay.apart (overlay : Overlay iols after rsvd) {start : Option Address}
    (apart : ¬ Reaches Iolist.iolNext iols start address) :
    ¬ Reaches Iolist.iolNext after start address :=
  fun reaches => apart (reaches.frame fun other => (overlay.links other).symm)

/-- The cell at an address carries a mark. -/
def Marked (iols : Heap (Iolist β)) (address : Address) : Prop :=
  ∃ iol, iols.load address = some iol ∧ iol.iolRsvd = 1

theorem Overlay.marked (overlay : Overlay iols after rsvd)
    (loaded : iols.load address = some iol) (isMark : rsvd address iol.iolRsvd = 1) :
    Marked after address := by
  refine ⟨{ iol with iolRsvd := rsvd address iol.iolRsvd }, ?_, isMark⟩
  rw [overlay.load, loaded]
  rfl

def pathBytes [Buffer β] (iols : Heap (Iolist β)) (path : List Address) : Nat :=
  (path.map fun address => ((iols.load address).map Iolist.iolLen).getD 0).sum

/-- What the first loop has done when it has gone on from `pass`, behind the cells in
`passed`, over those in `path`. -/
structure Walked [Buffer β] (iols : Heap (Iolist β)) (last : Address)
    (passed path : List Address) (pass out : Pass β) : Prop where
  linked : Path Iolist.iolNext iols pass.it path out.it
  nodup : (passed ++ path).Nodup
  passes : ∀ address ∈ path, Passes iols last address
  overlay : Overlay iols out.iols (marks (passed ++ path))
  nbf : out.nbf = pass.nbf + path.length
  nbt : out.nbt % 2 ^ 64 = (pass.nbt + pathBytes iols path) % 2 ^ 64
  small : pass.nbt < 2 ^ 64 → out.nbt < 2 ^ 64
  refused : ∀ it, out.it = some it → Refused iols last (passed ++ path) it

section Walks

variable [Buffer β] {iols : Heap (Iolist β)} {last : Address} {passed path : List Address}
  {pass out : Pass β}

private theorem walked_nil (overlay : Overlay iols pass.iols (marks passed))
    (nodup : passed.Nodup) (refused : ∀ it, pass.it = some it → Refused iols last passed it) :
    Walked iols last passed [] pass pass where
  linked := rfl
  nodup := by rwa [List.append_nil]
  passes := by simp
  overlay := by rwa [List.append_nil]
  nbf := rfl
  nbt := rfl
  small := id
  refused := by rwa [List.append_nil]

/-- One cell more in front. -/
private theorem Walked.cons {it : Address} {iol : Iolist β} {written : Heap (Iolist β)}
    (walked : Walked iols last (passed ++ [it]) path
      ⟨iol.iolNext, pass.nbf + 1, (pass.nbt + iol.iolLen) % 2 ^ 64, written⟩ out)
    (start : pass.it = some it) (loaded : iols.load it = some iol)
    (passes : Passes iols last it) : Walked iols last passed (it :: path) pass out := by
  have split : passed ++ it :: path = passed ++ [it] ++ path := by simp
  refine ⟨⟨start, iol, loaded, walked.linked⟩, ?_, ?_, ?_, ?_, ?_, ?_, ?_⟩
  · rw [split]
    exact walked.nodup
  · intro address member
    rcases List.mem_cons.mp member with rfl | inPath
    · exact passes
    · exact walked.passes address inPath
  · rw [split]
    exact walked.overlay
  · have count := walked.nbf
    simp only at count
    rw [count, List.length_cons]
    omega
  · rw [walked.nbt, pathBytes, pathBytes, List.map_cons, List.sum_cons, loaded]
    simp only [Option.map_some, Option.getD_some]
    omega
  · exact fun _ => walked.small (Nat.mod_lt _ (by decide))
  · rw [split]
    exact walked.refused

end Walks

/-- The first loop ends on every list, because no cell is marked twice. -/
theorem markLoop_spec [Buffer β] (valid : Valid iols) (last : Address)
    {passed : List Address} {fuel : Nat} {pass : Pass β}
    (overlay : Overlay iols pass.iols (marks passed)) (nodup : passed.Nodup)
    (inside : ∀ address ∈ passed, address < iols.limit)
    (enough : iols.limit < fuel + passed.length)
    (starts : ∀ it, pass.it = some it → (iols.load it).isSome) :
    ∃ path out, markLoop last fuel pass = .ok out ∧ Walked iols last passed path pass out := by
  induction fuel generalizing passed pass with
  | zero =>
      have bound : passed.length ≤ iols.limit := by
        have subset : passed ⊆ List.range iols.limit :=
          fun address member => List.mem_range.mpr (inside address member)
        simpa using (nodup.subperm subset).length_le
      rw [Nat.zero_add] at enough
      exact absurd enough (Nat.not_lt_of_le bound)
  | succ fuel inductionHypothesis =>
      obtain ⟨start, nbf, nbt, marked⟩ := pass
      cases start with
      | none => exact ⟨[], _, rfl, walked_nil overlay nodup fun it found => nomatch found⟩
      | some it =>
          obtain ⟨iol, loaded⟩ := Option.isSome_iff_exists.mp (starts it rfl)
          have current := overlay.loadIol loaded
          by_cases refused : Refused iols last passed it
          · have stops := (stops_iff loaded).mpr refused
            refine ⟨[], _, ?_, walked_nil overlay nodup fun other found => ?_⟩
            · simp only [markLoop, current, if_pos stops, bind, Except.bind]
            · cases found
              exact refused
          · have goesOn := mt (stops_iff loaded).mp refused
            obtain ⟨fresh, passes⟩ := passes_of_not_refused loaded refused
            obtain ⟨written, set, overlayNext⟩ := overlay.mark loaded
            have nodupNext : (passed ++ [it]).Nodup := by
              rw [← List.concat_eq_append]
              exact nodup.concat fresh
            have insideNext : ∀ address ∈ passed ++ [it], address < iols.limit := by
              intro address member
              rcases List.mem_append.mp member with old | new
              · exact inside address old
              · rw [List.mem_singleton.mp new]
                exact lt_limit_of_load loaded
            have enoughNext : iols.limit < fuel + (passed ++ [it]).length := by
              rw [List.length_append, List.length_singleton, ← Nat.add_assoc,
                Nat.add_right_comm]
              exact enough
            let next : Pass β := ⟨iol.iolNext, nbf + 1, (nbt + iol.iolLen) % 2 ^ 64, written⟩
            have overlayNext : Overlay iols next.iols (marks (passed ++ [it])) := overlayNext
            obtain ⟨path, out, looped, walked⟩ := inductionHypothesis overlayNext
              nodupNext insideNext enoughNext fun behind isNext => valid it iol behind loaded isNext
            refine ⟨it :: path, out, ?_, walked.cons rfl loaded passes⟩
            simp only [markLoop, current, if_neg goesOn, set, Iolist.iolLen, bind, Except.bind]
            exact looped

/-- The second loop over a list. -/
private theorem unmarkLoop_spec {start : Option Address} {path : List Address}
    (linked : Path Iolist.iolNext iols start path none) (overlay : Overlay iols after rsvd)
    {fuel : Nat} (enough : path.length ≤ fuel) :
    ∃ cleared, unmarkLoop fuel start after = .ok cleared ∧
      Overlay iols cleared fun address old => if address ∈ path then 0 else rsvd address old := by
  induction path generalizing start after rsvd fuel with
  | nil =>
      cases linked
      refine ⟨after, by cases fuel <;> rfl, ?_⟩
      simpa using overlay
  | cons address rest inductionHypothesis =>
      obtain ⟨rfl, iol, loaded, remaining⟩ := linked
      obtain ⟨fuel, rfl⟩ := Nat.exists_eq_succ_of_ne_zero
        (Nat.ne_of_gt (Nat.lt_of_lt_of_le (Nat.succ_pos _) enough))
      obtain ⟨written, set, overlaid⟩ := overlay.setRsvd loaded 0
      obtain ⟨cleared, looped, last⟩ :=
        inductionHypothesis remaining overlaid (Nat.le_of_succ_le_succ enough)
      refine ⟨cleared, ?_, ?_⟩
      · simp only [unmarkLoop, set, overlaid.loadIol loaded, bind, Except.bind]
        exact looped
      · have same : (fun other old => if other ∈ rest then 0
            else if other = address then 0 else rsvd other old) =
            fun other old => if other ∈ address :: rest then 0 else rsvd other old := by
          funext other old
          by_cases isAddress : other = address <;> by_cases inRest : other ∈ rest <;>
            simp [isAddress, inRest]
        rwa [same] at last

/-- The loop behind `error` writes to the refused cell alone, and not at all where that
is the first. -/
private theorem errorLoop_spec {it : Address} (allocated : (iols.load it).isSome)
    {start : Option Address} {path : List Address}
    (linked : Path Iolist.iolNext iols start path (some it)) (overlay : Overlay iols after rsvd)
    {fuel : Nat} (enough : path.length ≤ fuel) :
    ∃ left kept, errorLoop it fuel start after = .ok left ∧ Overlay iols left kept ∧
      (∀ address, address ≠ it → kept address = rsvd address) ∧
      (start = some it → kept = rsvd) := by
  induction path generalizing start after rsvd fuel with
  | nil =>
      cases linked
      exact ⟨after, rsvd, by unfold errorLoop; simp, overlay, fun _ _ => rfl, fun _ => rfl⟩
  | cons address rest inductionHypothesis =>
      obtain ⟨rfl, iol, loaded, remaining⟩ := linked
      by_cases isIt : address = it
      · subst isIt
        exact ⟨after, rsvd, by unfold errorLoop; simp, overlay, fun _ _ => rfl, fun _ => rfl⟩
      · obtain ⟨refused, refusedLoaded⟩ := Option.isSome_iff_exists.mp allocated
        obtain ⟨fuel, rfl⟩ := Nat.exists_eq_succ_of_ne_zero
          (Nat.ne_of_gt (Nat.lt_of_lt_of_le (Nat.succ_pos _) enough))
        obtain ⟨written, set, overlaid⟩ := overlay.setRsvd refusedLoaded 0
        obtain ⟨left, kept, looped, last, others, _⟩ :=
          inductionHypothesis remaining overlaid (Nat.le_of_succ_le_succ enough)
        refine ⟨left, kept, ?_, last, ?_, ?_⟩
        · unfold errorLoop
          simp only [Option.some.injEq, isIt, if_false, set, overlaid.loadIol loaded, bind,
            Except.bind]
          exact looped
        · intro other different
          rw [others other different]
          funext old
          exact if_neg different
        · rintro ⟨⟩
          exact absurd rfl isIt

end Marks

/-! ## Which lists are accepted -/

/-- From `first` to `last` there is a list that ends, and none of its cells is marked. -/
structure Listed (iols : Heap (Iolist β)) (first last : Address)
    (cells : List (Address × Iolist β)) : Prop where
  chain : Chain Iolist.iolNext iols (some first) cells
  last : (cells.map Prod.fst).getLast? = some last
  unmarked : ∀ cell ∈ cells, cell.2.iolRsvd = 0

section Accepted

variable {iols after : Heap (Iolist β)} {first last : Address} {cells : List (Address × Iolist β)}
variable {path : List Address} {out : Pass β}

theorem Listed.split (listed : Listed iols first last cells) :
    ∃ front tail, cells = front ++ [(last, tail)] ∧ tail.iolNext = none := by
  obtain ⟨front, ⟨address, tail⟩, rfl⟩ : ∃ front cell, cells = front ++ [cell] := by
    rcases List.eq_nil_or_concat cells with empty | ⟨front, cell, same⟩
    · have none_ := listed.last
      rw [empty] at none_
      contradiction
    · exact ⟨front, cell, by rw [same, List.concat_eq_append]⟩
  have isLast := listed.last
  rw [List.map_append, List.map_singleton, List.getLast?_concat] at isLast
  cases isLast
  exact ⟨front, tail, rfl, listed.chain.suffix.2.2⟩

private theorem Overlay.load_eq {rsvd : Address → Int → Int} (overlay : Overlay iols after rsvd)
    (same : ∀ address iol, iols.load address = some iol →
      rsvd address iol.iolRsvd = iol.iolRsvd) (address : Address) :
    after.load address = iols.load address := by
  rw [overlay.load]
  cases loaded : iols.load address with
  | none => rfl
  | some iol => rw [Option.map_some, same address iol loaded]

theorem iolToiov_spec {start : Option Address}
    {cells : List (Address × Iolist β)} (chain : Chain Iolist.iolNext iols start cells) :
    iolToiov iols cells.length start = .ok (cells.map fun cell => cell.2.iolBase) := by
  induction cells generalizing start with
  | nil =>
      cases chain
      rfl
  | cons cell rest inductionHypothesis =>
      obtain ⟨rfl, loaded, remaining⟩ := chain
      have copied := inductionHypothesis remaining
      simp only [List.length_cons, iolToiov, loadIol, loaded, copied, bind, Except.bind]
      rfl

variable [Buffer β]

private theorem pathBytes_chain {start : Option Address}
    (chain : Chain Iolist.iolNext iols start cells) :
    pathBytes iols (cells.map Prod.fst) = (cells.map fun cell => cell.2.iolLen).sum := by
  unfold pathBytes
  rw [List.map_map]
  refine congrArg List.sum (List.map_congr_left fun cell member => ?_)
  simp [chain.load_of_mem member]

/-- Where the first loop gets behind the list, the list is one to accept. -/
private theorem listed_of_walked
    (walked : Walked iols last [] path ⟨some first, 0, 0, iols⟩ out) (ended : out.it = none) :
    ∃ cells, Listed iols first last cells ∧ cells.map Prod.fst = path ∧
      out.nbf = cells.length ∧ out.nbt = (cells.map fun cell => cell.2.iolLen).sum % 2 ^ 64 := by
  have linked := walked.linked
  rw [ended] at linked
  obtain ⟨cells, chain, rfl⟩ := linked.exists_chain
  have passed : ∀ cell ∈ cells, cell.2.iolRsvd = 0 ∧ (cell.2.iolNext = none → cell.1 = last) := by
    intro cell member
    obtain ⟨iol, loaded, unmarked, isLast⟩ :=
      walked.passes cell.1 (List.mem_map_of_mem member)
    cases loaded.symm.trans (chain.load_of_mem member)
    exact ⟨unmarked, isLast⟩
  refine ⟨cells, ⟨chain, ?_, fun cell member => (passed cell member).1⟩, rfl, ?_, ?_⟩
  · rcases List.eq_nil_or_concat cells with empty | ⟨front, ⟨address, tail⟩, same⟩
    · rw [empty] at chain
      contradiction
    · rw [List.concat_eq_append] at same
      rw [same] at chain
      have isLast := (passed (address, tail) (by simp [same])).2 chain.suffix.2.2
      simp only at isLast
      rw [same, List.map_append, List.map_singleton, List.getLast?_concat, isLast]
  · have count := walked.nbf
    simpa using count
  · have total := walked.nbt
    rw [Nat.mod_eq_of_lt (walked.small (Nat.two_pow_pos 64)), pathBytes_chain chain] at total
    simpa using total

/-- Where it is refused at a cell, there is none. -/
private theorem not_listed_of_refused
    (walked : Walked iols last [] path ⟨some first, 0, 0, iols⟩ out) {it : Address}
    (stopped : out.it = some it) : ¬ Listed iols first last cells := by
  intro listed
  have linked := walked.linked
  rw [stopped] at linked
  obtain ⟨front, iol, back, rfl, addresses⟩ := linked.prefix_of_chain listed.chain
  obtain ⟨found, loaded, refused⟩ := walked.refused it stopped
  have here : iols.load it = some iol :=
    listed.chain.load_of_mem (List.mem_append_right front List.mem_cons_self)
  cases loaded.symm.trans here
  rcases refused with twice | marked | ⟨ends, notLast⟩
  · have nodup := listed.chain.nodup
    rw [List.map_append, List.map_cons, addresses] at nodup
    exact (List.nodup_append.mp nodup).2.2 it twice it List.mem_cons_self rfl
  · exact marked (listed.unmarked (it, iol) (by simp))
  · have behind := listed.chain.suffix.2.2
    rw [ends] at behind
    cases back with
    | cons other others => exact absurd behind.1 (by simp)
    | nil =>
        have isLast := listed.last
        rw [List.map_append, List.map_singleton, List.getLast?_concat] at isLast
        exact notLast (Option.some.inj isLast)

/-- The first loop, as the check calls it. -/
private theorem markLoop_first (valid : Valid iols) (last : Address)
    (firstValid : (iols.load first).isSome) :
    ∃ path out, markLoop last (iols.limit + 1) ⟨some first, 0, 0, iols⟩ = .ok out ∧
      Walked iols last [] path ⟨some first, 0, 0, iols⟩ out ∧ path.length ≤ iols.limit + 1 := by
  let pass : Pass β := ⟨some first, 0, 0, iols⟩
  have overlay : Overlay iols pass.iols (marks []) := overlay_refl
  have starts : ∀ it, pass.it = some it → (iols.load it).isSome := by
    rintro it ⟨⟩
    exact firstValid
  obtain ⟨path, out, looped, walked⟩ := markLoop_spec valid last overlay List.nodup_nil
    (by simp) (Nat.lt_succ_self iols.limit) starts
  refine ⟨path, out, looped, walked, ?_⟩
  have inside : path ⊆ List.range iols.limit := by
    intro address member
    obtain ⟨iol, loaded, _⟩ := walked.passes address member
    exact List.mem_range.mpr (lt_limit_of_load loaded)
  have bound := (walked.nodup.subperm inside).length_le
  rw [List.length_range] at bound
  exact Nat.le_succ_of_le bound

/-- What a check of two cells does: it refuses where `last` has a successor; the first loop
gets behind the list, and all marks are taken away; or it stops at a cell, and at most the
mark of that cell is, not even that where it is the first. -/
private theorem iolCheck_cases (valid : Valid iols) (firstValid : (iols.load first).isSome)
    {tail : Iolist β} (tailLoaded : iols.load last = some tail) :
    (tail.iolNext ≠ none ∧ iolCheck iols (some first) (some last) = .ok (none, iols)) ∨
      (tail.iolNext = none ∧ ∃ path out after rsvd,
        Walked iols last [] path ⟨some first, 0, 0, iols⟩ out ∧ Overlay iols after rsvd ∧
        ((out.it = none ∧
            iolCheck iols (some first) (some last) = .ok (some (out.nbf, out.nbt), after) ∧
            ∀ address old, rsvd address old = if address ∈ path then 0 else old) ∨
          ∃ it, out.it = some it ∧ iolCheck iols (some first) (some last) = .ok (none, after) ∧
            (∀ address, address ≠ it → rsvd address = marks path address) ∧
            (first = it → rsvd = marks path))) := by
  have loadedTail : loadIol iols last = .ok tail := by rw [loadIol, tailLoaded]
  by_cases open_ : tail.iolNext ≠ none
  · exact Or.inl
      ⟨open_, by simp only [iolCheck, loadedTail, if_pos open_, bind, Except.bind]⟩
  · obtain ⟨path, out, looped, walked, short⟩ := markLoop_first valid last firstValid
    have linked := walked.linked
    refine Or.inr ⟨not_not.mp open_, path, out, ?_⟩
    cases stopped : out.it with
    | none =>
        rw [stopped] at linked
        obtain ⟨cleared, unmarked, overlay⟩ := unmarkLoop_spec linked walked.overlay short
        simp only at unmarked
        refine ⟨cleared, _, walked, overlay, Or.inl ⟨rfl, ?_, fun address old => ?_⟩⟩
        · simp only [iolCheck, loadedTail, if_neg open_, looped, stopped, unmarked, bind,
            Except.bind]
        · by_cases inPath : address ∈ path <;> simp [marks, inPath]
    | some it =>
        obtain ⟨refused, refusedLoaded, _⟩ := walked.refused it stopped
        rw [stopped] at linked
        obtain ⟨left, kept, ranBack, overlay, others, same⟩ := errorLoop_spec
          (Option.isSome_iff_exists.mpr ⟨refused, refusedLoaded⟩) linked walked.overlay short
        simp only at ranBack
        refine ⟨left, kept, walked, overlay, Or.inr ⟨it, rfl, ?_, others, fun isFirst => ?_⟩⟩
        · simp only [iolCheck, loadedTail, if_neg open_, looped, stopped, ranBack, bind,
            Except.bind]
        · exact same (congrArg some isFirst)

/-- A list that is one to accept is accepted. -/
theorem iolCheck_of_listed (valid : Valid iols) (listed : Listed iols first last cells) :
    ∃ after, iolCheck iols (some first) (some last) =
        .ok (some (cells.length, (cells.map fun cell => cell.2.iolLen).sum % 2 ^ 64), after) ∧
      ∀ address, after.load address = iols.load address := by
  obtain ⟨front, tail, split, ends⟩ := listed.split
  have tailLoaded : iols.load last = some tail :=
    listed.chain.load_of_mem (by rw [split]; exact List.mem_append_right front List.mem_cons_self)
  have firstValid : (iols.load first).isSome := by
    cases cells with
    | nil => exact absurd listed.chain (by simp [Chain])
    | cons cell rest =>
        cases listed.chain.1
        rw [listed.chain.2.1]
        rfl
  rcases iolCheck_cases valid firstValid tailLoaded with
    ⟨open_, _⟩ | ⟨_, path, out, after, rsvd, walked, overlay, ⟨stopped, checked, cleared⟩ |
      ⟨it, stopped, _⟩⟩
  · exact absurd ends open_
  · obtain ⟨found, foundListed, addresses, nbf, nbt⟩ := listed_of_walked walked stopped
    cases listed.chain.unique foundListed.chain
    rw [nbf, nbt] at checked
    refine ⟨after, checked, overlay.load_eq fun address iol loaded => ?_⟩
    rw [cleared]
    by_cases inPath : address ∈ path
    · obtain ⟨found, foundLoaded, zero, _⟩ := walked.passes address inPath
      cases loaded.symm.trans foundLoaded
      rw [if_pos inPath, zero]
    · rw [if_neg inPath]
  · exact absurd listed (not_listed_of_refused walked stopped)

private theorem iolCheck_of_not_listed (valid : Valid iols) (firstValid : (iols.load first).isSome)
    (lastValid : (iols.load last).isSome) (none_ : ∀ cells, ¬ Listed iols first last cells) :
    ∃ after, iolCheck iols (some first) (some last) = .ok (none, after) := by
  obtain ⟨tail, tailLoaded⟩ := Option.isSome_iff_exists.mp lastValid
  rcases iolCheck_cases valid firstValid tailLoaded with
    ⟨_, checked⟩ | ⟨_, path, out, after, rsvd, walked, _, ⟨stopped, _⟩ | ⟨it, _, checked, _⟩⟩
  · exact ⟨iols, checked⟩
  · obtain ⟨cells, listed, _⟩ := listed_of_walked walked stopped
    exact absurd listed (none_ cells)
  · exact ⟨after, checked⟩

/-- The check ends on every list, also on one that runs into itself. It accepts exactly a
list from `first` to `last` of unmarked cells, counts its buffers and their bytes, and
leaves it as it was. -/
theorem iolCheck_accepts_iff (iols : Heap (Iolist β)) (valid : Valid iols) (first last : Address)
    (firstValid : (iols.load first).isSome) (lastValid : (iols.load last).isSome) :
    ∃ result after, iolCheck iols (some first) (some last) = .ok (result, after) ∧
      (result.isSome ↔ ∃ cells, Listed iols first last cells) ∧
      ∀ cells, Listed iols first last cells →
        result = some (cells.length, (cells.map fun cell => cell.2.iolLen).sum % 2 ^ 64) ∧
        ∀ address, after.load address = iols.load address := by
  by_cases exists_ : ∃ cells, Listed iols first last cells
  · obtain ⟨cells, listed⟩ := exists_
    obtain ⟨after, accepted, same⟩ := iolCheck_of_listed valid listed
    refine ⟨_, after, accepted, iff_of_true rfl ⟨cells, listed⟩, fun others listedOthers => ?_⟩
    cases listed.chain.unique listedOthers.chain
    exact ⟨rfl, same⟩
  · obtain ⟨after, refused⟩ := iolCheck_of_not_listed valid firstValid lastValid
      fun cells listed => exists_ ⟨cells, listed⟩
    refine ⟨none, after, refused, by simp [exists_], fun cells listed => ?_⟩
    exact absurd ⟨cells, listed⟩ exists_

/-- A list of two buffers, and a third buffer alone. -/
def sampleIols : Heap (Iolist Bytes) :=
  (((Heap.empty.alloc ⟨ascii "0005", some 1, 0⟩).2.alloc ⟨ascii "hello", none, 0⟩).2.alloc
    ⟨ascii "x", none, 0⟩).2

theorem sampleIols_valid : Valid sampleIols := by
  intro address iol next loaded isNext
  have below : address < 3 := lt_limit_of_load loaded
  rcases address with _ | _ | _ | address
  · cases loaded
    cases isNext
    rfl
  · cases loaded
    cases isNext
  · cases loaded
    cases isNext
  · exact absurd below (Nat.not_lt_of_le (Nat.le_add_left 3 address))

theorem iolCheck_accepts_iff_hello :
    ∃ after, iolCheck sampleIols (some 0) (some 1) = .ok (some (2, 9), after) := by
  obtain ⟨result, after, checked, _, accepted⟩ :=
    iolCheck_accepts_iff sampleIols sampleIols_valid 0 1 rfl rfl
  have listed : Listed sampleIols 0 1
      [(0, ⟨ascii "0005", some 1, 0⟩), (1, ⟨ascii "hello", none, 0⟩)] :=
    ⟨⟨rfl, rfl, rfl, rfl, rfl⟩, rfl, by simp⟩
  rw [(accepted _ listed).1] at checked
  exact ⟨after, checked⟩

/-- A list is refused behind its first cell, where the first cell may be passed. -/
private theorem first_marked
    (walked : Walked iols last [] path ⟨some first, 0, 0, iols⟩ out) {it : Address}
    (stopped : out.it = some it) {head : Iolist β} (loaded : iols.load first = some head)
    (unmarked : head.iolRsvd = 0) (isLast : head.iolNext = none → first = last) :
    first ∈ path := by
  have linked := walked.linked
  rw [stopped] at linked
  cases path with
  | cons address rest =>
      cases linked.1
      exact List.mem_cons_self
  | nil =>
      cases linked
      obtain ⟨found, foundLoaded, atStop⟩ := walked.refused first stopped
      cases foundLoaded.symm.trans loaded
      rcases atStop with inside | used | ⟨alone, elsewhere⟩
      · simp at inside
      · exact absurd unmarked used
      · exact absurd (isLast alone) elsewhere

/-! ## Marks that stay -/

/-- Every check answers, and changes no mark but those of the cells its list comes by. -/
private theorem iolCheck_frame (valid : Valid iols) {check : Option Address × Option Address}
    (allocated : Allocated iols check) :
    ∃ result after rsvd, iolCheck iols check.1 check.2 = .ok (result, after) ∧
      Overlay iols after rsvd ∧
      ∀ address, ¬ Reaches Iolist.iolNext iols check.1 address → ∀ old, rsvd address old = old := by
  have unchanged : Overlay iols iols (marks []) ∧
      ∀ address, ¬ Reaches Iolist.iolNext iols check.1 address →
        ∀ old, marks [] address old = old :=
    ⟨overlay_refl, fun address _ old => by simp [marks]⟩
  obtain ⟨start, stop⟩ := check
  cases start with
  | none => exact ⟨none, iols, marks [], rfl, unchanged⟩
  | some first =>
      cases stop with
      | none => exact ⟨none, iols, marks [], rfl, unchanged⟩
      | some last =>
          obtain ⟨tail, tailLoaded⟩ := Option.isSome_iff_exists.mp (allocated last (Or.inr rfl))
          rcases iolCheck_cases valid (allocated first (Or.inl rfl)) tailLoaded with
            ⟨_, checked⟩ | ⟨_, path, out, after, rsvd, walked, overlay, ended⟩
          · exact ⟨none, iols, marks [], checked, unchanged⟩
          · have outside : ∀ address, ¬ Reaches Iolist.iolNext iols (some first) address →
                address ∉ path := fun address apart member => apart (walked.linked.reaches member)
            rcases ended with ⟨_, checked, cleared⟩ | ⟨it, stopped, checked, others, _⟩
            · refine ⟨_, after, rsvd, checked, overlay, fun address apart old => ?_⟩
              rw [cleared, if_neg (outside address apart)]
            · refine ⟨_, after, rsvd, checked, overlay, fun address apart old => ?_⟩
              have linked := walked.linked
              rw [stopped] at linked
              have notIt : address ≠ it := by
                rintro rfl
                exact apart ⟨path, linked⟩
              rw [others address notIt, marks, if_neg (outside address apart)]

/-- The check refuses a list whose first cell is marked and leaves everything as it is: the
loop behind `error` starts at the cell it ends at. -/
private theorem iolCheck_of_marked {head : Iolist β} (headLoaded : iols.load first = some head)
    (marked : head.iolRsvd ≠ 0) {stop : Option Address}
    (allocated : Allocated iols (some first, stop)) :
    iolCheck iols (some first) stop = .ok (none, iols) := by
  cases stop with
  | none => rfl
  | some other =>
      obtain ⟨tail, tailLoaded⟩ := Option.isSome_iff_exists.mp (allocated other (Or.inr rfl))
      have loadedHead : loadIol iols first = .ok head := by rw [loadIol, headLoaded]
      have loadedTail : loadIol iols other = .ok tail := by rw [loadIol, tailLoaded]
      by_cases open_ : tail.iolNext ≠ none
      · simp only [iolCheck, loadedTail, if_pos open_, bind, Except.bind]
      · have used : head.iolRsvd ≠ 0 ∨ head.iolNext = none ∧ first ≠ other := Or.inl marked
        simp only [iolCheck, loadedTail, if_neg open_, markLoop, loadedHead, if_pos used, bind,
          Except.bind]
        unfold errorLoop
        simp only [if_true]

/-- One check more: the mark stays, and a list that starts at it is refused. -/
private theorem iolCheck_keeps_mark (valid : Valid iols) (marked : Marked iols first)
    {check : Option Address × Option Address} (allocated : Allocated iols check)
    (apart : check.1 = some first ∨ ¬ Reaches Iolist.iolNext iols check.1 first) :
    ∃ result after rsvd, iolCheck iols check.1 check.2 = .ok (result, after) ∧
      Overlay iols after rsvd ∧ Marked after first ∧ (check.1 = some first → result = none) := by
  obtain ⟨head, headLoaded, one⟩ := marked
  by_cases starts : check.1 = some first
  · obtain ⟨start, stop⟩ := check
    cases starts
    exact ⟨none, iols, marks [], iolCheck_of_marked headLoaded (by omega) allocated, overlay_refl,
      ⟨head, headLoaded, one⟩, fun _ => rfl⟩
  · obtain ⟨result, after, rsvd, checked, overlay, frame⟩ := iolCheck_frame valid allocated
    have kept := frame first (apart.resolve_left starts) head.iolRsvd
    exact ⟨result, after, rsvd, checked, overlay, overlay.marked headLoaded (kept.trans one),
      fun isFirst => absurd isFirst starts⟩

/-- Any number of checks. -/
private theorem iolChecks_keep_mark (valid : Valid iols) (marked : Marked iols first)
    {later : List (Option Address × Option Address)}
    (allocated : ∀ check ∈ later, Allocated iols check)
    (apart : ∀ check ∈ later,
      check.1 = some first ∨ ¬ Reaches Iolist.iolNext iols check.1 first) :
    ∃ results final, iolChecks iols later = .ok (results, final) ∧ Marked final first ∧
      List.Forall₂ (fun check result => check.1 = some first → result = none) later results := by
  induction later generalizing iols with
  | nil => exact ⟨[], iols, rfl, marked, List.Forall₂.nil⟩
  | cons check rest inductionHypothesis =>
      obtain ⟨result, after, rsvd, checked, overlay, markedAfter, refused⟩ :=
        iolCheck_keeps_mark valid marked (allocated check List.mem_cons_self)
          (apart check List.mem_cons_self)
      have allocatedAfter : ∀ other ∈ rest, Allocated after other := fun other member =>
        overlay.allocated (allocated other (List.mem_cons_of_mem check member))
      have apartAfter : ∀ other ∈ rest,
          other.1 = some first ∨ ¬ Reaches Iolist.iolNext after other.1 first := fun other member =>
        (apart other (List.mem_cons_of_mem check member)).imp_right overlay.apart
      obtain ⟨results, final, ran, markedFinal, refusedRest⟩ :=
        inductionHypothesis (overlay.valid valid) markedAfter allocatedAfter apartAfter
      refine ⟨result :: results, final, ?_, markedFinal, List.Forall₂.cons refused refusedRest⟩
      simp only [iolChecks, checked, ran, bind, Except.bind]

/-- A check that refuses a list behind its first cell leaves the mark on that cell: the
loop behind `error` writes to the refused cell alone. -/
private theorem mark_of_refused (valid : Valid iols)
    (refused : iolCheck iols (some first) (some last) = .ok (none, after))
    (ends : ∃ tail, iols.load last = some tail ∧ tail.iolNext = none)
    (passes : Passes iols last first) : ∃ rsvd, Overlay iols after rsvd ∧ Marked after first := by
  obtain ⟨tail, tailLoaded, tailEnds⟩ := ends
  obtain ⟨head, headLoaded, headUnmarked, headLast⟩ := passes
  rcases iolCheck_cases valid (Option.isSome_iff_exists.mpr ⟨head, headLoaded⟩) tailLoaded with
    ⟨open_, _⟩ | ⟨_, path, out, left, kept, walked, overlay, ⟨_, checked, _⟩ |
      ⟨it, stopped, checked, others, same⟩⟩
  · exact absurd tailEnds open_
  · rw [checked] at refused
    cases refused
  · rw [checked] at refused
    cases refused
    have marked := first_marked walked stopped headLoaded headUnmarked headLast
    have before : marks path first head.iolRsvd = 1 := if_pos marked
    have keptFirst : kept first head.iolRsvd = 1 := by
      by_cases isIt : first = it
      · rw [same isIt, before]
      · rw [others first isIt, before]
    exact ⟨kept, overlay, overlay.marked headLoaded keptFirst⟩

/-- A list that is refused behind its first cell is refused ever after. The mark stays on
that cell through all checks that follow, of any lists, as long as none from elsewhere runs
into it, and every list that starts there is refused, however well formed. -/
theorem refused_list_stays_refused (iols after : Heap (Iolist β)) (valid : Valid iols)
    (first last : Address) (refused : iolCheck iols (some first) (some last) = .ok (none, after))
    (ends : ∃ tail, iols.load last = some tail ∧ tail.iolNext = none)
    (passes : Passes iols last first) (later : List (Option Address × Option Address))
    (allocated : ∀ check ∈ later, Allocated iols check)
    (apart : ∀ check ∈ later,
      check.1 = some first ∨ ¬ Reaches Iolist.iolNext iols check.1 first) :
    ∃ results final, Marked after first ∧ iolChecks after later = .ok (results, final) ∧
      Marked final first ∧
      List.Forall₂ (fun check result => check.1 = some first → result = none) later results := by
  obtain ⟨rsvd, overlay, marked⟩ := mark_of_refused valid refused ends passes
  have allocatedAfter : ∀ check ∈ later, Allocated after check := fun check member =>
    overlay.allocated (allocated check member)
  have apartAfter : ∀ check ∈ later,
      check.1 = some first ∨ ¬ Reaches Iolist.iolNext after check.1 first := fun check member =>
    (apart check member).imp_right overlay.apart
  obtain ⟨results, final, ran, markedFinal, allRefused⟩ :=
    iolChecks_keep_mark (overlay.valid valid) marked allocatedAfter apartAfter
  exact ⟨results, final, marked, ran, markedFinal, allRefused⟩

/-- No cell of `sampleIols` leads to the first. -/
private theorem sampleIols_apart : ¬ Reaches Iolist.iolNext sampleIols (some 2) 0 := by
  rintro ⟨path, linked⟩
  cases path with
  | nil => cases linked
  | cons address rest =>
      obtain ⟨starts, cell, loaded, remaining⟩ := linked
      cases starts
      cases loaded
      cases rest with
      | nil => cases remaining
      | cons other others => cases remaining.1

private theorem sampleIols_allocated {first last : Address} (firstBelow : first < 3)
    (lastBelow : last < 3) : Allocated sampleIols (some first, some last) := by
  have cells : ∀ address < 3, (sampleIols.load address).isSome := by decide
  rintro address (isFirst | isLast)
  · cases isFirst
    exact cells first firstBelow
  · cases isLast
    exact cells last lastBelow

theorem refused_list_stays_refused_hello :
    ∃ after result final, iolCheck sampleIols (some 0) (some 2) = .ok (none, after) ∧
      iolChecks after [(some 0, some 1), (some 2, some 2), (some 0, some 1)] =
        .ok ([none, result, none], final) := by
  obtain ⟨results, final, _, ran, _, refused⟩ := refused_list_stays_refused sampleIols _
    sampleIols_valid 0 2 rfl ⟨_, rfl, rfl⟩ ⟨_, rfl, rfl, nofun⟩
    [(some 0, some 1), (some 2, some 2), (some 0, some 1)]
    (by simp [sampleIols_allocated]) (by simp [sampleIols_apart])
  cases refused with
  | cons one rest =>
      cases rest with
      | cons two rest =>
          cases rest with
          | cons three rest =>
              cases rest
              rw [one rfl, three rfl] at ran
              exact ⟨_, _, final, rfl, ran⟩

end Accepted

end Torchat.Net
