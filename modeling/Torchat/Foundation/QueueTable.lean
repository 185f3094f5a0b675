import Mathlib.Data.List.Nodup
import Mathlib.Data.List.Induction
import Mathlib.Order.Basic

/-!
Contract: a table of FIFO queues with a key each, in the order of their creation.

A queue exists exactly while it has an element: the first element creates it
behind all others, the removal of the last one deletes it. Owns the laws of one
operation and of whole runs: conservation of the elements of a key, frame of
the other keys, and the order of the keys by the time their queue was last
raised from zero to one element.

Does not own any representation of the table in memory.
-/

set_option autoImplicit false

namespace Torchat.Foundation

/-- Queues by key. No key has two queues and no queue is empty. -/
structure QueueTable (κ α : Type) where
  entries : List (κ × List α)
  nodup : (entries.map Prod.fst).Nodup
  nonempty : ∀ entry ∈ entries, entry.2 ≠ []

namespace QueueTable

variable {κ α : Type} [DecidableEq κ]

/-! ## Entries -/

def lookupIn (key : κ) : List (κ × List α) → List α
  | [] => []
  | entry :: rest => if entry.1 = key then entry.2 else lookupIn key rest

def pushIn (key : κ) (element : α) : List (κ × List α) → List (κ × List α)
  | [] => [(key, [element])]
  | entry :: rest =>
      if entry.1 = key then (entry.1, entry.2 ++ [element]) :: rest
      else entry :: pushIn key element rest

def popIn (key : κ) : List (κ × List α) → List (κ × List α)
  | [] => []
  | entry :: rest =>
      if entry.1 = key then
        if entry.2.tail = [] then rest else (entry.1, entry.2.tail) :: rest
      else entry :: popIn key rest

theorem keys_pushIn (key : κ) (element : α) (entries : List (κ × List α)) :
    (pushIn key element entries).map Prod.fst =
      if key ∈ entries.map Prod.fst then entries.map Prod.fst
      else entries.map Prod.fst ++ [key] := by
  induction entries with
  | nil => simp [pushIn]
  | cons entry rest inductionHypothesis =>
      by_cases same : entry.1 = key
      · simp [pushIn, same]
      · have different : key ≠ entry.1 := Ne.symm same
        simp only [pushIn, if_neg same, List.map_cons, inductionHypothesis, List.mem_cons,
          different, false_or]
        split <;> rfl

theorem keys_popIn_sublist (key : κ) (entries : List (κ × List α)) :
    ((popIn key entries).map Prod.fst).Sublist (entries.map Prod.fst) := by
  induction entries with
  | nil => simp [popIn]
  | cons entry rest inductionHypothesis =>
      unfold popIn
      split
      · split
        · exact List.sublist_cons_self _ _
        · exact List.Sublist.refl _
      · exact inductionHypothesis.cons_cons _

theorem nonempty_pushIn {key : κ} {element : α} {entries : List (κ × List α)}
    (nonempty : ∀ entry ∈ entries, entry.2 ≠ []) :
    ∀ entry ∈ pushIn key element entries, entry.2 ≠ [] := by
  induction entries with
  | nil => simp [pushIn]
  | cons head rest inductionHypothesis =>
      have restNonempty : ∀ entry ∈ rest, entry.2 ≠ [] := fun entry member =>
        nonempty entry (by simp [member])
      intro entry member
      unfold pushIn at member
      split at member <;> rcases List.mem_cons.mp member with rfl | inRest
      · simp
      · exact restNonempty entry inRest
      · exact nonempty _ (by simp)
      · exact inductionHypothesis restNonempty entry inRest

theorem nonempty_popIn {key : κ} {entries : List (κ × List α)}
    (nonempty : ∀ entry ∈ entries, entry.2 ≠ []) :
    ∀ entry ∈ popIn key entries, entry.2 ≠ [] := by
  induction entries with
  | nil => simp [popIn]
  | cons head rest inductionHypothesis =>
      have restNonempty : ∀ entry ∈ rest, entry.2 ≠ [] := fun entry member =>
        nonempty entry (by simp [member])
      intro entry member
      unfold popIn at member
      split at member
      · split at member
        · exact restNonempty entry member
        next tailNonempty =>
          rcases List.mem_cons.mp member with rfl | inRest
          · exact tailNonempty
          · exact restNonempty entry inRest
      · rcases List.mem_cons.mp member with rfl | inRest
        · exact nonempty _ (by simp)
        · exact inductionHypothesis restNonempty entry inRest

theorem lookupIn_eq_nil_of_notMem {key : κ} {entries : List (κ × List α)}
    (absent : key ∉ entries.map Prod.fst) : lookupIn key entries = [] := by
  induction entries with
  | nil => rfl
  | cons entry rest inductionHypothesis =>
      simp only [List.map_cons, List.mem_cons, not_or] at absent
      rw [lookupIn, if_neg (Ne.symm absent.1)]
      exact inductionHypothesis absent.2

theorem lookupIn_ne_nil_of_mem {key : κ} {entries : List (κ × List α)}
    (nonempty : ∀ entry ∈ entries, entry.2 ≠ []) (member : key ∈ entries.map Prod.fst) :
    lookupIn key entries ≠ [] := by
  induction entries with
  | nil => simp at member
  | cons entry rest inductionHypothesis =>
      unfold lookupIn
      split
      next same => exact nonempty entry (by simp)
      next different =>
        rw [List.map_cons, List.mem_cons] at member
        rcases member with here | inRest
        · exact absurd here.symm different
        · exact inductionHypothesis (fun entry member => nonempty entry (by simp [member])) inRest

theorem lookupIn_pushIn (key other : κ) (element : α) (entries : List (κ × List α)) :
    lookupIn other (pushIn key element entries) =
      if other = key then lookupIn key entries ++ [element] else lookupIn other entries := by
  induction entries with
  | nil => simp [pushIn, lookupIn, eq_comm]
  | cons entry rest inductionHypothesis =>
      by_cases same : entry.1 = key
      · by_cases asked : other = key
        · simp [pushIn, lookupIn, same, asked]
        · have different : ¬ key = other := Ne.symm asked
          simp [pushIn, lookupIn, same, asked, different]
      · by_cases here : entry.1 = other
        · have different : ¬ other = key := fun equal => same (here.trans equal)
          simp [pushIn, lookupIn, here, different]
        · simp [pushIn, lookupIn, same, here, inductionHypothesis]

theorem lookupIn_popIn (key other : κ) {entries : List (κ × List α)}
    (nodup : (entries.map Prod.fst).Nodup) :
    lookupIn other (popIn key entries) =
      if other = key then (lookupIn key entries).tail else lookupIn other entries := by
  induction entries with
  | nil => simp [popIn, lookupIn]
  | cons entry rest inductionHypothesis =>
      rw [List.map_cons, List.nodup_cons] at nodup
      by_cases same : entry.1 = key
      · have absent : lookupIn key rest = [] := lookupIn_eq_nil_of_notMem (same ▸ nodup.1)
        by_cases asked : other = key
        · by_cases single : entry.2.tail = []
          · simp [popIn, lookupIn, same, asked, single, absent]
          · simp [popIn, lookupIn, same, asked, single]
        · have different : ¬ key = other := Ne.symm asked
          by_cases single : entry.2.tail = []
          · simp [popIn, lookupIn, same, asked, single, different]
          · simp [popIn, lookupIn, same, asked, single, different]
      · by_cases here : entry.1 = other
        · have different : ¬ other = key := fun equal => same (here.trans equal)
          simp [popIn, lookupIn, here, different]
        · simp [popIn, lookupIn, same, here, inductionHypothesis nodup.2]

/-! ## The entry of a key -/

section Split

variable {key : κ} {front back : List (κ × List α)}

theorem lookupIn_split (first : key ∉ front.map Prod.fst) (queue : List α) :
    lookupIn key (front ++ (key, queue) :: back) = queue := by
  induction front with
  | nil => simp [lookupIn]
  | cons entry rest inductionHypothesis =>
      rw [List.map_cons, List.mem_cons, not_or] at first
      rw [List.cons_append, lookupIn, if_neg (Ne.symm first.1)]
      exact inductionHypothesis first.2

theorem pushIn_split (first : key ∉ front.map Prod.fst) (queue : List α) (element : α) :
    pushIn key element (front ++ (key, queue) :: back) =
      front ++ (key, queue ++ [element]) :: back := by
  induction front with
  | nil => simp [pushIn]
  | cons entry rest inductionHypothesis =>
      rw [List.map_cons, List.mem_cons, not_or] at first
      rw [List.cons_append, pushIn, if_neg (Ne.symm first.1), inductionHypothesis first.2]
      rfl

theorem pushIn_of_notMem (absent : key ∉ front.map Prod.fst) (element : α) :
    pushIn key element front = front ++ [(key, [element])] := by
  induction front with
  | nil => rfl
  | cons entry rest inductionHypothesis =>
      rw [List.map_cons, List.mem_cons, not_or] at absent
      rw [pushIn, if_neg (Ne.symm absent.1), inductionHypothesis absent.2]
      rfl

/-- The last element of a queue takes its entry with it. -/
theorem popIn_split_last (first : key ∉ front.map Prod.fst) (element : α) :
    popIn key (front ++ (key, [element]) :: back) = front ++ back := by
  induction front with
  | nil => simp [popIn]
  | cons entry rest inductionHypothesis =>
      rw [List.map_cons, List.mem_cons, not_or] at first
      rw [List.cons_append, popIn, if_neg (Ne.symm first.1), inductionHypothesis first.2]
      rfl

theorem popIn_split_more (first : key ∉ front.map Prod.fst) (element next : α)
    (others : List α) :
    popIn key (front ++ (key, element :: next :: others) :: back) =
      front ++ (key, next :: others) :: back := by
  induction front with
  | nil => simp [popIn]
  | cons entry rest inductionHypothesis =>
      rw [List.map_cons, List.mem_cons, not_or] at first
      rw [List.cons_append, popIn, if_neg (Ne.symm first.1), inductionHypothesis first.2]
      rfl

theorem popIn_of_notMem (absent : key ∉ front.map Prod.fst) : popIn key front = front := by
  induction front with
  | nil => rfl
  | cons entry rest inductionHypothesis =>
      rw [List.map_cons, List.mem_cons, not_or] at absent
      rw [popIn, if_neg (Ne.symm absent.1), inductionHypothesis absent.2]

end Split

/-! ## Tables -/

def empty : QueueTable κ α where
  entries := []
  nodup := List.nodup_nil
  nonempty := by simp

def keys (table : QueueTable κ α) : List κ := table.entries.map Prod.fst

def lookup (table : QueueTable κ α) (key : κ) : List α := lookupIn key table.entries

def push (table : QueueTable κ α) (key : κ) (element : α) : QueueTable κ α where
  entries := pushIn key element table.entries
  nodup := by
    rw [keys_pushIn]
    split
    · exact table.nodup
    next absent => exact table.nodup.append (List.nodup_singleton _) (by simpa using absent)
  nonempty := nonempty_pushIn table.nonempty

def pop (table : QueueTable κ α) (key : κ) : QueueTable κ α where
  entries := popIn key table.entries
  nodup := table.nodup.sublist (keys_popIn_sublist key table.entries)
  nonempty := nonempty_popIn table.nonempty

omit [DecidableEq κ] in
@[simp] theorem keys_empty : (empty : QueueTable κ α).keys = [] := rfl

@[simp] theorem lookup_empty (key : κ) : (empty : QueueTable κ α).lookup key = [] := rfl

@[simp] theorem lookup_push (table : QueueTable κ α) (key other : κ) (element : α) :
    (table.push key element).lookup other =
      if other = key then table.lookup key ++ [element] else table.lookup other :=
  lookupIn_pushIn key other element table.entries

@[simp] theorem lookup_pop (table : QueueTable κ α) (key other : κ) :
    (table.pop key).lookup other =
      if other = key then (table.lookup key).tail else table.lookup other :=
  lookupIn_popIn key other table.nodup

theorem lookup_of_notMem {table : QueueTable κ α} {key : κ} (absent : key ∉ table.keys) :
    table.lookup key = [] := lookupIn_eq_nil_of_notMem absent

/-- A key is in the table exactly while its queue has an element. -/
theorem mem_keys_iff (table : QueueTable κ α) (key : κ) :
    key ∈ table.keys ↔ table.lookup key ≠ [] := by
  constructor
  · exact lookupIn_ne_nil_of_mem table.nonempty
  · intro found
    by_contra absent
    exact found (lookup_of_notMem absent)

theorem keys_push (table : QueueTable κ α) (key : κ) (element : α) :
    (table.push key element).keys =
      if key ∈ table.keys then table.keys else table.keys ++ [key] :=
  keys_pushIn key element table.entries

theorem keys_pop_sublist (table : QueueTable κ α) (key : κ) :
    (table.pop key).keys.Sublist table.keys :=
  keys_popIn_sublist key table.entries

/-! ## Runs -/

/-- What one command does to the table. -/
inductive Op (κ α : Type) where
  | push (key : κ) (element : α)
  | pop (key : κ)
  | idle

def step (table : QueueTable κ α) : Op κ α → QueueTable κ α
  | .push key element => table.push key element
  | .pop key => table.pop key
  | .idle => table

def after (table : QueueTable κ α) (ops : List (Op κ α)) : QueueTable κ α :=
  ops.foldl step table

/-- The elements one operation stores for `key`. -/
def pushedBy (key : κ) : Op κ α → List α
  | .push target element => if target = key then [element] else []
  | _ => []

/-- The elements one operation hands out for `key`. -/
def poppedBy (key : κ) (table : QueueTable κ α) : Op κ α → List α
  | .pop target => if target = key then (table.lookup key).head?.toList else []
  | _ => []

def pushed (key : κ) (ops : List (Op κ α)) : List α := ops.flatMap (pushedBy key)

def popped (key : κ) : QueueTable κ α → List (Op κ α) → List α
  | _, [] => []
  | table, op :: rest => poppedBy key table op ++ popped key (table.step op) rest

theorem step_conserves (table : QueueTable κ α) (key : κ) (op : Op κ α) :
    poppedBy key table op ++ (table.step op).lookup key =
      table.lookup key ++ pushedBy key op := by
  cases op with
  | push target element =>
      by_cases same : key = target
      · simp [poppedBy, pushedBy, step, same]
      · have different : ¬ target = key := Ne.symm same
        simp [poppedBy, pushedBy, step, same, different]
  | pop target =>
      by_cases same : key = target
      · subst same
        simp only [poppedBy, pushedBy, step, lookup_pop, if_true, List.append_nil]
        cases table.lookup key <;> simp
      · have different : ¬ target = key := Ne.symm same
        simp [poppedBy, pushedBy, step, same, different]
  | idle => simp [poppedBy, pushedBy, step]

/-- No loss, no duplication, no reordering: over a whole run, what a key hands
out followed by what it still queues is what was queued for it. -/
theorem run_conserves (table : QueueTable κ α) (key : κ) (ops : List (Op κ α)) :
    popped key table ops ++ (table.after ops).lookup key =
      table.lookup key ++ pushed key ops := by
  induction ops generalizing table with
  | nil => simp [popped, pushed, after]
  | cons op rest inductionHypothesis =>
      have stepLaw := step_conserves table key op
      have restLaw := inductionHypothesis (table.step op)
      simp only [after] at restLaw
      simp only [popped, pushed, after, List.foldl_cons, List.flatMap_cons, List.append_assoc]
      rw [restLaw, ← List.append_assoc, stepLaw, List.append_assoc]
      rfl

/-- An element leaves its queue in the place in which it has entered it. -/
theorem popped_of_push {key : κ} {element found : α} {before after : List (Op κ α)}
    (handedOut : (popped key empty (before ++ .push key element :: after))[
      (pushed key before).length]? = some found) : found = element := by
  have conserved := run_conserves empty key (before ++ .push key element :: after)
  have entered : pushed key (before ++ .push key element :: after) =
      pushed key before ++ element :: pushed key after := by
    simp [pushed, pushedBy]
  rw [lookup_empty, List.nil_append, entered] at conserved
  obtain ⟨inside, _⟩ := List.getElem?_eq_some_iff.mp handedOut
  have place := congrArg (fun elements => elements[(pushed key before).length]?) conserved
  simp only [List.getElem?_append_left inside, handedOut, List.getElem?_append_right (Nat.le_refl _),
    Nat.sub_self, List.getElem?_cons_zero] at place
  exact Option.some.inj place

/-- What waits behind a run has been queued by one of its operations. -/
theorem push_mem_of_mem_lookup {key : κ} {element : α} {ops : List (Op κ α)}
    (waiting : element ∈ (empty.after ops).lookup key) : .push key element ∈ ops := by
  have conserved := run_conserves empty key ops
  rw [lookup_empty, List.nil_append] at conserved
  have queued : element ∈ pushed key ops := by
    rw [← conserved]
    exact List.mem_append_right _ waiting
  obtain ⟨op, member, byOp⟩ := List.mem_flatMap.mp queued
  cases op with
  | push target stored =>
      by_cases same : target = key
      · rw [pushedBy, if_pos same] at byOp
        rw [List.mem_singleton.mp byOp, ← same]
        exact member
      · rw [pushedBy, if_neg same] at byOp
        contradiction
  | pop target => contradiction
  | idle => contradiction

/-- New keys queue up behind the old ones. -/
theorem keys_after_pushes {table : QueueTable κ α} {entries : List (κ × α)}
    (fresh : (table.keys ++ entries.map Prod.fst).Nodup) :
    (table.after (entries.map fun entry => .push entry.1 entry.2)).keys =
      table.keys ++ entries.map Prod.fst := by
  induction entries generalizing table with
  | nil => simp [after]
  | cons entry rest inductionHypothesis =>
      have apart := (List.nodup_append.mp fresh).2.2
      have absent : entry.1 ∉ table.keys := fun present =>
        apart entry.1 present entry.1 List.mem_cons_self rfl
      have pushedKeys : (table.push entry.1 entry.2).keys = table.keys ++ [entry.1] := by
        rw [keys_push, if_neg absent]
      have split : table.keys ++ (entry :: rest).map Prod.fst =
          (table.push entry.1 entry.2).keys ++ rest.map Prod.fst := by
        rw [pushedKeys, List.append_assoc]
        rfl
      rw [split] at fresh ⊢
      exact inductionHypothesis fresh

/-! ## The order of the keys -/

/-- Step `time` is the last of the first `bound` steps that took a count from
zero to one. -/
structure LastRaise (count : Nat → Nat) (bound time : Nat) : Prop where
  before : time < bound
  zero : count time = 0
  one : count (time + 1) = 1
  last : ∀ later, later < bound → count later = 0 → count (later + 1) = 1 → later ≤ time

/-- A step that starts from a positive count raises nothing. -/
theorem LastRaise.extend {count longer : Nat → Nat} {bound time : Nat}
    (lastRaise : LastRaise count bound time) (same : ∀ n, n ≤ bound → longer n = count n)
    (positive : count bound ≠ 0) : LastRaise longer (bound + 1) time where
  before := Nat.lt_succ_of_lt lastRaise.before
  zero := by rw [same time (Nat.le_of_lt lastRaise.before), lastRaise.zero]
  one := by rw [same (time + 1) lastRaise.before, lastRaise.one]
  last := by
    intro later before zero one
    rcases Nat.lt_succ_iff_lt_or_eq.mp before with earlier | rfl
    · rw [same later (Nat.le_of_lt earlier)] at zero
      rw [same (later + 1) earlier] at one
      exact lastRaise.last later earlier zero one
    · rw [same later (Nat.le_refl _)] at zero
      exact absurd zero positive

/-- The number of elements queued for `key` after the first `n` operations. -/
def countAfter (ops : List (Op κ α)) (key : κ) (n : Nat) : Nat :=
  (((empty : QueueTable κ α).after (ops.take n)).lookup key).length

theorem after_concat (table : QueueTable κ α) (ops : List (Op κ α)) (op : Op κ α) :
    table.after (ops ++ [op]) = (table.after ops).step op := by
  simp [after]

theorem countAfter_length (ops : List (Op κ α)) (key : κ) :
    countAfter ops key ops.length = ((empty.after ops).lookup key).length := by
  simp [countAfter]

theorem countAfter_concat_of_le {ops : List (Op κ α)} {op : Op κ α} {n : Nat}
    (within : n ≤ ops.length) (key : κ) :
    countAfter (ops ++ [op]) key n = countAfter ops key n := by
  simp [countAfter, List.take_append_of_le_length within]

/-- The keys of a step's table are those of the table before it, in their
order, and behind them at most a key whose queue the step has raised. -/
theorem keys_step (table : QueueTable κ α) (op : Op κ α) :
    (table.step op).keys.Sublist table.keys ∨
      ∃ key, (table.step op).keys = table.keys ++ [key] ∧ table.lookup key = [] ∧
        ((table.step op).lookup key).length = 1 := by
  cases op with
  | push key element =>
      by_cases present : key ∈ table.keys
      · left
        rw [step, keys_push, if_pos present]
      · right
        have absent := lookup_of_notMem present
        refine ⟨key, ?_, absent, ?_⟩
        · rw [step, keys_push, if_neg present]
        · simp [step, absent]
  | pop key => exact Or.inl (keys_pop_sublist table key)
  | idle => exact Or.inl (List.Sublist.refl _)

/-- A key that was in the table before a step keeps its time. -/
theorem lastRaise_of_mem {ops : List (Op κ α)} {key : κ} {time : Nat} (op : Op κ α)
    (member : key ∈ (empty.after ops).keys)
    (raised : LastRaise (countAfter ops key) ops.length time) :
    LastRaise (countAfter (ops ++ [op]) key) (ops.length + 1) time := by
  apply raised.extend fun n within => countAfter_concat_of_le within key
  rw [countAfter_length]
  have found := (mem_keys_iff _ key).mp member
  simpa using found

/-- A key that a step has raised has the time of that step. -/
theorem lastRaise_of_raised {ops : List (Op κ α)} {op : Op κ α} {key : κ}
    (absent : (empty.after ops).lookup key = [])
    (one : (((empty.after ops).step op).lookup key).length = 1) :
    LastRaise (countAfter (ops ++ [op]) key) (ops.length + 1) ops.length where
  before := Nat.lt_succ_self _
  zero := by
    rw [countAfter_concat_of_le (Nat.le_refl _), countAfter_length, absent]
    rfl
  one := by
    have length : (ops ++ [op]).length = ops.length + 1 := by simp
    rw [← length, countAfter_length, after_concat]
    exact one
  last := fun _ before _ _ => Nat.le_of_lt_succ before

/-- The keys of a run's table stand in the order in which their queues were
last raised from zero to one element. -/
theorem keys_ordered_by_lastRaise (ops : List (Op κ α)) :
    ∃ time : κ → Nat,
      (∀ key ∈ (empty.after ops).keys,
        LastRaise (countAfter ops key) ops.length (time key)) ∧
      (empty.after ops).keys.Pairwise fun earlier later => time earlier < time later := by
  induction ops using List.reverseRecOn with
  | nil => exact ⟨fun _ => 0, by simp [after], by simp [after]⟩
  | append_singleton ops op inductionHypothesis =>
      obtain ⟨time, raised, ordered⟩ := inductionHypothesis
      have length : (ops ++ [op]).length = ops.length + 1 := by simp
      rw [length, after_concat]
      rcases keys_step (empty.after ops) op with sublist | ⟨fresh, appended, absent, one⟩
      · refine ⟨time, ?_, ordered.sublist sublist⟩
        intro key member
        have old := sublist.subset member
        exact lastRaise_of_mem op old (raised key old)
      · have notFresh : ∀ key ∈ (empty.after ops).keys, key ≠ fresh := by
          rintro key member rfl
          exact (mem_keys_iff _ key).mp member absent
        refine ⟨fun key => if key = fresh then ops.length else time key, ?_, ?_⟩
        · intro key member
          rw [appended, List.mem_append, List.mem_singleton] at member
          rcases member with old | rfl
          · simpa only [if_neg (notFresh key old)] using lastRaise_of_mem op old (raised key old)
          · simpa only [if_true] using lastRaise_of_raised absent one
        · rw [appended, List.pairwise_append]
          refine ⟨?_, List.pairwise_singleton _ _, ?_⟩
          · apply ordered.imp_of_mem
            intro earlier later earlierMember laterMember before
            simpa only [if_neg (notFresh earlier earlierMember),
              if_neg (notFresh later laterMember)] using before
          · intro earlier earlierMember later laterMember
            rw [List.mem_singleton.mp laterMember]
            simpa only [if_neg (notFresh earlier earlierMember), if_true] using
              (raised earlier earlierMember).before

/-! ## Totals -/

/-- The elements of all queues. -/
def total (table : QueueTable κ α) : Nat :=
  table.entries.foldr (fun entry total => entry.2.length + total) 0

/-- The queues that one operation creates. -/
def createdBy (table : QueueTable κ α) : Op κ α → Nat
  | .push key _ => if table.lookup key = [] then 1 else 0
  | _ => 0

def created : QueueTable κ α → List (Op κ α) → Nat
  | _, [] => 0
  | table, op :: rest => table.createdBy op + created (table.step op) rest

theorem total_push (table : QueueTable κ α) (key : κ) (element : α) :
    (table.push key element).total = table.total + 1 := by
  show (pushIn key element table.entries).foldr _ 0 = table.entries.foldr _ 0 + 1
  induction table.entries with
  | nil => rfl
  | cons entry rest inductionHypothesis =>
      unfold pushIn
      split
      · simp
        omega
      · rw [List.foldr_cons, inductionHypothesis, List.foldr_cons]
        omega

theorem total_pop (table : QueueTable κ α) (key : κ) :
    table.total = (table.pop key).total + min (table.lookup key).length 1 := by
  show table.entries.foldr _ 0 =
    (popIn key table.entries).foldr _ 0 + min (lookupIn key table.entries).length 1
  have nonempty := table.nonempty
  generalize table.entries = entries at nonempty ⊢
  induction entries with
  | nil => rfl
  | cons entry rest inductionHypothesis =>
      have kept := inductionHypothesis fun other member =>
        nonempty other (List.mem_cons_of_mem _ member)
      have positive := List.length_pos_iff.mpr (nonempty entry List.mem_cons_self)
      unfold popIn lookupIn
      split
      · have tail : entry.2.length = entry.2.tail.length + 1 := by
          rw [List.length_tail]
          omega
        split
        next last =>
          rw [last] at tail
          simp only [List.foldr_cons, List.length_nil] at tail ⊢
          omega
        · simp only [List.foldr_cons] at kept ⊢
          omega
      · simp only [List.foldr_cons] at kept ⊢
        omega

end QueueTable

end Torchat.Foundation
