import Mathlib.Data.List.Nodup
import FluentBit.Lib.Run

/-!
# The bucket queue

`flb_bucket_queue.h`: a list of items for every priority, and a pointer `top`
that is moved forward over empty lists when it is needed.  Items may also be
unlinked without the queue being told.  The queue is a priority queue that is
first in, first out among the items of one priority.
-/

namespace FluentBit.BucketQueue

open Run
open List hiding beq_eq_decide

variable {Item : Type}

/-- `struct flb_bucket_queue`; `top` is an index, one past the last bucket when
there is nothing at the top. -/
structure Queue (Item : Type) where
  buckets : List (List Item)
  nBuckets : Nat
  top : Nat
  nItems : Nat

def create (priorities : Nat) : Queue Item :=
  { buckets := List.replicate priorities []
    nBuckets := priorities
    top := priorities
    nItems := 0 }

def isEmpty (queue : Queue Item) : Bool :=
  decide (queue.top = queue.nBuckets)

def topBucket (queue : Queue Item) : List Item := queue.buckets.getD queue.top []

/-- The loop of `flb_bucket_queue_seek`, with a bound on its steps. -/
def seekLoop : Nat → Queue Item → Queue Item
  | 0, queue => queue
  | steps + 1, queue =>
    if !isEmpty queue && (topBucket queue).isEmpty then
      seekLoop steps { queue with top := queue.top + 1 }
    else queue

/-- `flb_bucket_queue_seek`: `top` does not pass the number of buckets. -/
def seek (queue : Queue Item) : Queue Item := seekLoop queue.nBuckets queue

/-- `flb_bucket_queue_add`: the flag is false when it returns -1. -/
def add (queue : Queue Item) (item : Item) (priority : Nat) : Queue Item × Bool :=
  if queue.nBuckets ≤ priority then (queue, false)
  else
    let queue := seek queue
    ({ queue with
        buckets := queue.buckets.modify priority fun items => items ++ [item]
        top := if priority < queue.top then priority else queue.top
        nItems := queue.nItems + 1 }, true)

def findMin (queue : Queue Item) : Queue Item × Option Item :=
  let queue := seek queue
  if isEmpty queue then (queue, none) else (queue, (topBucket queue).head?)

def deleteMin (queue : Queue Item) : Queue Item :=
  let queue := seek queue
  if isEmpty queue then queue
  else
    let queue := seek { queue with buckets := queue.buckets.modify queue.top List.tail }
    { queue with nItems := queue.nItems - 1 }

def popMin (queue : Queue Item) : Queue Item × Option Item :=
  let (queue, item) := findMin queue
  (deleteMin queue, item)

/-- `mk_list_del` on an item of the queue. -/
def unlink [DecidableEq Item] (queue : Queue Item) (item : Item) : Queue Item :=
  { queue with buckets := queue.buckets.map fun items => items.erase item }

inductive Call (Item : Type) where
  | add (item : Item) (priority : Nat)
  | findMin
  | popMin
  | deleteMin
  | unlink (item : Item)
  | seekIsEmpty
  | nItems

inductive Answer (Item : Type) where
  | none
  | added (success : Bool)
  | item (item : Option Item)
  | empty (empty : Bool)
  | number (count : Nat)
  deriving DecidableEq

def call [DecidableEq Item] (queue : Queue Item) : Call Item → Queue Item × Answer Item
  | .add item priority =>
    let (queue, success) := add queue item priority
    (queue, .added success)
  | .findMin =>
    let (queue, item) := findMin queue
    (queue, .item item)
  | .popMin =>
    let (queue, item) := popMin queue
    (queue, .item item)
  | .deleteMin => (deleteMin queue, .none)
  | .unlink item => (unlink queue item, .none)
  | .seekIsEmpty => (seek queue, .empty (isEmpty (seek queue)))
  | .nItems => (queue, .number queue.nItems)

/-- Only items that are not linked are added, and only linked ones are
unlinked. -/
def Proper (queue : Queue Item) : Call Item → Prop
  | .add item _ => ∀ items ∈ queue.buckets, item ∉ items
  | .unlink item => ∃ items ∈ queue.buckets, item ∈ items
  | _ => True

instance [DecidableEq Item] (queue : Queue Item) (call : Call Item) :
    Decidable (Proper queue call) :=
  match call with
  | .add item _ => inferInstanceAs (Decidable (∀ items ∈ queue.buckets, item ∉ items))
  | .unlink item => inferInstanceAs (Decidable (∃ items ∈ queue.buckets, item ∈ items))
  | .findMin | .popMin | .deleteMin | .seekIsEmpty | .nItems => .isTrue trivial

/-- The linked items with their priorities, in the order they were added, and
whether one was unlinked directly. -/
structure Linked (Item : Type) where
  entries : List (Item × Nat)
  direct : Bool

/-- The entries at which the list is cut have the smallest priority there is,
and there is none of that priority in front. -/
structure Least (before : List (Item × Nat)) (priority : Nat)
    (after : List (Item × Nat)) : Prop where
  first : ∀ entry ∈ before, priority < entry.2
  smallest : ∀ entry ∈ after, priority ≤ entry.2

def TakesLeast (linked : Linked Item) (found : Option Item) (left : List (Item × Nat)) : Prop :=
  match found with
  | none => linked.entries = [] ∧ left = []
  | some item => ∃ before priority after,
      linked.entries = before ++ (item, priority) :: after ∧
        left = before ++ after ∧ Least before priority after

def Spec [DecidableEq Item] (priorities : Nat) (linked : Linked Item) :
    Call Item → Answer Item → Linked Item → Prop
  | .add item priority, answer, next =>
    if priority < priorities then
      answer = .added true ∧
        next = { linked with entries := linked.entries ++ [(item, priority)] }
    else answer = .added false ∧ next = linked
  | .findMin, answer, next =>
    next = linked ∧ ∃ found left, answer = .item found ∧ TakesLeast linked found left
  | .popMin, answer, next =>
    ∃ found left, answer = .item found ∧ TakesLeast linked found left ∧
      next = { linked with entries := left }
  | .deleteMin, _, next =>
    ∃ found left, TakesLeast linked found left ∧
      next = { linked with entries := left }
  | .unlink item, _, next =>
    next =
      { entries := linked.entries.filter fun entry => entry.1 ≠ item
        direct := true }
  | .seekIsEmpty, answer, next => next = linked ∧ answer = .empty linked.entries.isEmpty
  | .nItems, answer, next =>
    next = linked ∧
      ∃ count, answer = .number count ∧ (linked.direct = false → count = linked.entries.length)

def bucketOf (entries : List (Item × Nat)) (priority : Nat) : List Item :=
  (entries.filter fun entry => entry.2 = priority).map Prod.fst

structure Related (priorities : Nat) (queue : Queue Item) (linked : Linked Item) : Prop where
  number : queue.nBuckets = priorities
  length : queue.buckets.length = priorities
  bucket : ∀ priority, queue.buckets.getD priority [] = bucketOf linked.entries priority
  above : ∀ entry ∈ linked.entries, queue.top ≤ entry.2 ∧ entry.2 < priorities
  bounded : queue.top ≤ priorities
  distinct : (linked.entries.map Prod.fst).Nodup
  counted : linked.direct = false → queue.nItems = linked.entries.length
  positive : linked.entries.length ≤ queue.nItems

section
variable {entries before after : List (Item × Nat)} {item : Item}
  {priority : Nat}

theorem mem_bucketOf : item ∈ bucketOf entries priority ↔ (item, priority) ∈ entries := by
  simp [bucketOf]

theorem bucketOf_append :
    bucketOf (before ++ after) priority = bucketOf before priority ++ bucketOf after priority := by
  rw [bucketOf, filter_append, map_append, bucketOf, bucketOf]

theorem bucketOf_cons (entry : Item × Nat) :
    bucketOf (entry :: after) priority =
      if entry.2 = priority then entry.1 :: bucketOf after priority
      else bucketOf after priority := by
  rw [bucketOf, filter_cons]
  split
  · next same =>
    rw [if_pos (of_decide_eq_true same)]
    rfl
  · next other =>
    rw [if_neg (fun same => other (decide_eq_true same))]
    rfl

theorem exists_of_bucketOf_cons {rest : List Item}
    (found : bucketOf entries priority = item :: rest) :
    ∃ before after, entries = before ++ (item, priority) :: after ∧
      (∀ entry ∈ before, entry.2 ≠ priority) ∧
      bucketOf (before ++ after) priority = rest := by
  obtain ⟨⟨first, second⟩, others, filtered, rfl, rfl⟩ := map_eq_cons_iff.mp found
  obtain ⟨before, after, rfl, none, same, rfl⟩ := filter_eq_cons_iff.mp filtered
  obtain rfl : second = priority := of_decide_eq_true same
  refine ⟨before, after, rfl, ?_, ?_⟩
  · intro entry member equal
    exact none entry member (decide_eq_true equal)
  · have empty : bucketOf before second = [] := by
      rw [bucketOf, filter_eq_nil_iff.mpr none, map_nil]
    rw [bucketOf_append, empty, nil_append, bucketOf]

end

theorem getD_modify (buckets : List (List Item)) (index priority : Nat)
    (change : List Item → List Item) (inside : index < buckets.length) :
    (buckets.modify index change).getD priority [] =
      if index = priority then change (buckets.getD priority [])
      else buckets.getD priority [] := by
  rw [getD_eq_getElem?_getD, getD_eq_getElem?_getD, getElem?_modify]
  split
  · next same =>
    subst same
    rw [getElem?_eq_getElem inside]
    rfl
  · rw [Option.map_eq_map, Option.map_id']

section
variable {priorities : Nat} {queue : Queue Item} {linked : Linked Item}

/-- The loop stops at a bucket with items or behind the last one, and passes
only empty buckets. -/
theorem seekLoop_spec (steps : Nat) (queue : Queue Item)
    (enough : queue.nBuckets ≤ queue.top + steps) (bounded : queue.top ≤ queue.nBuckets) :
    ∃ top, seekLoop steps queue = { queue with top := top } ∧
      queue.top ≤ top ∧ top ≤ queue.nBuckets ∧
      (∀ priority, queue.top ≤ priority → priority < top → queue.buckets.getD priority [] = []) ∧
      (top = queue.nBuckets ∨ queue.buckets.getD top [] ≠ []) := by
  induction steps generalizing queue with
  | zero =>
    refine ⟨queue.top, rfl, Nat.le_refl _, bounded, ?_, .inl (by omega)⟩
    intro priority least most
    omega
  | succ steps ih =>
    rw [seekLoop]
    by_cases passes : (!isEmpty queue && (topBucket queue).isEmpty) = true
    · rw [if_pos passes]
      rw [Bool.and_eq_true, Bool.not_eq_true', isEmpty,
        decide_eq_false_iff_not, List.isEmpty_iff] at passes
      obtain ⟨top, moved, least, most, empty, stops⟩ :=
        ih { queue with top := queue.top + 1 } (by dsimp only; omega) (by dsimp only; omega)
      dsimp only at moved least most empty stops
      refine ⟨top, moved, by omega, most, ?_, stops⟩
      intro priority from_top under
      rcases Nat.eq_or_lt_of_le from_top with rfl | later
      · exact passes.2
      · exact empty priority later under
    · rw [if_neg passes]
      refine ⟨queue.top, rfl, Nat.le_refl _, bounded, ?_, ?_⟩
      · intro priority least most
        omega
      · by_contra neither
        rw [not_or, not_ne_iff] at neither
        apply passes
        rw [Bool.and_eq_true, Bool.not_eq_true', isEmpty, decide_eq_false_iff_not, List.isEmpty_iff]
        exact neither

theorem Related.seek (related : Related priorities queue linked) :
    Related priorities (seek queue) linked ∧
      (isEmpty (BucketQueue.seek queue) = true ↔ linked.entries = []) ∧
      (isEmpty (BucketQueue.seek queue) ≠ true → topBucket (BucketQueue.seek queue) ≠ []) := by
  obtain ⟨number, length, bucket, above, bounded, distinct, counted, positive⟩ := related
  obtain ⟨top, moved, least, most, empty, stops⟩ :=
    seekLoop_spec queue.nBuckets queue (by omega) (by omega)
  have passed : ∀ entry ∈ linked.entries, top ≤ entry.2 := by
    intro entry member
    by_contra under
    have nothing := empty entry.2 (above entry member).1 (by omega)
    rw [bucket] at nothing
    have there : entry.1 ∈ bucketOf linked.entries entry.2 := mem_bucketOf.mpr member
    rw [nothing] at there
    cases there
  rw [BucketQueue.seek, moved]
  refine ⟨⟨number, length, bucket, ?_, by dsimp only; omega, distinct, counted, positive⟩, ?_, ?_⟩
  · intro entry member
    exact ⟨passed entry member, (above entry member).2⟩
  · rw [isEmpty, decide_eq_true_eq]
    dsimp only
    constructor
    · intro last
      by_contra some
      obtain ⟨entry, member⟩ := exists_mem_of_ne_nil _ some
      have := passed entry member
      have := above entry member
      omega
    · intro none
      rcases stops with last | some
      · exact last
      · rw [bucket, none] at some
        exact absurd rfl some
  · intro notLast
    rw [isEmpty, ne_eq, decide_eq_true_eq] at notLast
    exact stops.resolve_left notLast

theorem seekLoop_decrement (steps : Nat) (queue : Queue Item) :
    { seekLoop steps queue with nItems := (seekLoop steps queue).nItems - 1 } =
        seekLoop steps { queue with nItems := queue.nItems - 1 } := by
  induction steps generalizing queue with
  | zero => rfl
  | succ steps ih =>
    rw [seekLoop, seekLoop]
    change _ = if (!isEmpty queue && (topBucket queue).isEmpty) = true
      then _ else _
    split
    · exact ih { queue with top := queue.top + 1 }
    · rfl

theorem seekLoop_stays (steps : Nat) (stops : queue.top = queue.nBuckets ∨ topBucket queue ≠ []) :
    seekLoop steps queue = queue := by
  cases steps with
  | zero => rfl
  | succ steps =>
    rw [seekLoop, if_neg]
    rw [Bool.and_eq_true, Bool.not_eq_true', isEmpty,
      decide_eq_false_iff_not, List.isEmpty_iff, not_and_or, not_not]
    exact stops

theorem seek_seek (bounded : queue.top ≤ queue.nBuckets) : seek (seek queue) = seek queue := by
  obtain ⟨top, moved, _, _, _, stops⟩ := seekLoop_spec queue.nBuckets queue (by omega) bounded
  rw [seek, seek, moved]
  exact seekLoop_stays _ stops

theorem findMin_queue : (findMin queue).1 = seek queue := by
  rw [findMin]
  split <;> rfl

theorem popMin_eq (bounded : queue.top ≤ queue.nBuckets) :
    popMin queue = (deleteMin queue, (findMin queue).2) := by
  have same : deleteMin (seek queue) = deleteMin queue := by
    rw [deleteMin, deleteMin, seek_seek bounded]
  rw [← same, ← findMin_queue, popMin]

section
variable (related : Related priorities queue linked)
include related

theorem Related.cut (some : topBucket queue ≠ []) :
    ∃ item rest before after, topBucket queue = item :: rest ∧
      linked.entries = before ++ (item, queue.top) :: after ∧
      Least before queue.top after ∧
      bucketOf (before ++ after) queue.top = rest := by
  obtain ⟨item, rest, found⟩ := exists_cons_of_ne_nil some
  have bucket := related.bucket queue.top
  rw [topBucket] at found
  rw [found] at bucket
  obtain ⟨before, after, entries, others, left⟩ := exists_of_bucketOf_cons bucket.symm
  refine ⟨item, rest, before, after, found, entries, ⟨?_, ?_⟩, left⟩
  · intro entry member
    have above := related.above entry (by
      rw [entries]
      exact mem_append_left _ member)
    have other := others entry member
    omega
  · intro entry member
    exact (related.above entry (by
      rw [entries]
      exact mem_append_right _ (mem_cons_of_mem _ member))).1

theorem Related.removed {item : Item} {rest : List Item}
    {before after : List (Item × Nat)} (found : topBucket queue = item :: rest)
    (entries : linked.entries = before ++ (item, queue.top) :: after)
    (left : bucketOf (before ++ after) queue.top = rest) :
    Related priorities
      { queue with buckets := queue.buckets.modify queue.top tail, nItems := queue.nItems - 1 }
      { linked with entries := before ++ after } := by
  obtain ⟨number, length, bucket, above, bounded, distinct, counted, positive⟩ := related
  rw [entries] at above distinct counted positive
  have inside : queue.top < queue.buckets.length := by
    rw [length]
    exact (above _ (mem_append_right _ mem_cons_self)).2
  have shorter : (before ++ (item, queue.top) :: after).length =
      (before ++ after).length + 1 := by
    rw [length_append, length_append, length_cons]
    omega
  have kept : (before ++ after).Sublist (before ++ (item, queue.top) :: after) :=
    (sublist_cons_self _ _).append_left before
  refine ⟨number, ?_, ?_, ?_, bounded, ?_, ?_, ?_⟩
  · rw [length_modify, length]
  · intro priority
    rw [getD_modify _ _ _ _ inside]
    split
    · next same =>
      subst same
      rw [topBucket] at found
      rw [found, tail_cons, left]
    · next other =>
      rw [bucket, entries, bucketOf_append, bucketOf_cons, if_neg other, ← bucketOf_append]
  · intro entry member
    exact above entry (kept.subset member)
  · exact distinct.sublist (kept.map Prod.fst)
  · intro indirect
    rw [counted indirect, shorter]
    rfl
  · dsimp only
    omega

theorem Related.deleteMin :
    ∃ left, TakesLeast linked (findMin queue).2 left ∧
      Related priorities (deleteMin queue)
        { linked with entries := left } := by
  obtain ⟨sought, empty, nonempty⟩ := related.seek
  rw [findMin, BucketQueue.deleteMin]
  by_cases none : isEmpty (BucketQueue.seek queue) = true
  · rw [if_pos none, if_pos none]
    have nothing := empty.mp none
    refine ⟨[], ⟨nothing, rfl⟩, ?_⟩
    rwa [← nothing]
  · rw [if_neg none, if_neg none]
    obtain ⟨item, rest, before, after, found, entries, least, left⟩ := sought.cut (nonempty none)
    refine ⟨before ++ after, ?_, ?_⟩
    · rw [found]
      exact ⟨before, _, after, entries, rfl, least⟩
    · have removed := (sought.removed found entries left).seek.1
      have same := seekLoop_decrement (BucketQueue.seek queue).nBuckets
        { BucketQueue.seek queue with
          buckets := (BucketQueue.seek queue).buckets.modify
            (BucketQueue.seek queue).top tail }
      exact Eq.mpr (congrArg (fun after => Related priorities after _) same) removed

theorem Related.add {item : Item} (fresh : ∀ items ∈ queue.buckets, item ∉ items) {priority : Nat}
    (inRange : priority < priorities) :
    (add queue item priority).2 = true ∧
      Related priorities (add queue item priority).1
        { linked with entries := linked.entries ++ [(item, priority)] } := by
  have number := related.number
  have unlinked : item ∉ linked.entries.map Prod.fst := by
    intro linkedItem
    obtain ⟨entry, member, rfl⟩ := mem_map.mp linkedItem
    have inside : entry.2 < queue.buckets.length := by
      rw [related.length]
      exact (related.above entry member).2
    apply fresh _ (getElem_mem inside)
    have bucket := related.bucket entry.2
    rw [getD_eq_getElem?_getD, getElem?_eq_getElem inside, Option.getD_some] at bucket
    rw [bucket]
    exact mem_bucketOf.mpr member
  obtain ⟨⟨_, length, bucket, above, bounded, distinct, counted, positive⟩, _, _⟩ := related.seek
  rw [BucketQueue.add, if_neg (by omega)]
  dsimp only
  refine ⟨rfl, related.seek.1.number, ?_, ?_, ?_, ?_, ?_, ?_, ?_⟩
  · rw [length_modify, length]
  · intro other
    rw [getD_modify _ _ _ _ (by omega), bucketOf_append, bucketOf_cons, bucket]
    split
    · rfl
    · exact (append_nil _).symm
  · intro entry member
    dsimp only
    rcases mem_append.mp member with old | new
    · have := above entry old
      split <;> omega
    · rw [mem_singleton.mp new]
      split <;> omega
  · dsimp only
    split
    · omega
    · exact bounded
  · rw [map_append]
    apply Nodup.append distinct (nodup_singleton _)
    exact disjoint_singleton.mpr unlinked
  · intro indirect
    rw [counted indirect, length_append, length_singleton]
  · dsimp only
    rw [length_append, length_singleton]
    omega

end

end

section
variable [DecidableEq Item] {priorities : Nat} {queue : Queue Item}
  {linked : Linked Item}

theorem Related.unlink (related : Related priorities queue linked) (item : Item) :
    Related priorities (unlink queue item)
      { entries := linked.entries.filter fun entry => entry.1 ≠ item
        direct := true } := by
  obtain ⟨number, length, bucket, above, bounded, distinct, counted, positive⟩ := related
  have kept : (linked.entries.filter fun entry => entry.1 ≠ item).Sublist
      linked.entries := filter_sublist
  refine ⟨number, ?_, ?_, ?_, bounded, ?_, ?_, ?_⟩
  · rw [BucketQueue.unlink, length_map, length]
  · intro priority
    have sublist : (bucketOf linked.entries priority).Sublist
        (linked.entries.map Prod.fst) := filter_sublist.map Prod.fst
    have erased : (BucketQueue.unlink queue item).buckets.getD priority [] =
        (queue.buckets.getD priority []).erase item := by
      rw [BucketQueue.unlink, getD_eq_getElem?_getD, getElem?_map,
        getD_eq_getElem?_getD]
      cases queue.buckets[priority]? with
      | none | some items => rfl
    rw [erased, bucket, (distinct.sublist sublist).erase_eq_filter, bucketOf,
      bucketOf, filter_map, filter_filter, filter_filter]
    congr 1
    apply filter_congr
    intro entry _
    rw [Bool.and_comm]
    simp [bne, beq_eq_decide]
  · intro entry member
    exact above entry (kept.subset member)
  · exact distinct.sublist (kept.map Prod.fst)
  · intro never
    cases never
  · exact Nat.le_trans kept.length_le positive

end

/-- The queue is a stable priority queue: whatever items are added, taken and
unlinked, the minimum is an item of the smallest priority there is, and among
those the one added first. -/
theorem bucket_queue_is_stable [DecidableEq Item] (priorities : Nat) (calls : List (Call Item))
    (proper : Guarded call Proper (create priorities) calls) :
    Conforms (Spec priorities) { entries := [], direct := false } calls
      (answers call (create priorities) calls) := by
  apply conforms_of_simulation (Related priorities) _ _ proper
  · intro queue linked call related allowed
    cases call with
    | add item priority =>
      by_cases inRange : priority < priorities
      · obtain ⟨success, next⟩ := related.add allowed inRange
        refine ⟨_, ?_, next⟩
        rw [Spec, if_pos inRange]
        exact ⟨congrArg Answer.added success, rfl⟩
      · have refused : add queue item priority = (queue, false) := by
          rw [add, if_pos (by rw [related.number]; omega)]
        refine ⟨linked, ?_, ?_⟩
        · rw [Spec, if_neg inRange, BucketQueue.call, refused]
          exact ⟨rfl, rfl⟩
        · rwa [BucketQueue.call, refused]
    | findMin =>
      obtain ⟨left, takes, _⟩ := related.deleteMin
      refine ⟨linked, ⟨rfl, _, left, rfl, takes⟩, ?_⟩
      rw [BucketQueue.call, findMin_queue]
      exact related.seek.1
    | popMin =>
      obtain ⟨left, takes, next⟩ := related.deleteMin
      have bounded : queue.top ≤ queue.nBuckets := by
        rw [related.number]
        exact related.bounded
      rw [BucketQueue.call, popMin_eq bounded]
      exact ⟨_, ⟨_, left, rfl, takes, rfl⟩, next⟩
    | deleteMin =>
      obtain ⟨left, takes, next⟩ := related.deleteMin
      exact ⟨_, ⟨_, left, takes, rfl⟩, next⟩
    | unlink item => exact ⟨_, rfl, related.unlink item⟩
    | seekIsEmpty =>
      obtain ⟨sought, empty, _⟩ := related.seek
      refine ⟨linked, ⟨rfl, congrArg Answer.empty ?_⟩, sought⟩
      rw [Bool.eq_iff_iff, empty, List.isEmpty_iff]
    | nItems => exact ⟨linked, ⟨rfl, _, rfl, related.counted⟩, related⟩
  · refine ⟨rfl, List.length_replicate, ?_, ?_, Nat.le_refl _, List.nodup_nil,
      fun _ => rfl, Nat.le_refl _⟩
    · intro priority
      rw [create, List.getD_eq_getElem?_getD, List.getElem?_replicate]
      split <;> rfl
    · intro entry member
      cases member

/-- Two items of one priority and one of a smaller one that is unlinked. -/
theorem bucket_queue_is_stable_threeItems :
    let calls : List (Call Nat) :=
      [.add 10 2, .add 20 2, .add 30 1, .findMin, .unlink 30, .popMin, .popMin, .seekIsEmpty]
    answers call (create 3) calls =
        [.added true, .added true, .added true, .item (some 30), .none,
          .item (some 10), .item (some 20), .empty true] ∧
      Conforms (Spec 3) { entries := [], direct := false } calls
        (answers call (create 3) calls) := by
  intro calls
  refine ⟨by decide, bucket_queue_is_stable 3 calls ?_⟩
  exact ⟨by decide, by decide, by decide, trivial, by decide, trivial, trivial, trivial, trivial⟩

end FluentBit.BucketQueue
