import FluentBit.Lib.Run
import FluentBit.Scheduler
import Mathlib.Tactic

/-!
# Retries are neither lost nor early

Every live request is in one list.  The timer asked for a request is that for
the second in which its timeout ends, or a later one when a tick came too late
for that; ticks that are at most a frame apart never do.  The event loop arms
it on whole seconds of another clock.  The bound behind this is on the age of the
requests that wait: at the last tick they were still more than a frame away
from the end of their timeout.
-/

namespace FluentBit.Scheduler

open List Function Option

variable {Data : Type}

def Sched.dueAt (sched : Sched Data) (request : Request Data) : Option Nat :=
  (sched.timer request.timer).bind Timer.fireAt

/-- Every live request is in exactly one of the lists, once, and no other
request is. -/
def Sched.ListedOnce (sched : Sched Data) : Prop :=
  ∀ ref, sched.requests.count ref + sched.requestsWait.count ref =
    if (sched.request ref).isSome then 1 else 0

/-- A request in `requests` is armed, one in `requests_wait` is not, and no
timer is asked for before the timeout ends. -/
def Sched.NeverEarly (sched : Sched Data) : Prop :=
  ∀ ref request, sched.request ref = some request →
    (ref ∈ sched.requests → ∃ due, sched.dueAt request = some due ∧
      request.created + request.timeout ≤ due) ∧
    (ref ∈ sched.requestsWait → sched.dueAt request = none)

/-- For a request that was never refused a timer, that for the end of its
timeout is asked for, or can still be at a tick that is at most a frame away. -/
def Sched.OnTime (sched : Sched Data) : Prop :=
  ∀ ref request, sched.request ref = some request →
    request.refused = false →
      (ref ∈ sched.requests → sched.dueAt request = some (request.created + request.timeout)) ∧
      (ref ∈ sched.requestsWait → sched.lastTick + requestFrame < request.created + request.timeout)

def Call.removes (sched : Sched Data) (ref : RequestRef) : Call Data → Prop
  | .requestInvalidate data =>
    ∃ request, sched.request ref = some request ∧ request.data = data
  | .requestDestroy other => other = ref
  | _ => False

/-- An event takes this request away: it is destroyed, invalidated or
dispatched. -/
def Event.removes (sched : Sched Data) (ref : RequestRef) : Event Data → Prop
  | .call made => made.removes sched ref
  | .timer fired _ calls ret =>
    (∃ cell, sched.timer fired = some cell ∧ cell.data = some ref ∧
      ret = 0) ∨ ∃ made ∈ calls, made.removes sched ref
  | _ => False

def LosesOnly (sched : Sched Data) (event : Event Data) (next : Sched Data) : Prop :=
  ∀ ref, (sched.request ref).isSome = true →
    (next.request ref).isSome = true ∨ event.removes sched ref

def Call.punctual (lastTick : Nat) : Call Data → Prop
  | .requestCreate _ _ _ env => lastTick ≤ env.now
  | _ => True

/-- Ticks are at most a frame apart, and the clock does not go back behind the
last one. -/
def Punctual (sched : Sched Data) : Event Data → Prop
  | .call made => made.punctual sched.lastTick
  | .frame now _ => now ≤ sched.lastTick + requestFrame
  | .timer _ _ calls _ => ∀ made ∈ calls, made.punctual sched.lastTick
  | .cleanup => True

def Sched.linked (sched : Sched Data) (failed : List RequestRef) : List RequestRef :=
  sched.requests ++ (sched.requestsWait ++ failed)

/-- The invariant of the lists, the cells and the timers, between two rounds of
the promotion loop; `exact` asks for the exact times. -/
structure Placed (exact : Prop) (sched : Sched Data) (failed : List RequestRef) : Prop where
  nodup : (sched.linked failed).Nodup
  live : ∀ ref, ref ∈ sched.linked failed ↔ (sched.request ref).isSome = true
  fresh : ∀ ref, (sched.request ref).isSome = true → ref < sched.next
  owned : ∀ ref request, sched.request ref = some request →
    request.timer = ref ∧ ∃ cell, sched.timer ref = some cell ∧
      cell.active = true ∧ cell.data = some ref
  armed : ∀ ref ∈ sched.requests, ∀ request,
    sched.request ref = some request →
      ∃ due, sched.dueAt request = some due ∧ request.created + request.timeout ≤ due ∧
        (exact → request.refused = false → due = request.created + request.timeout)
  waiting : ∀ ref ∈ sched.requestsWait ++ failed, ∀ request,
    sched.request ref = some request →
      sched.dueAt request = none ∧
        (exact → request.refused = false →
          sched.lastTick + requestFrame < request.created + request.timeout)

theorem placed_schedCreate (exact : Prop) (now : Nat) : Placed exact (schedCreate Data now) [] := by
  constructor
  · exact nodup_nil
  · simp [schedCreate, Sched.linked]
  all_goals simp [schedCreate]

variable {sched : Sched Data} {exact : Prop}

section

theorem Placed.listedOnce (placed : Placed exact sched []) : sched.ListedOnce := by
  intro ref
  have counted : (sched.linked []).count ref =
      if (sched.request ref).isSome then 1 else 0 := by
    split
    · next isLive =>
      apply count_eq_one_of_mem placed.nodup
      exact (placed.live ref).mpr isLive
    · next isDead =>
      apply count_eq_zero_of_not_mem
      intro member
      exact isDead ((placed.live ref).mp member)
  simpa [Sched.linked] using counted

theorem Placed.neverEarly (placed : Placed exact sched []) : sched.NeverEarly := by
  intro ref request found
  constructor
  · intro member
    obtain ⟨due, isDue, late, _⟩ := placed.armed ref member request found
    exact ⟨due, isDue, late⟩
  · intro member
    apply (placed.waiting ref _ request found).1
    simpa using member

theorem Placed.onTime (placed : Placed True sched []) : sched.OnTime := by
  intro ref request found granted
  constructor
  · intro member
    obtain ⟨due, isDue, _, onTime⟩ := placed.armed ref member request found
    rw [isDue, onTime trivial granted]
  · intro member
    apply (placed.waiting ref _ request found).2 trivial granted
    simpa using member

end

variable {next : Sched Data}

section
variable {failed : List RequestRef}
  {ref : RequestRef} {request : Request Data} {now : Nat}

theorem linked_move (failed : List RequestRef) (member : ref ∈ sched.requestsWait) :
    ((sched.requests ++ [ref]) ++ (sched.requestsWait.erase ref ++ failed)
        ).Perm (sched.linked failed) ∧
      (sched.requests ++ (sched.requestsWait.erase ref ++ (failed ++ [ref]))
        ).Perm (sched.linked failed) := by
  have split : (ref :: (sched.requestsWait.erase ref ++ failed)).Perm (sched.requestsWait ++ failed)
    := ((perm_cons_erase member).append_right failed).symm
  constructor
  · rw [append_assoc, Sched.linked]
    exact split.append_left sched.requests
  · rw [← append_assoc (sched.requestsWait.erase ref), Sched.linked]
    apply List.Perm.append_left
    exact (perm_append_singleton ref _).trans split

/-- Between two rounds of the loop: what is still to be looked at waits, what
was looked at and still waits is not due within a frame, and what was taken
out was refused a timer. -/
structure Promoting (exact : Prop) (now : Nat) (rest : List RequestRef)
    (sched : Sched Data) (failed : List RequestRef) : Prop where
  placed : Placed exact sched failed
  pending : ∀ ref ∈ rest, ref ∈ sched.requestsWait
  distinct : rest.Nodup
  done : ∀ ref ∈ sched.requestsWait, ref ∉ rest → ∀ request,
    sched.request ref = some request → now + requestFrame < request.created + request.timeout
  refused : ∀ ref ∈ failed, ∀ request, sched.request ref = some request → request.refused = true

/-- A change of one request: the others are linked where they were, or are taken
out, and keep their cells. -/
theorem Placed.touch {left : List RequestRef}
    (placed : Placed exact sched failed) (ref : RequestRef) (nodup : (next.linked left).Nodup)
    (live : ∀ other, other ∈ next.linked left ↔ (next.request other).isSome = true)
    (issued : sched.next ≤ next.next) (ticks : next.lastTick = sched.lastTick)
    (others : ∀ other, other ≠ ref → next.request other = sched.request other ∧
      (sched.request other ≠ none → next.timer other = sched.timer other) ∧
      (other ∈ next.requests → other ∈ sched.requests) ∧
      (other ∈ next.requestsWait ++ left → other ∈ sched.requestsWait ++ failed))
    (here : ∀ request, next.request ref = some request →
      ref < next.next ∧ request.timer = ref ∧ ∃ cell, next.timer ref = some cell ∧
        (cell.active = true ∧ cell.data = some ref) ∧
        (ref ∈ next.requests → ∃ due, cell.fireAt = some due ∧
          request.created + request.timeout ≤ due ∧
          (exact → request.refused = false → due = request.created + request.timeout)) ∧
        (ref ∈ next.requestsWait ++ left → cell.fireAt = none ∧
          (exact → request.refused = false →
            sched.lastTick + requestFrame < request.created + request.timeout))) :
    Placed exact next left := by
  have old : ∀ other target, other ≠ ref → next.request other = some target →
      sched.request other = some target ∧ next.timer other = sched.timer other ∧
        next.dueAt target = sched.dueAt target := by
    intro other target different stored
    obtain ⟨same, timer, _⟩ := others other different
    rw [same] at stored
    have kept := timer (by simp [stored])
    have own := (placed.owned other target stored).1
    exact ⟨stored, kept, by rw [Sched.dueAt, Sched.dueAt, own, kept]⟩
  have due : ∀ target cell, next.timer ref = some cell → target.timer = ref →
      next.dueAt target = cell.fireAt := by
    intro target cell timer own
    rw [Sched.dueAt, own, timer, bind_some]
  refine ⟨nodup, live, ?_, ?_, ?_, ?_⟩
  · intro other isLive
    obtain ⟨target, stored⟩ := isSome_iff_exists.mp isLive
    by_cases same : other = ref
    · subst same
      exact (here target stored).1
    · have was := (old other target same stored).1
      exact Nat.lt_of_lt_of_le (placed.fresh other (by simp [was])) issued
  · intro other target stored
    by_cases same : other = ref
    · subst same
      obtain ⟨_, own, cell, timer, facts, _⟩ := here target stored
      exact ⟨own, cell, timer, facts⟩
    · obtain ⟨was, timer, _⟩ := old other target same stored
      rw [timer]
      exact placed.owned other target was
  · intro other member target stored
    by_cases same : other = ref
    · subst same
      obtain ⟨_, own, cell, timer, _, armed, _⟩ := here target stored
      rw [due target cell timer own]
      exact armed member
    · obtain ⟨was, _, isDue⟩ := old other target same stored
      rw [isDue]
      exact placed.armed other ((others other same).2.2.1 member) target was
  · intro other member target stored
    rw [ticks]
    by_cases same : other = ref
    · subst same
      obtain ⟨_, own, cell, timer, _, _, waits⟩ := here target stored
      rw [due target cell timer own]
      exact waits member
    · obtain ⟨was, _, isDue⟩ := old other target same stored
      rw [isDue]
      exact placed.waiting other ((others other same).2.2.2 member) target was

theorem promoteRequest_granted {cell : Timer} (own : request.timer = ref)
    (timer : sched.timer ref = some cell) (now seconds : Nat) (failed : List RequestRef) :
    promoteRequest now seconds true ref request (sched, failed) =
      ({ sched with
          requestsWait := sched.requestsWait.erase ref
          requests := sched.requests ++ [ref]
          timer := update sched.timer ref
            (some { cell with fireAt := some (now + seconds) }) },
        failed) := by
  simp [promoteRequest, scheduleRequestNow, Sched.setTimer, own, timer]

theorem promoteRequest_refused (now seconds : Nat) (failed : List RequestRef) :
    promoteRequest now seconds false ref request (sched, failed) =
      ({ sched with
          requestsWait := sched.requestsWait.erase ref
          request := update sched.request ref (some { request with refused := true }) },
        failed ++ [ref]) := by
  simp [promoteRequest, scheduleRequestNow, Sched.setRequest]

section
variable (placed : Placed exact sched failed) (member : ref ∈ sched.requestsWait)
  (found : sched.request ref = some request)
include placed member found

theorem Placed.arm {seconds : Nat} (late : request.created + request.timeout ≤ now + seconds)
    (onTime : exact → request.refused = false → now + seconds = request.created + request.timeout) :
    Placed exact (promoteRequest now seconds true ref request (sched, failed)).1
      failed := by
  obtain ⟨own, cell, timer, active, data⟩ := placed.owned ref request found
  have moved := (linked_move failed member).1
  have distinct := moved.nodup_iff.mpr placed.nodup
  rw [promoteRequest_granted own timer]
  refine placed.touch ref distinct (fun other => moved.mem_iff.trans (placed.live other))
    (Nat.le_refl _) rfl ?_ ?_
  · intro other different
    refine ⟨rfl, fun _ => by simp [different], by simp [different], ?_⟩
    exact fun left => mem_append.mpr ((mem_append.mp left).imp_left mem_of_mem_erase)
  · intro target stored
    obtain rfl : request = target := some.inj (found.symm.trans stored)
    refine ⟨placed.fresh ref (by simp [found]), own, _, update_self .., ⟨active, data⟩,
      fun _ => ⟨_, rfl, late, onTime⟩, fun left => ?_⟩
    exact absurd rfl ((nodup_append.mp distinct).2.2 ref (by simp) ref left)

theorem Placed.refuse (seconds : Nat) :
    Placed exact (promoteRequest now seconds false ref request (sched, failed)).1
      (failed ++ [ref]) := by
  obtain ⟨own, cell, timer, facts⟩ := placed.owned ref request found
  have waited : ref ∈ sched.requestsWait ++ failed := mem_append_left _ member
  have unarmed := (placed.waiting ref waited request found).1
  rw [Sched.dueAt, own, timer, bind_some] at unarmed
  have moved := (linked_move failed member).2
  rw [promoteRequest_refused]
  refine placed.touch ref (moved.nodup_iff.mpr placed.nodup) ?_ (Nat.le_refl _) rfl ?_ ?_
  · intro other
    apply (moved.mem_iff.trans (placed.live other)).trans
    by_cases same : other = ref
    · subst same
      simp [found]
    · simp [same]
  · intro other different
    refine ⟨update_of_ne different .., fun _ => rfl, id, fun left => ?_⟩
    simp only [mem_append, mem_singleton, different, or_false] at left ⊢
    exact left.imp_left mem_of_mem_erase
  · intro target stored
    dsimp only at stored
    rw [update_self] at stored
    cases stored
    refine ⟨placed.fresh ref (by simp [found]), own, cell, timer, facts, fun armed => ?_,
      fun _ => ⟨unarmed, fun _ granted => by cases granted⟩⟩
    exact absurd rfl ((nodup_append.mp placed.nodup).2.2 ref armed ref waited)

end

theorem Promoting.promoteRequest {rest : List RequestRef}
    (promoting : Promoting exact now (ref :: rest) sched failed)
    (found : sched.request ref = some request) {seconds : Nat} (granted : Bool)
    (late : request.created + request.timeout ≤ now + seconds)
    (onTime : exact → request.refused = false → now + seconds = request.created + request.timeout) :
    Promoting exact now rest (promoteRequest now seconds granted ref request (sched, failed)).1
      (promoteRequest now seconds granted ref request (sched, failed)).2 := by
  have member := promoting.pending ref mem_cons_self
  obtain ⟨notIn, distinct⟩ := nodup_cons.mp promoting.distinct
  have waitNodup : sched.requestsWait.Nodup :=
    (nodup_append.mp (nodup_append.mp promoting.placed.nodup).2.1).1
  have pending : ∀ other ∈ rest, other ∈ sched.requestsWait.erase ref := by
    intro other later
    have different : other ≠ ref := by
      rintro rfl
      exact notIn later
    exact (mem_erase_of_ne different).mpr (promoting.pending other (mem_cons_of_mem _ later))
  have done : ∀ other ∈ sched.requestsWait.erase ref, other ∉ rest →
      other ≠ ref ∧ ∀ target, sched.request other = some target →
        now + requestFrame < target.created + target.timeout := by
    intro other waits looked
    obtain ⟨different, waited⟩ := waitNodup.mem_erase_iff.mp waits
    refine ⟨different, promoting.done other waited ?_⟩
    simpa [different] using looked
  cases granted with
  | true =>
    obtain ⟨own, cell, timer, _⟩ := promoting.placed.owned ref request found
    have armed := promoting.placed.arm member found late onTime
    refine ⟨armed, pending, distinct, ?_, promoting.refused⟩
    intro other waits looked
    exact (done other waits looked).2
  | false =>
    have refused := @Placed.refuse _ _ _ _ _ _ now promoting.placed member found seconds
    rw [promoteRequest_refused] at refused ⊢
    refine ⟨refused, pending, distinct, ?_, ?_⟩
    · intro other waits looked target linked
      obtain ⟨different, early⟩ := done other waits looked
      dsimp only at linked
      rw [update_of_ne different] at linked
      exact early target linked
    · intro other out target linked
      dsimp only at linked
      by_cases same : other = ref
      · subst same
        rw [update_self] at linked
        cases linked
        rfl
      · rw [update_of_ne same] at linked
        apply promoting.refused other _ target linked
        simpa [same] using out

theorem promoting_promoteLoop (rest : List RequestRef) (grants : List Bool)
    {current : Sched Data × List RequestRef}
    (promoting : Promoting exact now rest current.1 current.2)
    (punctual : exact → now ≤ current.1.lastTick + requestFrame) :
    Promoting exact now [] (promoteLoop now rest grants current).1
      (promoteLoop now rest grants current).2 := by
  induction rest generalizing grants current with
  | nil => exact promoting
  | cons ref rest ih =>
    obtain ⟨sched, failed⟩ := current
    dsimp only at promoting punctual
    have member := promoting.pending ref mem_cons_self
    have linked : ref ∈ sched.linked failed := mem_append_right _ (mem_append_left _ member)
    obtain ⟨request, found⟩ := isSome_iff_exists.mp ((promoting.placed.live ref).mp linked)
    have waiting := promoting.placed.waiting ref (mem_append_left _ member) request found
    have ticks : ∀ seconds granted, (promoteRequest now seconds granted ref
        request (sched, failed)).1.lastTick = sched.lastTick := by
      intro seconds granted
      cases granted with
      | true => simp [promoteRequest, scheduleRequestNow, Sched.setTimer]
      | false => simp [promoteRequest, scheduleRequestNow, Sched.setRequest]
    simp only [promoteLoop, found]
    split
    · next overdue =>
      apply ih
      · apply promoting.promoteRequest found
        · omega
        · -- a punctual tick finds no request past its timeout
          intro wants granted
          have early := waiting.2 wants granted
          have tick := punctual wants
          omega
      · rw [ticks]
        exact punctual
    · next young =>
      split
      · next soon =>
        apply ih
        · apply promoting.promoteRequest found
          · omega
          · intro _ _
            omega
        · rw [ticks]
          exact punctual
      · next early =>
        apply ih _ _ punctual
        refine ⟨promoting.placed,
          fun other later =>
            promoting.pending other (mem_cons_of_mem _ later),
          (nodup_cons.mp promoting.distinct).2, ?_,
          promoting.refused⟩
        intro other waits looked target stored
        by_cases same : other = ref
        · subst same
          have equal : request = target := some.inj (found.symm.trans stored)
          subst equal
          omega
        · apply promoting.done other waits _ target stored
          simpa [same] using looked

theorem Placed.promote (placed : Placed exact sched []) (grants : List Bool)
    (punctual : exact → now ≤ sched.lastTick + requestFrame) :
    Placed exact (scheduleRequestPromote sched now grants) [] := by
  have distinct : sched.requestsWait.Nodup := by
    have linked := (nodup_append.mp placed.nodup).2.1
    simpa using linked
  have start : Promoting exact now sched.requestsWait sched [] := by
    refine ⟨placed, fun _ member => member, distinct, ?_, ?_⟩
    · intro other waits looked
      exact absurd waits looked
    · intro other impossible
      cases impossible
  have ended : Promoting exact now [] (promoteLoop now sched.requestsWait grants (sched, [])).1
      (promoteLoop now sched.requestsWait grants (sched, [])).2 :=
    promoting_promoteLoop sched.requestsWait grants start punctual
  simp only [scheduleRequestPromote]
  generalize promoteLoop now sched.requestsWait grants (sched, []) = result at ended
  obtain ⟨nodup, live, fresh, owned, armed, waiting⟩ := ended.placed
  constructor
  · simpa [Sched.linked] using nodup
  · simpa [Sched.linked] using live
  · exact fresh
  · exact owned
  · exact armed
  · intro other left target linked
    rw [append_nil] at left
    obtain ⟨unarmed, _⟩ := waiting other left target linked
    refine ⟨unarmed, fun _ granted => ?_⟩
    rcases mem_append.mp left with waits | out
    · exact ended.done other waits not_mem_nil target linked
    · rw [ended.refused other out target linked] at granted
      cases granted

end

section
variable {ref : RequestRef}
  {request : Request Data}

section
variable (placed : Placed exact sched [])
include placed

theorem Placed.dead : sched.request sched.next = none ∧ sched.next ∉ sched.linked [] := by
  have dead : ¬(sched.request sched.next).isSome = true := fun isLive =>
    Nat.lt_irrefl _ (placed.fresh _ isLive)
  exact ⟨not_isSome_iff_eq_none.mp dead, fun member =>
    dead ((placed.live sched.next).mp member)⟩

private theorem Placed.ne_next {other : RequestRef} (stored : sched.request other ≠ none) :
    other ≠ sched.next := by
  rintro rfl
  exact stored placed.dead.1

private theorem Placed.add {cell : Timer}
    (requests : next.request = update sched.request sched.next (some request))
    (timers : next.timer = update sched.timer sched.next (some cell))
    (issued : next.next = sched.next + 1)
    (ticks : next.lastTick = sched.lastTick) (own : request.timer = sched.next)
    (active : cell.active = true) (data : cell.data = some sched.next)
    (placing :
      next.requests = sched.requests ++ [sched.next] ∧ next.requestsWait = sched.requestsWait ∧
          cell.fireAt = some (request.created + request.timeout) ∨
        next.requests = sched.requests ∧ next.requestsWait = sched.requestsWait ++ [sched.next] ∧
          cell.fireAt = none ∧
          (exact → sched.lastTick + requestFrame < request.created + request.timeout)) :
    Placed exact next [] := by
  have new := placed.dead.2
  have moved : (next.linked []).Perm (sched.next :: sched.linked []) := by
    rcases placing with ⟨here, there, _⟩ | ⟨here, there, _⟩
    · simp only [Sched.linked, here, there, append_nil]
      rw [append_assoc]
      exact perm_middle
    · simp only [Sched.linked, here, there, append_nil]
      rw [← append_assoc]
      exact perm_append_singleton _ _
  refine placed.touch sched.next (moved.nodup_iff.mpr (nodup_cons.mpr ⟨new, placed.nodup⟩))
    ?_ (issued ▸ Nat.le_succ _) ticks ?_ ?_
  · intro other
    rw [moved.mem_iff, requests]
    by_cases same : other = sched.next
    · simp [same]
    · simpa [same] using placed.live other
  · intro other different
    refine ⟨by simp [requests, different], fun _ => by simp [timers, different], ?_, ?_⟩
    · rcases placing with ⟨here, _⟩ | ⟨here, _⟩ <;> simp [here, different]
    · rcases placing with ⟨_, there, _⟩ | ⟨_, there, _⟩ <;> simp [there, different]
  · intro target stored
    rw [requests, update_self] at stored
    obtain rfl := some.inj stored
    refine ⟨issued ▸ Nat.lt_succ_self _, own, cell, by simp [timers], ⟨active, data⟩, ?_, ?_⟩
    · intro member
      rcases placing with ⟨_, _, armed⟩ | ⟨here, _, _⟩
      · exact ⟨_, armed, Nat.le_refl _, fun _ _ => rfl⟩
      · rw [here] at member
        exact absurd (mem_append_left _ member) new
    · intro member
      rcases placing with ⟨_, there, _⟩ | ⟨_, _, unarmed, early⟩
      · rw [there] at member
        exact absurd (mem_append_right _ member) new
      · exact ⟨unarmed, fun wants _ => early wants⟩

private theorem Placed.congr (requests : next.requests = sched.requests)
    (requestsWait : next.requestsWait = sched.requestsWait) (cells : next.request = sched.request)
    (timers : ∀ other, sched.request other ≠ none → next.timer other = sched.timer other)
    (issued : sched.next ≤ next.next)
    (ticks : next.lastTick = sched.lastTick) : Placed exact next [] := by
  have linked : next.linked [] = sched.linked [] := by
    rw [Sched.linked, Sched.linked, requests, requestsWait]
  apply placed.touch sched.next (linked ▸ placed.nodup) (by rw [linked, cells]; exact placed.live)
    issued ticks
  · intro other _
    rw [cells, requests, requestsWait]
    exact ⟨rfl, timers other, id, id⟩
  · intro target stored
    rw [cells, placed.dead.1] at stored
    cases stored

/-- A new request is armed for the end of its timeout, or nothing of it is
left. -/
private theorem Placed.scheduleOrFree (now timeout : Nat) (data : Data) (granted : Bool) :
    Placed exact
      (scheduleOrFree (sched.addCells now timeout data) now timeout granted sched.next).1 [] := by
  have answer : ¬(0 : Int) = -1 := by decide
  cases granted with
  | true =>
    simp only [Scheduler.scheduleOrFree, scheduleRequestNow, if_true, Sched.addCells,
      Sched.setTimer, update_self, update_idem, map_some, answer, if_false]
    exact placed.add rfl rfl rfl rfl rfl rfl rfl (.inl ⟨rfl, rfl, rfl⟩)
  | false =>
    have dead := placed.dead.1
    refine placed.congr rfl rfl ?_ ?_ (Nat.le_succ _) rfl
    · simp [Scheduler.scheduleOrFree, scheduleRequestNow, Sched.addCells,
        Sched.freeCells, Sched.setTimer, Sched.setRequest, ← dead]
    · intro other stored
      have different := placed.ne_next stored
      simp [Scheduler.scheduleOrFree, scheduleRequestNow, Sched.addCells,
        Sched.freeCells, Sched.setTimer, Sched.setRequest, different]

theorem Placed.requestDestroy (destroyed : schedRequestDestroy sched ref = some next) :
    Placed exact next [] := by
  obtain ⟨request, found, rfl⟩ := map_eq_some_iff.mp destroyed
  obtain ⟨own, cell, timer, _⟩ := placed.owned ref request found
  obtain ⟨here, there, apart⟩ := nodup_append.mp placed.nodup
  rw [append_nil] at there apart
  refine placed.touch ref ?_ ?_ (Nat.le_refl _) rfl ?_ ?_
  · simp only [Sched.linked, schedTimerInvalidate, Sched.setTimer, Sched.setRequest, append_nil]
    apply nodup_append.mpr
    refine ⟨here.erase ref, there.erase ref, ?_⟩
    intro left leftIn right rightIn
    exact apart left (mem_of_mem_erase leftIn) right (mem_of_mem_erase rightIn)
  · intro other
    have live := placed.live other
    simp only [Sched.linked, schedTimerInvalidate, Sched.setTimer, Sched.setRequest,
      append_nil, mem_append, here.mem_erase_iff, there.mem_erase_iff] at live ⊢
    by_cases same : other = ref
    · simp [same]
    · simpa [same] using live
  · intro other different
    simp only [schedTimerInvalidate, Sched.setTimer, Sched.setRequest, own, ne_eq, different,
      not_false_eq_true, update_of_ne, append_nil]
    exact ⟨trivial, fun _ => trivial, mem_of_mem_erase, mem_of_mem_erase⟩
  · intro target stored
    simp [Sched.setRequest] at stored

end

theorem request_scheduleOrFree {other : Nat}
    (now seconds : Nat) (granted : Bool) (different : other ≠ ref) :
    (scheduleOrFree sched now seconds granted ref).1.request other = sched.request other := by
  cases granted with
  | true => rfl
  | false =>
    simp [scheduleOrFree, scheduleRequestNow, Sched.freeCells,
      Sched.setRequest, Sched.setTimer, different]

theorem request_requestDestroy {other : Nat}
    (destroyed : schedRequestDestroy sched ref = some next) (different : other ≠ ref) :
    next.request other = sched.request other := by
  obtain ⟨request, _, rfl⟩ := map_eq_some_iff.mp destroyed
  simp [schedTimerInvalidate, Sched.setRequest, Sched.setTimer, different]

variable [DecidableEq Data] {made : Call Data}

inductive CallResult (sched : Sched Data) (made : Call Data) : Sched Data → Prop where
  | unchanged : CallResult sched made sched
  | leftTimer : CallResult sched made sched.addTimer
  | waits (now timeout : Nat) (data : Data)
      (later : made.punctual sched.lastTick → sched.lastTick ≤ now)
      (long : requestFrame < timeout) :
      CallResult sched made (scheduleRequestWait (sched.addCells now timeout data) sched.next)
  | scheduled (now timeout : Nat) (data : Data) (granted : Bool) :
      CallResult sched made
        (scheduleOrFree (sched.addCells now timeout data) now timeout granted sched.next).1
  | destroyed {next : Sched Data} (other : RequestRef) (removed : made.removes sched other)
      (destroyed : schedRequestDestroy sched other = some next) : CallResult sched made next

theorem call_result (taken : call sched made = some next) : CallResult sched made next := by
  cases made with
  | requestCreate data backoff isShuttingDown env =>
    cases taken
    simp only [schedRequestCreate]
    generalize (if isShuttingDown then 0 else backoff) + 1 = seconds
    split
    · exact .unchanged
    · split
      · exact .leftTimer
      · split
        · next long => exact .waits env.now _ data id long
        · exact .scheduled env.now _ data env.granted
  | retryNow data env =>
    cases taken
    simp only [schedRetryNow]
    split
    · exact .unchanged
    · exact .scheduled env.now 0 data env.granted
  | requestInvalidate data =>
    cases taken
    simp only [schedRequestInvalidate]
    split
    · exact .unchanged
    · next other search =>
      cases destroyed : schedRequestDestroy sched other with
      | none => exact .unchanged
      | some left =>
        obtain ⟨request, found, _⟩ := map_eq_some_iff.mp destroyed
        have holds := List.find?_some search
        simp only [Sched.holds, found, decide_eq_true_eq] at holds
        exact .destroyed other ⟨request, found, holds⟩ destroyed
  | requestDestroy other => exact .destroyed other rfl taken

theorem Placed.call (placed : Placed exact sched [])
    (punctual : exact → made.punctual sched.lastTick) (taken : call sched made = some next) :
    Placed exact next [] := by
  cases call_result taken with
  | unchanged => exact placed
  | leftTimer =>
    refine placed.congr rfl rfl rfl ?_ (Nat.le_succ _) rfl
    intro other stored
    simp [Sched.addTimer, placed.ne_next stored]
  | waits now timeout data later long =>
    refine placed.add rfl rfl rfl rfl rfl rfl rfl (.inr ⟨rfl, rfl, rfl, fun wants => ?_⟩)
    have tick := later (punctual wants)
    simp only
    omega
  | scheduled now timeout data granted => exact placed.scheduleOrFree now timeout data granted
  | destroyed other _ destroyed => exact placed.requestDestroy destroyed

theorem lastTick_call (taken : call sched made = some next) : next.lastTick = sched.lastTick := by
  cases call_result taken with
  | unchanged | leftTimer => rfl
  | waits now timeout data _ _ => rfl
  | scheduled now timeout data granted =>
    cases granted with
    | true | false => rfl
  | destroyed other _ destroyed =>
    obtain ⟨request, _, rfl⟩ := map_eq_some_iff.mp destroyed
    rfl

theorem Placed.runCalls (placed : Placed exact sched []) (calls : List (Call Data))
    (punctual : exact → ∀ made ∈ calls, made.punctual sched.lastTick)
    (taken : runCalls sched calls = some next) : Placed exact next [] := by
  induction calls generalizing sched with
  | nil =>
    cases taken
    exact placed
  | cons first rest ih =>
    obtain ⟨middle, called, later⟩ := bind_eq_some_iff.mp taken
    apply ih (placed.call _ called) _ later
    · exact fun wants => punctual wants first mem_cons_self
    · intro wants made member
      rw [lastTick_call called]
      exact punctual wants made (mem_cons_of_mem _ member)

theorem Placed.call_keeps (placed : Placed exact sched [])
    (taken : Scheduler.call sched made = some next) (found : sched.request ref = some request) :
    next.request ref = some request ∨ made.removes sched ref := by
  have old : ref ≠ sched.next := placed.ne_next (by simp [found])
  have added : ∀ now timeout data,
      (sched.addCells now timeout data).request ref = some request := by
    intro now timeout data
    simpa [Sched.addCells, old] using found
  cases call_result taken with
  | unchanged | leftTimer => exact .inl found
  | waits now timeout data _ _ => exact .inl (added now timeout data)
  | scheduled now timeout data granted =>
    left
    rw [request_scheduleOrFree _ _ _ old]
    apply added
  | destroyed other removed destroyed =>
    by_cases same : ref = other
    · subst same
      exact .inr removed
    · exact .inl ((request_requestDestroy destroyed same).trans found)

theorem Placed.runCalls_keeps (placed : Placed False sched []) (calls : List (Call Data))
    (taken : Scheduler.runCalls sched calls = some next)
    (found : sched.request ref = some request) :
    next.request ref = some request ∨ ∃ made ∈ calls, made.removes sched ref := by
  induction calls generalizing sched with
  | nil =>
    cases taken
    exact .inl found
  | cons first rest ih =>
    obtain ⟨middle, called, later⟩ := bind_eq_some_iff.mp taken
    rcases placed.call_keeps called found with kept | removed
    · have following : Placed False middle [] :=
        placed.call (fun impossible => impossible.elim) called
      rcases ih following later kept with still | ⟨made, member, removed⟩
      · exact .inl still
      · refine .inr ⟨made, mem_cons_of_mem _ member, ?_⟩
        -- what a call removes depends on the cell of the request only
        cases made with
        | requestInvalidate data =>
          obtain ⟨target, stored, same⟩ := removed
          rw [kept] at stored
          cases stored
          exact ⟨request, found, same⟩
        | requestDestroy other => exact removed
        | requestCreate data backoff isShuttingDown env | retryNow data env => exact removed.elim
    · exact .inr ⟨first, mem_cons_self, removed⟩

end

section

theorem isSome_promoteLoop (now : Nat) (rest : List RequestRef) (grants : List Bool)
    (current : Sched Data × List RequestRef) (ref : RequestRef) :
    ((promoteLoop now rest grants current).1.request ref).isSome =
      (current.1.request ref).isSome := by
  have one : ∀ seconds granted first request (current : Sched Data × List RequestRef),
      current.1.request first = some request →
        ((promoteRequest now seconds granted first request current
          ).1.request ref).isSome = (current.1.request ref).isSome := by
    intro seconds granted first request current found
    cases granted with
    | true => simp [promoteRequest, scheduleRequestNow, Sched.setTimer]
    | false =>
      by_cases same : ref = first
      · subst same
        simp [promoteRequest, scheduleRequestNow, Sched.setRequest, found]
      · simp [promoteRequest, scheduleRequestNow, Sched.setRequest, same]
  induction rest generalizing grants current with
  | nil => rfl
  | cons first rest ih =>
    simp only [promoteLoop]
    split
    · apply ih
    · next request found =>
      split
      · rw [ih, one _ _ _ _ _ found]
      · split
        · rw [ih, one _ _ _ _ _ found]
        · apply ih

variable [DecidableEq Data]

theorem step_timer {ref : TimerRef} {now : Nat} {calls : List (Call Data)}
    {ret : Int} (taken : step sched (.timer ref now calls ret) = some next) :
    next = sched ∨ ∃ cell request middle, sched.timer ref = some cell ∧
      cell.data = some request ∧ runCalls sched calls = some middle ∧
      (ret = 0 ∧ schedRequestDestroy middle request = some next ∨ ret ≠ 0 ∧ next = middle) := by
  simp only [step] at taken
  split at taken
  · cases taken
  · next cell found =>
    split at taken
    · exact .inl (some.inj taken).symm
    · split at taken
      · next due request isDue data =>
        split at taken
        · obtain ⟨middle, called, later⟩ := bind_eq_some_iff.mp taken
          refine .inr ⟨cell, request, middle, found, data, called, ?_⟩
          split at later
          · next zero => exact .inl ⟨zero, later⟩
          · next other => exact .inr ⟨other, (some.inj later).symm⟩
        · cases taken
      · cases taken

theorem Placed.step (placed : Placed exact sched []) {event : Event Data}
    (punctual : exact → Punctual sched event) (taken : step sched event = some next) :
    Placed exact next [] := by
  cases event with
  | call made => exact placed.call punctual taken
  | frame now grants =>
    cases taken
    exact placed.promote grants punctual
  | timer ref now calls ret =>
    rcases step_timer taken with
      rfl | ⟨cell, request, middle, _, _, called, ended⟩
    · exact placed
    · have following := placed.runCalls calls punctual called
      rcases ended with ⟨_, destroyed⟩ | ⟨_, rfl⟩
      · exact following.requestDestroy destroyed
      · exact following
  | cleanup =>
    cases taken
    refine placed.congr rfl rfl rfl ?_ (Nat.le_refl _) rfl
    intro other linked
    obtain ⟨request, stored⟩ := ne_none_iff_exists'.mp linked
    obtain ⟨_, cell, timer, active, _⟩ := placed.owned other request stored
    simp [schedTimerCleanup, timer, active]

theorem Placed.losesOnly (placed : Placed False sched []) {event : Event Data}
    (taken : Scheduler.step sched event = some next) : LosesOnly sched event next := by
  intro ref isLive
  obtain ⟨request, found⟩ := isSome_iff_exists.mp isLive
  have still : next.request ref = some request →
      (next.request ref).isSome = true := by
    intro stored
    rw [stored]
    rfl
  cases event with
  | call made => exact (placed.call_keeps taken found).imp still id
  | frame now grants =>
    left
    cases taken
    simpa [scheduleRequestPromote, isSome_promoteLoop] using isLive
  | timer fired now calls ret =>
    rcases step_timer taken with
      rfl | ⟨cell, dispatched, middle, timer, data, called, ended⟩
    · exact .inl isLive
    · rcases placed.runCalls_keeps calls called found with kept | removed
      · rcases ended with ⟨zero, destroyed⟩ | ⟨_, rfl⟩
        · by_cases same : ref = dispatched
          · right
            subst same
            exact .inl ⟨cell, timer, data, zero⟩
          · left
            rw [request_requestDestroy destroyed same, kept]
            rfl
        · exact .inl (still kept)
      · exact .inr (.inr removed)
  | cleanup =>
    left
    cases taken
    exact isLive

end

/-- In every state of the scheduler every live request is in exactly one list,
a timer is asked for the end of its timeout or later, and an event takes away
only what it destroys, invalidates or dispatches.  When the ticks are punctual,
requests that are granted their timers get those for the end of their
timeout. -/
theorem requests_listed_and_armed [DecidableEq Data] (start : Nat) :
    (∀ sched : Sched Data,
      Run.Reaches step (fun _ _ => True) (schedCreate Data start) sched →
        sched.ListedOnce ∧ sched.NeverEarly ∧
          ∀ event next, step sched event = some next → LosesOnly sched event next) ∧
      ∀ sched : Sched Data,
        Run.Reaches step Punctual (schedCreate Data start) sched → sched.OnTime := by
  constructor
  · intro sched reached
    have placed : Placed False sched [] := by
      apply reached.invariant (placed_schedCreate False start)
      intro current next event placed _ taken
      exact placed.step (fun impossible => impossible.elim) taken
    exact ⟨placed.listedOnce, placed.neverEarly, fun event next taken => placed.losesOnly taken⟩
  · intro sched reached
    have placed : Placed True sched [] := by
      apply reached.invariant (placed_schedCreate True start)
      intro current next event placed punctual taken
      exact placed.step (fun _ => punctual) taken
    exact placed.onTime

instance (lastTick : Nat) (made : Call Data) : Decidable (made.punctual lastTick) := by
  cases made with
  | requestCreate data backoff isShuttingDown env => exact inferInstanceAs (Decidable (_ ≤ _))
  | retryNow _ _ | requestInvalidate _ | requestDestroy _ => exact .isTrue trivial

instance (sched : Sched Data) (event : Event Data) : Decidable (Punctual sched event) := by
  cases event with
  | call made => exact inferInstanceAs (Decidable (made.punctual _))
  | frame now grants => exact inferInstanceAs (Decidable (_ ≤ _))
  | timer ref now calls ret => exact inferInstanceAs (Decidable (∀ _ ∈ _, _))
  | cleanup => exact .isTrue trivial

/-- A retry after 25 seconds waits for two ticks and is then armed for the end
of its timeout; a retry at once stays armed all the time. -/
theorem requests_listed_and_armed_two_ticks :
    ∃ sched : Sched Nat,
      Run.Reaches step Punctual (schedCreate Nat 100) sched ∧
        sched.requests = [1, 0] ∧ sched.requestsWait = [] ∧
        sched.timer 0 = some
          { active := true, data := some 0, fireAt := some 127 } ∧
        sched.ListedOnce ∧ sched.NeverEarly ∧ sched.OnTime := by
  obtain ⟨sched, taken, requests, waiting, timer⟩ : ∃ sched : Sched Nat,
      Run.runGuarded step Punctual (schedCreate Nat 100)
        [.call (.requestCreate 5 24 false
            { now := 102
              timerAllocated := true
              requestAllocated := true
              granted := true }),
          .call (.retryNow 6
            { now := 103
              timerAllocated := true
              requestAllocated := true
              granted := true }),
          .frame 110 [], .frame 119 [true]] = some sched ∧
        sched.requests = [1, 0] ∧ sched.requestsWait = [] ∧
        sched.timer 0 = some
          { active := true, data := some 0, fireAt := some 127 } :=
    ⟨_, rfl, rfl, rfl, rfl⟩
  have reached := Run.Reaches.refl.of_runGuarded taken
  have always := (requests_listed_and_armed 100).1 sched (reached.mono fun _ => trivial)
  exact ⟨sched, reached, requests, waiting, timer, always.1, always.2.1,
    (requests_listed_and_armed 100).2 sched reached⟩

/-- The nanoseconds of the clock that `time` reads and of `CLOCK_MONOTONIC`. -/
structure Moment where
  realtime : Nat
  monotonic : Nat

/-- When a timer of `_mk_event_timeout_create` fires on the clock of `time`, if
both clocks go alike: it is set to a whole second of `CLOCK_MONOTONIC`. -/
def timeoutFires (moment : Moment) (seconds : Nat) : Nat :=
  moment.realtime + ((moment.monotonic / 10 ^ 9 + seconds) * 10 ^ 9 - moment.monotonic)

/-- At 100.1 seconds a timer is asked for at second 101, and when the monotonic
clock stands at 50.9 seconds it fires at 100.2. -/
theorem timeout_fires_early :
    ∃ sched : Sched Nat,
      Run.run step (schedCreate Nat 100)
        [.call (.requestCreate 5 0 false
          { now := 100100000000 / 10 ^ 9
            timerAllocated := true
            requestAllocated := true
            granted := true })] = some sched ∧
        sched.timer 0 = some { active := true, data := some 0, fireAt := some 101 } ∧
        timeoutFires ⟨100100000000, 50900000000⟩ 1 = 100200000000 :=
  ⟨_, rfl, rfl, rfl⟩

end FluentBit.Scheduler
