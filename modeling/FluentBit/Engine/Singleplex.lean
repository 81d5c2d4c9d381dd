import FluentBit.Engine.Queue

/-!
# Mutual exclusion in singleplex queues

At most one entry of a synchronous output is in progress, its flush is the
only one of the output in flight, it leaves `in_progress` when that flush has
ended, and entries are started in the order in which they were enqueued, until
the pipe write of an output without worker threads fails:
`flb_output_task_flush` then flushes the next entry, which frees the one in
progress, and `flb_output_task_queue_flush_one` reads that entry afterwards.
-/

namespace FluentBit.Engine

open List

variable {Out : Type} [DecidableEq Out] {config : Config Out}

def startedOf (state : State Out) (out : Out) : List Nat :=
  (state.started.filter (·.1 = out)).map (·.2)

/-- Entries are numbered in the order they were enqueued, and started in that
order. -/
structure Ordered (out : Out) (state : State Out) : Prop where
  pending : ((state.queue out).pending.map (·.seq)).Pairwise (· < ·)
  started : (startedOf state out).Pairwise (· < ·)
  before : ∀ seq ∈ startedOf state out, ∀ entry ∈ (state.queue out).pending, seq < entry.seq

variable {out other : Out} {state after : State Out}

theorem Ordered.of_eq (ordered : Ordered out state)
    (queue : (after.queue out).pending = (state.queue out).pending)
    (started : after.started = state.started) : Ordered out after := by
  have same : startedOf after out = startedOf state out := by simp [startedOf, started]
  exact
    { pending := by rw [queue]; exact ordered.pending
      started := by rw [same]; exact ordered.started
      before := by rw [same, queue]; exact ordered.before }

variable {entry : Enqueued Out}

section
variable {pending : List (Enqueued Out)} (ordered : Ordered other state)
  (front : (state.queue out).pending = entry :: pending)
include ordered front

theorem Ordered.takeEntry : Ordered other (takeEntry state out entry pending) := by
  by_cases same : other = out
  · subst other
    have sorted := ordered.pending
    rw [front, map_cons, pairwise_cons] at sorted
    exact
      { pending := by simpa using sorted.2
        started := ordered.started
        before := by
          intro seq member other waiting
          rw [takeEntry_queue_self] at waiting
          exact ordered.before seq member other (by simp [front, waiting]) }
  · exact ordered.of_eq (by rw [takeEntry_queue_of_ne _ _ same]) rfl

theorem Ordered.beginEntry (phase : Phase) :
    Ordered other (beginEntry state out entry pending phase) := by
  have taken := ordered.takeEntry front
  have begun : startedOf (Engine.beginEntry state out entry pending phase)
      other = startedOf (Engine.takeEntry state out entry pending) other ++
        if out = other then [entry.seq] else [] := by
    by_cases same : out = other <;> simp [startedOf, Engine.beginEntry, startFlush, same]
  by_cases same : out = other
  · subst other
    rw [if_pos rfl] at begun
    have sorted := ordered.pending
    rw [front, map_cons, pairwise_cons] at sorted
    exact
      { pending := taken.pending
        started := by
          rw [begun]
          refine pairwise_append.mpr ⟨taken.started, pairwise_singleton _ _, ?_⟩
          intro earlier member latest last
          rw [mem_singleton.mp last]
          exact ordered.before earlier member entry (by simp [front])
        before := by
          intro seq member waiting later
          rw [begun] at member
          rcases mem_append.mp member with earlier | latest
          · exact taken.before seq earlier waiting later
          · rw [mem_singleton.mp latest]
            rw [beginEntry_queue, takeEntry_queue_self] at later
            exact sorted.1 waiting.seq (mem_map_of_mem later) }
  · rw [if_neg same, append_nil] at begun
    exact
      { pending := taken.pending
        started := by rw [begun]; exact taken.started
        before := by rw [begun]; exact taken.before }

end

theorem ordered_queueClosed (out other : Out) :
    QueueClosed out (Ordered other : State Out → Prop) :=
  { ended := fun {state} ordered => by
      refine ordered.of_eq ?_ (by unfold endInProgress; split <;> rfl)
      by_cases same : other = out
      · subst other
        simp
      · rw [endInProgress_queue_of_ne _ _ same]
    begun := fun front ordered => ordered.beginEntry front _
    taken := fun front ordered => ordered.takeEntry front
    destroyed := fun {state retry} ordered =>
      ordered.of_eq (by rw [taskRetryDestroy_queue]) (sheds_taskRetryDestroy state retry).started
    read := fun ordered => ordered.of_eq rfl rfl }

def flightsOf (state : State Out) (out : Out) : List (Option Nat) :=
  (state.flushes.filter (·.out = out)).map (·.entry)

/-- The flushes of an output in flight are those of entries in progress, and
there is at most one such entry. -/
structure Exclusive (out : Out) (state : State Out) : Prop where
  flights : (flightsOf state out).Sublist
    ((state.queue out).inProgress.map fun entry => some entry.seq)
  single : (state.queue out).inProgress.length ≤ 1

theorem Exclusive.of_eq (exclusive : Exclusive out state)
    (queue : (after.queue out).inProgress = (state.queue out).inProgress)
    (flights : flightsOf after out = flightsOf state out) : Exclusive out after :=
  ⟨by rw [flights, queue]; exact exclusive.flights, by rw [queue]; exact exclusive.single⟩

/-- The flush of the entry in progress has ended. -/
structure Vacant (out : Out) (log : List Nat) (state : State Out) : Prop where
  flights : flightsOf state out = []
  single : (state.queue out).inProgress.length ≤ 1
  removed : state.removedLive = log
  sorted : ((state.queue out).pending.map (·.seq)).Pairwise (· < ·)

structure Ready (out : Out) (log : List Nat) (state : State Out) : Prop where
  flights : flightsOf state out = []
  nothing : (state.queue out).inProgress = []
  removed : state.removedLive = log
  sorted : ((state.queue out).pending.map (·.seq)).Pairwise (· < ·)

/-- The output is used by one entry, unless a freed entry was read. -/
abbrev Undisturbed (out : Out) (log : List Nat) (state : State Out) : Prop :=
  state.faulted = false → Exclusive out state ∧ state.removedLive = log

section
variable {out : Out} {log : List Nat} {state : State Out} {pending : List (Enqueued Out)}

theorem Ready.exclusive (ready : Ready out log state) : Exclusive out state :=
  ⟨by simp [ready.flights], by simp [ready.nothing]⟩

theorem Vacant.ready_endInProgress (vacant : Vacant out log state) :
    Ready out log (endInProgress state out) := by
  have landed : ∀ flush ∈ state.flushes, flush.out ≠ out := by
    intro flush member same
    have flies : flush.entry ∈ flightsOf state out :=
      mem_map_of_mem (mem_filter.mpr ⟨member, by simpa using same⟩)
    simp [vacant.flights] at flies
  have nothing : ((endInProgress state out).queue out).inProgress =
      [] := by
    have short := vacant.single
    rw [endInProgress_queue_self]
    apply length_eq_zero_iff.mp
    rw [length_tail]
    omega
  have sorted : (((endInProgress state out).queue out).pending.map (·.seq)).Pairwise (· < ·) := by
    simpa using vacant.sorted
  unfold endInProgress at nothing sorted ⊢
  split at nothing
  · exact ⟨vacant.flights, nothing, vacant.removed, vacant.sorted⟩
  · next entry inProgress front =>
    refine ⟨vacant.flights, nothing, ?_, by simpa [front] using sorted⟩
    have quiet : (state.flushes.any fun flush =>
        flush.out = out ∧ flush.entry = some entry.seq) = false := by
      simp only [any_eq_false, decide_eq_true_eq, not_and]
      intro flush member same
      exact (landed flush member same).elim
    simp only [quiet, Bool.false_eq_true, if_false, append_nil]
    exact vacant.removed

theorem sheds_destroyRetry (state : State Out) (retry : Option (RetryRef Out)) :
    Sheds state (destroyRetry state retry) := by
  cases retry with
  | none => exact Sheds.refl state
  | some retry => exact sheds_taskRetryDestroy state retry

theorem Vacant.destroyRetry (vacant : Vacant out log state) (retry : Option (RetryRef Out)) :
    Vacant out log (destroyRetry state retry) := by
  have shed := sheds_destroyRetry state retry
  refine ⟨?_, ?_, shed.removedLive.trans vacant.removed, ?_⟩
  · rw [flightsOf, shed.flushes]
    exact vacant.flights
  · rw [shed.queue]
    exact vacant.single
  · rw [shed.queue]
    exact vacant.sorted

theorem Ready.vacant_takeEntry (ready : Ready out log state)
    (front : (state.queue out).pending = entry :: pending) :
    Vacant out log (takeEntry state out entry pending) :=
  { flights := ready.flights
    single := by simp [ready.nothing]
    removed := ready.removed
    sorted := by
      have sorted := ready.sorted
      rw [front, map_cons, pairwise_cons] at sorted
      simpa using sorted.2 }

theorem Ready.exclusive_beginEntry (ready : Ready out log state)
    (entry : Enqueued Out) (pending : List (Enqueued Out)) (phase : Phase) :
    Undisturbed out log (beginEntry state out entry pending phase) := by
  have flights :
      flightsOf (beginEntry state out entry pending phase) out =
        flightsOf state out ++ [some entry.seq] := by
    simp [flightsOf, beginEntry, startFlush, takeEntry, handOver, taskUsersDec, State.setQueue]
  refine fun _ => ⟨⟨?_, ?_⟩, ready.removed⟩
  · simp [flights, ready.flights]
  · simp [ready.nothing]

theorem faulted_queueClosed (out : Out) :
    QueueClosed out fun state : State Out => state.faulted = true :=
  { ended := fun kept => by
      unfold endInProgress
      split <;> exact kept
    begun := fun _ kept => kept
    taken := fun _ kept => kept
    destroyed := fun kept => (sheds_taskRetryDestroy _ _).faulted.trans kept
    read := fun kept => by simp [readEntry, kept] }

omit [DecidableEq Out] in
theorem faulted_before {next : State Out} (kept : state.faulted = true → next.faulted = true)
    (sound : next.faulted = false) : state.faulted = false := by
  rw [Bool.eq_false_iff]
  intro faulted
  rw [kept faulted] at sound
  cases sound

theorem faulted_routeClosed (ref : TaskRef) :
    RouteClosed ref fun state : State Out => state.faulted = true :=
  { queue := faulted_queueClosed
    handed := fun kept => kept
    begun := fun kept => kept
    entered := fun _ kept => kept
    pushed := fun _ kept => kept }

/-- The queue has no entry of this number. -/
theorem withoutEntry_queueClosed (out : Out) (seq : Nat) :
    QueueClosed out fun state : State Out =>
      ∀ entry ∈ (state.queue out).inProgress ++ (state.queue out).pending, entry.seq ≠ seq :=
  { ended := fun kept entry member => by
      rw [endInProgress_queue_self] at member
      refine kept entry (mem_append.mpr ((mem_append.mp member).imp_left mem_of_mem_tail))
    begun := fun front kept entry member => by
      rw [beginEntry_queue, takeEntry_queue_self] at member
      exact kept entry (by simpa [front, or_assoc] using member)
    taken := fun front kept entry member => by
      rw [takeEntry_queue_self] at member
      exact kept entry (by simpa [front, or_assoc] using member)
    destroyed := fun kept => by
      rw [taskRetryDestroy_queue]
      exact kept
    read := fun kept => kept }

/-- An entry whose pipe write failed is freed when the next one is flushed. -/
theorem Ready.faulted_readEntry (ready : Ready out log state)
    (front : (state.queue out).pending = entry :: pending) :
    (readEntry (outputTaskSingleplexFlushNext config (takeEntry state out entry pending) out) out
      entry).faulted = true := by
  have sorted := ready.sorted
  rw [front, map_cons, pairwise_cons] at sorted
  have closed := withoutEntry_queueClosed out entry.seq
  have ended : ∀ other ∈ ((endInProgress (takeEntry state out entry pending) out).queue
      out).inProgress ++ ((endInProgress (takeEntry state out entry pending) out).queue
      out).pending, other.seq ≠ entry.seq := by
    intro other member
    rw [endInProgress_queue_self, takeEntry_queue_self, ready.nothing] at member
    exact Nat.ne_of_gt (sorted.1 other.seq (mem_map_of_mem (by simpa using member)))
  have freed : ∀ other ∈ ((outputTaskSingleplexFlushNext config
      (takeEntry state out entry pending) out).queue out).inProgress, other.seq ≠ entry.seq := by
    intro other member
    rw [outputTaskSingleplexFlushNext_eq] at member
    split at member
    · exact ended other (mem_append_left _ member)
    · exact closed.flushOne (fun _ => closed.outputTaskSingleplexFlushNext) ended other
        (mem_append_left _ member)
  simp only [readEntry, Bool.or_eq_true, all_eq_true, decide_eq_true_eq]
  exact .inr freed

section
variable (synchronous : (config.output out).synchronous = true)
include synchronous

theorem exclusive_flushOne_step (ready : Ready out log state)
    (front : (state.queue out).pending = entry :: pending)
    (shorter : ∀ current : State Out, Vacant out log current →
      (current.queue out).pending.length = pending.length →
        Undisturbed out log (outputTaskSingleplexFlushNext config current out)) :
    Undisturbed out log (outputTaskQueueFlushOne config
      (outputTaskSingleplexFlushNext config) state out).1 := by
  have taken := ready.vacant_takeEntry front
  obtain ⟨ended, returned, result⟩ :=
    outputTaskQueueFlushOne_result config (outputTaskSingleplexFlushNext config) front
  rw [returned]
  have failed : afterFailure config (outputTaskSingleplexFlushNext config)
      (takeEntry state out entry pending) out =
    outputTaskSingleplexFlushNext config (takeEntry state out entry pending) out := by
    simp [afterFailure, synchronous]
  cases result with
  | started first => exact ready.exclusive_beginEntry entry pending _
  | poolFailed threaded first =>
    rw [failed]
    exact shorter _ taken (by simp)
  | createFailed unthreaded first =>
    refine shorter _ (taken.destroyRetry entry.retry) ?_
    rw [destroyRetry_queue, takeEntry_queue_self]
  | writeFailed unthreaded first =>
    -- the entry is read although the nested call has freed it
    intro sound
    have closed := faulted_queueClosed out
    rw [failed] at sound
    exact (Bool.false_ne_true (sound.symm.trans (closed.outputTaskSingleplexFlushNext
      (closed.destroyRetry (ready.faulted_readEntry front) entry.retry)))).elim

theorem exclusive_flushNext (vacant : Vacant out log state) :
    Undisturbed out log (outputTaskSingleplexFlushNext config state out) := by
  generalize size : (state.queue out).pending.length = length
  induction length using Nat.strongRecOn generalizing state with
  | ind length ih =>
    have ready := vacant.ready_endInProgress
    rw [outputTaskSingleplexFlushNext_eq]
    cases front : ((endInProgress state out).queue out).pending with
    | nil => exact fun _ => ⟨ready.exclusive, ready.removed⟩
    | cons entry pending =>
      have same : (state.queue out).pending = entry :: pending := by simpa using front
      rw [same, length_cons] at size
      refine exclusive_flushOne_step synchronous ready front ?_
      intro current vacant shorter
      exact ih pending.length (by omega) vacant shorter

theorem exclusive_flushOne (ready : Ready out log state)
    (front : (state.queue out).pending = entry :: pending) :
    Undisturbed out log (outputTaskQueueFlushOne config
      (outputTaskSingleplexFlushNext config) state out).1 :=
  exclusive_flushOne_step synchronous ready front
    fun _ vacant _ => exclusive_flushNext synchronous vacant

end

end

theorem exclusiveOther_queueClosed (different : other ≠ out) :
    QueueClosed out (Exclusive other : State Out → Prop) :=
  { ended := fun {state} exclusive => by
      refine exclusive.of_eq (by rw [endInProgress_queue_of_ne state out different]) ?_
      unfold endInProgress
      split <;> rfl
    begun := fun {state entry pending phase} _ exclusive => by
      have away : out ≠ other := fun same => different same.symm
      refine exclusive.of_eq ?_ ?_
      · rw [beginEntry_queue, takeEntry_queue_of_ne state out different]
      · simp [flightsOf, beginEntry, startFlush, takeEntry, handOver,
          taskUsersDec, State.setQueue, away]
    taken := fun {state entry pending} _ exclusive =>
      exclusive.of_eq (by rw [takeEntry_queue_of_ne state out different]) rfl
    destroyed := fun {state retry} exclusive => by
      have shed := sheds_taskRetryDestroy state retry
      exact exclusive.of_eq (by rw [shed.queue]) (by rw [flightsOf, shed.flushes, flightsOf])
    read := fun exclusive => exclusive.of_eq rfl rfl }

structure Singleplexed (config : Config Out) (state : State Out) : Prop where
  exclusive : ∀ out, (config.output out).synchronous = true → Exclusive out state
  ordered : ∀ out, Ordered out state
  removed : state.removedLive = []

theorem singleplexed_initial : Singleplexed config (State.initial : State Out) :=
  { exclusive := fun _ _ => ⟨.refl _, by simp [State.initial]⟩
    ordered := fun _ =>
      ⟨List.Pairwise.nil, List.Pairwise.nil, fun _ member => by
        simp [startedOf, State.initial] at member⟩
    removed := rfl }

section
variable (singleplexed : Singleplexed config state)
include singleplexed

theorem Singleplexed.of_eq (queue : after.queue = state.queue)
    (flights : ∀ out, flightsOf after out = flightsOf state out)
    (started : after.started = state.started) (removed : after.removedLive = state.removedLive) :
    Singleplexed config after :=
  { exclusive := fun out synchronous =>
      (singleplexed.exclusive out synchronous).of_eq (by rw [queue]) (flights out)
    ordered := fun out =>
      (singleplexed.ordered out).of_eq (by rw [queue]) started
    removed := removed.trans singleplexed.removed }

theorem Singleplexed.quiet (quiet : Quiet state after) : Singleplexed config after :=
  singleplexed.of_eq quiet.queue (fun out => by rw [flightsOf, quiet.flushes]; rfl)
    quiet.started quiet.removedLive

theorem Singleplexed.setPhase (id : Nat)
    (phase : Phase) : Singleplexed config (state.setPhase id phase) := by
  refine singleplexed.of_eq rfl (fun out => ?_) rfl rfl
  simp only [flightsOf, State.setPhase, filter_map, map_map]
  have kept : ∀ flush : Flush Out,
      (if flush.id = id then { flush with phase := phase } else flush).out = flush.out ∧
        (if flush.id = id then { flush with phase := phase }
          else flush).entry = flush.entry := by
    intro flush
    split <;> exact ⟨rfl, rfl⟩
  have entries : ((fun flush : Flush Out => flush.entry) ∘ fun flush =>
      if flush.id = id then { flush with phase := phase } else flush) =
        fun flush => flush.entry := by
    funext flush
    exact (kept flush).2
  have outs : ((fun flush : Flush Out => decide (flush.out = out)) ∘
      fun flush =>
        if flush.id = id then { flush with phase := phase } else flush) =
          fun flush => decide (flush.out = out) := by
    funext flush
    simp only [Function.comp_apply, (kept flush).1]
  rw [entries, outs]

end

section
variable (singleplexed : Singleplexed config state)
include singleplexed

theorem Singleplexed.removeFlush (id : Nat) : Singleplexed config (state.removeFlush id) :=
  { exclusive := fun out synchronous => by
      have exclusive := singleplexed.exclusive out synchronous
      exact ⟨((filter_sublist.filter _).map _).trans exclusive.flights, exclusive.single⟩
    ordered := fun out => (singleplexed.ordered out).of_eq rfl rfl
    removed := singleplexed.removed }

theorem Singleplexed.vacant_removeFlush (numbered : Numbered state) {flush : Flush Out}
    (member : flush ∈ state.flushes) (synchronous : (config.output flush.out).synchronous = true) :
    Vacant flush.out [] (state.removeFlush flush.id) := by
  have exclusive := singleplexed.exclusive flush.out synchronous
  obtain ⟨front, back, parts, rest⟩ := numbered.removeFlush_split member
  have flights : (flightsOf state flush.out).length =
      (flightsOf (state.removeFlush flush.id) flush.out).length + 1 := by
    simp only [flightsOf, parts, rest, length_map]
    simp
    omega
  have bound := exclusive.flights.length_le
  rw [length_map] at bound
  exact
    { flights := by
        apply length_eq_zero_iff.mp
        have single := exclusive.single
        omega
      single := exclusive.single
      removed := singleplexed.removed
      sorted := (singleplexed.ordered flush.out).pending }

theorem Singleplexed.queueChange (exclusive : Exclusive out after) (ordered : Ordered out after)
    (removed : after.removedLive = []) (others : ∀ other, other ≠ out →
      (Exclusive other state → Exclusive other after) ∧
        (Ordered other state → Ordered other after)) :
    Singleplexed config after :=
  { exclusive := fun other synchronous => by
      by_cases same : other = out
      · subst other
        exact exclusive
      · exact (others other same).1 (singleplexed.exclusive other synchronous)
    ordered := fun other => by
      by_cases same : other = out
      · subst other
        exact ordered
      · exact (others other same).2 (singleplexed.ordered other)
    removed := removed }

theorem Singleplexed.flushNext (synchronous : (config.output out).synchronous = true)
    (vacant : Vacant out [] state)
    (sound : (outputTaskSingleplexFlushNext config state out).faulted = false) :
    Singleplexed config (outputTaskSingleplexFlushNext config state out) := by
  obtain ⟨exclusive, removed⟩ := exclusive_flushNext synchronous vacant sound
  refine singleplexed.queueChange exclusive
    ((ordered_queueClosed out out).outputTaskSingleplexFlushNext
      (singleplexed.ordered out)) removed ?_
  intro other different
  exact ⟨(exclusiveOther_queueClosed different).outputTaskSingleplexFlushNext,
    (ordered_queueClosed out other).outputTaskSingleplexFlushNext⟩

end

theorem Exclusive.pushEntry (exclusive : Exclusive other state) (retry : Option (RetryRef Out))
    (ref : TaskRef) (out : Out) : Exclusive other (pushEntry state retry ref out) := by
  by_cases same : other = out
  · subst other
    exact exclusive.of_eq (by rw [pushEntry_queue_self]) rfl
  · exact exclusive.of_eq (by rw [pushEntry_queue_of_ne _ _ _ _ same]) rfl

theorem Ordered.pushEntry (ordered : Ordered other state) (numbered : Numbered state)
    (retry : Option (RetryRef Out)) (ref : TaskRef) (out : Out) :
    Ordered other (pushEntry state retry ref out) := by
  by_cases same : other = out
  · subst other
    exact
      { pending := by
          rw [pushEntry_queue_self]
          simp only [map_append]
          refine pairwise_append.mpr ⟨ordered.pending, pairwise_singleton _ _, ?_⟩
          intro earlier member latest last
          rw [mem_singleton.mp last]
          obtain ⟨entry, waiting, rfl⟩ := mem_map.mp member
          exact (numbered.pending _ entry waiting).1
        started := ordered.started
        before := by
          intro seq member entry waiting
          rw [pushEntry_queue_self] at waiting
          rcases mem_append.mp waiting with earlier | latest
          · exact ordered.before seq member entry earlier
          · rw [mem_singleton.mp latest]
            obtain ⟨pair, pairMember, rfl⟩ := mem_map.mp member
            exact numbered.started pair (mem_of_mem_filter pairMember) }
  · exact ordered.of_eq (by rw [pushEntry_queue_of_ne _ _ _ _ same]) rfl

theorem Singleplexed.outputTaskSingleplexEnqueue (singleplexed : Singleplexed config state)
    (numbered : Numbered state) (allIdle : AllIdle state)
    (synchronous : (config.output out).synchronous = true) (retry : Option (RetryRef Out))
    (ref : TaskRef)
    (sound : (outputTaskSingleplexEnqueue config state retry ref out).1.faulted = false) :
    Singleplexed config (outputTaskSingleplexEnqueue config state retry ref out).1 := by
  have exclusive := singleplexed.exclusive out synchronous
  have pushedOrdered := fun other =>
    (singleplexed.ordered other).pushEntry numbered retry ref out
  obtain ⟨ended, returned, result⟩ := outputTaskSingleplexEnqueue_result config state retry ref out
  rw [returned] at sound ⊢
  cases result with
  | allocFailed first =>
    have entered : Singleplexed config (enterQueue state ref out) :=
      singleplexed.of_eq rfl (fun _ => rfl) rfl rfl
    exact entered.quiet (sheds_destroyRetry _ retry).quiet
  | queued first busy =>
    exact singleplexed.queueChange (exclusive.pushEntry retry ref out)
      (pushedOrdered out) singleplexed.removed fun other _ =>
        ⟨fun kept => kept.pushEntry retry ref out, fun _ => pushedOrdered other⟩
  | flushed first idle =>
    have waiting : (state.queue out).pending = [] := allIdle out idle
    have flights : flightsOf state out = [] := by
      have sublist := exclusive.flights
      rw [idle] at sublist
      exact eq_nil_of_sublist_nil sublist
    have ready : Ready out [] (pushEntry state retry ref out) :=
      ⟨flights, by rw [pushEntry_queue_self]; exact idle, singleplexed.removed,
        (pushedOrdered out).pending⟩
    have front := pushEntry_front retry ref waiting
    obtain ⟨alone, removed⟩ := exclusive_flushOne synchronous ready front sound
    refine singleplexed.queueChange alone ((ordered_queueClosed out out).flushOne (fun _ =>
      (ordered_queueClosed out out).outputTaskSingleplexFlushNext) (pushedOrdered out)) removed ?_
    intro other different
    have exclusiveClosed := exclusiveOther_queueClosed different
    have orderedClosed := ordered_queueClosed out other
    exact ⟨fun kept =>
        exclusiveClosed.flushOne (fun _ => exclusiveClosed.outputTaskSingleplexFlushNext)
          (kept.pushEntry retry ref out),
      fun _ => orderedClosed.flushOne (fun _ => orderedClosed.outputTaskSingleplexFlushNext)
        (pushedOrdered other)⟩

theorem Singleplexed.startFlush (singleplexed : Singleplexed config state)
    (multiplexed : (config.output out).synchronous = false) (ref : TaskRef) (phase : Phase) :
    Singleplexed config (startFlush (handOver state ref out) ref out none phase) :=
  { exclusive := fun other synchronous => by
      have away : out ≠ other := by
        rintro rfl
        simp [multiplexed] at synchronous
      refine (singleplexed.exclusive other synchronous).of_eq rfl ?_
      simp [flightsOf, Engine.startFlush, handOver, away]
    ordered := fun other =>
      (singleplexed.ordered other).of_eq rfl (by simp [Engine.startFlush, handOver])
    removed := singleplexed.removed }

/-- The queues are idle or in use, and each output is used exclusively unless
a freed entry was read. -/
abbrev ServedAlone (config : Config Out) (state : State Out) : Prop :=
  AllIdle state ∧ (state.faulted = false → Singleplexed config state)

theorem servedAlone_quietClosed : QuietClosed config (ServedAlone config : State Out → Prop) :=
  { quiet := fun kept quiet => ⟨kept.1.of_queue quiet.queue, fun sound =>
      (kept.2 (quiet.faulted.symm.trans sound)).quiet quiet⟩
    queued := fun {state retry ref out} synchronous numbered _ kept => by
      refine ⟨kept.1.outputTaskSingleplexEnqueue _ _ _, fun sound => ?_⟩
      have before := faulted_before (fun faulted =>
        (faulted_routeClosed ref).outputTaskSingleplexEnqueue faulted retry out) sound
      exact (kept.2 before).outputTaskSingleplexEnqueue numbered kept.1 synchronous _ _ sound
    begun := fun multiplexed kept =>
      ⟨kept.1.of_queue rfl, fun sound => (kept.2 sound).startFlush multiplexed _ _⟩
    phased := fun kept => ⟨kept.1.of_queue rfl, fun sound => (kept.2 sound).setPhase _ _⟩
    removed := fun kept => ⟨kept.1.of_queue rfl, fun sound => (kept.2 sound).removeFlush _⟩ }

theorem servedAlone_step {next : State Out} {event : Event Out}
    (kept : Numbered state ∧ ServedAlone config state)
    (taken : step config state event = some next) : Numbered next ∧ ServedAlone config next := by
  obtain ⟨numbered, served⟩ := kept
  refine ⟨numbered_step numbered taken, servedAlone_quietClosed.step numbered served ?_ taken⟩
  rintro flush member env starts rfl synchronous
  have idle : AllIdle ((state.load { starts := starts, allocs := [] }).removeFlush flush.id) :=
    served.1.of_queue rfl
  refine ⟨idle.flushNext flush.out, fun sound => ?_⟩
  have before : ((state.load { starts := starts, allocs := [] }).removeFlush
      flush.id).faulted = false :=
    faulted_before (faulted_queueClosed flush.out).outputTaskSingleplexFlushNext sound
  have loaded : Singleplexed config (state.load { starts := starts, allocs := [] }) :=
    (served.2 before).quiet ⟨rfl, rfl, rfl, rfl, rfl⟩
  have vacant := loaded.vacant_removeFlush { numbered with } member synchronous
  exact (loaded.removeFlush flush.id).flushNext synchronous vacant sound

/-- What mutual exclusion means for a synchronous output: one entry in
progress, one flush in flight, which is the flush of that entry; no entry was
ever removed during its flush; entries were started in the order they were
enqueued, before all that still wait. -/
structure MutualExclusion (out : Out) (state : State Out) : Prop where
  single : (state.queue out).inProgress.length ≤ 1
  oneFlight : (state.flushes.filter (·.out = out)).length ≤ 1
  sameEntry : ∀ flush ∈ state.flushes, flush.out = out →
    ∃ entry ∈ (state.queue out).inProgress, flush.entry = some entry.seq
  removed : state.removedLive = []
  inOrder : (startedOf state out).Pairwise (· < ·)
  beforeWaiting : ∀ seq ∈ startedOf state out, ∀ entry ∈ (state.queue out).pending, seq < entry.seq

theorem Singleplexed.mutualExclusion (singleplexed : Singleplexed config state)
    (synchronous : (config.output out).synchronous = true) : MutualExclusion out state := by
  have exclusive := singleplexed.exclusive out synchronous
  have ordered := singleplexed.ordered out
  have few := exclusive.flights.length_le
  simp only [flightsOf, length_map] at few
  exact
    { single := exclusive.single
      oneFlight := Nat.le_trans few exclusive.single
      sameEntry := by
        intro flush member same
        have flies : flush.entry ∈ flightsOf state out :=
          mem_map_of_mem (mem_filter.mpr ⟨member, by simpa using same⟩)
        obtain ⟨entry, inProgress, number⟩ := mem_map.mp (exclusive.flights.subset flies)
        exact ⟨entry, inProgress, number.symm⟩
      removed := singleplexed.removed
      inOrder := ordered.started
      beforeWaiting := ordered.before }

/-- In every run in which no freed entry is read, every synchronous output is
used exclusively. -/
theorem mutualExclusion_of_sound (config : Config Out) {state : State Out}
    (reached : Run.Reaches (step config) (fun state event => Sound (step config state event))
      State.initial state) {out : Out}
    (synchronous : (config.output out).synchronous = true) : MutualExclusion out state := by
  have kept : (Numbered state ∧ ServedAlone config state) ∧ state.faulted = false := by
    apply reached.invariant
      ⟨⟨numbered_initial, allIdle_initial, fun _ => singleplexed_initial⟩, rfl⟩
    intro current next event kept sound taken
    exact ⟨servedAlone_step kept.1 taken, sound next taken⟩
  exact (kept.1.2.2 kept.2).mutualExclusion synchronous

/-- Four tasks are queued and the first flush returns; the engine then
handles its completion with the given outcomes of the next starts. -/
def completesFirst (starts : List StartOutcome) : List (Event Unit) :=
  [.dispatch 0 (List.replicate 4 routedTask) { starts := [], allocs := [] }, .outputReturn 5 .ok,
    .outputEvent 5 { alloc := true, now := 0, backoff := some 0 } starts]

/-- When two of the three waiting entries cannot be started, the third is, and
the output is used exclusively. -/
theorem mutualExclusion_of_sound_third_started :
    ∃ state : State Unit,
      Run.runGuarded (step synchronousOutput)
        (fun state event => Sound (step synchronousOutput state event)) State.initial
        (completesFirst [.createFailed, .createFailed, .started]) = some state ∧
      state.flushes.map (·.entry) = [some 8] ∧ MutualExclusion () state := by
  obtain ⟨state, taken, third⟩ : ∃ state : State Unit, Run.runGuarded (step synchronousOutput)
      (fun state event => Sound (step synchronousOutput state event)) State.initial
      (completesFirst [.createFailed, .createFailed, .started]) = some state ∧
      state.flushes.map (·.entry) = [some 8] := ⟨_, rfl, rfl⟩
  exact ⟨state, taken, third, mutualExclusion_of_sound synchronousOutput
    (Run.Reaches.refl.of_runGuarded taken) rfl⟩

/-- The pipe write of the first waiting entry fails.  The entry is freed when
the next one is started, and read after that; should it still hold what it
held, the one just started is removed from `in_progress` and the third is
started beside it. -/
theorem failedWrite_reads_freed_entry :
    ∃ state : State Unit,
      Run.run (step synchronousOutput) State.initial
        (completesFirst [.writeFailed, .started, .started]) = some state ∧
      state.faulted = true ∧
      state.flushes.map (·.entry) = [some 7, some 8] ∧
      (state.queue ()).inProgress.map (·.seq) = [8] ∧
      ¬ MutualExclusion () state := by
  refine ⟨_, rfl, rfl, rfl, rfl, fun exclusion => ?_⟩
  have removed := exclusion.removed
  revert removed
  decide

end FluentBit.Engine
