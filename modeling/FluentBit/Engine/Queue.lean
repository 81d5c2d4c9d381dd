import FluentBit.Engine.Numbered

/-!
# Singleplex queues

The recursion of `flb_output_task_singleplex_flush_next` as the source has it,
without fuel, and what it leaves alone.  An output with nothing in progress
has nothing pending, in every reachable state.  When every flush that is tried
is started the queue functions do not call each other back.
-/

namespace FluentBit.Engine

open List

variable {Out : Type}

def Idle (state : State Out) (out : Out) : Prop :=
  (state.queue out).inProgress = [] → (state.queue out).pending = []

def AllIdle (state : State Out) : Prop := ∀ out, Idle state out

theorem allIdle_initial : AllIdle (State.initial : State Out) := fun _ _ => rfl

variable {state : State Out}

theorem AllIdle.of_queue {after : State Out} (idle : AllIdle state)
    (queue : after.queue = state.queue) : AllIdle after := by
  intro out
  unfold Idle
  rw [queue]
  exact idle out

theorem afterFailure_short {config : Config Out} {out : Out} {next : State Out → Out → State Out}
    {bound : Nat} (short : (state.queue out).pending.length ≤ bound)
    (shrinks : ((next state out).queue out).pending.length ≤ bound) :
    ((afterFailure config next state out).queue out).pending.length ≤ bound := by
  unfold afterFailure
  split
  · exact shrinks
  · exact short

variable [DecidableEq Out] {config : Config Out} {other : Out}

section
variable (state : State Out) (out : Out)

@[simp] theorem takeEntry_queue_self (entry : Enqueued Out) (pending : List (Enqueued Out)) :
    (takeEntry state out entry pending).queue out =
      { pending := pending, inProgress := (state.queue out).inProgress ++ [entry] } := by
  simp [takeEntry, handOver, taskUsersDec, State.setQueue]

theorem takeEntry_queue_of_ne (different : other ≠ out)
    (entry : Enqueued Out) (pending : List (Enqueued Out)) :
    (takeEntry state out entry pending).queue other = state.queue other := by
  simp [takeEntry, handOver, taskUsersDec, State.setQueue, different]

@[simp] theorem beginEntry_queue (entry : Enqueued Out)
    (pending : List (Enqueued Out)) (phase : Phase) :
    (beginEntry state out entry pending phase).queue =
      (takeEntry state out entry pending).queue := rfl

@[simp] theorem endInProgress_queue_self :
    (endInProgress state out).queue out =
      { pending := (state.queue out).pending
        inProgress := (state.queue out).inProgress.tail } := by
  unfold endInProgress
  split
  · next empty => rw [empty, tail_nil, ← empty]
  · next entry inProgress front => simp [State.setQueue, front]

@[simp] theorem endInProgress_task : (endInProgress state out).task = state.task := by
  unfold endInProgress
  split <;> rfl

@[simp] theorem endInProgress_flushes : (endInProgress state out).flushes = state.flushes := by
  unfold endInProgress
  split <;> rfl

@[simp] theorem endInProgress_allRequests :
    (endInProgress state out).allRequests = state.allRequests := by
  unfold endInProgress
  split <;> rfl

@[simp] theorem endInProgress_next : (endInProgress state out).next = state.next := by
  unfold endInProgress
  split <;> rfl

@[simp] theorem endInProgress_starts : (endInProgress state out).starts = state.starts := by
  unfold endInProgress
  split <;> rfl

theorem endInProgress_queue_of_ne (different : other ≠ out) :
    (endInProgress state out).queue other = state.queue other := by
  unfold endInProgress
  split
  · rfl
  · simp [State.setQueue, different]

theorem taskRetryDestroy_queue (retry : RetryRef Out) :
    (taskRetryDestroy state retry).queue = state.queue :=
  (sheds_taskRetryDestroy state retry).queue

end

theorem pendingLength_queueClosed (out : Out) (bound : Nat) :
    QueueClosed out fun state : State Out =>
      (state.queue out).pending.length ≤ bound :=
  { ended := fun short => by simpa using short
    begun := fun front short => by
      rw [front, length_cons] at short
      simp only [beginEntry_queue, takeEntry_queue_self]
      omega
    taken := fun front short => by
      rw [front, length_cons] at short
      simp only [takeEntry_queue_self]
      omega
    destroyed := fun short => by
      rw [taskRetryDestroy_queue]
      exact short
    read := fun short => short }

variable {out : Out}

theorem queueOther_queueClosed (different : other ≠ out) (queue : TaskQueue Out) :
    QueueClosed out fun state : State Out => state.queue other = queue :=
  { ended := fun same => by
      rw [endInProgress_queue_of_ne _ _ different]
      exact same
    begun := fun _ same => by
      rw [beginEntry_queue, takeEntry_queue_of_ne _ _ different]
      exact same
    taken := fun _ same => by
      rw [takeEntry_queue_of_ne _ _ different]
      exact same
    destroyed := fun same => by
      rw [taskRetryDestroy_queue]
      exact same
    read := fun same => same }

theorem destroyRetry_queue (state : State Out) (retry : Option (RetryRef Out)) :
    (destroyRetry state retry).queue = state.queue := by
  cases retry with
  | none => rfl
  | some retry => exact taskRetryDestroy_queue state retry

section
variable {left right : State Out → Out → State Out}

/-- Taking an entry depends on the recursive call only for shorter queues. -/
theorem outputTaskQueueFlushOne_congr {entry : Enqueued Out} {pending : List (Enqueued Out)}
    (front : (state.queue out).pending = entry :: pending)
    (shrinks : ∀ current,
      (current.queue out).pending.length ≤ pending.length →
        ((left current out).queue out).pending.length ≤ pending.length)
    (agree : ∀ current,
      (current.queue out).pending.length ≤ pending.length →
        left current out = right current out) :
    outputTaskQueueFlushOne config left state out =
      outputTaskQueueFlushOne config right state out := by
  have taken : ((takeEntry state out entry pending).queue out).pending.length ≤
      pending.length := by simp
  have failure : afterFailure config right (takeEntry state out entry pending)
      out = afterFailure config left (takeEntry state out entry pending)
        out := by
    unfold afterFailure
    split
    · exact (agree _ taken).symm
    · rfl
  obtain ⟨leftEnd, leftReturned, leftResult⟩ := outputTaskQueueFlushOne_result config left front
  obtain ⟨rightEnd, rightReturned, rightResult⟩ :=
    outputTaskQueueFlushOne_result config right front
  cases leftResult with
  | started first | poolFailed threaded first =>
    cases rightResult <;> simp_all
  | createFailed unthreaded first =>
    have same := agree (destroyRetry (takeEntry state out entry pending) entry.retry)
      (by rw [destroyRetry_queue]; exact taken)
    cases rightResult <;> simp_all
  | writeFailed unthreaded first =>
    have same := agree (destroyRetry (readEntry (afterFailure config left
      (takeEntry state out entry pending) out) out entry) entry.retry)
      (by rw [destroyRetry_queue]; exact afterFailure_short taken (shrinks _ taken))
    cases rightResult <;> simp_all

theorem singleplexFlushNext_succ {fuel : Nat} (agree : ∀ current : State Out,
      (current.queue out).pending.length < (state.queue out).pending.length →
        singleplexFlushNext config fuel current out = right current out) :
    singleplexFlushNext config (fuel + 1) state out =
      match ((endInProgress state out).queue out).pending with
      | [] => endInProgress state out
      | _ :: _ => (outputTaskQueueFlushOne config right (endInProgress state out) out).1 := by
  rw [singleplexFlushNext]
  cases front : ((endInProgress state out).queue out).pending with
  | nil => rfl
  | cons entry pending =>
    have same : (state.queue out).pending = entry :: pending := by simpa using front
    rw [same, length_cons] at agree
    exact congrArg Prod.fst (outputTaskQueueFlushOne_congr front
      (fun _ short => (pendingLength_queueClosed out _).singleplexFlushNext fuel short)
      (fun current short => agree current (Nat.lt_succ_of_le short)))

theorem singleplexFlushNext_fuel {fuel more : Nat}
    (enough : (state.queue out).pending.length < fuel)
    (alsoEnough : (state.queue out).pending.length < more) :
    singleplexFlushNext config fuel state out = singleplexFlushNext config more state out := by
  induction fuel generalizing more state with
  | zero => omega
  | succ fuel ih =>
    cases more with
    | zero => omega
    | succ more =>
      have agree : ∀ current : State Out,
          (current.queue out).pending.length < (state.queue out).pending.length →
            singleplexFlushNext config fuel current out =
              singleplexFlushNext config more current out :=
        fun _ shorter => ih (by omega) (by omega)
      rw [singleplexFlushNext_succ agree]
      rfl

theorem outputTaskSingleplexFlushNext_eq (config : Config Out) (state : State Out) (out : Out) :
    outputTaskSingleplexFlushNext config state out =
      match ((endInProgress state out).queue out).pending with
      | [] => endInProgress state out
      | _ :: _ =>
        (outputTaskQueueFlushOne config (outputTaskSingleplexFlushNext config)
          (endInProgress state out) out).1 :=
  singleplexFlushNext_succ fun _ shorter => singleplexFlushNext_fuel shorter (Nat.lt_succ_self _)

end

theorem idle_takeEntry (state : State Out) (out : Out) (entry : Enqueued Out)
    (pending : List (Enqueued Out)) : Idle (takeEntry state out entry pending) out := by
  intro empty
  simp at empty

/-- Whatever becomes of an entry, the output ends busy or with an empty
queue. -/
theorem idle_flushOne {next : State Out → Out → State Out}
    {entry : Enqueued Out} {pending : List (Enqueued Out)}
    (front : (state.queue out).pending = entry :: pending) (shrinks : ∀ current,
      (current.queue out).pending.length ≤ pending.length →
        ((next current out).queue out).pending.length ≤ pending.length)
    (idles : ∀ current,
      (current.queue out).pending.length ≤ pending.length → Idle (next current out) out) :
    Idle (outputTaskQueueFlushOne config next state out).1 out := by
  have taken : ((takeEntry state out entry pending).queue out).pending.length ≤
      pending.length := by simp
  obtain ⟨ended, returned, result⟩ := outputTaskQueueFlushOne_result config next front
  rw [returned]
  cases result with
  | started first => exact idle_takeEntry state out entry pending
  | poolFailed threaded first =>
    unfold afterFailure
    split
    · exact idles _ taken
    · exact idle_takeEntry state out entry pending
  | createFailed unthreaded first => exact idles _ (by rw [destroyRetry_queue]; exact taken)
  | writeFailed unthreaded first =>
    refine idles _ ?_
    rw [destroyRetry_queue]
    exact afterFailure_short taken (shrinks _ taken)

theorem pendingLength_flushNext {bound : Nat} (short : (state.queue out).pending.length ≤ bound) :
    ((outputTaskSingleplexFlushNext config state out).queue out).pending.length ≤ bound :=
  (pendingLength_queueClosed out bound).outputTaskSingleplexFlushNext short

theorem idle_flushNext (config : Config Out) (state : State Out) (out : Out) :
    Idle (outputTaskSingleplexFlushNext config state out) out := by
  -- Strong induction on the number of pending entries.
  generalize size : (state.queue out).pending.length = length
  induction length using Nat.strongRecOn generalizing state with
  | ind length ih =>
    rw [outputTaskSingleplexFlushNext_eq]
    cases front : ((endInProgress state out).queue out).pending with
    | nil => exact fun _ => front
    | cons entry pending =>
      have same : (state.queue out).pending = entry :: pending := by simpa using front
      rw [same, length_cons] at size
      exact idle_flushOne front (fun _ short => pendingLength_flushNext short)
        (fun current short => ih _ (by omega) current rfl)

section
variable (state : State Out) (retry : Option (RetryRef Out)) (ref : TaskRef) (out : Out)

@[simp] theorem pushEntry_queue_self :
    (pushEntry state retry ref out).queue out =
      { pending := (state.queue out).pending ++ [{ seq := state.next, task := ref, retry := retry }]
        inProgress := (state.queue out).inProgress } := by
  simp [pushEntry, State.setQueue]

theorem pushEntry_queue_of_ne (different : other ≠ out) :
    (pushEntry state retry ref out).queue other = state.queue other := by
  simp [pushEntry, State.setQueue, different, enterQueue, taskUsersInc]

theorem pushEntry_front {state : State Out} {out : Out} (vacant : (state.queue out).pending = []) :
    ((pushEntry state retry ref out).queue out).pending =
      [{ seq := state.next, task := ref, retry := retry }] := by
  simp [vacant]

end

theorem AllIdle.queueChange {after : State Out} (idle : AllIdle state) (here : Idle after out)
    (others : ∀ other, other ≠ out → after.queue other = state.queue other) : AllIdle after := by
  intro other
  by_cases same : other = out
  · subst other
    exact here
  · unfold Idle
    rw [others other same]
    exact idle other

theorem AllIdle.flushNext (idle : AllIdle state) (out : Out) :
    AllIdle (outputTaskSingleplexFlushNext config state out) :=
  idle.queueChange (idle_flushNext config state out) fun _ different =>
    (queueOther_queueClosed different _).outputTaskSingleplexFlushNext rfl

theorem AllIdle.outputTaskSingleplexEnqueue (idle : AllIdle state)
    (retry : Option (RetryRef Out)) (ref : TaskRef) (out : Out) :
    AllIdle (outputTaskSingleplexEnqueue config state retry ref out).1 := by
  have others : ∀ other, other ≠ out → (pushEntry state retry ref out).queue other =
    state.queue other := fun _ => pushEntry_queue_of_ne state retry ref out
  obtain ⟨ended, returned, result⟩ := outputTaskSingleplexEnqueue_result config state retry ref out
  rw [returned]
  cases result with
  | allocFailed first => exact idle.of_queue (by rw [destroyRetry_queue]; rfl)
  | queued first busy =>
    refine idle.queueChange (fun nothing => ?_) others
    rw [pushEntry_queue_self] at nothing
    exact (busy nothing).elim
  | flushed first vacant =>
    have front := pushEntry_front retry ref (idle out vacant)
    refine idle.queueChange (idle_flushOne front (fun _ short => pendingLength_flushNext short)
      fun current _ => idle_flushNext config current out) ?_
    intro other different
    have closed := queueOther_queueClosed different (state.queue other)
    exact closed.flushOne (fun _ => closed.outputTaskSingleplexFlushNext) (others other different)

theorem allIdle_quietClosed (config : Config Out) :
    QuietClosed config (AllIdle : State Out → Prop) :=
  .of_queue AllIdle.of_queue fun _ idle => idle.outputTaskSingleplexEnqueue _ _ _

/-- No step leaves an entry waiting for an output that is idle. -/
theorem allIdle_step {next : State Out} {event : Event Out} (kept : Numbered state ∧ AllIdle state)
    (taken : step config state event = some next) : Numbered next ∧ AllIdle next := by
  refine ⟨numbered_step kept.1 taken, (allIdle_quietClosed config).step kept.1 kept.2 ?_ taken⟩
  intro flush _ env starts _ _
  have removed : AllIdle
      ((state.load { starts := starts, allocs := [] }).removeFlush flush.id) :=
    kept.2.of_queue rfl
  exact removed.flushNext flush.out

variable {Out : Type}

structure Succeeds (state : State Out) : Prop where
  starts : ∀ outcome ∈ state.starts, outcome = .started
  allocs : ∀ alloc ∈ state.allocs, alloc = true

variable {state : State Out}

section
variable (succeeds : Succeeds state)
include succeeds

theorem Succeeds.nextStart : state.nextStart = .started := by
  unfold State.nextStart
  cases script : state.starts with
  | nil => rfl
  | cons outcome starts => exact succeeds.starts outcome (by simp [script])

theorem Succeeds.nextAlloc : state.nextAlloc = true := by
  unfold State.nextAlloc
  cases script : state.allocs with
  | nil => rfl
  | cons alloc allocs => exact succeeds.allocs alloc (by simp [script])

theorem Succeeds.of_tail {after : State Out}
    (starts : after.starts = state.starts ∨ after.starts = state.starts.tail)
    (allocs : after.allocs = state.allocs ∨ after.allocs = state.allocs.tail) : Succeeds after :=
  { starts := by
      intro outcome member
      rcases starts with same | tail
      · exact succeeds.starts outcome (same ▸ member)
      · rw [tail] at member
        exact succeeds.starts outcome (mem_of_mem_tail member)
    allocs := by
      intro alloc member
      rcases allocs with same | tail
      · exact succeeds.allocs alloc (same ▸ member)
      · rw [tail] at member
        exact succeeds.allocs alloc (mem_of_mem_tail member) }

end

theorem taskUsersInc_taskUsersDec (state : State Out) (ref : TaskRef) :
    (taskUsersInc (taskUsersDec state ref) ref).task = state.task := by
  funext other
  unfold taskUsersInc taskUsersDec
  rw [modifyTask_task, modifyTask_task_self]
  split
  · next same =>
    subst other
    simp [Function.comp_def]
  · next different => rw [modifyTask_task_of_ne _ _ _ different]

variable [DecidableEq Out] {config : Config Out}

@[simp] theorem endInProgress_allocs (state : State Out) (out : Out) :
    (endInProgress state out).allocs = state.allocs := by
  unfold endInProgress
  split <;> rfl

@[simp] theorem beginEntry_task (state : State Out) (out : Out)
    (entry : Enqueued Out) (pending : List (Enqueued Out)) (phase : Phase) :
    (beginEntry state out entry pending phase).task = state.task :=
  taskUsersInc_taskUsersDec (state.setQueue out _) entry.task

theorem beginEntry_flushes (state : State Out) (out : Out)
    (entry : Enqueued Out) (pending : List (Enqueued Out)) (phase : Phase) :
    (beginEntry state out entry pending phase).flushes =
      state.flushes ++
        [{ id := state.next, task := entry.task, out := out,
           entry := some entry.seq, phase := phase }] := rfl

section
variable (succeeds : Succeeds state)
include succeeds

theorem Succeeds.flushOne {next : State Out → Out → State Out} {out : Out} {entry : Enqueued Out}
    {pending : List (Enqueued Out)} (front : (state.queue out).pending = entry :: pending) :
    outputTaskQueueFlushOne config next state out =
      (beginEntry state out entry pending (startPhase config out), 0) := by
  obtain ⟨ended, returned, result⟩ := outputTaskQueueFlushOne_result config next front
  have first := succeeds.nextStart
  cases result <;> simp_all

theorem Succeeds.flushNext (out : Out) :
    outputTaskSingleplexFlushNext config state out =
      match (state.queue out).pending with
      | [] => endInProgress state out
      | entry :: pending =>
        beginEntry (endInProgress state out) out entry pending (startPhase config out) := by
  have kept : Succeeds (endInProgress state out) :=
    succeeds.of_tail (.inl (by simp)) (.inl (by simp))
  rw [outputTaskSingleplexFlushNext_eq, endInProgress_queue_self]
  cases front : (state.queue out).pending with
  | nil => rfl
  | cons entry pending =>
    have still : ((endInProgress state out).queue out).pending = entry :: pending := by
      simpa using front
    rw [kept.flushOne still]

theorem Succeeds.outputTaskFlushDirect (ref : TaskRef) (out : Out) :
    outputTaskFlushDirect config state ref out =
      (startFlush (handOver state ref out) ref out none (startPhase config out), 0) := by
  obtain ⟨ended, returned, result⟩ := outputTaskFlushDirect_result config state ref out
  have first := succeeds.nextStart
  cases result <;> simp_all

theorem Succeeds.outputTaskSingleplexEnqueue (idle : AllIdle state)
    (retry : Option (RetryRef Out)) (ref : TaskRef) (out : Out) :
    outputTaskSingleplexEnqueue config state retry ref out =
      if (state.queue out).inProgress = [] then
        (beginEntry (pushEntry state retry ref out) out
          { seq := state.next, task := ref, retry := retry } []
          (startPhase config out), 0)
      else (pushEntry state retry ref out, 0) := by
  obtain ⟨ended, returned, result⟩ := outputTaskSingleplexEnqueue_result config state retry ref out
  rw [returned]
  cases result with
  | allocFailed first =>
    rw [succeeds.nextAlloc] at first
    cases first
  | queued first busy => rw [if_neg busy]
  | flushed first vacant =>
    have pushed : Succeeds (pushEntry state retry ref out) := succeeds.of_tail (.inl rfl) (.inr rfl)
    have front := pushEntry_front retry ref (idle out vacant)
    rw [if_pos vacant, pushed.flushOne front]

end

/-- What handing a task to an output leaves when nothing fails: a flush of its
own, an entry waiting, or an entry whose flush was started at once. -/
inductive StartResult (config : Config Out) (state : State Out)
    (retry : Option (RetryRef Out)) (ref : TaskRef) (out : Out) :
    State Out → Prop where
  | flushed : StartResult config state retry ref out
      (startFlush (handOver state ref out) ref out none (startPhase config out))
  | queued : StartResult config state retry ref out (pushEntry state retry ref out)
  | started (empty : (state.queue out).pending = []) :
      StartResult config state retry ref out
        (beginEntry (pushEntry state retry ref out) out
          { seq := state.next, task := ref, retry := retry } []
          (startPhase config out))

variable {after : State Out} {retry : Option (RetryRef Out)}
  {ref : TaskRef} {out : Out}

theorem Succeeds.enqueue_result (succeeds : Succeeds state) (idle : AllIdle state)
    (retry : Option (RetryRef Out)) (ref : TaskRef) (out : Out) :
    StartResult config state retry ref out
      (Engine.outputTaskSingleplexEnqueue config state retry ref out).1 := by
  rw [succeeds.outputTaskSingleplexEnqueue idle]
  split
  · next vacant => exact .started (idle out vacant)
  · exact .queued

theorem Succeeds.startRoute_result (succeeds : Succeeds state)
    (idle : AllIdle state) (ref : TaskRef) (out : Out) :
    StartResult config state none ref out (startRoute config state ref out) := by
  unfold startRoute
  split
  · exact succeeds.enqueue_result idle none ref out
  · rw [succeeds.outputTaskFlushDirect]
    exact .flushed

section
variable (result : StartResult config state retry ref out after)
include result

theorem StartResult.task : after.task = (taskUsersInc state ref).task := by
  cases result with
  | flushed | queued => rfl
  | started empty => exact beginEntry_task _ _ _ _ _

theorem StartResult.requests :
    after.requests = state.requests ∧ after.requestsWait = state.requestsWait := by
  cases result <;> exact ⟨rfl, rfl⟩

theorem StartResult.succeeds (succeeds : Succeeds state) : Succeeds after := by
  cases result with
  | flushed => exact succeeds.of_tail (.inr rfl) (.inl rfl)
  | queued => exact succeeds.of_tail (.inl rfl) (.inr rfl)
  | started empty => exact succeeds.of_tail (.inr rfl) (.inr rfl)

end

/-- A request leaves the scheduler when its timer has done its work. -/
def dropRequest (state : State Out) (request : Request Out) : State Out :=
  { state with requests := state.requests.filter (·.id ≠ request.id) }

/-- The ways the timer of a request ends when nothing fails to start. -/
inductive TimerResult (config : Config Out) (state : State Out)
    (request : Request Out) (env : RetryEnv) : State Out → Prop where
  | unscheduled (down : env.chunkUp = false) (wait : env.backoff = none) :
      TimerResult config state request env
      (taskUsersRelease (taskRetryDestroy state request.data) request.data.parent)
  | rescheduled (backoff : Nat) : TimerResult config state request env
      (dropRequest (schedRequestCreate state request.data env.now (some backoff)).1 request)
  | unreadable (up : env.chunkUp = true) (content : env.content = false) :
      TimerResult config state request env (taskRetryDestroy state request.data)
  | started {after : State Out}
      (result : StartResult config state (some request.data)
        request.data.parent request.data.oIns after) :
      TimerResult config state request env (dropRequest after request)

theorem Succeeds.schedRequestTimer_result (succeeds : Succeeds state)
    (idle : AllIdle state) (request : Request Out) (env : RetryEnv) :
    TimerResult config state request env (schedRequestTimer config state request env) := by
  unfold schedRequestTimer engineDispatchRetry
  by_cases down : env.chunkUp = false
  · rw [if_pos down]
    unfold taskRetryReschedule
    cases wait : env.backoff with
    | none => exact .unscheduled down wait
    | some backoff =>
      dsimp only
      rw [if_neg schedRequestCreate_ne]
      exact .rescheduled backoff
  · rw [if_neg down]
    by_cases content : env.content = false
    · rw [if_pos content]
      exact .unreadable (by simpa using down) content
    · rw [if_neg content]
      by_cases synchronous : (config.output request.data.oIns).synchronous = true
      · rw [if_pos synchronous]
        have entered : StartResult config state (some request.data)
          request.data.parent request.data.oIns (Engine.outputTaskSingleplexEnqueue config state
          (some request.data) request.data.parent request.data.oIns).1 :=
          succeeds.enqueue_result idle _ _ _
        have accepted : (Engine.outputTaskSingleplexEnqueue config state
            (some request.data) request.data.parent
            request.data.oIns).2 = 0 := by
          rw [succeeds.outputTaskSingleplexEnqueue idle]
          split <;> rfl
        dsimp only
        rw [accepted]
        exact .started entered
      · rw [if_neg synchronous, succeeds.outputTaskFlushDirect]
        exact .started .flushed

end FluentBit.Engine
