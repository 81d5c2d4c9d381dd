import FluentBit.Engine.Dispatch

/-!
# What starting a flush can do

One inversion lemma for `flb_output_task_flush`, one for taking an entry from
a singleplex queue, and the induction over the mutual recursion of the queue
functions: a property kept by the elementary changes of the queue is kept by
`flb_output_task_singleplex_flush_next`, whatever fails on the way.  Destroying
retries and tasks only sheds: everything else stays as it is.
-/

namespace FluentBit.Engine

open List

section
variable {Out : Type}

/-- The bookkeeping at the head of `flb_output_task_flush`. -/
def handOver (state : State Out) (ref : TaskRef) (out : Out) : State Out :=
  { state with starts := state.starts.tail, handed := state.handed ++ [(ref, out)] }

/-- After a failed start a synchronous output flushes its next entry. -/
def afterFailure (config : Config Out) (flushNext : State Out → Out → State Out) (state : State Out)
    (out : Out) : State Out :=
  if (config.output out).synchronous then flushNext state out else state

/-- A flush of a threaded output waits for its worker. -/
def startPhase (config : Config Out) (out : Out) : Phase :=
  if (config.output out).isThreaded then .dispatched else .running

variable {config : Config Out} {flushNext : State Out → Out → State Out}

/-- The four ways `flb_output_task_flush` ends. -/
inductive FlushResult (config : Config Out)
    (flushNext : State Out → Out → State Out) (state : State Out)
    (ref : TaskRef) (out : Out) (entry : Option Nat) :
    State Out × Int → Prop where
  | started (first : state.nextStart = .started) :
      FlushResult config flushNext state ref out entry
        (startFlush (handOver state ref out) ref out entry (startPhase config out), 0)
  | poolFailed (threaded : (config.output out).isThreaded = true)
      (first : state.nextStart ≠ .started) :
      FlushResult config flushNext state ref out entry
        (afterFailure config flushNext (handOver state ref out) out, 0)
  | createFailed (unthreaded : (config.output out).isThreaded = false)
      (first : state.nextStart = .createFailed) :
      FlushResult config flushNext state ref out entry (handOver state ref out, -1)
  | writeFailed (unthreaded : (config.output out).isThreaded = false)
      (first : state.nextStart = .writeFailed) :
      FlushResult config flushNext state ref out entry
        (afterFailure config flushNext (handOver state ref out) out, -1)

theorem outputTaskFlush_result (config : Config Out) (flushNext : State Out → Out → State Out)
    (state : State Out) (ref : TaskRef) (out : Out) (entry : Option Nat) :
    FlushResult config flushNext state ref out entry
      (outputTaskFlush config flushNext state ref out entry) := by
  have begun : state.nextStart = .started → FlushResult config flushNext state ref out entry
      (startFlush (handOver state ref out) ref out entry (startPhase config out), 0) := .started
  unfold outputTaskFlush
  simp only [taskUsersDec_taskUsersInc]
  cases threaded : (config.output out).isThreaded with
  | true =>
    cases first : state.nextStart with
    | started => simpa [startPhase, threaded, handOver] using begun first
    | createFailed | writeFailed =>
      have failed : FlushResult config flushNext state ref out entry (afterFailure config flushNext
        (handOver state ref out) out, 0) := .poolFailed threaded (first.trans_ne (by decide))
      cases synchronous : (config.output out).synchronous <;>
        simpa [afterFailure, handOver, synchronous] using failed
  | false =>
    cases first : state.nextStart with
    | started => simpa [startPhase, threaded, handOver] using begun first
    | createFailed => exact .createFailed threaded first
    | writeFailed =>
      have failed : FlushResult config flushNext state ref out entry (afterFailure config flushNext
        (handOver state ref out) out, -1) := .writeFailed threaded first
      cases synchronous : (config.output out).synchronous <;>
        simpa [afterFailure, handOver, synchronous] using failed

variable {out : Out} {state : State Out}

theorem afterFailure_keeps {Kept : State Out → Prop}
    (next : ∀ state, Kept state → Kept (flushNext state out)) (kept : Kept state) :
    Kept (afterFailure config flushNext state out) := by
  unfold afterFailure
  split
  · exact next state kept
  · exact kept

theorem schedRequestCreate_ne {data : RetryRef Out} {now backoff : Nat} :
    (schedRequestCreate state data now (some backoff)).2 ≠ -1 := by
  simp only [schedRequestCreate]
  split
  · omega
  · omega

theorem findFlush_eq_some {id : Nat} {flush : Flush Out} (found : state.findFlush id = some flush) :
    flush ∈ state.flushes ∧ flush.id = id :=
  ⟨mem_of_find?_eq_some found, by simpa using find?_some found⟩

variable [DecidableEq Out]

/-- The entry at the front leaves the pending list, with its temporary
user. -/
def takeEntry (state : State Out) (out : Out) (entry : Enqueued Out)
    (pending : List (Enqueued Out)) : State Out :=
  handOver
    (taskUsersDec
      (state.setQueue out
        { pending := pending, inProgress := (state.queue out).inProgress ++ [entry] })
      entry.task)
    entry.task out

/-- The flush of the entry at the front was started. -/
def beginEntry (state : State Out) (out : Out) (entry : Enqueued Out)
    (pending : List (Enqueued Out)) (phase : Phase) : State Out :=
  startFlush (takeEntry state out entry pending) entry.task out (some entry.seq) phase

def destroyRetry (state : State Out) (retry : Option (RetryRef Out)) : State Out :=
  match retry with
  | none => state
  | some retry => taskRetryDestroy state retry

/-- The ways `flb_output_task_queue_flush_one` ends for an entry. -/
inductive FlushOneResult (config : Config Out)
    (flushNext : State Out → Out → State Out) (state : State Out)
    (out : Out) (entry : Enqueued Out) (pending : List (Enqueued Out)) :
    State Out × Int → Prop where
  | started (first : state.nextStart = .started) :
      FlushOneResult config flushNext state out entry pending
        (beginEntry state out entry pending (startPhase config out), 0)
  | poolFailed (threaded : (config.output out).isThreaded = true)
      (first : state.nextStart ≠ .started) :
      FlushOneResult config flushNext state out entry pending
        (afterFailure config flushNext (takeEntry state out entry pending) out, 0)
  | createFailed (unthreaded : (config.output out).isThreaded = false)
      (first : state.nextStart = .createFailed) :
      FlushOneResult config flushNext state out entry pending
        (flushNext (destroyRetry (takeEntry state out entry pending) entry.retry) out, -1)
  | writeFailed (unthreaded : (config.output out).isThreaded = false)
      (first : state.nextStart = .writeFailed) :
      FlushOneResult config flushNext state out entry pending
        (flushNext
          (destroyRetry
            (readEntry (afterFailure config flushNext (takeEntry state out entry pending) out) out
              entry) entry.retry) out, -1)

theorem readEntry_takeEntry (state : State Out) (out : Out) (entry : Enqueued Out)
    (pending : List (Enqueued Out)) :
    readEntry (takeEntry state out entry pending) out entry =
      takeEntry state out entry pending := by
  simp [readEntry, takeEntry, handOver, taskUsersDec, State.setQueue]

theorem outputTaskQueueFlushOne_result (config : Config Out)
    (flushNext : State Out → Out → State Out) {entry : Enqueued Out}
    {pending : List (Enqueued Out)} (front : (state.queue out).pending = entry :: pending) :
    ∃ ended, outputTaskQueueFlushOne config flushNext state out = ended ∧
      FlushOneResult config flushNext state out entry pending ended := by
  refine ⟨_, rfl, ?_⟩
  unfold outputTaskQueueFlushOne
  rw [front]
  simp only
  generalize taken : taskUsersDec (state.setQueue out
    { pending := pending, inProgress := (state.queue out).inProgress ++ [entry] })
    entry.task = moved
  have first : moved.nextStart = state.nextStart := by
    subst taken
    rfl
  have takes : handOver moved entry.task out =
      takeEntry state out entry pending := by
    subst taken
    rfl
  generalize flushed : outputTaskFlush config flushNext moved entry.task out
    (some entry.seq) = result
  have cases := outputTaskFlush_result config flushNext moved entry.task out (some entry.seq)
  rw [flushed] at cases
  cases cases with
  | started begun =>
    rw [takes]
    exact .started (first ▸ begun)
  | poolFailed threaded failed =>
    rw [takes]
    exact .poolFailed threaded (first ▸ failed)
  | createFailed unthreaded failed =>
    rw [takes]
    simp only [readEntry_takeEntry]
    exact .createFailed unthreaded (first ▸ failed)
  | writeFailed unthreaded failed =>
    rw [takes]
    exact .writeFailed unthreaded (first ▸ failed)

/-- A property the elementary changes of the queue of an output keep. -/
structure QueueClosed (out : Out) (Kept : State Out → Prop) : Prop where
  ended : ∀ {state}, Kept state → Kept (endInProgress state out)
  begun : ∀ {state entry pending phase},
    (state.queue out).pending = entry :: pending → Kept state →
      Kept (beginEntry state out entry pending phase)
  taken : ∀ {state entry pending},
    (state.queue out).pending = entry :: pending → Kept state →
      Kept (takeEntry state out entry pending)
  destroyed : ∀ {state retry}, Kept state → Kept (taskRetryDestroy state retry)
  read : ∀ {state entry}, Kept state → Kept (readEntry state out entry)

section
variable {out : Out} {Kept : State Out → Prop} {state : State Out}

section
variable (closed : QueueClosed out Kept)
include closed

theorem QueueClosed.destroyRetry (kept : Kept state)
    (retry : Option (RetryRef Out)) : Kept (destroyRetry state retry) := by
  cases retry with
  | none => exact kept
  | some retry => exact closed.destroyed kept

theorem QueueClosed.flushOne
    (next : ∀ state, Kept state → Kept (flushNext state out)) (kept : Kept state) :
    Kept (outputTaskQueueFlushOne config flushNext state out).1 := by
  cases front : (state.queue out).pending with
  | nil =>
    rw [outputTaskQueueFlushOne, front]
    exact kept
  | cons entry pending =>
    have taken := closed.taken front kept
    obtain ⟨ended, returned, result⟩ := outputTaskQueueFlushOne_result config flushNext front
    rw [returned]
    cases result with
    | started first => exact closed.begun front kept
    | poolFailed threaded first => exact afterFailure_keeps next taken
    | createFailed unthreaded first => exact next _ (closed.destroyRetry taken entry.retry)
    | writeFailed unthreaded first =>
      exact next _ (closed.destroyRetry (closed.read (afterFailure_keeps next taken)) entry.retry)

theorem QueueClosed.singleplexFlushNext (fuel : Nat)
    (kept : Kept state) : Kept (singleplexFlushNext config fuel state out) := by
  induction fuel generalizing state with
  | zero => exact kept
  | succ fuel ih =>
    have ended := closed.ended kept
    simp only [Engine.singleplexFlushNext]
    split
    · exact ended
    · exact closed.flushOne (fun _ => ih) ended

theorem QueueClosed.outputTaskSingleplexFlushNext
    (kept : Kept state) : Kept (Engine.outputTaskSingleplexFlushNext config state out) :=
  closed.singleplexFlushNext _ kept

end

/-- A synchronous output flushes its next entry first. -/
def flushNextIf (config : Config Out) (state : State Out) (out : Out) : State Out :=
  if (config.output out).synchronous then
    Engine.outputTaskSingleplexFlushNext config state out
  else state

theorem flushNextIf_keeps (Kept : State Out → Prop) (kept : Kept state)
    (flushed : Kept (Engine.outputTaskSingleplexFlushNext config state out)) :
    Kept (flushNextIf config state out) := by
  simp only [flushNextIf]
  split
  · exact flushed
  · exact kept

end

/-- The task has its temporary user, and the allocation of the entry was
tried. -/
def enterQueue (state : State Out) (ref : TaskRef) (out : Out) : State Out :=
  { taskUsersInc state ref with
    handed := state.handed ++ [(ref, out)]
    allocs := state.allocs.tail }

/-- The task waits at the end of the pending list. -/
def pushEntry (state : State Out) (retry : Option (RetryRef Out)) (ref : TaskRef) (out : Out) :
    State Out :=
  { (enterQueue state ref out).setQueue out
      { pending := (state.queue out).pending ++ [{ seq := state.next, task := ref, retry := retry }]
        inProgress := (state.queue out).inProgress }
    with next := state.next + 1 }

/-- The ways `flb_output_task_singleplex_enqueue` ends. -/
inductive EnqueueResult (config : Config Out) (state : State Out)
    (retry : Option (RetryRef Out)) (ref : TaskRef) (out : Out) :
    State Out × Int → Prop where
  | allocFailed (first : state.nextAlloc = false) :
      EnqueueResult config state retry ref out (destroyRetry (enterQueue state ref out) retry, -1)
  | queued (first : state.nextAlloc = true) (busy : (state.queue out).inProgress ≠ []) :
      EnqueueResult config state retry ref out (pushEntry state retry ref out, 0)
  | flushed (first : state.nextAlloc = true) (idle : (state.queue out).inProgress = []) :
      EnqueueResult config state retry ref out
        (outputTaskQueueFlushOne config (outputTaskSingleplexFlushNext config)
          (pushEntry state retry ref out) out)

theorem outputTaskSingleplexEnqueue_result (config : Config Out) (state : State Out)
    (retry : Option (RetryRef Out)) (ref : TaskRef) (out : Out) :
    ∃ ended, outputTaskSingleplexEnqueue config state retry ref out = ended ∧
      EnqueueResult config state retry ref out ended := by
  refine ⟨_, rfl, ?_⟩
  unfold outputTaskSingleplexEnqueue outputTaskQueueEnqueue
  have script : (taskUsersInc
      { state with handed := state.handed ++ [(ref, out)] } ref).nextAlloc = state.nextAlloc := rfl
  cases first : state.nextAlloc with
  | false =>
    cases retry with
    | none | some retry =>
      simp only [script, first]
      exact .allocFailed first
  | true =>
    simp only [script, first, if_true]
    by_cases idle : (state.queue out).inProgress = []
    · have flushed : EnqueueResult config state retry ref out (outputTaskQueueFlushOne config
        (outputTaskSingleplexFlushNext config) (pushEntry state retry ref out) out) :=
        .flushed first idle
      simpa [pushEntry, enterQueue, State.setQueue, taskUsersInc,
        State.modifyTask, idle] using flushed
    · have queued : EnqueueResult config state retry ref out (pushEntry state retry ref out, 0) :=
        .queued first idle
      simpa [pushEntry, enterQueue, State.setQueue, taskUsersInc,
        State.modifyTask, idle] using queued

/-- A property the elementary changes of handing a task to its outputs
keep. -/
structure RouteClosed (ref : TaskRef) (Kept : State Out → Prop) : Prop where
  queue : ∀ out, QueueClosed out Kept
  handed : ∀ {state out}, Kept state → Kept (handOver state ref out)
  begun : ∀ {state out phase}, Kept state →
    Kept (startFlush (handOver state ref out) ref out none phase)
  entered : ∀ {state out}, state.nextAlloc = false → Kept state → Kept (enterQueue state ref out)
  pushed : ∀ {state retry out}, state.nextAlloc = true → Kept state →
    Kept (pushEntry state retry ref out)

section
variable {ref : TaskRef} {Kept : State Out → Prop} {state : State Out}

theorem RouteClosed.outputTaskSingleplexEnqueue (closed : RouteClosed ref Kept)
    (kept : Kept state) (retry : Option (RetryRef Out)) (out : Out) :
    Kept (outputTaskSingleplexEnqueue config state retry ref out).1 := by
  obtain ⟨ended, returned, result⟩ := outputTaskSingleplexEnqueue_result config state retry ref out
  rw [returned]
  cases result with
  | allocFailed first => exact (closed.queue out).destroyRetry (closed.entered first kept) retry
  | queued first busy => exact closed.pushed first kept
  | flushed first idle =>
    exact (closed.queue out).flushOne (fun _ => (closed.queue out).outputTaskSingleplexFlushNext)
      (closed.pushed first kept)

theorem outputTaskFlushDirect_result (config : Config Out) (state : State Out) (ref : TaskRef)
    (out : Out) : ∃ ended, outputTaskFlushDirect config state ref out = ended ∧
      FlushResult config (outputTaskSingleplexFlushNext config) state ref out none ended :=
  ⟨_, rfl, outputTaskFlush_result config _ state ref out none⟩

theorem RouteClosed.outputTaskFlushDirect (closed : RouteClosed ref Kept) (kept : Kept state)
    (out : Out) : Kept (outputTaskFlushDirect config state ref out).1 := by
  obtain ⟨ended, returned, result⟩ := outputTaskFlushDirect_result config state ref out
  rw [returned]
  cases result with
  | started first => exact closed.begun kept
  | poolFailed threaded first | writeFailed unthreaded first =>
    exact afterFailure_keeps (fun _ => (closed.queue out).outputTaskSingleplexFlushNext)
      (closed.handed kept)
  | createFailed unthreaded first => exact closed.handed kept

theorem RouteClosed.startRoute (closed : RouteClosed ref Kept) (kept : Kept state) (out : Out) :
    Kept (startRoute config state ref out) := by
  unfold Engine.startRoute
  split
  · exact closed.outputTaskSingleplexEnqueue kept none out
  · exact closed.outputTaskFlushDirect kept out

/-- What removing and starting routes keep survives the loop of `tasks_start`
over the routes of a task. -/
theorem startRoutes_keeps (Kept : State Out → Prop)
    (removed : ∀ {state out}, Kept state → Kept (removeRoute state ref out))
    (started : ∀ {state out}, Kept state → Kept (Engine.startRoute config state ref out))
    (retry : Nat) (outs : List Out) (kept : Kept state) :
    Kept (startRoutes config ref retry outs state).1 := by
  induction outs generalizing state with
  | nil => exact kept
  | cons out outs ih =>
    simp only [startRoutes]
    split
    · exact ih (removed kept)
    · split
      · exact ih kept
      · exact ih (started kept)

end

/-- What the creation of a retry keeps: it destroys the retry of the output, or
changes the retries of the task. -/
theorem taskRetryCreate_keeps {Kept : State Out → Prop} {ref : TaskRef} (kept : Kept state)
    (destroyed : ∀ {task retry}, state.task ref = some task → retry ∈ task.retries →
      Kept (taskRetryDestroy state retry.ref))
    (changed : ∀ {next} (change : List (TaskRetry Out) → List (TaskRetry Out)),
      state.next ≤ next → Kept (State.modifyTask { state with next := next } ref fun task =>
        { task with retries := change task.retries })) (out : Out) (alloc : Bool) :
    Kept (taskRetryCreate config state ref out alloc).1 := by
  unfold taskRetryCreate
  split
  · exact kept
  · next task live =>
    split
    · next retry found =>
      dsimp only
      split
      · exact destroyed live (mem_of_find?_eq_some found)
      · exact changed (map _) (Nat.le_refl _)
    · split
      · exact changed (· ++ _) (Nat.le_succ _)
      · exact kept

/-- The ways the `FLB_RETRY` branch of `handle_output_event` ends. -/
inductive RetryResult (config : Config Out) (state : State Out)
    (ref : TaskRef) (out : Out) (env : OutputEnv) : State Out → Prop where
  | unretried : RetryResult config state ref out env (finishRoute state ref out)
  | refused {next : State Out}
      (created : taskRetryCreate config state ref out env.alloc = (next, none)) :
      RetryResult config state ref out env (finishRoute next ref out)
  | scheduled {next : State Out} {retry : RetryRef Out} {backoff : Nat}
      (created : taskRetryCreate config state ref out env.alloc = (next, some retry)) :
      RetryResult config state ref out env
        (schedRequestCreate (taskUsersDec next ref) retry env.now (some backoff)).1
  | unscheduled {next : State Out} {retry : RetryRef Out}
      (created : taskRetryCreate config state ref out env.alloc = (next, some retry)) :
      RetryResult config state ref out env
        (taskUsersRelease (taskRetryDestroy (taskUsersDec next ref) retry) ref)

theorem handleRetry_result (config : Config Out) (state : State Out)
    (ref : TaskRef) (out : Out) (env : OutputEnv) :
    ∃ ended, handleRetry config state ref out env = ended ∧
      RetryResult config state ref out env ended := by
  refine ⟨_, rfl, ?_⟩
  unfold handleRetry
  split
  · exact .unretried
  · split
    · next created => exact .refused created
    · next created =>
      dsimp only
      cases wait : env.backoff with
      | none => exact .unscheduled created
      | some backoff =>
        rw [if_neg schedRequestCreate_ne]
        exact .scheduled created

section
variable {Kept Left : State Out → Prop} {ref : TaskRef}

/-- What the end of a flush leaves, from what holds as long as its user
counts. -/
theorem handleOutputEvent_leaves {ret : Ret} {env : OutputEnv}
    (flushed : Kept (flushNextIf config state out))
    (created : ∀ {state}, Kept state → Kept (taskRetryCreate config state ref out env.alloc).1)
    (finished : ∀ {state}, Kept state → Left (finishRoute state ref out))
    (scheduled : ∀ {state retry backoff}, Kept state →
      Left (schedRequestCreate (taskUsersDec state ref) retry env.now (some backoff)).1)
    (unscheduled : ∀ {state retry}, Kept state →
      Left (taskUsersRelease (taskRetryDestroy (taskUsersDec state ref) retry) ref)) :
    Left (handleOutputEvent config state ref out ret env) := by
  cases ret with
  | ok | error => exact finished flushed
  | retry =>
    have begun := created flushed
    obtain ⟨ended, returned, result⟩ :=
      handleRetry_result config (flushNextIf config state out) ref out env
    change Left (handleRetry config (flushNextIf config state out) ref out env)
    rw [returned]
    cases result with
    | unretried => exact finished flushed
    | refused absent =>
      rw [absent] at begun
      exact finished begun
    | scheduled present =>
      rw [present] at begun
      exact scheduled begun
    | unscheduled present =>
      rw [present] at begun
      exact unscheduled begun

theorem schedRequestTimer_keeps {request : Request Out} {env : RetryEnv} (kept : Kept state)
    (requested : Kept (schedRequestCreate state request.data env.now env.backoff).1)
    (destroyed : ∀ {state}, Kept state → Kept (taskRetryDestroy state request.data))
    (released : ∀ {state}, Kept state → Kept (taskUsersRelease state request.data.parent))
    (queued : (config.output request.data.oIns).synchronous = true →
      Kept (outputTaskSingleplexEnqueue config state (some request.data) request.data.parent
        request.data.oIns).1)
    (flushed : (config.output request.data.oIns).synchronous = false →
      Kept (outputTaskFlushDirect config state request.data.parent request.data.oIns).1)
    (dropped : ∀ {state}, Kept state →
      Kept { state with requests := state.requests.filter (·.id ≠ request.id) }) :
    Kept (schedRequestTimer config state request env) := by
  have dispatched : Kept (engineDispatchRetry config state request.data env).1 := by
    unfold engineDispatchRetry taskRetryReschedule
    split
    · dsimp only
      split
      · exact released (destroyed requested)
      · exact requested
    · split
      · exact destroyed kept
      · split
        · next synchronous =>
          dsimp only
          split <;> exact queued synchronous
        · next multiplexed =>
          have sent := flushed (by simpa using multiplexed)
          dsimp only
          split
          · exact destroyed sent
          · exact sent
  unfold schedRequestTimer
  dsimp only
  split
  · exact dropped dispatched
  · exact dispatched

end

inductive StepResult (config : Config Out) (state : State Out) : Event Out → State Out → Prop where
  | dispatch (input : InId) (created : List (NewTask Out)) (script : Script) :
      StepResult config state (.dispatch input created script)
        (engineDispatch config (state.load script) input created)
  | workerStart (flush : Flush Out) (created : Bool)
      (member : flush ∈ state.flushes) (phase : flush.phase = .dispatched) :
      StepResult config state (.workerStart flush.id created) (workerStart state flush created)
  | resume (flush : Flush Out) (task : Task Out)
      (member : flush ∈ state.flushes) (phase : flush.phase = .running)
      (live : state.task flush.task = some task) :
      StepResult config state (.resume flush.id) (resumeFlush state flush task)
  | outputReturn (flush : Flush Out) (ret : Ret)
      (member : flush ∈ state.flushes) (phase : flush.phase = .running) :
      StepResult config state (.outputReturn flush.id ret) (outputReturn state flush ret)
  | outputEvent (flush : Flush Out) (ret : Ret) (task : Task Out)
      (env : OutputEnv) (starts : List StartOutcome)
      (member : flush ∈ state.flushes)
      (phase : flush.phase = .returned ret)
      (live : state.task flush.task = some task) :
      StepResult config state (.outputEvent flush.id env starts)
        (handleOutputEvent config
          ((state.load { starts := starts, allocs := [] }).removeFlush
            flush.id) flush.task flush.out ret env)
  | retryTimer (request : Request Out) (task : Task Out) (env : RetryEnv)
      (script : Script) (member : request ∈ state.requests)
      (live : state.task request.data.parent = some task)
      (linked : ∃ retry ∈ task.retries, retry.ref = request.data) :
      StepResult config state (.retryTimer request.id env script)
        (schedRequestTimer config (state.load script) request env)
  | frameTimer (now : Nat) (timers : List Bool) :
      StepResult config state (.frameTimer now timers) (scheduleRequestPromote state now timers)
  | rescheduleRetries (now : Nat) (timers : List Bool) :
      StepResult config state (.rescheduleRetries now timers)
        (engineRescheduleRetries config state now timers)
  | dropRoute (ref : TaskRef) (out : Out) (task : Task Out)
      (live : state.task ref = some task) (inUse : task.users ≠ 0) :
      StepResult config state (.dropRoute ref out) (dropTaskRoute state ref out)
  | releaseChunk (ref : TaskRef) (task : Task Out)
      (live : state.task ref = some task) (unused : task.users = 0) :
      StepResult config state (.releaseChunk ref) (taskDestroy state ref)

theorem step_result {next : State Out} {event : Event Out}
    (taken : step config state event = some next) : StepResult config state event next := by
  cases event with
  | dispatch input created script =>
    cases taken
    exact .dispatch input created script
  | workerStart id created =>
    simp only [step] at taken
    repeat' split at taken
    all_goals cases taken
    next flush found phase =>
      obtain ⟨member, rfl⟩ := findFlush_eq_some found
      exact .workerStart flush created member phase
  | resume id =>
    simp only [step] at taken
    repeat' split at taken
    all_goals cases taken
    next flush found _ task live phase =>
      obtain ⟨member, rfl⟩ := findFlush_eq_some found
      exact .resume flush task member phase live
  | outputReturn id ret =>
    simp only [step] at taken
    repeat' split at taken
    all_goals cases taken
    next flush found phase =>
      obtain ⟨member, rfl⟩ := findFlush_eq_some found
      exact .outputReturn flush ret member phase
  | outputEvent id env starts =>
    simp only [step] at taken
    repeat' split at taken
    all_goals cases taken
    next flush found _ _ ret task phase live =>
      obtain ⟨member, rfl⟩ := findFlush_eq_some found
      exact .outputEvent flush ret task env starts member phase live
  | retryTimer id env script =>
    simp only [step] at taken
    repeat' split at taken
    all_goals cases taken
    next request found _ task live linked =>
      have member := mem_of_find?_eq_some found
      obtain rfl : request.id = id := by simpa using find?_some found
      exact .retryTimer request task env script member live (by simpa using linked)
  | frameTimer now timers =>
    cases taken
    exact .frameTimer now timers
  | rescheduleRetries now timers =>
    cases taken
    exact .rescheduleRetries now timers
  | dropRoute ref out =>
    simp only [step] at taken
    repeat' split at taken
    all_goals cases taken
    next task live droppable => exact .dropRoute ref out task live droppable.1
  | releaseChunk ref =>
    simp only [step] at taken
    repeat' split at taken
    all_goals cases taken
    next task live unused => exact .releaseChunk ref task live unused

end

variable {Out : Type}

def State.allRequests (state : State Out) : List (Request Out) :=
  state.requests ++ state.requestsWait

def State.others (state : State Out) :=
  (state.queue, state.flushes, state.next, state.starts, state.allocs,
    state.handed, state.dropped, state.started, state.removedLive, state.faulted)

/-- A task that may have lost retries. -/
structure TaskSheds (before after : Task Out) : Prop where
  iIns : after.iIns = before.iIns
  status : after.status = before.status
  users : after.users = before.users
  routes : after.routes = before.routes
  retries : after.retries.Sublist before.retries

structure Sheds (before after : State Out) : Prop where
  tasks : ∀ {ref task}, after.task ref = some task →
    ∃ old, before.task ref = some old ∧ TaskSheds old task
  requests : after.allRequests.Subperm before.allRequests
  others : after.others = before.others

theorem TaskSheds.refl (task : Task Out) : TaskSheds task task :=
  ⟨rfl, rfl, rfl, rfl, .refl _⟩

theorem TaskSheds.trans {before middle after : Task Out} (first : TaskSheds before middle)
    (second : TaskSheds middle after) : TaskSheds before after :=
  ⟨second.iIns.trans first.iIns, second.status.trans first.status,
    second.users.trans first.users, second.routes.trans first.routes,
    second.retries.trans first.retries⟩

section
variable {before middle after : State Out}

theorem Sheds.refl (state : State Out) : Sheds state state :=
  ⟨fun live => ⟨_, live, TaskSheds.refl _⟩, .refl _, rfl⟩

theorem Sheds.trans (first : Sheds before middle) (second : Sheds middle after) :
    Sheds before after :=
  { tasks := by
      intro ref task live
      obtain ⟨kept, keptLive, shed⟩ := second.tasks live
      obtain ⟨old, oldLive, earlier⟩ := first.tasks keptLive
      exact ⟨old, oldLive, earlier.trans shed⟩
    requests := second.requests.trans first.requests
    others := second.others.trans first.others }

variable (sheds : Sheds before after)
include sheds

theorem Sheds.queue : after.queue = before.queue :=
  congrArg (fun others => others.1) sheds.others

theorem Sheds.flushes : after.flushes = before.flushes :=
  congrArg (fun others => others.2.1) sheds.others

theorem Sheds.next : after.next = before.next :=
  congrArg (fun others => others.2.2.1) sheds.others

theorem Sheds.starts : after.starts = before.starts :=
  congrArg (fun others => others.2.2.2.1) sheds.others

theorem Sheds.allocs : after.allocs = before.allocs :=
  congrArg (fun others => others.2.2.2.2.1) sheds.others

theorem Sheds.handed : after.handed = before.handed :=
  congrArg (fun others => others.2.2.2.2.2.1) sheds.others

theorem Sheds.started : after.started = before.started :=
  congrArg (fun others => others.2.2.2.2.2.2.2.1) sheds.others

theorem Sheds.removedLive : after.removedLive = before.removedLive :=
  congrArg (fun others => others.2.2.2.2.2.2.2.2.1) sheds.others

theorem Sheds.faulted : after.faulted = before.faulted :=
  congrArg (fun others => others.2.2.2.2.2.2.2.2.2) sheds.others

end

theorem sheds_filterRequests (state : State Out) (id : Nat) :
    Sheds state
      { state with requests := state.requests.filter (·.id ≠ id) } :=
  { Sheds.refl state with requests := (filter_sublist.append (.refl _)).subperm }

/-- Neither the queues nor the flushes nor their histories change. -/
structure Quiet (before after : State Out) : Prop where
  queue : after.queue = before.queue
  flushes : after.flushes = before.flushes
  started : after.started = before.started
  removedLive : after.removedLive = before.removedLive
  faulted : after.faulted = before.faulted

theorem Quiet.refl (state : State Out) : Quiet state state := ⟨rfl, rfl, rfl, rfl, rfl⟩

theorem Quiet.trans {before middle after : State Out} (first : Quiet before middle)
    (second : Quiet middle after) : Quiet before after :=
  ⟨second.queue.trans first.queue, second.flushes.trans first.flushes,
    second.started.trans first.started, second.removedLive.trans first.removedLive,
    second.faulted.trans first.faulted⟩

theorem Sheds.quiet {before after : State Out} (sheds : Sheds before after) : Quiet before after :=
  ⟨sheds.queue, sheds.flushes, sheds.started, sheds.removedLive, sheds.faulted⟩

theorem quiet_modifyTask (state : State Out) (ref : TaskRef) (change : Task Out → Task Out) :
    Quiet state (state.modifyTask ref change) :=
  ⟨rfl, rfl, rfl, rfl, rfl⟩

theorem quiet_schedRequestCreate (state : State Out) (data : RetryRef Out) (now : Nat)
    (backoff : Option Nat) : Quiet state (schedRequestCreate state data now backoff).1 := by
  unfold schedRequestCreate
  split
  · exact Quiet.refl state
  · dsimp only
    split <;> exact ⟨rfl, rfl, rfl, rfl, rfl⟩

theorem quiet_schedRetryNow (state : State Out) (data : RetryRef Out) (now : Nat) (timer : Bool) :
    Quiet state (schedRetryNow state data now timer).1 := by
  unfold schedRetryNow
  split <;> exact ⟨rfl, rfl, rfl, rfl, rfl⟩

variable [DecidableEq Out]

theorem sheds_schedRequestInvalidate (state : State Out) (data : RetryRef Out) :
    Sheds state (schedRequestInvalidate state data) := by
  unfold schedRequestInvalidate
  split
  · exact
      { Sheds.refl state with
        requests := (eraseP_sublist.append (List.Sublist.refl _)).subperm }
  · exact
      { Sheds.refl state with
        requests := ((List.Sublist.refl _).append eraseP_sublist).subperm }

theorem sheds_taskRetryDestroy (state : State Out) (retry : RetryRef Out) :
    Sheds state (taskRetryDestroy state retry) := by
  refine (sheds_schedRequestInvalidate state retry).trans
    { Sheds.refl _ with tasks := ?_ }
  intro ref task live
  rcases modifyTask_eq_some live with ⟨old, rfl, oldLive, rfl⟩ | ⟨_, live⟩
  · exact ⟨old, oldLive, ⟨rfl, rfl, rfl, rfl, eraseP_sublist⟩⟩
  · exact ⟨task, live, TaskSheds.refl task⟩

theorem sheds_foldl_taskRetryDestroy (retries : List (TaskRetry Out)) (state : State Out) :
    Sheds state (retries.foldl (fun state retry => taskRetryDestroy state retry.ref) state) :=
  foldlRecOn retries _ (Sheds.refl state)
    fun current shed _ _ => shed.trans (sheds_taskRetryDestroy current _)

section
variable (state : State Out) (ref : TaskRef)

theorem sheds_taskDestroy : Sheds state (taskDestroy state ref) := by
  unfold taskDestroy
  split
  · exact Sheds.refl state
  · next task live =>
    refine (sheds_foldl_taskRetryDestroy task.retries state).trans
      { Sheds.refl _ with tasks := ?_ }
    intro other kept otherLive
    by_cases same : other = ref
    · simp [same] at otherLive
    · exact ⟨kept, by simpa [same] using otherLive, TaskSheds.refl kept⟩

theorem taskDestroy_task_self : (taskDestroy state ref).task ref = none := by
  unfold taskDestroy
  split
  · next dead => exact dead
  · simp

theorem sheds_taskUsersRelease : Sheds state (taskUsersRelease state ref) := by
  unfold taskUsersRelease
  split
  · exact Sheds.refl state
  · split
    · exact sheds_taskDestroy state ref
    · exact Sheds.refl state

theorem sheds_taskRetryClean (out : Out) : Sheds state (taskRetryClean state ref out) := by
  unfold taskRetryClean
  split
  · exact Sheds.refl state
  · split
    · exact Sheds.refl state
    · exact sheds_taskRetryDestroy state _

theorem sheds_cleanupTask : Sheds state (cleanupTask state ref) := by
  unfold cleanupTask
  split
  · exact Sheds.refl state
  · split
    · exact sheds_taskDestroy state ref
    · exact Sheds.refl state

end

variable {config : Config Out}

section
variable (state : State Out) (ref : TaskRef) (out : Out)

theorem quiet_taskRetryCreate (alloc : Bool) :
    Quiet state (taskRetryCreate config state ref out alloc).1 := by
  apply taskRetryCreate_keeps (Quiet.refl state)
  · exact fun _ _ => (sheds_taskRetryDestroy state _).quiet
  · exact fun _ _ => ⟨rfl, rfl, rfl, rfl, rfl⟩

theorem quiet_finishRoute : Quiet state (finishRoute state ref out) :=
  ((sheds_taskRetryClean state ref out).quiet.trans
    (quiet_modifyTask _ _ _)).trans (sheds_taskUsersRelease _ _).quiet

theorem quiet_handleOutputEvent (ret : Ret) (env : OutputEnv) :
    Quiet (flushNextIf config state out) (handleOutputEvent config state ref out ret env) := by
  apply handleOutputEvent_leaves (Quiet.refl _)
  · exact fun quiet => quiet.trans (quiet_taskRetryCreate _ ref out env.alloc)
  · exact fun quiet => quiet.trans (quiet_finishRoute _ ref out)
  · exact fun quiet =>
      (quiet.trans (quiet_modifyTask _ _ _)).trans (quiet_schedRequestCreate _ _ _ _)
  · exact fun quiet => ((quiet.trans (quiet_modifyTask _ _ _)).trans
      (sheds_taskRetryDestroy _ _).quiet).trans (sheds_taskUsersRelease _ _).quiet

end

theorem rescheduleTask_keeps (Kept : State Out → List Bool → Prop) (now : Nat)
    (retries : List (TaskRetry Out))
    (each : ∀ {state : State Out} {timers : List Bool},
      ∀ retry ∈ retries, Kept state timers →
        Kept (schedRetryNow (schedRequestInvalidate state retry.ref)
          retry.ref now (timers.headD true)).1 timers.tail)
    {state : State Out} {timers : List Bool} (kept : Kept state timers) :
    Kept (rescheduleTask now retries (state, timers)).1
      (rescheduleTask now retries (state, timers)).2 := by
  induction retries generalizing state timers with
  | nil => exact kept
  | cons retry retries ih =>
    apply ih
    · exact fun other member => each other (mem_cons_of_mem _ member)
    · exact each retry mem_cons_self kept

theorem reschedule_task (state : State Out) (data : RetryRef Out) (now : Nat) (timer : Bool) :
    (schedRetryNow (schedRequestInvalidate state data) data now timer).1.task = state.task := by
  unfold schedRetryNow schedRequestInvalidate
  split <;> split <;> rfl

section
variable (config : Config Out) (Kept : State Out → List Bool → Prop) (now : Nat)

theorem engineRescheduleRetries_keepsListed {state : State Out}
    (each : ∀ {current : State Out} {timers : List Bool} {ref : TaskRef}
      {task : Task Out}, current.task ref = some task → ¬0 < task.users →
      ∀ retry ∈ task.retries, Kept current timers →
        Kept (schedRetryNow (schedRequestInvalidate current retry.ref)
          retry.ref now (timers.headD true)).1 timers.tail)
    (timers : List Bool) (kept : Kept state timers) :
    ∃ rest, Kept (engineRescheduleRetries config state now timers) rest := by
  have all : Kept
      (config.inputs.foldl (fun current input =>
        (current.1.tasks input).foldl (rescheduleRef now) current)
        (state, timers)).1
      (config.inputs.foldl (fun current input =>
        (current.1.tasks input).foldl (rescheduleRef now) current)
        (state, timers)).2 := by
    refine foldlRecOn (motive := fun current : State Out × List Bool =>
      Kept current.1 current.2) config.inputs _ kept ?_
    intro outer keptOuter input _
    refine foldlRecOn (motive := fun current : State Out × List Bool =>
      Kept current.1 current.2) _ _ keptOuter ?_
    intro current keptCurrent ref _
    unfold rescheduleRef
    split
    · exact keptCurrent
    · next task live =>
      split
      · exact keptCurrent
      · next unused =>
        -- the tasks stay what they are while their retries are met
        have together := rescheduleTask_keeps
          (fun state timers => Kept state timers ∧ state.task = current.1.task) now task.retries
          (fun {state timers} retry member kept =>
            ⟨each (kept.2 ▸ live) unused retry member kept.1, by rw [reschedule_task, kept.2]⟩)
          ⟨keptCurrent, rfl⟩
        exact together.1
  exact ⟨_, all⟩

theorem engineRescheduleRetries_keeps
    (each : ∀ {state : State Out} {timers : List Bool} (data : RetryRef Out),
      Kept state timers →
        Kept (schedRetryNow (schedRequestInvalidate state data) data now
          (timers.headD true)).1 timers.tail)
    {state : State Out} (timers : List Bool) (kept : Kept state timers) :
    ∃ rest, Kept (engineRescheduleRetries config state now timers) rest := by
  apply engineRescheduleRetries_keepsListed config Kept now _ timers kept
  intro current timers ref task _ _ retry _ keptCurrent
  exact each retry.ref keptCurrent

end

theorem quiet_engineRescheduleRetries (state : State Out) (now : Nat) (timers : List Bool) :
    Quiet state (engineRescheduleRetries config state now timers) := by
  obtain ⟨_, quiet⟩ := engineRescheduleRetries_keeps config
    (fun current _ => Quiet state current) now
    (fun data kept =>
      (kept.trans (sheds_schedRequestInvalidate _ data).quiet).trans (quiet_schedRetryNow _ _ _ _))
    timers (Quiet.refl state)
  exact quiet

end FluentBit.Engine
