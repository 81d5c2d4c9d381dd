import Mathlib.Tactic

/-!
# Engine state and the handling of events

Tasks, their routes and retries, the singleplex queues of synchronous outputs,
the flushes in flight and the scheduler requests.  Tasks are heap cells named
by a reference; references, retry addresses, queue entries, flushes and
requests are numbered from one counter and never reused.  What the machine
decides (allocations, pipe writes, timers) is given by a script that every
call consumes from the front.

A flush that cannot be started flushes the next entry of the queue, and so does
the function that took the entry from the queue.  The recursion is tied with
fuel; every round takes one entry from the pending list, so one unit more than
its length is always enough.  One step of the engine handles one event.
-/

namespace FluentBit.Engine

open Function

abbrev TaskRef := Nat

abbrev InId := Nat

/-- `FLB_TASK_NEW` and `FLB_TASK_RUNNING`. -/
inductive TaskStatus where
  | new
  | running
deriving DecidableEq, Repr

/-- `FLB_TASK_ROUTE_INACTIVE`, `FLB_TASK_ROUTE_ACTIVE` and
`FLB_TASK_ROUTE_DROPPED`. -/
inductive RouteStatus where
  | inactive
  | active
  | dropped
deriving DecidableEq, Repr

structure Route (Out : Type) where
  status : RouteStatus
  out : Out
deriving DecidableEq, Repr

/-- A pointer to a `struct flb_task_retry`, with the two fields that never
change after its creation. -/
structure RetryRef (Out : Type) where
  addr : Nat
  parent : TaskRef
  oIns : Out
deriving DecidableEq, Repr

/-- `struct flb_task_retry`, as linked in the retries of its task. -/
structure TaskRetry (Out : Type) where
  ref : RetryRef Out
  attempts : Nat
deriving DecidableEq, Repr

structure Task (Out : Type) where
  iIns : InId
  status : TaskStatus
  users : Int
  routes : List (Route Out)
  retries : List (TaskRetry Out)
deriving DecidableEq, Repr

/-- `struct flb_task_enqueued`.  The number tells queue entries apart. -/
structure Enqueued (Out : Type) where
  seq : Nat
  task : TaskRef
  retry : Option (RetryRef Out)
deriving DecidableEq, Repr

structure TaskQueue (Out : Type) where
  pending : List (Enqueued Out)
  inProgress : List (Enqueued Out)
deriving DecidableEq, Repr

/-- `FLB_OK`, `FLB_RETRY` and `FLB_ERROR`. -/
inductive Ret where
  | ok
  | retry
  | error
deriving DecidableEq, Repr

/-- A flush handed to a worker thread is `dispatched` until the worker creates
its coroutine; it is `returned` from `flb_output_return` until the engine
handles its event. -/
inductive Phase where
  | dispatched
  | running
  | returned (ret : Ret)
deriving DecidableEq, Repr

/-- `struct flb_output_flush`, with the queue entry it was started for. -/
structure Flush (Out : Type) where
  id : Nat
  task : TaskRef
  out : Out
  entry : Option Nat
  phase : Phase
deriving DecidableEq, Repr

structure Request (Out : Type) where
  id : Nat
  data : RetryRef Out
  created : Nat
  timeout : Nat
deriving DecidableEq, Repr

/-- How an attempt to start a flush ends.  For a threaded output every outcome
but `started` is a failed dispatch to the thread pool. -/
inductive StartOutcome where
  | started
  | createFailed
  | writeFailed
deriving DecidableEq, Repr

/-- The fields of `struct flb_output_instance` the engine reads.  An output is
in test mode when a formatter test is registered for it. -/
structure Output where
  synchronous : Bool
  noMultiplex : Bool
  isThreaded : Bool
  testMode : Bool
  retryLimit : Int
deriving DecidableEq, Repr

structure Config (Out : Type) where
  inputs : List InId
  output : Out → Output

/-- The engine.  The last five fields record history: the routes handed to
their output, the routes ever dropped, the queue entries whose flush was
started, the queue entries removed from `in_progress` during their flush, and
whether a queue entry was read after it was freed.  From then on the program
has no defined behaviour, and the model goes on with what the entry held. -/
structure State (Out : Type) where
  task : TaskRef → Option (Task Out)
  tasks : InId → List TaskRef
  queue : Out → TaskQueue Out
  flushes : List (Flush Out)
  requests : List (Request Out)
  requestsWait : List (Request Out)
  next : Nat
  starts : List StartOutcome
  allocs : List Bool
  handed : List (TaskRef × Out)
  dropped : List (TaskRef × Out)
  started : List (Out × Nat)
  removedLive : List Nat
  faulted : Bool

def State.initial {Out : Type} : State Out :=
  { task := fun _ => none
    tasks := fun _ => []
    queue := fun _ => { pending := [], inProgress := [] }
    flushes := []
    requests := []
    requestsWait := []
    next := 0
    starts := []
    allocs := []
    handed := []
    dropped := []
    started := []
    removedLive := []
    faulted := false }

section
variable {Out : Type}

def State.nextStart (state : State Out) : StartOutcome := state.starts.headD .started

def State.nextAlloc (state : State Out) : Bool := state.allocs.headD true

@[simps -fullyApplied tasks queue flushes requests requestsWait next starts allocs handed dropped
  started removedLive faulted]
def State.modifyTask (state : State Out) (ref : TaskRef) (change : Task Out → Task Out) :
    State Out :=
  { state with task := update state.task ref ((state.task ref).map change) }

def taskUsersInc (state : State Out) (ref : TaskRef) : State Out :=
  state.modifyTask ref fun task => { task with users := task.users + 1 }

/-- `flb_task_users_dec` with `release_check` false. -/
def taskUsersDec (state : State Out) (ref : TaskRef) : State Out :=
  state.modifyTask ref fun task => { task with users := task.users - 1 }

section
variable (state : State Out) (ref : TaskRef) (change : Task Out → Task Out)

@[simp] theorem modifyTask_task_self :
    (state.modifyTask ref change).task ref = (state.task ref).map change := by
  simp [State.modifyTask]

theorem modifyTask_task_of_ne {other : TaskRef} (different : other ≠ ref) :
    (state.modifyTask ref change).task other = state.task other := by
  simp [State.modifyTask, different]

theorem modifyTask_task (other : TaskRef) :
    (state.modifyTask ref change).task other = if other = ref then (state.task ref).map change
      else state.task other := by
  by_cases same : other = ref
  · subst other
    simp
  · simp [modifyTask_task_of_ne, same]

variable {state ref change} in
theorem modifyTask_eq_some {other : TaskRef} {task : Task Out}
    (live : (state.modifyTask ref change).task other = some task) :
    (∃ old, ref = other ∧ state.task ref = some old ∧ change old = task) ∨
      other ≠ ref ∧ state.task other = some task := by
  rw [modifyTask_task] at live
  split at live
  · next same =>
    obtain ⟨old, oldLive, changed⟩ := Option.map_eq_some_iff.mp live
    exact .inl ⟨old, same.symm, oldLive, changed⟩
  · next different => exact .inr ⟨different, live⟩

end

theorem taskUsersDec_taskUsersInc (state : State Out) (ref : TaskRef) :
    taskUsersDec (taskUsersInc state ref) ref = state := by
  have restored :
      update
          (update state.task ref
            ((state.task ref).map fun task =>
              { task with users := task.users + 1 })) ref
          (((state.task ref).map fun task =>
              { task with users := task.users + 1 }).map fun task =>
            { task with users := task.users - 1 }) = state.task := by
    rw [update_idem, Option.map_map]
    have identity :
        ((fun task : Task Out => { task with users := task.users - 1 }) ∘
          fun task : Task Out => { task with users := task.users + 1 }) = id := by
      funext task
      simp
    rw [identity, Option.map_id_apply, update_eq_self]
  simp only [taskUsersDec, taskUsersInc, State.modifyTask, update_self, restored]

variable [DecidableEq Out]

def State.setQueue (state : State Out) (out : Out) (queue : TaskQueue Out) : State Out :=
  { state with queue := update state.queue out queue }

def schedRequestInvalidate (state : State Out) (data : RetryRef Out) : State Out :=
  if state.requests.any (·.data = data) then
    { state with requests := state.requests.eraseP (·.data = data) }
  else
    { state with requestsWait := state.requestsWait.eraseP (·.data = data) }

def taskRetryDestroy (state : State Out) (retry : RetryRef Out) : State Out :=
  (schedRequestInvalidate state retry).modifyTask retry.parent fun task =>
    { task with retries := task.retries.eraseP (·.ref = retry) }

def taskDestroy (state : State Out) (ref : TaskRef) : State Out :=
  match state.task ref with
  | none => state
  | some task =>
    let state := task.retries.foldl (fun state retry => taskRetryDestroy state retry.ref) state
    { state with
      task := update state.task ref none
      tasks := update state.tasks task.iIns ((state.tasks task.iIns).erase ref) }

def taskUsersRelease (state : State Out) (ref : TaskRef) : State Out :=
  match state.task ref with
  | none => state
  | some task =>
    if task.users = 0 ∧ task.retries.length = 0 then taskDestroy state ref
    else state

def schedRequestFrame : Nat := 10

/-- `flb_sched_request_create`: the seconds to wait, or -1 when no timer or no
request could be made.  `backoff` is what the backoff suggests. -/
def schedRequestCreate (state : State Out) (data : RetryRef Out)
    (now : Nat) (backoff : Option Nat) : State Out × Int :=
  match backoff with
  | none => (state, -1)
  | some backoff =>
    let seconds := backoff + 1
    let request : Request Out :=
      { id := state.next, data := data, created := now, timeout := seconds }
    if seconds > schedRequestFrame then
      ({ state with
          requestsWait := state.requestsWait ++ [request]
          next := state.next + 1 }, seconds)
    else
      ({ state with requests := state.requests ++ [request], next := state.next + 1 }, seconds)

def schedRetryNow (state : State Out) (data : RetryRef Out) (now : Nat) (timer : Bool) :
    State Out × Int :=
  if timer then
    let request : Request Out :=
      { id := state.next, data := data, created := now, timeout := 0 }
    ({ state with requests := state.requests ++ [request], next := state.next + 1 }, 0)
  else (state, -1)

def taskRetryReschedule (state : State Out) (retry : RetryRef Out)
    (now : Nat) (backoff : Option Nat) : State Out × Int :=
  let (state, seconds) := schedRequestCreate state retry now backoff
  if seconds = -1 then
    (taskUsersRelease (taskRetryDestroy state retry) retry.parent, -1)
  else (state, 0)

/-- `flb_task_retry_create`: the retry of the task for an output, unless its
attempts are used up or it cannot be allocated. -/
def taskRetryCreate (config : Config Out) (state : State Out) (ref : TaskRef) (out : Out)
    (alloc : Bool) : State Out × Option (RetryRef Out) :=
  match state.task ref with
  | none => (state, none)
  | some task =>
    match task.retries.find? (·.ref.oIns = out) with
    | some retry =>
      let limit := (config.output out).retryLimit
      if (retry.attempts : Int) ≥ limit ∧ limit ≥ 0 then
        (taskRetryDestroy state retry.ref, none)
      else
        (state.modifyTask ref fun task =>
          { task with
            retries := task.retries.map fun other =>
              if other.ref = retry.ref then
                { other with attempts := other.attempts + 1 }
              else other }, some retry.ref)
    | none =>
      if alloc then
        let retry : RetryRef Out :=
          { addr := state.next, parent := ref, oIns := out }
        let state := { state with next := state.next + 1 }
        (state.modifyTask ref fun task =>
          { task with retries := task.retries ++ [{ ref := retry, attempts := 1 }] },
          some retry)
      else (state, none)

def taskRetryClean (state : State Out) (ref : TaskRef) (out : Out) : State Out :=
  match state.task ref with
  | none => state
  | some task =>
    match task.retries.find? (·.ref.oIns = out) with
    | none => state
    | some retry => taskRetryDestroy state retry.ref

def taskGetRouteStatus (task : Task Out) (out : Out) : RouteStatus :=
  match task.routes.find? (·.out = out) with
  | none => .inactive
  | some route => route.status

/-- `flb_task_set_route_status`; the routes of a task have distinct
outputs. -/
def taskSetRouteStatus (state : State Out) (ref : TaskRef) (out : Out) (status : RouteStatus) :
    State Out :=
  state.modifyTask ref fun task =>
    { task with
      routes := task.routes.map fun route =>
        if route.out = out then { route with status := status } else route }

end

variable {Out : Type} [DecidableEq Out] (config : Config Out)

/-- A new flush in flight, counted as a user of its task. -/
def startFlush (state : State Out) (ref : TaskRef) (out : Out)
    (entry : Option Nat) (phase : Phase) : State Out :=
  { taskUsersInc state ref with
    flushes := state.flushes ++
      [{ id := state.next, task := ref, out := out, entry := entry, phase := phase }]
    next := state.next + 1
    started := state.started ++ entry.toList.map (out, ·) }

/-- `flb_output_task_flush`.  A failed dispatch to the thread pool is not
reported to the caller; a failed pipe write is. -/
def outputTaskFlush (flushNext : State Out → Out → State Out) (state : State Out) (ref : TaskRef)
    (out : Out) (entry : Option Nat) : State Out × Int :=
  let outcome := state.nextStart
  let state :=
    { state with starts := state.starts.tail, handed := state.handed ++ [(ref, out)] }
  if (config.output out).isThreaded then
    match outcome with
    | .started => (startFlush state ref out entry .dispatched, 0)
    | _ =>
      let state := taskUsersDec (taskUsersInc state ref) ref
      if (config.output out).synchronous then (flushNext state out, 0)
      else (state, 0)
  else
    match outcome with
    | .createFailed => (state, -1)
    | .writeFailed =>
      let state := taskUsersDec (taskUsersInc state ref) ref
      if (config.output out).synchronous then (flushNext state out, -1)
      else (state, -1)
    | .started => (startFlush state ref out entry .running, 0)

def outputTaskQueueEnqueue (state : State Out) (retry : Option (RetryRef Out))
    (ref : TaskRef) (out : Out) : State Out × Int :=
  let alloc := state.nextAlloc
  let state := { state with allocs := state.allocs.tail }
  if alloc then
    let queue := state.queue out
    let entry : Enqueued Out :=
      { seq := state.next, task := ref, retry := retry }
    ({ state with next := state.next + 1 }.setQueue out
      { queue with pending := queue.pending ++ [entry] }, 0)
  else
    match retry with
    | none => (state, -1)
    | some retry => (taskRetryDestroy state retry, -1)

/-- `queued_task` is read after its flush; an entry that is no longer in
progress was freed. -/
def readEntry (state : State Out) (out : Out) (entry : Enqueued Out) : State Out :=
  { state with
    faulted := state.faulted || (state.queue out).inProgress.all (·.seq ≠ entry.seq) }

def outputTaskQueueFlushOne (flushNext : State Out → Out → State Out)
    (state : State Out) (out : Out) : State Out × Int :=
  match (state.queue out).pending with
  | [] => (state, -1)
  | entry :: pending =>
    let state := state.setQueue out
      { pending := pending, inProgress := (state.queue out).inProgress ++ [entry] }
    let state := taskUsersDec state entry.task
    let (state, ret) := outputTaskFlush config flushNext state entry.task out (some entry.seq)
    if ret = -1 then
      let state := readEntry state out entry
      let state :=
        match entry.retry with
        | none => state
        | some retry => taskRetryDestroy state retry
      (flushNext state out, -1)
    else (state, ret)

/-- The part of `flb_output_task_singleplex_flush_next` that removes the entry
in progress.  An entry whose flush is still in flight is recorded. -/
def endInProgress (state : State Out) (out : Out) : State Out :=
  match (state.queue out).inProgress with
  | [] => state
  | entry :: inProgress =>
    { state.setQueue out
        { pending := (state.queue out).pending, inProgress := inProgress }
      with
      removedLive := state.removedLive ++
        if state.flushes.any fun flush =>
          flush.out = out ∧ flush.entry = some entry.seq then [entry.seq]
        else [] }

/-- `flb_output_task_singleplex_flush_next`; its callers ignore the return
value. -/
def singleplexFlushNext : Nat → State Out → Out → State Out
  | 0, state, _ => state
  | fuel + 1, state, out =>
    let state := endInProgress state out
    match (state.queue out).pending with
    | [] => state
    | _ :: _ => (outputTaskQueueFlushOne config (singleplexFlushNext fuel) state out).1

/-- `flb_output_task_singleplex_flush_next` with fuel for its whole queue. -/
def outputTaskSingleplexFlushNext (state : State Out) (out : Out) : State Out :=
  singleplexFlushNext config ((state.queue out).pending.length + 1) state out

def outputTaskSingleplexEnqueue (state : State Out) (retry : Option (RetryRef Out)) (ref : TaskRef)
    (out : Out) : State Out × Int :=
  let state := { state with handed := state.handed ++ [(ref, out)] }
  let state := taskUsersInc state ref
  let (state, ret) := outputTaskQueueEnqueue state retry ref out
  if ret = -1 then (state, -1)
  else if (state.queue out).inProgress = [] then
    outputTaskQueueFlushOne config (outputTaskSingleplexFlushNext config) state out
  else (state, 0)

/-- A flush outside the singleplex queue: the caller is not a queue, and the
output is not synchronous. -/
def outputTaskFlushDirect (state : State Out) (ref : TaskRef) (out : Out) : State Out × Int :=
  outputTaskFlush config (outputTaskSingleplexFlushNext config) state ref out none

/-- The outputs a new task is routed to.  `flb_task_create` walks the list of
outputs once and drops a task without destination. -/
structure NewTask (Out : Type) where
  routes : List Out
  nodup : routes.Nodup
  nonempty : routes ≠ []

/-- `flb_task_create`, linked at the end of the tasks of its input. -/
def taskCreate (state : State Out) (input : InId) (created : NewTask Out) : State Out :=
  { state with
    task := Function.update state.task state.next
      (some
        { iIns := input
          status := .new
          users := 0
          routes := created.routes.map fun out =>
            { status := .inactive, out := out }
          retries := [] })
    tasks := Function.update state.tasks input (state.tasks input ++ [state.next])
    next := state.next + 1 }

def outputCorosSize (state : State Out) (out : Out) : Nat :=
  state.flushes.countP fun flush =>
    flush.out = out ∧ flush.phase = .running

/-- The test of `tasks_start` that leaves a route for a later round. -/
def skipsRoute (state : State Out) (retry : Nat) (out : Out) : Bool :=
  (config.output out).noMultiplex && (outputCorosSize state out > 0 || retry > 0)

/-- Remove a route that was served by a formatter test. -/
def removeRoute (state : State Out) (ref : TaskRef) (out : Out) : State Out :=
  state.modifyTask ref fun task =>
    { task with routes := task.routes.filter (·.out ≠ out) }

def startRoute (state : State Out) (ref : TaskRef) (out : Out) : State Out :=
  if (config.output out).synchronous then
    (outputTaskSingleplexEnqueue config state none ref out).1
  else (outputTaskFlushDirect config state ref out).1

/-- The loop of `tasks_start` over the routes of one task, with the number of
routes that were hit. -/
def startRoutes (ref : TaskRef) (retry : Nat) : List Out → State Out → State Out × Nat
  | [], state => (state, 0)
  | out :: outs, state =>
    if (config.output out).testMode then
      startRoutes ref retry outs (removeRoute state ref out)
    else if skipsRoute config state retry out then
      startRoutes ref retry outs state
    else
      let (state, hits) := startRoutes ref retry outs (startRoute config state ref out)
      (state, hits + 1)

def setStatus (state : State Out) (ref : TaskRef) (status : TaskStatus) : State Out :=
  state.modifyTask ref fun task => { task with status := status }

/-- The number of tasks with retries `tasks_start` has met so far. -/
def countRetry (task : Task Out) (retry : Nat) : Nat :=
  if task.retries = [] then retry else retry + 1

/-- The body of the loop of `tasks_start` over the tasks of an input. -/
def startTask (state : State Out) (retry : Nat) (ref : TaskRef) : State Out × Nat :=
  match state.task ref with
  | none => (state, retry)
  | some task =>
    let retry := countRetry task retry
    if task.status ≠ .new then (state, retry)
    else
      let state := setStatus state ref .running
      let (state, hits) := startRoutes config ref retry (task.routes.map (·.out)) state
      if hits = 0 then (setStatus state ref .new, retry)
      else (state, retry)

/-- The loop of `tasks_start` over the tasks of an input. -/
def startTasks : List TaskRef → State Out → Nat → State Out
  | [], state, _ => state
  | ref :: refs, state, retry =>
    let (state, retry) := startTask config state retry ref
    startTasks refs state retry

def tasksStart (state : State Out) (input : InId) : State Out :=
  startTasks config (state.tasks input) state 0

/-- One step of the cleanup loop of `flb_engine_dispatch`. -/
def cleanupTask (state : State Out) (ref : TaskRef) : State Out :=
  match state.task ref with
  | none => state
  | some task =>
    if task.users = 0 ∧ task.retries.length = 0 ∧ task.routes.length = 0
    then taskDestroy state ref
    else state

/-- `flb_engine_dispatch`, with the tasks created for the chunks that are
ready. -/
def engineDispatch (state : State Out) (input : InId) (created : List (NewTask Out)) : State Out :=
  let state := created.foldl (taskCreate · input ·) state
  let state := tasksStart config state input
  (state.tasks input).foldl cleanupTask state

/-- What `flb_engine_dispatch_retry` meets: whether the chunk could be brought
up, whether its content could be read, and what the scheduler offers. -/
structure RetryEnv where
  chunkUp : Bool
  content : Bool
  now : Nat
  backoff : Option Nat

def engineDispatchRetry (state : State Out) (retry : RetryRef Out) (env : RetryEnv) :
    State Out × Int :=
  if env.chunkUp = false then
    taskRetryReschedule state retry env.now env.backoff
  else if env.content = false then (taskRetryDestroy state retry, -1)
  else if (config.output retry.oIns).synchronous then
    let (state, ret) :=
      outputTaskSingleplexEnqueue config state (some retry) retry.parent retry.oIns
    if ret = -1 then (state, -1) else (state, 0)
  else
    let (state, ret) := outputTaskFlushDirect config state retry.parent retry.oIns
    if ret = -1 then (taskRetryDestroy state retry, -1) else (state, 0)

/-- What `handle_output_event` meets: whether a retry can be allocated, and
what the scheduler offers. -/
structure OutputEnv where
  alloc : Bool
  now : Nat
  backoff : Option Nat

/-- The end of `handle_output_event` for a route that is not retried. -/
def finishRoute (state : State Out) (ref : TaskRef) (out : Out) : State Out :=
  taskUsersRelease (taskUsersDec (taskRetryClean state ref out) ref) ref

/-- The `FLB_RETRY` branch of `handle_output_event`. -/
def handleRetry (state : State Out) (ref : TaskRef) (out : Out) (env : OutputEnv) : State Out :=
  if (config.output out).retryLimit = 0 then
    finishRoute state ref out
  else
    match taskRetryCreate config state ref out env.alloc with
    | (state, none) => finishRoute state ref out
    | (state, some retry) =>
      let state := taskUsersDec state ref
      let (state, seconds) := schedRequestCreate state retry env.now env.backoff
      if seconds = -1 then
        taskUsersRelease (taskRetryDestroy state retry) ref
      else state

/-- `handle_output_event`, after the flush has left the list of flushes. -/
def handleOutputEvent (state : State Out) (ref : TaskRef) (out : Out)
    (ret : Ret) (env : OutputEnv) : State Out :=
  let state :=
    if (config.output out).synchronous then
      outputTaskSingleplexFlushNext config state out
    else state
  match ret with
  | .ok | .error => finishRoute state ref out
  | .retry => handleRetry config state ref out env

/-- The loop of `schedule_request_promote`: requests that keep waiting,
requests that were scheduled and requests whose timer failed. -/
def promoteLoop (now : Nat) :
    List (Request Out) → List Bool → List (Request Out) × List (Request Out) × List (Request Out)
  | [], _ => ([], [], [])
  | request :: rest, timers =>
    let passed : Int := now - request.created
    if passed > request.timeout ∨
        passed + schedRequestFrame ≥ request.timeout then
      let (waiting, scheduled, failed) := promoteLoop now rest timers.tail
      if timers.headD true then (waiting, request :: scheduled, failed)
      else (waiting, scheduled, request :: failed)
    else
      let (waiting, scheduled, failed) := promoteLoop now rest timers
      (request :: waiting, scheduled, failed)

def scheduleRequestPromote (state : State Out) (now : Nat) (timers : List Bool) : State Out :=
  let (waiting, scheduled, failed) := promoteLoop now state.requestsWait timers
  { state with requests := state.requests ++ scheduled, requestsWait := waiting ++ failed }

/-- The loop of `flb_engine_reschedule_retries` over the retries of a task,
with the timers that are left. -/
def rescheduleTask (now : Nat) :
    List (TaskRetry Out) → State Out × List Bool → State Out × List Bool
  | [], current => current
  | retry :: retries, (state, timers) =>
    let state := schedRequestInvalidate state retry.ref
    let (state, _) := schedRetryNow state retry.ref now (timers.headD true)
    rescheduleTask now retries (state, timers.tail)

/-- One task of `flb_engine_reschedule_retries`. -/
def rescheduleRef (now : Nat) (current : State Out × List Bool) (ref : TaskRef) :
    State Out × List Bool :=
  match current.1.task ref with
  | none => current
  | some task =>
    if task.users > 0 then current
    else rescheduleTask now task.retries current

def engineRescheduleRetries (state : State Out) (now : Nat) (timers : List Bool) : State Out :=
  (config.inputs.foldl
    (fun current input =>
      (current.1.tasks input).foldl (rescheduleRef now) current)
    (state, timers)).1

/-- The outcomes of the calls made while one event is handled. -/
structure Script where
  starts : List StartOutcome
  allocs : List Bool

inductive Event (Out : Type) where
  | dispatch (input : InId) (created : List (NewTask Out)) (script : Script)
  | workerStart (flush : Nat) (created : Bool)
  | resume (flush : Nat)
  | outputReturn (flush : Nat) (ret : Ret)
  | outputEvent (flush : Nat) (env : OutputEnv) (starts : List StartOutcome)
  | retryTimer (request : Nat) (env : RetryEnv) (script : Script)
  | frameTimer (now : Nat) (timers : List Bool)
  | rescheduleRetries (now : Nat) (timers : List Bool)
  | dropRoute (ref : TaskRef) (out : Out)
  | releaseChunk (ref : TaskRef)

def State.load (state : State Out) (script : Script) : State Out :=
  { state with starts := script.starts, allocs := script.allocs }

def State.findFlush (state : State Out) (id : Nat) : Option (Flush Out) :=
  state.flushes.find? (·.id = id)

def State.removeFlush (state : State Out) (id : Nat) : State Out :=
  { state with flushes := state.flushes.filter (·.id ≠ id) }

def State.setPhase (state : State Out) (id : Nat) (phase : Phase) : State Out :=
  { state with
    flushes := state.flushes.map fun flush =>
      if flush.id = id then { flush with phase := phase } else flush }

/-- A worker reads a task from its pipe.  When the coroutine cannot be created
the task is forgotten. -/
def workerStart (state : State Out) (flush : Flush Out) (created : Bool) : State Out :=
  if created then state.setPhase flush.id .running
  else state.removeFlush flush.id

/-- `output_pre_cb_flush`: a dropped route is not flushed. -/
def resumeFlush (state : State Out) (flush : Flush Out) (task : Task Out) : State Out :=
  if taskGetRouteStatus task flush.out = .dropped then
    (taskSetRouteStatus state flush.task flush.out .inactive).setPhase flush.id (.returned .error)
  else taskSetRouteStatus state flush.task flush.out .active

def outputReturn (state : State Out) (flush : Flush Out) (ret : Ret) : State Out :=
  (taskSetRouteStatus state flush.task flush.out .inactive).setPhase flush.id (.returned ret)

/-- `flb_input_chunk_drop_task_route` for a task in use. -/
def dropTaskRoute (state : State Out) (ref : TaskRef) (out : Out) : State Out :=
  { taskSetRouteStatus state ref out .dropped with dropped := state.dropped ++ [(ref, out)] }

/-- The `FLB_SCHED_TIMER_REQUEST` branch of `flb_sched_event_handler`. -/
def schedRequestTimer (state : State Out) (request : Request Out) (env : RetryEnv) : State Out :=
  let (state, ret) := engineDispatchRetry config state request.data env
  if ret = 0 then
    { state with requests := state.requests.filter (·.id ≠ request.id) }
  else state

/-- One event, if it is possible in the state.  A completion whose task is
gone is not. -/
def step (state : State Out) : Event Out → Option (State Out)
  | .dispatch input created script => some (engineDispatch config (state.load script) input created)
  | .workerStart id created =>
    match state.findFlush id with
    | some flush =>
      if flush.phase = .dispatched then
        some (workerStart state flush created)
      else none
    | none => none
  | .resume id =>
    match state.findFlush id with
    | some flush =>
      match state.task flush.task with
      | some task =>
        if flush.phase = .running then
          some (resumeFlush state flush task)
        else none
      | none => none
    | none => none
  | .outputReturn id ret =>
    match state.findFlush id with
    | some flush =>
      if flush.phase = .running then some (outputReturn state flush ret)
      else none
    | none => none
  | .outputEvent id env starts =>
    match state.findFlush id with
    | some flush =>
      match flush.phase, state.task flush.task with
      | .returned ret, some _ =>
        let state := state.load { starts := starts, allocs := [] }
        some (handleOutputEvent config (state.removeFlush id) flush.task flush.out ret env)
      | _, _ => none
    | none => none
  | .retryTimer id env script =>
    match state.requests.find? (·.id = id) with
    | some request =>
      match state.task request.data.parent with
      | some task =>
        if task.retries.any (·.ref = request.data) then
          some (schedRequestTimer config (state.load script) request env)
        else none
      | none => none
    | none => none
  | .frameTimer now timers => some (scheduleRequestPromote state now timers)
  | .rescheduleRetries now timers => some (engineRescheduleRetries config state now timers)
  | .dropRoute ref out =>
    match state.task ref with
    | some task =>
      if task.users ≠ 0 ∧ taskGetRouteStatus task out = .inactive then
        some (dropTaskRoute state ref out)
      else none
    | none => none
  | .releaseChunk ref =>
    match state.task ref with
    | some task =>
      if task.users = 0 then some (taskDestroy state ref) else none
    | none => none

/-- No freed queue entry was read on the way to the state. -/
def Sound {Out : Type} (next : Option (State Out)) : Prop := ∀ state ∈ next, state.faulted = false

instance {Out : Type} (next : Option (State Out)) : Decidable (Sound next) :=
  inferInstanceAs (Decidable (∀ _ ∈ _, _))

/-- One synchronous output, flushed by the engine's own thread. -/
def synchronousOutput : Config Unit :=
  { inputs := [0]
    output := fun _ =>
      { synchronous := true
        noMultiplex := false
        isThreaded := false
        testMode := false
        retryLimit := 1 } }

def routedTask : NewTask Unit :=
  { routes := [()]
    nodup := by decide
    nonempty := by decide }

end FluentBit.Engine
