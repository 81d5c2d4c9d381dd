import Mathlib.Data.List.Basic

/-!
# The scheduler of retries

`flb_sched`: retry requests are heap cells linked in one of two lists.  A
request that is due within a frame is armed, which means that the event loop
holds a timer for it; one that is due later waits until a tick of the frame
timer promotes it.  A call reads `time` once, and the event loop is asked for a
timer the given number of seconds after that.  The seconds between two readings
fit an `int`.  At the end the lists of the timers are part of the state.
-/

namespace FluentBit.Scheduler

open Function List

abbrev RequestRef := Nat

abbrev TimerRef := Nat

/-- `struct flb_sched_timer` of type `FLB_SCHED_TIMER_REQUEST`.  An armed timer
is registered with the event loop; `fireAt` is the second it was asked for. -/
structure Timer where
  active : Bool
  data : Option RequestRef
  fireAt : Option Nat
deriving DecidableEq, Repr

/-- `struct flb_sched_request`.  The last field is not in the source: whether
the event loop has refused a timer for the request. -/
structure Request (Data : Type) where
  created : Nat
  timeout : Nat
  data : Data
  timer : TimerRef
  refused : Bool
deriving DecidableEq, Repr

/-- `struct flb_sched`, with the heap cells of requests and timers.  The last
field is not in the source: the time of the last tick of the frame timer. -/
structure Sched (Data : Type) where
  requests : List RequestRef
  requestsWait : List RequestRef
  request : RequestRef → Option (Request Data)
  timer : TimerRef → Option Timer
  next : Nat
  lastTick : Nat

/-- `flb_sched_create`, which starts the frame timer. -/
def schedCreate (Data : Type) (now : Nat) : Sched Data :=
  { requests := []
    requestsWait := []
    request := fun _ => none
    timer := fun _ => none
    next := 0
    lastTick := now }

def requestFrame : Nat := 10

variable {Data : Type}

def Sched.setRequest (sched : Sched Data) (ref : RequestRef) (request : Option (Request Data)) :
    Sched Data :=
  { sched with request := update sched.request ref request }

def Sched.setTimer (sched : Sched Data) (ref : TimerRef) (timer : Option Timer) : Sched Data :=
  { sched with timer := update sched.timer ref timer }

/-- `schedule_request_now`, with the answer of the event loop to the request
for a timer. -/
def scheduleRequestNow (sched : Sched Data) (now seconds : Nat) (granted : Bool) (timer : TimerRef)
    (ref : RequestRef) : Sched Data × Int :=
  if granted then
    let armed := (sched.timer timer).map fun cell =>
      { cell with fireAt := some (now + seconds) }
    ({ sched.setTimer timer armed with requests := sched.requests ++ [ref] }, 0)
  else (sched, -1)

def scheduleRequestWait (sched : Sched Data) (ref : RequestRef) : Sched Data :=
  { sched with requestsWait := sched.requestsWait ++ [ref] }

/-- The part of the loop of `schedule_request_promote` that tries to schedule a
request; the second list is `failed_requests`. -/
def promoteRequest (now seconds : Nat) (granted : Bool) (ref : RequestRef) (request : Request Data)
    (current : Sched Data × List RequestRef) : Sched Data × List RequestRef :=
  let unlinked :=
    { current.1 with requestsWait := current.1.requestsWait.erase ref }
  let scheduled := scheduleRequestNow unlinked now seconds granted request.timer ref
  if scheduled.2 ≠ 0 then
    (scheduled.1.setRequest ref (some { request with refused := true }), current.2 ++ [ref])
  else (scheduled.1, current.2)

/-- The loop of `schedule_request_promote` over the requests that waited when
it started; every attempt to schedule one uses up an answer of the event
loop. -/
def promoteLoop (now : Nat) :
    List RequestRef → List Bool → Sched Data × List RequestRef → Sched Data × List RequestRef
  | [], _, current => current
  | ref :: rest, grants, current =>
    match current.1.request ref with
    | none => promoteLoop now rest grants current
    | some request =>
      let passed : Int := now - request.created
      if passed > request.timeout then
        promoteLoop now rest grants.tail
          (promoteRequest now 1 (grants.headD true) ref request current)
      else if passed + requestFrame ≥ request.timeout then
        promoteLoop now rest grants.tail
          (promoteRequest now (passed - request.timeout).natAbs
            (grants.headD true) ref request current)
      else promoteLoop now rest grants current

def scheduleRequestPromote (sched : Sched Data) (now : Nat) (grants : List Bool) : Sched Data :=
  let result := promoteLoop now sched.requestsWait grants (sched, [])
  { result.1 with requestsWait := result.1.requestsWait ++ result.2, lastTick := now }

/-- What a creation meets: the clock, whether the timer and the request can be
allocated, and the answer of the event loop. -/
structure CreateEnv where
  now : Nat
  timerAllocated : Bool
  requestAllocated : Bool
  granted : Bool
deriving DecidableEq, Repr

def Sched.addCells (sched : Sched Data) (now timeout : Nat) (data : Data) : Sched Data :=
  { sched with
    timer := update sched.timer sched.next
      (some { active := true, data := some sched.next, fireAt := none })
    request := update sched.request sched.next
      (some
        { created := now, timeout := timeout, data := data, timer := sched.next, refused := false })
    next := sched.next + 1 }

def Sched.freeCells (sched : Sched Data) (ref : Nat) : Sched Data :=
  (sched.setTimer ref none).setRequest ref none

/-- A request could not be allocated: `flb_sched_request_create` leaves its
timer behind. -/
def Sched.addTimer (sched : Sched Data) : Sched Data :=
  { sched with
    timer := update sched.timer sched.next
      (some { active := true, data := none, fireAt := none })
    next := sched.next + 1 }

/-- Schedule the request whose cells were added last, or free them. -/
def scheduleOrFree (sched : Sched Data) (now seconds : Nat) (granted : Bool) (ref : Nat) :
    Sched Data × Int :=
  let scheduled := scheduleRequestNow sched now seconds granted ref ref
  if scheduled.2 = -1 then (scheduled.1.freeCells ref, -1)
  else (scheduled.1, seconds)

/-- `flb_sched_request_create`; `backoff` is what `backoff_full_jitter`
suggests. -/
def schedRequestCreate (sched : Sched Data) (data : Data) (backoff : Nat)
    (isShuttingDown : Bool) (env : CreateEnv) : Sched Data × Int :=
  if !env.timerAllocated then (sched, -1)
  else if !env.requestAllocated then (sched.addTimer, -1)
  else
    let seconds := (if isShuttingDown then 0 else backoff) + 1
    let ref := sched.next
    let added := sched.addCells env.now seconds data
    if seconds > requestFrame then (scheduleRequestWait added ref, seconds)
    else scheduleOrFree added env.now seconds env.granted ref

def schedRetryNow (sched : Sched Data) (data : Data) (env : CreateEnv) : Sched Data × Int :=
  if !env.timerAllocated || !env.requestAllocated then (sched, -1)
  else
    scheduleOrFree (sched.addCells env.now 0 data) env.now 0 env.granted sched.next

def schedTimerInvalidate (sched : Sched Data) (timer : TimerRef) : Sched Data :=
  sched.setTimer timer ((sched.timer timer).map fun cell =>
    { cell with active := false, fireAt := none })

/-- `flb_sched_request_destroy`: the request leaves the list it is in. -/
def schedRequestDestroy (sched : Sched Data) (ref : RequestRef) : Option (Sched Data) :=
  (sched.request ref).map fun request =>
    let unlinked :=
      { sched with
        requests := sched.requests.erase ref
        requestsWait := sched.requestsWait.erase ref }
    (schedTimerInvalidate unlinked request.timer).setRequest ref none

def Sched.holds [DecidableEq Data] (sched : Sched Data) (data : Data) (ref : RequestRef) : Bool :=
  match sched.request ref with
  | none => false
  | some request => decide (request.data = data)

def schedRequestInvalidate [DecidableEq Data] (sched : Sched Data) (data : Data) :
    Sched Data × Int :=
  match (sched.requests ++ sched.requestsWait).find? (sched.holds data) with
  | none => (sched, -1)
  | some ref => ((schedRequestDestroy sched ref).getD sched, 0)

def schedTimerCleanup (sched : Sched Data) : Sched Data :=
  { sched with timer := fun ref => (sched.timer ref).filter fun cell => cell.active }

inductive Call (Data : Type) where
  | requestCreate (data : Data) (backoff : Nat) (isShuttingDown : Bool) (env : CreateEnv)
  | retryNow (data : Data) (env : CreateEnv)
  | requestInvalidate (data : Data)
  | requestDestroy (ref : RequestRef)
deriving DecidableEq, Repr

/-- The calls from outside, the events of the timers, and the cleanup after a
round of the event loop.  Dispatching a retry can call the scheduler. -/
inductive Event (Data : Type) where
  | call (call : Call Data)
  | frame (now : Nat) (grants : List Bool)
  | timer (ref : TimerRef) (now : Nat) (calls : List (Call Data)) (ret : Int)
  | cleanup
deriving DecidableEq, Repr

variable [DecidableEq Data]

def call (sched : Sched Data) : Call Data → Option (Sched Data)
  | .requestCreate data backoff isShuttingDown env =>
    some (schedRequestCreate sched data backoff isShuttingDown env).1
  | .retryNow data env => some (schedRetryNow sched data env).1
  | .requestInvalidate data => some (schedRequestInvalidate sched data).1
  | .requestDestroy ref => schedRequestDestroy sched ref

def runCalls (sched : Sched Data) : List (Call Data) → Option (Sched Data)
  | [] => some sched
  | first :: rest => (call sched first).bind fun next => runCalls next rest

/-- The `FLB_SCHED_TIMER_REQUEST` branch of `flb_sched_event_handler`, with the
calls that dispatching the retry makes and the value it returns. -/
def requestTimer (sched : Sched Data) (ref : RequestRef) (calls : List (Call Data)) (ret : Int) :
    Option (Sched Data) :=
  (runCalls sched calls).bind fun next =>
    if ret = 0 then schedRequestDestroy next ref else some next

/-- One event, if it is possible: only a timer that is registered with the
event loop and due can fire, and nothing is defined for a request that is
destroyed twice. -/
def step (sched : Sched Data) : Event Data → Option (Sched Data)
  | .call first => call sched first
  | .frame now grants => some (scheduleRequestPromote sched now grants)
  | .timer ref now calls ret =>
    match sched.timer ref with
    | none => none
    | some cell =>
      if !cell.active then some sched
      else
        match cell.fireAt, cell.data with
        | some due, some request =>
          if due ≤ now then requestTimer sched request calls ret
          else none
        | _, _ => none
  | .cleanup => some (schedTimerCleanup sched)

structure Lists (Data : Type) extends Sched Data where
  timers : List TimerRef
  timersDrop : List TimerRef

variable {Data : Type}

/-- What a creation meets: the clock, the addresses of the cells that can be
allocated, which are not in use, and the answer of the event loop. -/
structure Allocation (lists : Lists Data) where
  now : Nat
  timer : Option TimerRef
  request : Option RequestRef
  granted : Bool
  timer_fresh : ∀ ref, timer = some ref → ref ∉ lists.timers ∧ ref ∉ lists.timersDrop
  request_fresh : ∀ ref, request = some ref → ref ∉ lists.requests ∧ ref ∉ lists.requestsWait

/-- `flb_sched_timer_create` with the address of the timer. -/
def Lists.timerCreate (lists : Lists Data) (timer : TimerRef) : Lists Data :=
  { lists with
    timer := update lists.timer timer
      (some { active := true, data := none, fireAt := none })
    timers := lists.timers ++ [timer] }

/-- `flb_sched_timer_destroy`: the timer leaves the list it is in. -/
def Lists.timerDestroy (lists : Lists Data) (timer : TimerRef) : Lists Data :=
  { lists with
    timer := update lists.timer timer none
    timers := lists.timers.erase timer
    timersDrop := lists.timersDrop.erase timer }

def Lists.link (lists : Lists Data) (now timeout : Nat) (data : Data)
    (timer : TimerRef) (ref : RequestRef) : Lists Data :=
  { lists with
    timer := update lists.timer timer
      ((lists.timer timer).map fun cell => { cell with data := some ref })
    request := update lists.request ref
      (some
        { created := now
          timeout := timeout
          data := data
          timer := timer
          refused := false }) }

/-- `flb_free` on a request. -/
def Lists.freeRequest (lists : Lists Data) (ref : RequestRef) : Lists Data :=
  { lists with request := update lists.request ref none }

/-- Schedule the request, or destroy the timer and free the request. -/
def Lists.scheduleOrDestroy (lists : Lists Data) (now seconds : Nat) (granted : Bool)
    (timer : TimerRef) (ref : RequestRef) : Lists Data × Int :=
  let scheduled := scheduleRequestNow lists.toSched now seconds granted timer ref
  let next := { lists with toSched := scheduled.1 }
  if scheduled.2 = -1 then ((next.timerDestroy timer).freeRequest ref, -1)
  else (next, seconds)

/-- `flb_sched_request_create`.  When the request cannot be allocated, the timer
stays. -/
def Lists.requestCreate (lists : Lists Data) (data : Data) (backoff : Nat)
    (isShuttingDown : Bool) (env : Allocation lists) : Lists Data × Int :=
  match env.timer with
  | none => (lists, -1)
  | some timer =>
    let created := lists.timerCreate timer
    match env.request with
    | none => (created, -1)
    | some ref =>
      let seconds := (if isShuttingDown then 0 else backoff) + 1
      let linked := created.link env.now seconds data timer ref
      if seconds > requestFrame then
        ({ linked with toSched := scheduleRequestWait linked.toSched ref }, seconds)
      else linked.scheduleOrDestroy env.now seconds env.granted timer ref

def Lists.retryNow (lists : Lists Data) (data : Data) (env : Allocation lists) : Lists Data × Int :=
  match env.timer with
  | none => (lists, -1)
  | some timer =>
    let created := lists.timerCreate timer
    match env.request with
    | none => (created.timerDestroy timer, -1)
    | some ref =>
      (created.link env.now 0 data timer ref).scheduleOrDestroy env.now 0 env.granted timer ref

/-- The two states differ at most in the addresses that are used next. -/
structure SameCells (left right : Sched Data) : Prop where
  requests : left.requests = right.requests
  requestsWait : left.requestsWait = right.requestsWait
  request : left.request = right.request
  timer : left.timer = right.timer
  lastTick : left.lastTick = right.lastTick

def Allocation.createEnv {lists : Lists Data} (env : Allocation lists) : CreateEnv :=
  { now := env.now
    timerAllocated := env.timer.isSome
    requestAllocated := env.request.isSome
    granted := env.granted }

structure Allocation.Next {lists : Lists Data} (env : Allocation lists) : Prop where
  timer : ∀ ref, env.timer = some ref → ref = lists.next
  request : ∀ ref, env.request = some ref → ref = lists.next
  free : lists.toSched.timer lists.next = none

theorem sameCells_link (lists : Lists Data) (now timeout : Nat) (data : Data) :
    SameCells ((lists.timerCreate lists.next).link now timeout data lists.next lists.next).toSched
      (lists.toSched.addCells now timeout data) := by
  refine ⟨rfl, rfl, rfl, ?_, rfl⟩
  simp [Lists.timerCreate, Lists.link, Sched.addCells]

variable {lists : Lists Data}

theorem sameCells_scheduleOrDestroy {sched : Sched Data} (same : SameCells lists.toSched sched)
    (now seconds : Nat) (granted : Bool) (ref : Nat) :
    SameCells (lists.scheduleOrDestroy now seconds granted ref ref).1.toSched
        (scheduleOrFree sched now seconds granted ref).1 ∧
      (lists.scheduleOrDestroy now seconds granted ref ref).2 =
        (scheduleOrFree sched now seconds granted ref).2 := by
  obtain ⟨requests, requestsWait, request, timer, lastTick⟩ := same
  unfold Lists.scheduleOrDestroy scheduleOrFree scheduleRequestNow
  cases granted with
  | false =>
    refine ⟨⟨requests, requestsWait, ?_, ?_, lastTick⟩, rfl⟩
    · exact congrArg (update · ref none) request
    · exact congrArg (update · ref none) timer
  | true =>
    refine ⟨⟨?_, requestsWait, request, ?_, lastTick⟩, rfl⟩
    · exact congrArg (· ++ [ref]) requests
    · simp [Sched.setTimer, timer]

theorem sameCells_requestCreate {env : Allocation lists} (next : env.Next)
    (data : Data) (backoff : Nat) (isShuttingDown : Bool) :
    SameCells (lists.requestCreate data backoff isShuttingDown env).1.toSched
        (schedRequestCreate lists.toSched data backoff isShuttingDown env.createEnv).1 ∧
      (lists.requestCreate data backoff isShuttingDown env).2 =
        (schedRequestCreate lists.toSched data backoff isShuttingDown env.createEnv).2 := by
  unfold Lists.requestCreate schedRequestCreate Allocation.createEnv
  cases timerAt : env.timer with
  | none => exact ⟨⟨rfl, rfl, rfl, rfl, rfl⟩, rfl⟩
  | some timer =>
    obtain rfl := next.timer timer timerAt
    cases requestAt : env.request with
    | none => exact ⟨⟨rfl, rfl, rfl, rfl, rfl⟩, rfl⟩
    | some ref =>
      obtain rfl := next.request ref requestAt
      generalize (if isShuttingDown = true then 0 else backoff) + 1 = seconds
      have linked := sameCells_link lists env.now seconds data
      simp only [Option.isSome_some, Bool.not_true, Bool.false_eq_true, if_false]
      split
      · refine ⟨⟨linked.requests, ?_, linked.request, linked.timer, linked.lastTick⟩, rfl⟩
        exact congrArg (· ++ [lists.next]) linked.requestsWait
      · exact sameCells_scheduleOrDestroy linked env.now seconds env.granted lists.next

theorem sameCells_retryNow {env : Allocation lists} (next : env.Next) (data : Data) :
    SameCells (lists.retryNow data env).1.toSched
        (schedRetryNow lists.toSched data env.createEnv).1 ∧
      (lists.retryNow data env).2 = (schedRetryNow lists.toSched data env.createEnv).2 := by
  unfold Lists.retryNow schedRetryNow Allocation.createEnv
  cases timerAt : env.timer with
  | none => exact ⟨⟨rfl, rfl, rfl, rfl, rfl⟩, rfl⟩
  | some timer =>
    obtain rfl := next.timer timer timerAt
    cases requestAt : env.request with
    | none =>
      -- the timer is created and destroyed
      refine ⟨⟨rfl, rfl, rfl, ?_, rfl⟩, rfl⟩
      simp [Lists.timerCreate, Lists.timerDestroy, ← next.free]
    | some ref =>
      obtain rfl := next.request ref requestAt
      exact sameCells_scheduleOrDestroy (sameCells_link lists env.now 0 data) env.now 0 env.granted
        lists.next

structure SameLists (before after : Lists Data) : Prop where
  timers : after.timers = before.timers
  timersDrop : after.timersDrop = before.timersDrop
  requests : after.requests = before.requests
  requestsWait : after.requestsWait = before.requestsWait

structure Added (before after : Lists Data) (timer : TimerRef) (ref : RequestRef) : Prop where
  newTimer : timer ∉ before.timers ∧ timer ∉ before.timersDrop
  newRequest : ref ∉ before.requests ∧ ref ∉ before.requestsWait
  timers : after.timers = before.timers ++ [timer]
  timersDrop : after.timersDrop = before.timersDrop
  requests :
    (after.requests = before.requests ++ [ref] ∧ after.requestsWait = before.requestsWait) ∨
    (after.requests = before.requests ∧ after.requestsWait = before.requestsWait ++ [ref])
  timerCell : ∃ cell, after.timer timer = some cell ∧ cell.active = true ∧ cell.data = some ref
  requestCell : ∃ request, after.request ref = some request ∧ request.timer = timer

/-- A creation fails and leaves the lists as they were, or adds one request with
its timer. -/
def Atomic (before : Lists Data) (result : Lists Data × Int) : Prop :=
  if result.2 = -1 then SameLists before result.1
  else ∃ timer ref, Added before result.1 timer ref

section
variable {lists : Lists Data} {env : Allocation lists} {timer : TimerRef}

theorem erase_fresh (fresh : env.timer = some timer) :
    (lists.timers ++ [timer]).erase timer = lists.timers ∧
      lists.timersDrop.erase timer = lists.timersDrop := by
  obtain ⟨notListed, notDropped⟩ := env.timer_fresh timer fresh
  constructor
  · rw [erase_append_right _ notListed, erase_cons_head, append_nil]
  · exact erase_of_not_mem notDropped

theorem atomic_scheduleOrDestroy {ref : RequestRef} (freshTimer : env.timer = some timer)
    (freshRequest : env.request = some ref) (timeout seconds : Nat) (data : Data) :
    Atomic lists
      (((lists.timerCreate timer).link env.now timeout data timer
        ref).scheduleOrDestroy env.now seconds env.granted timer ref) := by
  unfold Atomic Lists.scheduleOrDestroy scheduleRequestNow
  cases env.granted with
  | false =>
    obtain ⟨timers, timersDrop⟩ := erase_fresh freshTimer
    exact ⟨timers, timersDrop, rfl, rfl⟩
  | true =>
    have scheduled : ¬((seconds : Int) = -1) := by omega
    refine ⟨timer, ref, env.timer_fresh timer freshTimer,
      env.request_fresh ref freshRequest, rfl, rfl, .inl ⟨rfl, rfl⟩, ?_, ?_⟩
    all_goals simp [Lists.timerCreate, Lists.link, Sched.setTimer]

theorem atomic_wait {ref : RequestRef} (freshTimer : env.timer = some timer)
    (freshRequest : env.request = some ref) (seconds : Nat) (data : Data) :
    Atomic lists
      ({ (lists.timerCreate timer).link env.now seconds data timer ref with
          toSched := scheduleRequestWait
            ((lists.timerCreate timer).link env.now seconds data timer
              ref).toSched ref }, (seconds : Int)) := by
  have waits : ¬((seconds : Int) = -1) := by omega
  refine ⟨timer, ref, env.timer_fresh timer freshTimer,
    env.request_fresh ref freshRequest, rfl, rfl, .inr ⟨rfl, rfl⟩, ?_, ?_⟩
  all_goals simp [Lists.timerCreate, Lists.link, scheduleRequestWait]

theorem atomic_failed : Atomic lists (lists, -1) := SameLists.mk rfl rfl rfl rfl

theorem not_atomic_timerCreate (lists : Lists Data) (timer : TimerRef) :
    ¬ Atomic lists (lists.timerCreate timer, -1) := by
  intro atomic
  have same : SameLists lists (lists.timerCreate timer) := atomic
  have lengths := congrArg length same.timers
  simp [Lists.timerCreate] at lengths

end

/-- Creating a request is atomic unless the request cannot be allocated after
its timer was; retrying now is always atomic. -/
theorem creation_is_atomic (lists : Lists Data) (env : Allocation lists)
    (data : Data) (backoff : Nat) (isShuttingDown : Bool) :
    (Atomic lists (lists.requestCreate data backoff isShuttingDown env) ↔
      (env.timer ≠ none → env.request ≠ none)) ∧
    Atomic lists (lists.retryNow data env) := by
  unfold Lists.requestCreate Lists.retryNow
  cases timerAt : env.timer with
  | none =>
    refine ⟨⟨?_, fun _ => atomic_failed⟩, atomic_failed⟩
    intro _ allocated
    exact absurd rfl allocated
  | some timer =>
    cases requestAt : env.request with
    | none =>
      have leaks := not_atomic_timerCreate lists timer
      refine ⟨⟨fun atomic => absurd atomic leaks, ?_⟩, ?_⟩
      · intro allocated
        exact absurd rfl (allocated (Option.some_ne_none _))
      · obtain ⟨timers, timersDrop⟩ := erase_fresh timerAt
        exact ⟨timers, timersDrop, rfl, rfl⟩
    | some ref =>
      refine ⟨⟨fun _ _ => Option.some_ne_none _, fun _ => ?_⟩, ?_⟩
      · generalize (if isShuttingDown = true then 0 else backoff) + 1 = seconds
        simp only
        split
        · exact atomic_wait timerAt requestAt _ data
        · exact atomic_scheduleOrDestroy timerAt requestAt _ _ data
      · exact atomic_scheduleOrDestroy timerAt requestAt 0 0 data

def emptyLists : Lists Unit :=
  { schedCreate Unit 0 with timers := [], timersDrop := [] }

def noRequest : Allocation emptyLists where
  now := 0
  timer := some 0
  request := none
  granted := true
  timer_fresh := fun _ _ => ⟨not_mem_nil, not_mem_nil⟩
  request_fresh := fun _ _ => ⟨not_mem_nil, not_mem_nil⟩

theorem creation_leaves_timer :
    (emptyLists.requestCreate () 0 false noRequest).2 = -1 ∧
      (emptyLists.requestCreate () 0 false noRequest).1.timers = [0] ∧
      emptyLists.timers = [] :=
  ⟨rfl, rfl, rfl⟩

end FluentBit.Scheduler
