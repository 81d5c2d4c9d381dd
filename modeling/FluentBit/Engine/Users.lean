import FluentBit.Engine.Queue

/-!
# Counting users

`task->users` counts the flushes of a task in flight and its entries pending
in singleplex queues.  The counter is raised and lowered in several functions;
between them it may be off by a known amount, so the invariant carries an
offset for every task.  It is exact as long as no allocation fails, also with
the functions that hand a task to an output called between the events; such a
call returns -1 exactly when it left nothing in flight or waiting, unless the
pool of a threaded output refuses the task, which is never reported.
-/

namespace FluentBit.Engine

open List Function Finset

section
variable {Out : Type}

def inFlight (state : State Out) (ref : TaskRef) : Nat := state.flushes.countP (·.task = ref)

def pendingCount [Fintype Out] (state : State Out) (ref : TaskRef) : Nat :=
  ∑ out, (state.queue out).pending.countP (·.task = ref)

/-- Every live task has as many users as flushes in flight and pending
entries, up to an offset, and no allocation of a queue entry fails. -/
structure Accounted [Fintype Out] (offset : TaskRef → Int) (state : State Out) : Prop where
  users : ∀ {ref task}, state.task ref = some task →
    task.users = inFlight state ref + pendingCount state ref + offset ref
  allocs : ∀ alloc ∈ state.allocs, alloc = true

variable [Fintype Out] {offset : TaskRef → Int} {state : State Out}

def moved (offset : TaskRef → Int) (ref : TaskRef) (amount : Int) : TaskRef → Int :=
  update offset ref (offset ref + amount)

theorem moved_moved (offset : TaskRef → Int) (ref : TaskRef) (amount : Int) :
    moved (moved offset ref amount) ref (-amount) = offset := by
  simp [moved]

theorem Accounted.sheds {after : State Out} (accounted : Accounted offset state)
    (sheds : Sheds state after) : Accounted offset after :=
  { users := by
      intro ref task live
      obtain ⟨old, oldLive, shed⟩ := sheds.tasks live
      rw [shed.users, accounted.users oldLive, inFlight, inFlight,
        pendingCount, pendingCount, sheds.flushes, sheds.queue]
    allocs := by
      rw [sheds.allocs]
      exact accounted.allocs }

variable {ref : TaskRef}

section
variable (accounted : Accounted offset state)
include accounted

theorem Accounted.modifyTask {change : Task Out → Task Out}
    {amount : Int} (adds : ∀ task, (change task).users = task.users + amount) :
    Accounted (moved offset ref amount) (state.modifyTask ref change) :=
  { users := by
      intro other task live
      change _ = (inFlight state other : Int) + pendingCount state other + _
      rcases modifyTask_eq_some live with ⟨old, rfl, oldLive, rfl⟩ | ⟨different, live⟩
      · rw [adds, accounted.users oldLive, moved, update_self]
        omega
      · rw [accounted.users live, moved, update_of_ne different]
    allocs := accounted.allocs }

theorem Accounted.modifyTask_same {change : Task Out → Task Out}
    (same : ∀ task, (change task).users = task.users) :
    Accounted offset (state.modifyTask ref change) := by
  have changed : Accounted (moved offset ref 0) (state.modifyTask ref change) :=
    accounted.modifyTask (by simpa using same)
  simpa [moved] using changed

theorem Accounted.usersInc (ref : TaskRef) :
    Accounted (moved offset ref 1) (taskUsersInc state ref) :=
  accounted.modifyTask fun _ => rfl

theorem Accounted.usersDec (ref : TaskRef) :
    Accounted (moved offset ref (-1)) (taskUsersDec state ref) :=
  accounted.modifyTask fun _ => rfl

theorem Accounted.startFlush (ref : TaskRef) (out : Out) (entry : Option Nat) (phase : Phase) :
    Accounted offset (startFlush state ref out entry phase) :=
  { users := by
      intro other task live
      have counted := (accounted.usersInc ref).users live
      have flights :
          inFlight (Engine.startFlush state ref out entry phase) other =
            inFlight state other + if ref = other then 1 else 0 := by
        by_cases same : ref = other
        all_goals simp [inFlight, Engine.startFlush, same]
      rw [flights, counted]
      change (inFlight state other : Int) + pendingCount state other + _ =
        _ + (pendingCount state other : Int) + _
      by_cases same : ref = other
      · subst other
        simp only [moved, update_self, if_true]
        omega
      · have different : other ≠ ref := fun equality => same equality.symm
        simp [moved, different, same]
    allocs := accounted.allocs }

theorem Accounted.nextAlloc : state.nextAlloc = true := by
  unfold State.nextAlloc
  cases script : state.allocs with
  | nil => rfl
  | cons alloc allocs => exact accounted.allocs alloc (by simp [script])

theorem Accounted.handOver (ref : TaskRef) (out : Out) :
    Accounted offset (handOver state ref out) :=
  ⟨accounted.users, accounted.allocs⟩

end

theorem Accounted.taskCreate (accounted : Accounted (fun _ => 0) state)
    (numbered : Numbered state) (input : InId) (created : NewTask Out) :
    Accounted (fun _ => 0) (taskCreate state input created) :=
  { users := by
      intro ref task live
      change _ = (inFlight state ref : Int) + pendingCount state ref + _
      by_cases new : ref = state.next
      · subst ref
        have landed : inFlight state state.next = 0 := by
          apply countP_eq_zero.mpr
          intro flush member
          have older := (numbered.flushes flush member).2.1
          simpa using Nat.ne_of_lt older
        have idle : pendingCount state state.next = 0 := by
          apply Finset.sum_eq_zero
          intro out _
          apply countP_eq_zero.mpr
          intro entry member
          have older := (numbered.pending out entry member).2
          simpa using Nat.ne_of_lt older
        rw [landed, idle]
        simp only [Engine.taskCreate, update_self, Option.some.injEq] at live
        simp [← live]
      · exact accounted.users (by simpa [Engine.taskCreate, new] using live)
    allocs := accounted.allocs }

section
variable (accounted : Accounted offset state)
include accounted

theorem Accounted.schedRequestCreate (data : RetryRef Out) (now : Nat) (backoff : Option Nat) :
    Accounted offset (schedRequestCreate state data now backoff).1 := by
  unfold Engine.schedRequestCreate
  split
  · exact accounted
  · dsimp only
    split <;> exact ⟨accounted.users, accounted.allocs⟩

theorem Accounted.schedRetryNow (data : RetryRef Out)
    (now : Nat) (timer : Bool) : Accounted offset (schedRetryNow state data now timer).1 := by
  unfold Engine.schedRetryNow
  split
  · exact ⟨accounted.users, accounted.allocs⟩
  · exact accounted

theorem Accounted.removeFlush (numbered : Numbered state)
    {flush : Flush Out} (member : flush ∈ state.flushes) :
    Accounted (moved offset flush.task 1) (state.removeFlush flush.id) :=
  { users := by
      intro ref task live
      have counted := accounted.users live
      obtain ⟨front, back, parts, rest⟩ := numbered.removeFlush_split member
      have flights : inFlight state ref =
          inFlight (state.removeFlush flush.id) ref + if flush.task = ref then 1 else 0 := by
        simp only [inFlight, parts, rest, countP_append, countP_cons, decide_eq_true_eq]
        omega
      rw [counted, flights]
      change _ = (_ : Int) + pendingCount state ref + _
      by_cases same : flush.task = ref
      · subst ref
        simp only [moved, update_self, if_true]
        omega
      · have different : ref ≠ flush.task := fun equality =>
          same equality.symm
        simp [moved, different, same]
    allocs := accounted.allocs }

theorem Accounted.setPhase (id : Nat) (phase : Phase) :
    Accounted offset (state.setPhase id phase) :=
  { users := by
      intro ref task live
      have flights : inFlight (state.setPhase id phase) ref = inFlight state ref := by
        simp only [inFlight, State.setPhase, countP_map]
        congr 1
        funext flush
        simp only [comp_apply]
        split <;> rfl
      rw [flights]
      exact accounted.users live
    allocs := accounted.allocs }

end

variable [DecidableEq Out]

theorem pendingCount_setQueue (state : State Out) (out : Out)
    (queue : TaskQueue Out) (ref : TaskRef) :
    pendingCount (state.setQueue out queue) ref + (state.queue out).pending.countP (·.task = ref) =
      pendingCount state ref + queue.pending.countP (·.task = ref) := by
  have counts : ∀ other,
      ((state.setQueue out queue).queue other).pending.countP (·.task = ref) =
        update (fun other => (state.queue other).pending.countP (·.task = ref))
          out (queue.pending.countP (·.task = ref)) other := by
    intro other
    by_cases same : other = out
    · subst other
      simp [State.setQueue]
    · simp [State.setQueue, same]
  simp only [pendingCount, counts]
  rw [sum_update_of_mem (mem_univ out), sdiff_singleton_eq_erase]
  have total := sum_erase_add univ (fun other => (state.queue other).pending.countP
    (·.task = ref)) (mem_univ out)
  omega

variable {out : Out}

section
variable (accounted : Accounted offset state)
include accounted

theorem Accounted.setQueue {queue : TaskQueue Out} {amount : Int}
    (changed : ∀ other, (queue.pending.countP (·.task = other) : Int) =
      (state.queue out).pending.countP (·.task = other) - if other = ref then amount else 0) :
    Accounted (moved offset ref amount) (state.setQueue out queue) :=
  { users := by
      intro other task live
      have counted := accounted.users live
      have total := pendingCount_setQueue state out queue other
      have change := changed other
      have flights : inFlight (state.setQueue out queue) other = inFlight state other := rfl
      by_cases same : other = ref
      · subst other
        simp only [moved, update_self, if_true] at change ⊢
        omega
      · simp only [moved, update_of_ne same, same, if_false] at change ⊢
        omega
    allocs := accounted.allocs }

theorem Accounted.setQueue_same {queue : TaskQueue Out}
    (same : queue.pending = (state.queue out).pending) :
    Accounted offset (state.setQueue out queue) := by
  have changed : Accounted (moved offset 0 0) (state.setQueue out queue) :=
    accounted.setQueue (by simp [same])
  simpa [moved] using changed

theorem Accounted.endInProgress (out : Out) : Accounted offset (endInProgress state out) := by
  unfold Engine.endInProgress
  split
  · exact accounted
  · next entry inProgress front =>
    have ended : Accounted offset (state.setQueue out
        { pending := (state.queue out).pending
          inProgress := inProgress }) :=
      accounted.setQueue_same rfl
    exact ⟨ended.users, ended.allocs⟩

theorem Accounted.takeEntry {entry : Enqueued Out}
    {pending : List (Enqueued Out)} (front : (state.queue out).pending = entry :: pending) :
    Accounted offset (takeEntry state out entry pending) := by
  have taken : Accounted (moved offset entry.task 1) (state.setQueue out
      { pending := pending
        inProgress := (state.queue out).inProgress ++ [entry] }) := by
    apply accounted.setQueue
    intro other
    rw [front, countP_cons]
    by_cases same : other = entry.task
    · subst other
      simp
    · have different : entry.task ≠ other := fun equality =>
        same equality.symm
      simp [same, different]
  have left := taken.usersDec entry.task
  rw [moved_moved] at left
  exact ⟨left.users, left.allocs⟩

end

theorem accounted_queueClosed (offset : TaskRef → Int) (out : Out) :
    QueueClosed out (Accounted offset : State Out → Prop) :=
  { ended := fun accounted => accounted.endInProgress out
    begun := fun front accounted =>
      (accounted.takeEntry front).startFlush _ _ _ _
    taken := fun front accounted => accounted.takeEntry front
    destroyed := fun accounted => accounted.sheds (sheds_taskRetryDestroy _ _)
    read := fun accounted => ⟨accounted.users, accounted.allocs⟩ }

theorem Accounted.pushEntry (accounted : Accounted offset state) (retry : Option (RetryRef Out))
    (ref : TaskRef) (out : Out) : Accounted offset (pushEntry state retry ref out) := by
  have counted := accounted.usersInc ref
  have pushed : Accounted (moved (moved offset ref 1) ref (-1))
      ((taskUsersInc state ref).setQueue out
        { pending := (state.queue out).pending ++
            [{ seq := state.next, task := ref, retry := retry }]
          inProgress := (state.queue out).inProgress }) := by
    apply counted.setQueue
    intro other
    change _ = ((state.queue out).pending.countP (·.task = other) : Int) - _
    by_cases same : other = ref
    · subst other
      simp
    · have different : ref ≠ other := fun equality => same equality.symm
      simp [same, different]
  rw [moved_moved] at pushed
  exact
    { users := pushed.users
      allocs := fun alloc member =>
        accounted.allocs alloc (mem_of_mem_tail member) }

theorem accounted_routeClosed (offset : TaskRef → Int) (ref : TaskRef) :
    RouteClosed ref (Accounted offset : State Out → Prop) :=
  { queue := accounted_queueClosed offset
    handed := fun accounted => accounted.handOver _ _
    begun := fun accounted => (accounted.handOver _ _).startFlush _ _ _ _
    entered := by
      intro state out failed accounted
      rw [accounted.nextAlloc] at failed
      cases failed
    pushed := fun _ accounted => accounted.pushEntry _ _ _ }

variable {config : Config Out}

theorem accounted_retryClosed (config : Config Out) :
    RetryClosed config fun state : State Out =>
      Numbered state ∧ Accounted (fun _ => 0) state :=
  { numbered := fun kept => kept.1
    sheds := fun kept sheds => ⟨kept.1.sheds sheds, kept.2.sheds sheds⟩
    requested := fun kept =>
      ⟨kept.1.schedRequestCreate _ _ _, kept.2.schedRequestCreate _ _ _⟩
    queued := fun synchronous kept known =>
      ⟨(numbered_retryClosed config).queued synchronous kept.1 known,
        (accounted_routeClosed _ _).outputTaskSingleplexEnqueue kept.2 _ _⟩
    flushed := fun multiplexed kept known =>
      ⟨(numbered_retryClosed config).flushed multiplexed kept.1 known,
        (accounted_routeClosed _ _).outputTaskFlushDirect kept.2 _⟩ }

theorem accounted_dispatchClosed (config : Config Out) :
    DispatchClosed config fun state : State Out =>
      Numbered state ∧ Accounted (fun _ => 0) state :=
  { numbered := fun kept => kept.1
    cleaned := fun kept =>
      ⟨(numbered_dispatchClosed config).cleaned kept.1, kept.2.sheds (sheds_cleanupTask _ _)⟩
    created := fun kept =>
      ⟨kept.1.taskCreate _ _, kept.2.taskCreate kept.1 _ _⟩
    status := fun kept =>
      ⟨(numbered_dispatchClosed config).status kept.1, kept.2.modifyTask_same fun _ => rfl⟩
    removed := fun kept =>
      ⟨(numbered_dispatchClosed config).removed kept.1, kept.2.modifyTask_same fun _ => rfl⟩
    started := fun kept known =>
      (accounted_retryClosed config).startRoute kept known }

theorem Accounted.taskRetryCreate (accounted : Accounted offset state) (ref : TaskRef) (out : Out)
    (alloc : Bool) : Accounted offset (taskRetryCreate config state ref out alloc).1 := by
  apply taskRetryCreate_keeps accounted
  · exact fun _ _ => accounted.sheds (sheds_taskRetryDestroy _ _)
  · intro next change _
    have numbered : Accounted offset { state with next := next } :=
      ⟨accounted.users, accounted.allocs⟩
    exact numbered.modifyTask_same fun _ => rfl

theorem Accounted.finishRoute (accounted : Accounted (moved offset ref 1) state) (out : Out) :
    Accounted offset (finishRoute state ref out) := by
  have left := (accounted.sheds (sheds_taskRetryClean state ref out)).usersDec ref
  rw [moved_moved] at left
  exact left.sheds (sheds_taskUsersRelease _ _)

theorem Accounted.handleOutputEvent (accounted : Accounted (moved offset ref 1) state) (out : Out)
    (ret : Ret) (env : OutputEnv) :
    Accounted offset (handleOutputEvent config state ref out ret env) := by
  have left : ∀ {state : State Out}, Accounted (moved offset ref 1) state →
      Accounted offset (taskUsersDec state ref) := by
    intro state accounted
    have counted := accounted.usersDec ref
    rw [moved_moved] at counted
    exact counted
  apply handleOutputEvent_leaves (flushNextIf_keeps (Accounted (moved offset ref 1)) accounted
    ((accounted_queueClosed _ out).outputTaskSingleplexFlushNext accounted))
  · exact fun accounted => accounted.taskRetryCreate ref out env.alloc
  · exact fun accounted => accounted.finishRoute out
  · exact fun accounted => (left accounted).schedRequestCreate _ _ _
  · exact fun accounted => ((left accounted).sheds (sheds_taskRetryDestroy _ _)).sheds
      (sheds_taskUsersRelease _ _)

theorem Accounted.engineRescheduleRetries (accounted : Accounted offset state) (now : Nat)
    (timers : List Bool) : Accounted offset (engineRescheduleRetries config state now timers) := by
  obtain ⟨_, kept⟩ := engineRescheduleRetries_keeps config
    (fun current _ => Accounted offset current) now (fun data kept => (kept.sheds
    (sheds_schedRequestInvalidate _ data)).schedRetryNow data now _) timers accounted
  exact kept

end

section
variable {Out : Type}

/-- The call left a flush in flight or an entry waiting; both carry the next
number at the time of the call. -/
def Served (before after : State Out) (ref : TaskRef) (out : Out) : Prop :=
  (∃ flush ∈ after.flushes, flush.task = ref ∧ flush.out = out ∧
    (flush.id = before.next ∨ flush.entry = some before.next)) ∨
  ∃ entry ∈ (after.queue out).pending, entry.task = ref ∧ entry.seq = before.next

def usersOf (state : State Out) (ref : TaskRef) : Option Int := (state.task ref).map (·.users)

/-- A call returns -1 exactly when it served nothing, and then leaves the
users as they were. -/
structure Reports (before : State Out) (ref : TaskRef) (out : Out)
    (result : State Out × Int) : Prop where
  reported : result.2 = -1 ↔ ¬ Served before result.1 ref out
  unchanged : result.2 = -1 → usersOf result.1 ref = usersOf before ref

/-- The call failed: it started nothing and left nothing waiting. -/
structure Failed (before : State Out) (ref : TaskRef) (out : Out) (after : State Out) : Prop where
  flushes : after.flushes = before.flushes
  pending : ∀ entry ∈ (after.queue out).pending, entry.seq < before.next
  users : usersOf after ref = usersOf before ref

variable {before after : State Out} {ref : TaskRef} {out : Out}

theorem Failed.reports (failed : Failed before ref out after) (numbered : Numbered before) :
    Reports before ref out (after, -1) := by
  refine ⟨⟨fun _ served => ?_, fun _ => rfl⟩, fun _ => failed.users⟩
  rcases served with ⟨flush, member, _, _, new⟩ | ⟨entry, member, _, new⟩
  · rw [failed.flushes] at member
    obtain ⟨older, _, entries⟩ := numbered.flushes flush member
    rcases new with sameId | sameEntry
    · omega
    · have := entries before.next sameEntry
      omega
  · have := failed.pending entry member
    omega

theorem reports_of_served (served : Served before after ref out) :
    Reports before ref out (after, 0) :=
  ⟨⟨fun impossible => absurd impossible (by simp), fun unserved => (unserved served).elim⟩,
    fun impossible => absurd impossible (by simp)⟩

theorem usersOf_modifyTask_same (state : State Out) (ref : TaskRef) (change : Task Out → Task Out)
    (same : ∀ task, (change task).users = task.users) (other : TaskRef) :
    usersOf (state.modifyTask ref change) other = usersOf state other := by
  unfold usersOf
  rw [modifyTask_task]
  split
  · next equal =>
    subst other
    rw [Option.map_map]
    congr 1
    funext task
    exact same task
  · rfl

variable [DecidableEq Out]

/-- A call that destroys its retry and finds nothing else to flush. -/
theorem Failed.flushNext {config : Config Out} (failed : Failed before ref out after)
    (empty : (after.queue out).pending = []) (retry : Option (RetryRef Out)) :
    Failed before ref out
      (outputTaskSingleplexFlushNext config (destroyRetry after retry) out) := by
  have nothing : ((endInProgress (destroyRetry after retry) out).queue out).pending = [] := by
    rw [endInProgress_queue_self, destroyRetry_queue]
    exact empty
  rw [outputTaskSingleplexFlushNext_eq, nothing]
  refine ⟨?_, by rw [nothing]; simp, ?_⟩
  · rw [endInProgress_flushes]
    cases retry with
    | none => exact failed.flushes
    | some retry => exact (sheds_taskRetryDestroy after retry).flushes.trans failed.flushes
  · rw [usersOf, endInProgress_task]
    cases retry with
    | none => exact failed.users
    | some retry =>
      have users : usersOf (taskRetryDestroy after retry) ref =
          usersOf (schedRequestInvalidate after retry) ref := by
        apply usersOf_modifyTask_same
        intro task
        rfl
      refine (users.trans ?_).trans failed.users
      unfold schedRequestInvalidate
      split <;> rfl

variable {config : Config Out}

theorem outputTaskFlushDirect_reports {state : State Out} (numbered : Numbered state)
    (ref : TaskRef) (multiplexed : (config.output out).synchronous = false)
    (accepts : (config.output out).isThreaded = true → state.nextStart = .started) :
    Reports state ref out (outputTaskFlushDirect config state ref out) := by
  have same : afterFailure config (outputTaskSingleplexFlushNext config)
      (handOver state ref out) out = handOver state ref out := by
    simp [afterFailure, multiplexed]
  have failed : Failed state ref out (handOver state ref out) :=
    { flushes := rfl
      pending := fun entry member => (numbered.pending out entry member).1
      users := rfl }
  obtain ⟨ended, returned, result⟩ := outputTaskFlushDirect_result config state ref out
  rw [returned]
  cases result with
  | started first =>
    refine reports_of_served (.inl ?_)
    simp [startFlush, handOver]
  | poolFailed threaded first => exact absurd (accepts threaded) first
  | createFailed unthreaded first => exact failed.reports numbered
  | writeFailed unthreaded first =>
    rw [same]
    exact failed.reports numbered

theorem outputTaskSingleplexEnqueue_reports {state : State Out} (numbered : Numbered state)
    (idle : AllIdle state) (retry : Option (RetryRef Out)) (ref : TaskRef)
    (allocated : state.nextAlloc = true)
    (accepts : (config.output out).isThreaded = true → state.nextStart = .started)
    (written : state.nextStart ≠ .writeFailed) :
    Reports state ref out (outputTaskSingleplexEnqueue config state retry ref out) := by
  obtain ⟨ended, returned, result⟩ := outputTaskSingleplexEnqueue_result config state retry ref out
  rw [returned]
  cases result with
  | allocFailed first =>
    rw [allocated] at first
    cases first
  | queued first busy =>
    refine reports_of_served (.inr ?_)
    simp
  | flushed first vacant =>
    have front := pushEntry_front retry ref (idle out vacant)
    obtain ⟨started, returned, result⟩ :=
      outputTaskQueueFlushOne_result config (outputTaskSingleplexFlushNext config) front
    rw [returned]
    cases result with
    | started begun =>
      refine reports_of_served (.inl ?_)
      refine ⟨_, List.mem_append_right _ (List.mem_singleton.mpr rfl), rfl, rfl, .inr rfl⟩
    | poolFailed threaded refused => exact absurd (accepts threaded) refused
    | createFailed unthreaded refused =>
      have taken : Failed state ref out
          (takeEntry (pushEntry state retry ref out) out
            { seq := state.next, task := ref, retry := retry } []) := by
        refine ⟨rfl, by simp, ?_⟩
        simp [usersOf, takeEntry, handOver, taskUsersDec, pushEntry, enterQueue, taskUsersInc,
          State.setQueue, Option.map_map, Function.comp_def]
      exact (taken.flushNext (by simp) retry).reports numbered
    | writeFailed unthreaded refused => exact absurd refused written

end

/-- An event of the engine, or one call of a function that hands a task to an
output, made at any point. -/
inductive Call (Out : Type) where
  | event (event : Event Out)
  | enqueue (retry : Option (RetryRef Out)) (ref : TaskRef) (out : Out) (script : Script)
  | flush (ref : TaskRef) (out : Out) (script : Script)

/-- No queue entry fails to be allocated, and no worker fails to create the
coroutine of a flush. -/
def AllocationsSucceed {Out : Type} : Call Out → Prop
  | .event (.dispatch _ _ script) | .event (.retryTimer _ _ script)
  | .enqueue _ _ _ script | .flush _ _ script =>
    ∀ alloc ∈ script.allocs, alloc = true
  | .event (.workerStart _ created) => created = true
  | _ => True

instance AllocationsSucceed.decidable {Out : Type} :
    (call : Call Out) → Decidable (AllocationsSucceed call)
  | .event (.dispatch _ _ _) | .event (.retryTimer _ _ _)
  | .enqueue _ _ _ _ | .flush _ _ _ => inferInstanceAs (Decidable (∀ _ ∈ _, _))
  | .event (.workerStart _ _) => inferInstanceAs (Decidable (_ = _))
  | .event (.resume _) | .event (.outputReturn _ _)
  | .event (.outputEvent _ _ _) | .event (.frameTimer _ _)
  | .event (.rescheduleRetries _ _) | .event (.dropRoute _ _)
  | .event (.releaseChunk _) => isTrue trivial

variable {Out : Type} [Fintype Out]

structure Counted (state : State Out) : Prop where
  numbered : Numbered state
  idle : AllIdle state
  accounted : Accounted (fun _ => 0) state

theorem counted_initial : Counted (State.initial : State Out) :=
  { numbered := numbered_initial
    idle := allIdle_initial
    accounted := ⟨by simp [State.initial], by simp [State.initial]⟩ }

variable {state : State Out}

theorem Counted.load (counted : Counted state) {script : Script}
    (allocs : ∀ alloc ∈ script.allocs, alloc = true) : Counted (state.load script) :=
  { numbered := { counted.numbered with }
    idle := counted.idle.of_queue rfl
    accounted := ⟨counted.accounted.users, allocs⟩ }

variable [DecidableEq Out] {config : Config Out}

def callStep (config : Config Out) (state : State Out) : Call Out → Option (State Out)
  | .event event => step config state event
  | .enqueue retry ref out script =>
    if (config.output out).synchronous ∧ (state.task ref).isSome then
      some (outputTaskSingleplexEnqueue config (state.load script) retry ref out).1
    else none
  | .flush ref out script =>
    if (config.output out).synchronous = false ∧
        (state.task ref).isSome then
      some (outputTaskFlushDirect config (state.load script) ref out).1
    else none

theorem accounted_step {next : State Out} {event : Event Out} (counted : Counted state)
    (succeed : AllocationsSucceed (.event event)) (taken : step config state event = some next) :
    Accounted (fun _ => 0) next := by
  have numbered := counted.numbered
  have accounted := counted.accounted
  cases step_result taken with
  | dispatch input created script =>
    have loaded := counted.load succeed
    exact ((accounted_dispatchClosed config).engineDispatch
      ⟨loaded.numbered, loaded.accounted⟩ input created).2
  | workerStart flush created member phase =>
    obtain rfl : created = true := succeed
    exact accounted.setPhase _ _
  | resume flush task member phase live =>
    have routed : ∀ status, Accounted (fun _ => 0)
        (taskSetRouteStatus state flush.task flush.out status) :=
      fun status => accounted.modifyTask_same fun _ => rfl
    unfold resumeFlush
    split
    · exact (routed _).setPhase _ _
    · exact routed _
  | outputReturn flush ret member phase =>
    have routed : Accounted (fun _ => 0) (taskSetRouteStatus state flush.task flush.out .inactive)
      := accounted.modifyTask_same fun _ => rfl
    exact routed.setPhase _ _
  | outputEvent flush ret task env starts member phase live =>
    have loaded : Counted (state.load { starts := starts, allocs := [] }) := counted.load (by simp)
    exact (loaded.accounted.removeFlush loaded.numbered member).handleOutputEvent _ ret env
  | retryTimer request task env script member live linked =>
    have loaded := counted.load succeed
    exact ((accounted_retryClosed config).schedRequestTimer
      ⟨loaded.numbered, loaded.accounted⟩ (numbered.tasks live) env).2
  | frameTimer now timers => exact ⟨accounted.users, accounted.allocs⟩
  | rescheduleRetries now timers => exact accounted.engineRescheduleRetries now timers
  | dropRoute ref out task live inUse =>
    have routed : Accounted (fun _ => 0) (taskSetRouteStatus state ref out .dropped) :=
      accounted.modifyTask_same fun _ => rfl
    exact ⟨routed.users, routed.allocs⟩
  | releaseChunk ref task live unused => exact accounted.sheds (sheds_taskDestroy state ref)

theorem counted_callStep {next : State Out} {call : Call Out} (counted : Counted state)
    (succeed : AllocationsSucceed call) (taken : callStep config state call = some next) :
    Counted next := by
  cases call with
  | event event =>
    obtain ⟨numbered, idle⟩ := allIdle_step ⟨counted.numbered, counted.idle⟩ taken
    exact ⟨numbered, idle, accounted_step counted succeed taken⟩
  | enqueue retry ref out script =>
    simp only [callStep] at taken
    split at taken
    · next possible =>
      cases taken
      obtain ⟨task, live⟩ := Option.isSome_iff_exists.mp possible.2
      have loaded := counted.load succeed
      have kept : Numbered _ ∧ Accounted (fun _ => 0) (outputTaskSingleplexEnqueue config
        (state.load script) retry ref out).1 := (accounted_retryClosed config).queued possible.1
        ⟨loaded.numbered, loaded.accounted⟩ (counted.numbered.tasks live)
      exact ⟨kept.1, loaded.idle.outputTaskSingleplexEnqueue _ _ _, kept.2⟩
    · cases taken
  | flush ref out script =>
    simp only [callStep] at taken
    split at taken
    · next possible =>
      cases taken
      obtain ⟨task, live⟩ := Option.isSome_iff_exists.mp possible.2
      have loaded := counted.load succeed
      have kept := (accounted_retryClosed config).flushed possible.1 ⟨loaded.numbered,
        loaded.accounted⟩ (counted.numbered.tasks live)
      exact ⟨kept.1, (allIdle_quietClosed config).flushDirect loaded.idle possible.1, kept.2⟩
    · cases taken

/-- The thread pool takes the task, or the pipe write of a synchronous output
succeeds. -/
def StartAccepted (config : Config Out) (script : Script) (out : Out) : Prop :=
  ((config.output out).isThreaded = true → script.starts.headD .started = .started) ∧
    ((config.output out).synchronous = true → script.starts.headD .started ≠ .writeFailed)

/-- In every run in which no allocation fails and no freed queue entry is
read, the users of a live task are its flushes in flight and its pending
entries; and any call made next reports what it did, unless a thread pool
refuses the task or the pipe write of a synchronous output fails. -/
theorem users_counted (config : Config Out) {state : State Out}
    (reached : Run.Reaches (callStep config) (fun state call =>
      AllocationsSucceed call ∧ Sound (callStep config state call)) State.initial state) :
    (∀ ref task, state.task ref = some task →
      task.users = inFlight state ref + pendingCount state ref) ∧
    ∀ (script : Script) (ref : TaskRef) (out : Out), (∀ alloc ∈ script.allocs, alloc = true) →
      StartAccepted config script out →
        ((config.output out).synchronous = true → ∀ retry,
          Reports state ref out
            (outputTaskSingleplexEnqueue config (state.load script) retry ref out)) ∧
        ((config.output out).synchronous = false →
          Reports state ref out (outputTaskFlushDirect config (state.load script) ref out)) := by
  have counted : Counted state := reached.invariant counted_initial
    fun counted possible taken => counted_callStep counted possible.1 taken
  refine ⟨fun ref task live => ?_, fun script ref out allocs accepted => ?_⟩
  · simpa using counted.accounted.users live
  · have loaded := counted.load allocs
    refine ⟨fun synchronous retry => ?_, fun multiplexed => ?_⟩
    · have reports := outputTaskSingleplexEnqueue_reports loaded.numbered loaded.idle retry ref
        loaded.accounted.nextAlloc accepted.1 (accepted.2 synchronous)
      exact ⟨reports.reported, reports.unchanged⟩
    · have reports := outputTaskFlushDirect_reports loaded.numbered ref multiplexed accepted.1
      exact ⟨reports.reported, reports.unchanged⟩

/-- A dispatch round starts one task and queues another; each has one
user. -/
theorem users_counted_two_tasks :
    ∃ state : State Unit,
      Run.runGuarded (callStep synchronousOutput) (fun state call =>
        AllocationsSucceed call ∧ Sound (callStep synchronousOutput state call)) State.initial
        [.event (.dispatch 0 [routedTask, routedTask]
          { starts := [], allocs := [true, true] })] = some state ∧
      (state.task 1).isSome ∧
      (∀ ref task, state.task ref = some task →
        task.users = inFlight state ref + pendingCount state ref) ∧
      Reports state 0 ()
        (outputTaskSingleplexEnqueue synchronousOutput
          (state.load { starts := [], allocs := [] }) none 0 ()) := by
  obtain ⟨state, taken, live⟩ : ∃ state : State Unit,
      Run.runGuarded (callStep synchronousOutput) (fun state call =>
        AllocationsSucceed call ∧ Sound (callStep synchronousOutput state call)) State.initial
        [.event (.dispatch 0 [routedTask, routedTask]
          { starts := [], allocs := [true, true] })] = some state ∧
      (state.task 1).isSome := ⟨_, rfl, rfl⟩
  have counted := users_counted synchronousOutput (Run.Reaches.refl.of_runGuarded taken)
  exact ⟨state, taken, live, counted.1,
    (counted.2 { starts := [], allocs := [] } 0 () (by simp)
      ⟨fun threaded => (nomatch threaded), fun _ => by decide⟩).1 rfl none⟩

/-- A queue entry that cannot be allocated leaves its task with a user that
nothing will take back: the call returns -1, nothing is in flight or
pending. -/
theorem outputTaskSingleplexEnqueue_loses_user :
    ∃ state : State Unit,
      Run.run (callStep synchronousOutput) State.initial
        [.event (.dispatch 0 [routedTask] { starts := [], allocs := [false] })] = some state ∧
      usersOf state 0 = some 1 ∧ inFlight state 0 = 0 ∧
      pendingCount state 0 = 0 ∧
      (outputTaskSingleplexEnqueue synchronousOutput
        (state.load { starts := [], allocs := [false] }) none 0 ()).2 = -1 ∧
      usersOf (outputTaskSingleplexEnqueue synchronousOutput
        (state.load { starts := [], allocs := [false] }) none 0 ()).1 0 = some 2 :=
  ⟨_, rfl, rfl, rfl, rfl, rfl, rfl⟩

end FluentBit.Engine
