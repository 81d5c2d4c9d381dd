import FluentBit.Engine.Users
import FluentBit.Engine.Tended

/-!
# Life cycle of tasks

A running task has users, or a retry that a request or a queue entry will
bring back.  The proof follows the obligation to release a task through the
dispatch, the completions and the timers: a task may be without users and
without retries only while one of these functions still has to release it.
-/

namespace FluentBit.Engine

open List Option

variable {Out : Type}

/-- A running task has a user or a retry, besides the tasks that are
spared. -/
def Busy (spared : TaskRef → Prop) (state : State Out) : Prop :=
  ∀ ref task, state.task ref = some task → task.status = .running →
    ¬ spared ref → task.users ≠ 0 ∨ task.retries ≠ []

variable {state : State Out} {ref : TaskRef}

section
variable {spared : TaskRef → Prop} {after : State Out}

theorem Busy.of_task (busy : Busy spared state) (same : after.task = state.task) :
    Busy spared after := by
  intro ref task live
  rw [same] at live
  exact busy ref task live

theorem Busy.spare (busy : Busy spared state) (only : ∀ other, spared other → other = ref)
    (others : ∀ other, other ≠ ref →
      after.task other = state.task other) : Busy (· = ref) after := by
  intro other task live running different
  rw [others other different] at live
  exact busy other task live running fun spare =>
    different (only other spare)

theorem Busy.settle (busy : Busy (· = ref) state)
    (settled : ∀ task, state.task ref = some task →
      task.status = .running → task.users ≠ 0 ∨ task.retries ≠ []) :
    Busy (fun _ => False) state := by
  intro other task live running _
  by_cases same : other = ref
  · subst other
    exact settled task live running
  · exact busy other task live running same

theorem Busy.modifyTask (busy : Busy spared state)
    {change : Task Out → Task Out}
    (kept : ∀ task, (change task).status = task.status ∧
      (change task).users = task.users ∧ (change task).retries = task.retries) :
    Busy spared (state.modifyTask ref change) := by
  intro other task live running present
  rcases modifyTask_eq_some live with ⟨old, rfl, oldLive, rfl⟩ | ⟨_, live⟩
  · obtain ⟨status, users, retries⟩ := kept old
    rw [users, retries]
    exact busy ref old oldLive (status ▸ running) present
  · exact busy other task live running present

theorem Busy.taskCreate (busy : Busy spared state) (input : InId) (created : NewTask Out) :
    Busy spared (taskCreate state input created) := by
  intro ref task live running present
  by_cases new : ref = state.next
  · subst ref
    simp only [Engine.taskCreate, Function.update_self, some.injEq] at live
    subst live
    cases running
  · exact busy ref task (by simpa [Engine.taskCreate, new] using live) running present

end

def Script.Succeeds (script : Script) : Prop :=
  (∀ outcome ∈ script.starts, outcome = .started) ∧ ∀ alloc ∈ script.allocs, alloc = true

instance (script : Script) : Decidable script.Succeeds := inferInstanceAs (Decidable (_ ∧ _))

/-- The steps that strand no task: no flush fails to start, no allocation
fails, retries are scheduled anew, and the content of a chunk is readable when
the retry is all that its task still has. -/
def NoTaskStranded (state : State Out) : Event Out → Prop
  | .dispatch _ _ script => script.Succeeds
  | .workerStart _ created => created = true
  | .outputEvent _ _ starts => ∀ outcome ∈ starts, outcome = .started
  | .retryTimer id env script =>
    script.Succeeds ∧
      (env.chunkUp = true → env.content = false →
        ∀ request ∈ state.requests, request.id = id →
          ∀ task ∈ state.task request.data.parent, task.users ≠ 0 ∨ 1 < task.retries.length)
  | .rescheduleRetries _ timers => ∀ timer ∈ timers, timer = true
  | _ => True

instance NoTaskStranded.decidable (state : State Out) :
    (event : Event Out) → Decidable (NoTaskStranded state event)
  | .dispatch _ _ _ => inferInstanceAs (Decidable (Script.Succeeds _))
  | .workerStart _ _ => inferInstanceAs (Decidable (_ = _))
  | .outputEvent _ _ _ | .rescheduleRetries _ _ => inferInstanceAs (Decidable (∀ _ ∈ _, _))
  | .retryTimer _ _ _ => inferInstanceAs (Decidable (_ ∧ _))
  | .resume _ | .outputReturn _ _ | .frameTimer _ _ | .dropRoute _ _
  | .releaseChunk _ => isTrue trivial

theorem NoTaskStranded.allocationsSucceed {event : Event Out}
    (kept : NoTaskStranded state event) : AllocationsSucceed (.event event) := by
  cases event with
  | dispatch input created script => exact kept.2
  | workerStart flush created => exact kept
  | retryTimer request env script => exact kept.1.2
  | resume flush | outputReturn flush ret | outputEvent flush env starts => trivial
  | frameTimer now timers => trivial
  | rescheduleRetries now timers | dropRoute ref out | releaseChunk ref => trivial

section
variable [Fintype Out]

/-- What holds during a dispatch round in which nothing fails. -/
structure Lively (state : State Out) : Prop where
  counted : Counted state
  succeeds : Succeeds state
  tended : Tended (fun _ => False) state

theorem Lively.modifyTask (lively : Lively state) {change : Task Out → Task Out}
    (kept : ∀ task, (change task).users = task.users ∧ (change task).refs = task.refs) :
    Lively (state.modifyTask ref change) :=
  { counted :=
      { numbered := lively.counted.numbered.retains (retains_modifyTask _ _ _)
        idle := lively.counted.idle.of_queue rfl
        accounted := lively.counted.accounted.modifyTask_same fun task => (kept task).1 }
    succeeds := lively.succeeds.of_tail (.inl rfl) (.inl rfl)
    tended := lively.tended.modifyTask fun task =>
      (kept task).2 ▸ .refl _ }

structure Alive (state : State Out) : Prop where
  counted : Counted state
  tended : Tended (fun _ => False) state
  busy : Busy (fun _ => False) state

theorem alive_initial : Alive (State.initial : State Out) :=
  { counted := counted_initial
    tended := tended_initial
    busy := fun ref task live => by simp [State.initial] at live }

theorem Alive.lively (alive : Alive state) {script : Script}
    (succeeds : script.Succeeds) : Lively (state.load script) :=
  { counted := alive.counted.load succeeds.2
    succeeds := ⟨succeeds.1, succeeds.2⟩
    tended := ⟨alive.tended.parents, alive.tended.distinct,
      alive.tended.entries, alive.tended.covered⟩ }

end

variable [DecidableEq Out] {config : Config Out} {spared : TaskRef → Prop} {state : State Out}
  {other : TaskRef}

theorem taskRetryDestroy_task_of_ne (state : State Out) {retry : RetryRef Out}
    (different : other ≠ retry.parent) :
    (taskRetryDestroy state retry).task other = state.task other := by
  rw [taskRetryDestroy, modifyTask_task_of_ne _ _ _ different, schedRequestInvalidate_task]

variable {left : RetryRef Out → Prop} {ref : TaskRef}

theorem Tended.taskDestroy_task_of_ne (tended : Tended left state) (different : other ≠ ref) :
    (Engine.taskDestroy state ref).task other = state.task other := by
  unfold Engine.taskDestroy
  split
  · rfl
  · next task live =>
    have kept : (task.retries.foldl (fun state retry => Engine.taskRetryDestroy state retry.ref)
        state).task other = state.task other := by
      refine List.foldlRecOn (motive := fun current : State Out =>
        current.task other = state.task other) task.retries _ rfl ?_
      intro current same retry member
      have parent : retry.ref.parent = ref := tended.parents live retry.ref (mem_map_of_mem member)
      rw [taskRetryDestroy_task_of_ne current (parent ▸ different), same]
    simpa [different] using kept

theorem Busy.taskDestroy (busy : Busy spared state) (only : ∀ other, spared other → other = ref)
    (tended : Tended left state) : Busy (fun _ => False) (taskDestroy state ref) := by
  refine (busy.spare only fun other different =>
    tended.taskDestroy_task_of_ne different).settle ?_
  intro task live
  rw [taskDestroy_task_self] at live
  cases live

theorem Busy.taskUsersRelease (busy : Busy (· = ref) state) (tended : Tended left state) :
    Busy (fun _ => False) (taskUsersRelease state ref) := by
  unfold Engine.taskUsersRelease
  split
  · next dead => exact busy.settle (by simp [dead])
  · next task live =>
    split
    · exact busy.taskDestroy (fun _ same => same) tended
    · next needed =>
      refine busy.settle ?_
      intro other otherLive _
      rw [live] at otherLive
      cases otherLive
      by_cases users : task.users = 0
      · refine .inr fun none => needed ⟨users, ?_⟩
        rw [none, length_nil]
      · exact .inl users

theorem Busy.cleanupTask (busy : Busy (fun _ => False) state) (tended : Tended left state)
    (ref : TaskRef) : Busy (fun _ => False) (cleanupTask state ref) := by
  unfold Engine.cleanupTask
  split
  · exact busy
  · split
    · exact busy.taskDestroy (fun _ spare => spare.elim) tended
    · exact busy

theorem Busy.taskRetryDestroy (retry : RetryRef Out) (busy : Busy spared state)
    (only : ∀ other, spared other → other = retry.parent) :
    Busy (· = retry.parent) (taskRetryDestroy state retry) :=
  busy.spare only fun _ different =>
    taskRetryDestroy_task_of_ne state different

theorem Tended.taskRetryClean_task_of_ne (tended : Tended left state)
    (out : Out) (different : other ≠ ref) :
    (Engine.taskRetryClean state ref out).task other = state.task other := by
  unfold Engine.taskRetryClean
  split
  · rfl
  · next task live =>
    split
    · rfl
    · next found present =>
      have parent : found.ref.parent = ref :=
        tended.parents live found.ref (mem_map_of_mem (mem_of_find?_eq_some present))
      exact taskRetryDestroy_task_of_ne state (parent ▸ different)

variable {out : Out}

theorem Busy.finishRoute (busy : Busy spared state) (only : ∀ other, spared other → other = ref)
    (tended : Tended (OfRoute ref out) state) :
    Busy (fun _ => False) (finishRoute state ref out) := by
  have cleaned : Busy (· = ref) (Engine.taskRetryClean state ref out) :=
    busy.spare only fun other different =>
      tended.taskRetryClean_task_of_ne out different
  have left : Busy (· = ref) (taskUsersDec (Engine.taskRetryClean state ref out) ref) :=
    cleaned.spare (fun _ same => same) fun other different =>
      modifyTask_task_of_ne _ _ _ different
  have kept : Tended (fun _ => False) (taskUsersDec (Engine.taskRetryClean state ref out) ref) :=
    tended.taskRetryClean.modifyTask fun _ => .refl _
  exact left.taskUsersRelease kept

theorem Tended.taskRetryCreate_task_of_ne (tended : Tended left state)
    (out : Out) (alloc : Bool) (different : other ≠ ref) :
    (Engine.taskRetryCreate config state ref out alloc).1.task other = state.task other := by
  refine @taskRetryCreate_keeps _ _ _ _ (fun next => next.task other = state.task other) _ rfl
    ?_ ?_ out alloc
  · intro task retry live listed
    have parent : retry.ref.parent = ref :=
      tended.parents live retry.ref (mem_map_of_mem listed)
    exact taskRetryDestroy_task_of_ne state (parent ▸ different)
  · exact fun _ _ => modifyTask_task_of_ne _ _ _ different

theorem Busy.handleRetry (busy : Busy (fun _ => False) state)
    (tended : Tended (OfRoute ref out) state) (env : OutputEnv) :
    Busy (fun _ => False) (handleRetry config state ref out env) := by
  have created : Busy (· = ref) (taskRetryCreate config state ref out env.alloc).1 :=
    busy.spare (fun _ spare => spare.elim) fun other different =>
      tended.taskRetryCreate_task_of_ne out env.alloc different
  have left : ∀ {next : State Out}, Busy (· = ref) next →
      Busy (· = ref) (taskUsersDec next ref) := fun spare =>
    spare.spare (fun _ same => same) fun other different =>
      modifyTask_task_of_ne _ _ _ different
  obtain ⟨ended, returned, result⟩ := handleRetry_result config state ref out env
  rw [returned]
  cases result with
  | unretried => exact busy.finishRoute (fun _ spare => spare.elim) tended
  | refused absent =>
    rw [absent] at created
    exact created.finishRoute (fun _ same => same) (tended.taskRetryCreate absent).1
  | @scheduled next retry backoff present =>
    rw [present] at created
    obtain ⟨kept, listed⟩ := tended.taskRetryCreate present
    obtain ⟨output, task, live, member⟩ := listed retry rfl
    refine ((left created).of_task (schedRequestCreate_task _ _ _ _)).settle ?_
    intro after afterLive _
    rw [schedRequestCreate_task, taskUsersDec, modifyTask_task_self, live] at afterLive
    cases afterLive
    refine .inr fun (none : task.retries = []) => ?_
    simp [Task.refs, none] at member
  | @unscheduled next retry present =>
    rw [present] at created
    obtain ⟨kept, listed⟩ := tended.taskRetryCreate present
    obtain ⟨output, task, live, member⟩ := listed retry rfl
    have parent : retry.parent = ref := kept.parents live retry member
    have keptLeft : Tended (OfRoute ref out) (taskUsersDec next ref) :=
      kept.modifyTask fun _ => .refl _
    have destroyed : Busy (· = retry.parent)
        (Engine.taskRetryDestroy (taskUsersDec next ref) retry) :=
      (left created).taskRetryDestroy retry fun _ same =>
        same.trans parent.symm
    rw [parent] at destroyed
    exact destroyed.taskUsersRelease (keptLeft.taskRetryDestroy retry)

theorem flushNext_task (succeeds : Succeeds state) (out : Out) :
    (outputTaskSingleplexFlushNext config state out).task = state.task := by
  rw [succeeds.flushNext]
  split
  · exact endInProgress_task state out
  · rw [beginEntry_task, endInProgress_task]

theorem handleOutputEvent_keeps (succeeds : Succeeds state) (busy : Busy (fun _ => False) state)
    (tended : Tended (OfRoute ref out) state) (ret : Ret) (env : OutputEnv) :
    Tended (fun _ => False) (handleOutputEvent config state ref out ret env) ∧
      Busy (fun _ => False) (handleOutputEvent config state ref out ret env) := by
  obtain ⟨kept, still⟩ : Tended (OfRoute ref out) (flushNextIf config state out) ∧
      Busy (fun _ => False) (flushNextIf config state out) :=
    flushNextIf_keeps (fun state => Tended (OfRoute ref out) state ∧ Busy (fun _ => False) state)
      ⟨tended, busy⟩ ⟨tended.flushNext succeeds out, busy.of_task (flushNext_task succeeds out)⟩
  have finished := still.finishRoute (fun _ spare => spare.elim) kept
  cases ret with
  | ok | error => exact ⟨kept.finishRoute, finished⟩
  | retry => exact ⟨kept.handleRetry env, still.handleRetry kept env⟩

section
variable [Fintype Out]

theorem lively_dispatchClosed (config : Config Out) :
    DispatchClosed config (Lively : State Out → Prop) :=
  { numbered := fun lively => lively.counted.numbered
    cleaned := fun {state ref} lively =>
      have shed := sheds_cleanupTask state ref
      { counted :=
          { numbered := lively.counted.numbered.sheds shed
            idle := lively.counted.idle.of_queue shed.queue
            accounted := lively.counted.accounted.sheds shed }
        succeeds := lively.succeeds.of_tail (.inl shed.starts) (.inl shed.allocs)
        tended := lively.tended.cleanupTask ref }
    created := fun lively =>
      { counted :=
          { numbered := lively.counted.numbered.taskCreate _ _
            idle := lively.counted.idle.of_queue rfl
            accounted := lively.counted.accounted.taskCreate lively.counted.numbered _ _ }
        succeeds := lively.succeeds.of_tail (.inl rfl) (.inl rfl)
        tended := lively.tended.taskCreate _ _ }
    status := fun lively => lively.modifyTask fun _ => ⟨rfl, rfl⟩
    removed := fun lively => lively.modifyTask fun _ => ⟨rfl, rfl⟩
    started := fun {state ref out} lively known =>
      have idle : Numbered _ ∧ AllIdle (startRoute config state ref out) :=
        (allIdle_quietClosed config).dispatchClosed.started
          ⟨lively.counted.numbered, lively.counted.idle⟩ known
      have accounted : Numbered _ ∧ Accounted (fun _ => 0) (startRoute config state ref out) :=
        (accounted_dispatchClosed config).started
          ⟨lively.counted.numbered, lively.counted.accounted⟩ known
      have result : StartResult config state none ref out (startRoute config state ref out) :=
        lively.succeeds.startRoute_result lively.counted.idle ref out
      { counted := ⟨idle.1, idle.2, accounted.2⟩
        succeeds := result.succeeds lively.succeeds
        tended := lively.tended.start result (by simp) } }

theorem Lively.startRoutes (config : Config Out) (lively : Lively state)
    (known : ref < state.next) (retry : Nat) (outs : List Out) :
    usersOf (startRoutes config ref retry outs state).1 ref =
        (usersOf state ref).map (· + ((startRoutes config ref retry outs state).2 : Int)) ∧
      ∀ other, other ≠ ref →
        (startRoutes config ref retry outs state).1.task other = state.task other := by
  induction outs generalizing state with
  | nil => simp [Engine.startRoutes]
  | cons out outs ih =>
    have closed := lively_dispatchClosed config
    simp only [Engine.startRoutes]
    split
    · have removed : Lively (removeRoute state ref out) := closed.removed lively
      have same : usersOf (removeRoute state ref out) ref = usersOf state ref := by
        apply usersOf_modifyTask_same
        intro task
        rfl
      obtain ⟨users, others⟩ := ih removed known
      refine ⟨?_, fun other different => ?_⟩
      · rw [users, same]
      · rw [others other different]
        exact modifyTask_task_of_ne _ _ _ different
    · split
      · exact ih lively known
      · have result : StartResult config state none ref out (startRoute config state ref out) :=
          lively.succeeds.startRoute_result lively.counted.idle ref out
        have still : ref < (startRoute config state ref out).next :=
          ((numbered_routeClosed ref).startRoute ⟨lively.counted.numbered, known⟩ out).2
        obtain ⟨users, others⟩ := ih (closed.started lively known) still
        refine ⟨?_, fun other different => ?_⟩
        · rw [users, usersOf, usersOf, result.task, taskUsersInc, modifyTask_task_self,
            Option.map_map, Option.map_map, Option.map_map]
          congr 1
          funext task
          simp only [Function.comp_apply]
          omega
        · rw [others other different, result.task]
          exact modifyTask_task_of_ne _ _ _ different

variable (busy : Busy (fun _ => False) state)
include busy

theorem Busy.startTask (lively : Lively state) (retry : Nat)
    (ref : TaskRef) : Busy (fun _ => False) (startTask config state retry ref).1 := by
  unfold Engine.startTask
  split
  · exact busy
  · next task live =>
    dsimp only
    split
    · exact busy
    · have running : Lively (setStatus state ref .running) :=
        (lively_dispatchClosed config).status lively
      have known : ref < state.next := lively.counted.numbered.tasks live
      obtain ⟨users, others⟩ := running.startRoutes config known
        (countRetry task retry) (task.routes.map (·.out))
      generalize Engine.startRoutes config ref (countRetry task retry) (task.routes.map (·.out))
        (setStatus state ref .running) = ended at users others ⊢
      have spare : Busy (· = ref) ended.1 :=
        busy.spare (fun _ spare => spare.elim) fun other different => by
          rw [others other different]
          exact modifyTask_task_of_ne _ _ _ different
      split
      · -- No route was hit: the task is new again.
        refine (spare.spare (fun _ same => same) fun other different =>
          modifyTask_task_of_ne _ _ _ different).settle ?_
        intro after afterLive status
        rw [modifyTask_task_self] at afterLive
        obtain ⟨old, _, rfl⟩ := map_eq_some_iff.mp afterLive
        cases status
      · next hit =>
        refine spare.settle fun after afterLive _ => .inl ?_
        have counted := lively.counted.accounted.users live
        have before : usersOf (setStatus state ref .running) ref = some task.users := by
          simp [usersOf, setStatus, live]
        rw [before, usersOf, afterLive] at users
        simp only [map_some, some.injEq] at users
        omega

theorem Busy.startTasks (lively : Lively state) (refs : List TaskRef) (retry : Nat) :
    Busy (fun _ => False) (startTasks config refs state retry) := by
  induction refs generalizing state retry with
  | nil => exact busy
  | cons ref refs ih =>
    exact ih (busy.startTask lively retry ref)
      ((lively_dispatchClosed config).startTask lively retry ref) _

theorem Busy.engineDispatch (lively : Lively state) (input : InId) (created : List (NewTask Out)) :
    Busy (fun _ => False) (engineDispatch config state input created) := by
  have closed := lively_dispatchClosed config
  have made : Lively (created.foldl (Engine.taskCreate · input ·) state) ∧
      Busy (fun _ => False) (created.foldl (Engine.taskCreate · input ·) state) :=
    List.foldlRecOn (motive := fun current =>
        Lively current ∧ Busy (fun _ => False) current)
      created _ ⟨lively, busy⟩
      fun _ kept new _ =>
        ⟨closed.created kept.1, kept.2.taskCreate input new⟩
  unfold Engine.engineDispatch tasksStart
  generalize created.foldl (Engine.taskCreate · input ·) state = fresh at made ⊢
  have started : Busy (fun _ => False) (Engine.startTasks config (fresh.tasks input) fresh 0) :=
    made.2.startTasks made.1 _ 0
  have cleaned := List.foldlRecOn (motive := fun current : State Out =>
      Lively current ∧ Busy (fun _ => False) current)
    ((Engine.startTasks config (fresh.tasks input) fresh 0).tasks input)
    Engine.cleanupTask ⟨closed.startTasks made.1 _ 0, started⟩
    fun _ kept ref _ =>
      ⟨closed.cleaned kept.1, kept.2.cleanupTask kept.1.tended ref⟩
  exact cleaned.2

end

variable {after : State Out}

theorem Busy.start [Fintype Out] (busy : Busy (fun _ => False) state)
    (accounted : Accounted (fun _ => 0) state) {retry : Option (RetryRef Out)}
    (result : StartResult config state retry ref out after) : Busy (fun _ => False) after := by
  have spare : Busy (· = ref) after :=
    busy.spare (fun _ spare => spare.elim) fun other different => by
      rw [result.task]
      exact modifyTask_task_of_ne _ _ _ different
  refine spare.settle fun task live _ => .inl ?_
  rw [result.task, taskUsersInc, modifyTask_task_self] at live
  obtain ⟨old, oldLive, rfl⟩ := map_eq_some_iff.mp live
  have counted := accounted.users oldLive
  dsimp only
  omega

theorem Tended.timer (tended : Tended (fun _ => False) state) (numbered : Numbered state)
    {request : Request Out} (member : request ∈ state.requests) {env : RetryEnv}
    (result : TimerResult config state request env after) : Tended (fun _ => False) after := by
  cases result with
  | unscheduled => exact (tended.taskRetryDestroy request.data).taskUsersRelease _
  | rescheduled backoff =>
    have created := numbered.schedRequestCreate request.data env.now (some backoff)
    have still : request ∈ (Engine.schedRequestCreate state request.data env.now
        (some backoff)).1.requests := by
      unfold Engine.schedRequestCreate
      dsimp only
      split <;> simp [member]
    refine (tended.schedRequestCreate request.data env.now
      (some backoff)).dropRequest created.requestIds still (.inr ?_)
    refine ⟨{ id := state.next, data := request.data, created := env.now,
              timeout := backoff + 1 }, ?_, ?_, rfl⟩
    · unfold Engine.schedRequestCreate
      dsimp only
      split <;> simp [State.allRequests]
    · have older := numbered.requests request (mem_append_left _ member)
      simp only
      omega
  | unreadable up content => exact tended.taskRetryDestroy request.data
  | started start =>
    obtain ⟨requests, waiting⟩ := start.requests
    refine (tended.start start ?_).dropRequest ?_ ?_ (.inl start.attended)
    · intro data same
      cases same
      exact ⟨rfl, rfl⟩
    · rw [State.allRequests, requests, waiting]
      exact numbered.requestIds
    · rw [requests]
      exact member

theorem Busy.timer [Fintype Out] (busy : Busy (fun _ => False) state)
    (accounted : Accounted (fun _ => 0) state)
    (tended : Tended (fun _ => False) state) {request : Request Out}
    {env : RetryEnv} (needed : env.chunkUp = true → env.content = false →
      ∀ task ∈ state.task request.data.parent, task.users ≠ 0 ∨ 1 < task.retries.length)
    (result : TimerResult config state request env after) :
    Busy (fun _ => False) after := by
  have destroyed : Busy (· = request.data.parent) (Engine.taskRetryDestroy state request.data) :=
    busy.taskRetryDestroy request.data fun _ spare => spare.elim
  cases result with
  | unscheduled => exact destroyed.taskUsersRelease (tended.taskRetryDestroy request.data)
  | rescheduled backoff => exact busy.of_task (schedRequestCreate_task _ _ _ _)
  | unreadable up content =>
    refine destroyed.settle fun task live _ => ?_
    rw [Engine.taskRetryDestroy, modifyTask_task_self, schedRequestInvalidate_task] at live
    obtain ⟨old, oldLive, rfl⟩ := map_eq_some_iff.mp live
    rcases needed up content old oldLive with users | retries
    · exact .inl users
    · refine .inr fun none => ?_
      have length := congrArg List.length none
      rw [length_eraseP, length_nil] at length
      split at length <;> omega
  | started start => exact (busy.start accounted start).of_task rfl

theorem Tended.engineRescheduleRetries (tended : Tended left state) (now : Nat)
    {timers : List Bool} (fires : ∀ timer ∈ timers, timer = true) :
    Tended left (engineRescheduleRetries config state now timers) := by
  obtain ⟨_, kept⟩ := engineRescheduleRetries_keeps config
    (fun current timers => Tended left current ∧ ∀ timer ∈ timers, timer = true) now
    (fun {current timers} data kept => by
      have first : timers.headD true = true := by
        cases timers with
        | nil => rfl
        | cons timer timers => exact kept.2 timer (by simp)
      rw [first]
      exact ⟨kept.1.reschedule data now, fun timer member =>
        kept.2 timer (mem_of_mem_tail member)⟩)
    timers ⟨tended, fires⟩
  exact kept.1

theorem Busy.engineRescheduleRetries (busy : Busy spared state) (now : Nat) (timers : List Bool) :
    Busy spared (engineRescheduleRetries config state now timers) := by
  obtain ⟨_, kept⟩ := engineRescheduleRetries_keeps config
    (fun current _ => Busy spared current) now
    (fun {current timers} data kept => kept.of_task (by
      unfold schedRetryNow
      split <;> exact schedRequestInvalidate_task current data))
    timers busy
  exact kept

section
variable [Fintype Out]

section
variable {next : State Out} {event : Event Out} (alive : Alive state)
  (kept : NoTaskStranded state event) (taken : step config state event = some next)
include alive kept taken

theorem tended_busy_step : Tended (fun _ => False) next ∧ Busy (fun _ => False) next := by
  have tended := alive.tended
  have busy := alive.busy
  have routed : ∀ ref out status,
      Tended (fun _ => False) (taskSetRouteStatus state ref out status) ∧
      Busy (fun _ => False) (taskSetRouteStatus state ref out status) :=
    fun ref out status => ⟨tended.modifyTask fun _ => .refl _,
      busy.modifyTask fun _ => ⟨rfl, rfl, rfl⟩⟩
  cases step_result taken with
  | dispatch input created script =>
    have lively := alive.lively kept
    have loaded : Busy (fun _ => False) (state.load script) := busy.of_task rfl
    exact ⟨((lively_dispatchClosed config).engineDispatch lively input
      created).tended, loaded.engineDispatch lively input created⟩
  | workerStart flush created member phase =>
    obtain rfl : created = true := kept
    exact ⟨tended.setPhase _ _, busy.of_task rfl⟩
  | resume flush task member phase live =>
    unfold resumeFlush
    split
    · exact ⟨(routed _ _ _).1.setPhase _ _, (routed _ _ _).2.of_task rfl⟩
    · exact routed _ _ _
  | outputReturn flush ret member phase =>
    exact ⟨(routed _ _ _).1.setPhase _ _, (routed _ _ _).2.of_task rfl⟩
  | outputEvent flush ret task env starts member phase live =>
    have lively : Lively (state.load { starts := starts, allocs := [] }) :=
      alive.lively ⟨kept, by simp⟩
    have removed : Tended (OfRoute flush.task flush.out)
        ((state.load { starts := starts, allocs := [] }).removeFlush flush.id) :=
      lively.tended.removeFlush lively.counted.numbered member
    have succeeds : Succeeds
        ((state.load { starts := starts, allocs := [] }).removeFlush flush.id) :=
      lively.succeeds.of_tail (.inl rfl) (.inl rfl)
    exact handleOutputEvent_keeps succeeds (busy.of_task rfl) removed ret env
  | retryTimer request task env script member live linked =>
    have lively := alive.lively kept.1
    have result : TimerResult config (state.load script) request env
        (schedRequestTimer config (state.load script) request env) :=
      lively.succeeds.schedRequestTimer_result lively.counted.idle request env
    have loaded : Busy (fun _ => False) (state.load script) := busy.of_task rfl
    exact ⟨lively.tended.timer lively.counted.numbered member result,
      loaded.timer lively.counted.accounted lively.tended
        (fun up content => kept.2 up content request member rfl) result⟩
  | frameTimer now timers => exact ⟨tended.scheduleRequestPromote now timers, busy.of_task rfl⟩
  | rescheduleRetries now timers =>
    exact ⟨tended.engineRescheduleRetries now kept, busy.engineRescheduleRetries now timers⟩
  | dropRoute ref out task live inUse =>
    obtain ⟨routed, still⟩ := routed ref out .dropped
    exact ⟨⟨routed.parents, routed.distinct, routed.entries, routed.covered⟩, still.of_task rfl⟩
  | releaseChunk ref task live unused =>
    exact ⟨tended.taskDestroy ref, busy.taskDestroy (fun _ spare => spare.elim) tended⟩

theorem alive_step : Alive next := by
  obtain ⟨tended, busy⟩ := tended_busy_step alive kept taken
  have called : callStep config state (.event event) = some next := taken
  exact ⟨counted_callStep alive.counted kept.allocationsSucceed called, tended, busy⟩

end

/-- In every run that strands no task, a running task has users or a retry
that a request of the scheduler or a queue entry refers to. -/
theorem running_task_has_user_or_retry (config : Config Out) {state : State Out}
    (reached : Run.Reaches (step config) NoTaskStranded State.initial state) {ref : TaskRef}
    {task : Task Out} (live : state.task ref = some task) (running : task.status = .running) :
    0 < task.users ∨
      ∃ retry ∈ task.retries, (∃ request ∈ state.allRequests, request.data = retry.ref) ∨
        ∃ out, ∃ entry ∈ (state.queue out).pending, entry.retry = some retry.ref := by
  have alive : Alive state := reached.invariant alive_initial alive_step
  have users := alive.counted.accounted.users live
  rcases alive.busy ref task live running id with inUse | retried
  · exact .inl (by omega)
  · obtain ⟨retry, member⟩ := exists_mem_of_ne_nil _ retried
    have listed : retry.ref ∈ task.refs := mem_map_of_mem member
    have covered := (alive.tended.covered live retry.ref listed).resolve_left id
    rcases covered with request | waiting | ⟨flush, flies, parent, output⟩
    · exact .inr ⟨retry, member, .inl request⟩
    · exact .inr ⟨retry, member, .inr waiting⟩
    · -- The flush that covers the retry is a user of the task.
      rw [alive.tended.parents live retry.ref listed] at parent
      have flights : 0 < inFlight state ref :=
        countP_pos_iff.mpr ⟨flush, flies, by simpa using parent⟩
      exact .inl (by omega)

end

/-- A task is dispatched and its only flush asks for a retry. -/
def retriedOnce : List (Event Unit) :=
  [.dispatch 0 [routedTask] { starts := [], allocs := [] }, .outputReturn 2 .retry,
    .outputEvent 2 { alloc := true, now := 0, backoff := some 0 } []]

/-- After a flush that asks for a retry the task has no users, and a request
of the scheduler for its retry. -/
theorem running_task_has_user_or_retry_retriedOnce :
    ∃ (state : State Unit) (task : Task Unit),
      Run.runGuarded (step synchronousOutput) NoTaskStranded State.initial
        retriedOnce = some state ∧
      state.task 0 = some task ∧ task.status = .running ∧ task.users = 0 ∧
      (0 < task.users ∨
        ∃ retry ∈ task.retries, (∃ request ∈ state.allRequests, request.data = retry.ref) ∨
          ∃ out, ∃ entry ∈ (state.queue out).pending, entry.retry = some retry.ref) := by
  obtain ⟨state, task, taken, live, running, users⟩ : ∃ (state : State Unit) (task : Task Unit),
      Run.runGuarded (step synchronousOutput) NoTaskStranded State.initial retriedOnce =
      some state ∧ state.task 0 = some task ∧ task.status = .running ∧ task.users = 0 := ⟨_, _, rfl,
      rfl, rfl, rfl⟩
  exact ⟨state, task, taken, live, running, users, running_task_has_user_or_retry synchronousOutput
    (Run.Reaches.refl.of_runGuarded taken) live running⟩

/-- A task has one retry for an output at most, and no retry is forgotten: a
request, an entry or a flush stands for it. -/
theorem retries_are_looked_after [Fintype Out] (config : Config Out)
    (reached : Run.Reaches (step config) NoTaskStranded State.initial state) {task : Task Out}
    (live : state.task ref = some task) :
    (task.refs.map (·.oIns)).Nodup ∧
      ∀ retry ∈ task.refs, retry.parent = ref ∧ Covered state retry := by
  have alive : Alive state := reached.invariant alive_initial alive_step
  refine ⟨alive.tended.distinct live, ?_⟩
  intro retry member
  exact ⟨alive.tended.parents live retry member,
    (alive.tended.covered live retry member).resolve_left id⟩

theorem retries_are_looked_after_retriedOnce :
    ∃ (state : State Unit) (task : Task Unit), state.task 0 = some task ∧ task.refs ≠ [] ∧
      ∀ retry ∈ task.refs, Covered state retry := by
  obtain ⟨state, task, taken, live, some⟩ : ∃ (state : State Unit) (task : Task Unit),
      Run.runGuarded (step synchronousOutput) NoTaskStranded State.initial retriedOnce =
      some state ∧ state.task 0 = some task ∧ task.refs ≠ [] :=
    ⟨_, _, rfl, rfl, cons_ne_nil _ _⟩
  have looked := retries_are_looked_after _ (Run.Reaches.refl.of_runGuarded taken) live
  exact ⟨state, task, live, some, fun retry member => (looked.2 retry member).2⟩

/-- When the timer of that retry cannot read the chunk, the retry is destroyed
and the task is left running, without users, retries, requests or flushes. -/
theorem engineDispatchRetry_strands_task :
    ∃ (state : State Unit) (task : Task Unit),
      Run.run (step synchronousOutput) State.initial
        (retriedOnce ++ [.retryTimer 4
          { chunkUp := true, content := false, now := 1, backoff := some 0 }
          { starts := [], allocs := [] }]) = some state ∧
      0 ∈ state.tasks 0 ∧ state.task 0 = some task ∧
      task.status = .running ∧ task.users = 0 ∧ task.retries = [] ∧
      state.flushes = [] ∧ state.allRequests = [] ∧
      (state.queue ()).pending = [] :=
  ⟨_, _, rfl, mem_singleton.mpr rfl, rfl, rfl, rfl, rfl, rfl, rfl, rfl⟩

end FluentBit.Engine
