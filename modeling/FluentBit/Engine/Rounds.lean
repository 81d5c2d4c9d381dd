import FluentBit.Engine.Routes

/-!
# Rounds of tasks

`tasks_start` skips the routes of outputs that do not multiplex and are busy,
or while retries are pending.  A round is uniform when the routes of every new
task it meets are all skipped or all started; then a task that is running has
handed over all its routes, and a route that was skipped belongs to a task
that is still new.
-/

namespace FluentBit.Engine

open List

variable {Out : Type}

def Survives (ref : TaskRef) (before after : State Out) : Prop :=
  ∀ other, other ≠ ref → (before.task other).isSome → (after.task other).isSome

variable {ref : TaskRef} {before state : State Out}

section
variable (survives : Survives ref before state)
include survives

theorem Survives.modifyTask (changed : TaskRef)
    (change : Task Out → Task Out) : Survives ref before (state.modifyTask changed change) := by
  intro other different live
  have kept := survives other different live
  rw [modifyTask_task]
  split
  · next same =>
    subst other
    rw [Option.isSome_map]
    exact kept
  · exact kept

theorem Survives.of_task {after : State Out}
    (same : after.task = state.task) : Survives ref before after := by
  intro other different live
  rw [same]
  exact survives other different live

theorem Survives.schedRequestCreate (data : RetryRef Out) (now : Nat) (backoff : Option Nat) :
    Survives ref before (schedRequestCreate state data now backoff).1 :=
  survives.of_task (by
    unfold Engine.schedRequestCreate
    split
    · rfl
    · dsimp only
      split <;> rfl)

end

variable [DecidableEq Out] {config : Config Out} {out other : Out}

theorem corosOther_queueClosed (different : other ≠ out) (count : Nat) :
    QueueClosed out fun state : State Out =>
      outputCorosSize state other = count :=
  { ended := fun {state} kept => by
      rw [← kept]
      unfold endInProgress
      split <;> rfl
    begun := by
      intro state entry pending phase _ kept
      have away : out ≠ other := fun same => different same.symm
      rw [← kept]
      simp [outputCorosSize, beginEntry, startFlush, takeEntry, handOver,
        taskUsersDec, State.setQueue, away]
    taken := fun _ kept => kept
    destroyed := by
      intro state retry kept
      rw [← kept, outputCorosSize, (sheds_taskRetryDestroy state retry).flushes]
      rfl
    read := fun kept => kept }

theorem outputCorosSize_startRoute (config : Config Out) (state : State Out)
    (ref : TaskRef) (different : other ≠ out) :
    outputCorosSize (startRoute config state ref out) other = outputCorosSize state other := by
  have closed := corosOther_queueClosed different (outputCorosSize state other)
  unfold startRoute
  split
  · obtain ⟨ended, returned, result⟩ := outputTaskSingleplexEnqueue_result config state none ref out
    rw [returned]
    cases result with
    | allocFailed first | queued first busy => rfl
    | flushed first idle =>
      exact closed.flushOne (fun _ => closed.outputTaskSingleplexFlushNext) rfl
  · have failed : outputCorosSize (afterFailure config
        (outputTaskSingleplexFlushNext config) (handOver state ref out) out)
        other = outputCorosSize state other := by
      unfold afterFailure
      split
      · exact closed.outputTaskSingleplexFlushNext rfl
      · rfl
    obtain ⟨ended, returned, result⟩ := outputTaskFlushDirect_result config state ref out
    rw [returned]
    cases result with
    | started first =>
      have away : out ≠ other := fun same => different same.symm
      simp [outputCorosSize, startFlush, handOver, away]
    | poolFailed threaded first | writeFailed unthreaded first => exact failed
    | createFailed unthreaded first => rfl

variable {state : State Out} {ref : TaskRef}

section
variable {spared : TaskRef → Prop}

section
variable (config : Config Out) (routed : Routed spared state) (running : Running state ref)
include routed running

theorem routed_startRoute (out : Out) :
    Frames state (startRoute config state ref out) ∧
      Routed spared (startRoute config state ref out) :=
  (routed_routeClosed running).startRoute ⟨Frames.refl state, routed⟩ out

theorem routed_startRoutes (retry : Nat) (outs : List Out) :
    Frames state (startRoutes config ref retry outs state).1 ∧
      Routed spared (startRoutes config ref retry outs state).1 := by
  have removed : ∀ {current : State Out} {out : Out},
      Frames state current ∧ Routed spared current →
        Frames state (removeRoute current ref out) ∧
          Routed spared (removeRoute current ref out) := fun kept =>
    have frames := frames_removeRoute _ ref _
    ⟨kept.1.trans frames, kept.2.quiet frames rfl rfl⟩
  exact startRoutes_keeps (fun current => Frames state current ∧ Routed spared current) removed
    (fun kept => (routed_routeClosed running).startRoute kept _) retry outs
    ⟨Frames.refl state, routed⟩

theorem startRoutes_outs (retry : Nat) (outs : List Out) {task : Task Out}
    (live : (startRoutes config ref retry outs state).1.task ref = some task) :
    ∀ out ∈ task.outs, out ∈ outs → (config.output out).testMode = false := by
  induction outs generalizing state with
  | nil => simp
  | cons out outs ih =>
    simp only [startRoutes] at live
    split at live
    · have frames := frames_removeRoute state ref out
      have removed : Routed spared (removeRoute state ref out) := routed.quiet frames rfl rfl
      have rest := ih removed (running.frames frames) live
      intro other kept member
      rcases mem_cons.mp member with rfl | later
      · -- The route was filtered out and cannot come back.
        have still := (routed_startRoutes config removed (running.frames frames) retry outs).1
        obtain ⟨old, oldLive, frame⟩ := still.tasks live
        rw [removeRoute, modifyTask_task_self] at oldLive
        obtain ⟨before, _, rfl⟩ := Option.map_eq_some_iff.mp oldLive
        have impossible := frame.outs.subset kept
        simp [Task.outs] at impossible
        obtain ⟨route, ⟨_, away⟩, same⟩ := impossible
        exact absurd same away
      · exact rest other kept later
    · next untested =>
      have plain : (config.output out).testMode = false := by simpa using untested
      split at live
      · intro other kept member
        rcases mem_cons.mp member with rfl | later
        · exact plain
        · exact ih routed running live other kept later
      · obtain ⟨frames, started⟩ := routed_startRoute config routed running out
        intro other kept member
        rcases mem_cons.mp member with rfl | later
        · exact plain
        · exact ih started (running.frames frames) live other kept later

end

variable {outs : List Out}

theorem startRoutes_handed (config : Config Out) (routed : Routed spared state)
    (running : Running state ref) (retry : Nat) (distinct : outs.Nodup)
    (unskipped : ∀ out ∈ outs, (config.output out).testMode = false →
      skipsRoute config state retry out = false) :
    ∀ out ∈ outs, (config.output out).testMode = false →
      (ref, out) ∈ (startRoutes config ref retry outs state).1.handed := by
  induction outs generalizing state with
  | nil => simp
  | cons out outs ih =>
    obtain ⟨fresh, rest⟩ := nodup_cons.mp distinct
    simp only [startRoutes]
    split
    · next tested =>
      have frames := frames_removeRoute state ref out
      have removed : Routed spared (removeRoute state ref out) := routed.quiet frames rfl rfl
      have later := ih removed (running.frames frames) rest
        (fun other member => unskipped other (mem_cons_of_mem _ member))
      intro other member plain
      rcases mem_cons.mp member with rfl | tail
      · rw [tested] at plain
        cases plain
      · exact later other tail plain
    · next untested =>
      have first : skipsRoute config state retry out = false :=
        unskipped out mem_cons_self (by simpa using untested)
      rw [if_neg (by simp [first])]
      obtain ⟨frames, started⟩ := routed_startRoute config routed running out
      have later := ih started (running.frames frames) rest
        (fun other member plain => by
          have different : other ≠ out := by
            rintro rfl
            exact fresh member
          rw [skipsRoute, outputCorosSize_startRoute config state ref different]
          exact unskipped other (mem_cons_of_mem _ member) plain)
      intro other member plain
      rcases mem_cons.mp member with rfl | tail
      · have kept := (routed_startRoutes config started (running.frames frames) retry outs).1
        exact kept.handed (mem_handed_startRoute config state ref other)
      · exact later other tail plain

theorem startRoutes_hits_of_skipped (config : Config Out) (state : State Out)
    (ref : TaskRef) (retry : Nat)
    (skipped : ∀ out ∈ outs, (config.output out).testMode = false →
      skipsRoute config state retry out = true) :
    (startRoutes config ref retry outs state).2 = 0 := by
  induction outs generalizing state with
  | nil => rfl
  | cons out outs ih =>
    have later : ∀ other ∈ outs,
        (config.output other).testMode = false → skipsRoute config state retry other = true :=
      fun other member => skipped other (mem_cons_of_mem _ member)
    simp only [startRoutes]
    split
    · exact ih (removeRoute state ref out) later
    · next untested =>
      have first : skipsRoute config state retry out = true :=
        skipped out mem_cons_self (by simpa using untested)
      rw [if_pos first]
      exact ih state later

theorem startRoutes_of_hits_eq_zero {retry : Nat}
    (missed : (startRoutes config ref retry outs state).2 = 0) :
    (startRoutes config ref retry outs state).1.flushes = state.flushes ∧
      (startRoutes config ref retry outs state).1.queue = state.queue := by
  induction outs generalizing state with
  | nil => exact ⟨rfl, rfl⟩
  | cons out outs ih =>
    simp only [startRoutes] at missed ⊢
    split at missed
    · next tested =>
      rw [if_pos tested]
      exact ih missed
    · next untested =>
      rw [if_neg untested]
      split at missed
      · next skipped =>
        rw [if_pos skipped]
        exact ih missed
      · simp at missed

end

/-- The routes of a task, besides those of test outputs, are all skipped or
all started. -/
def UniformRoutes (config : Config Out) (state : State Out) (retry : Nat) (outs : List Out) :
    Prop :=
  (∀ out ∈ outs, (config.output out).testMode = false → skipsRoute config state retry out = true) ∨
  ∀ out ∈ outs, (config.output out).testMode = false → skipsRoute config state retry out = false

instance (config : Config Out) (state : State Out) (retry : Nat)
    (outs : List Out) : Decidable (UniformRoutes config state retry outs) :=
  inferInstanceAs (Decidable (_ ∨ _))

/-- Each new task of a round meets its outputs either all busy or all
free. -/
def UniformTasks (config : Config Out) : List TaskRef → State Out → Nat → Prop
  | [], _, _ => True
  | ref :: refs, state, retry =>
    (∀ task ∈ state.task ref, task.status = .new →
      UniformRoutes config state (countRetry task retry) task.outs) ∧
    UniformTasks config refs (startTask config state retry ref).1
      (startTask config state retry ref).2

instance UniformTasks.decidable (config : Config Out) :
    (refs : List TaskRef) → (state : State Out) → (retry : Nat) →
      Decidable (UniformTasks config refs state retry)
  | [], _, _ => isTrue trivial
  | ref :: refs, state, retry =>
    have := UniformTasks.decidable config refs (startTask config state retry ref).1
      (startTask config state retry ref).2
    inferInstanceAs (Decidable (_ ∧ _))

def UniformRounds (config : Config Out) (state : State Out) : Event Out → Prop
  | .dispatch input created script =>
    UniformTasks config ((created.foldl (taskCreate · input ·) (state.load script)).tasks input)
      (created.foldl (taskCreate · input ·) (state.load script)) 0
  | _ => True

instance UniformRounds.decidable (state : State Out) :
    (event : Event Out) → Decidable (UniformRounds config state event)
  | .dispatch _ _ _ => UniformTasks.decidable config _ _ _
  | .workerStart _ _ | .resume _ | .outputReturn _ _ | .outputEvent _ _ _
  | .retryTimer _ _ _ | .frameTimer _ _ | .rescheduleRetries _ _
  | .dropRoute _ _ | .releaseChunk _ => isTrue trivial

section
variable {spared : TaskRef → Prop}

theorem Routed.startTask (routed : Routed (fun _ => False) state) (retry : Nat) (ref : TaskRef)
    (uniform : ∀ task ∈ state.task ref, task.status = .new →
      UniformRoutes config state (countRetry task retry) task.outs) :
    Routed (fun _ => False) (startTask config state retry ref).1 := by
  unfold Engine.startTask
  split
  · exact routed
  · next task live =>
    dsimp only
    split
    · exact routed
    · next fresh =>
      have new : task.status = .new := by simpa using fresh
      have started : Routed (· = ref) (setStatus state ref .running) :=
        routed.modifyRunning (fun _ none => none.elim) (.inl rfl) fun _ _ => ⟨rfl, rfl, rfl⟩
      have running := running_setStatus state ref
      obtain ⟨frames, kept⟩ := routed_startRoutes config started running
        (countRetry task retry) task.outs
      split
      · next missed =>
        obtain ⟨flushes, queue⟩ := startRoutes_of_hits_eq_zero missed
        exact routed.quiet (frames_setNew live new frames) flushes queue
      · next hit =>
        refine kept.settle fun after afterLive _ out member => ?_
        obtain ⟨old, oldLive, frame⟩ := frames.tasks afterLive
        rw [setStatus, modifyTask_task_self, live] at oldLive
        cases oldLive
        have listed : out ∈ task.outs := frame.outs.subset member
        have plain : (config.output out).testMode = false :=
          startRoutes_outs config started running _ task.outs afterLive out member listed
        rcases uniform task live new with skipped | unskipped
        · exact absurd (startRoutes_hits_of_skipped config
            (setStatus state ref .running) ref _ skipped) hit
        · exact startRoutes_handed config started running _
            (routed.distinct live) unskipped out listed plain

theorem Routed.startTasks (routed : Routed (fun _ => False) state) (refs : List TaskRef)
    (retry : Nat) (uniform : UniformTasks config refs state retry) :
    Routed (fun _ => False) (startTasks config refs state retry) := by
  induction refs generalizing state retry with
  | nil => exact routed
  | cons ref refs ih => exact ih (routed.startTask retry ref uniform.1) _ uniform.2

theorem Routed.taskDestroy (routed : Routed spared state) (ref : TaskRef) :
    Routed spared (taskDestroy state ref) :=
  routed.quiet (frames_taskDestroy state ref)
    (sheds_taskDestroy state ref).flushes (sheds_taskDestroy state ref).queue

theorem Routed.cleanupTask (routed : Routed spared state) (ref : TaskRef) :
    Routed spared (cleanupTask state ref) := by
  unfold Engine.cleanupTask
  split
  · exact routed
  · split
    · exact routed.taskDestroy ref
    · exact routed

theorem Routed.engineDispatch (routed : Routed (fun _ => False) state)
    (numbered : Numbered state) (input : InId)
    (created : List (NewTask Out))
    (uniform : UniformTasks config ((created.foldl (Engine.taskCreate · input ·) state).tasks input)
      (created.foldl (Engine.taskCreate · input ·) state) 0) :
    Routed (fun _ => False) (engineDispatch config state input created) := by
  have made : Numbered (created.foldl (Engine.taskCreate · input ·) state) ∧
      Routed (fun _ => False) (created.foldl (Engine.taskCreate · input ·) state) :=
    List.foldlRecOn (motive := fun current => Numbered current ∧ Routed (fun _ => False) current)
      created _ ⟨numbered, routed⟩
      fun _ kept new _ =>
        ⟨kept.1.taskCreate input new, kept.2.taskCreate kept.1 input new⟩
  exact List.foldlRecOn _ Engine.cleanupTask
    (made.2.startTasks _ 0 uniform) fun _ kept ref _ => kept.cleanupTask ref

section
variable (routed : Routed spared state)
include routed

theorem Routed.taskRetryCreate (running : Running state ref) (out : Out) (alloc : Bool) :
    Routed spared (taskRetryCreate config state ref out alloc).1 ∧
      Running (taskRetryCreate config state ref out alloc).1 ref := by
  refine @taskRetryCreate_keeps _ _ _ _ (fun next => Routed spared next ∧ Running next ref) _
    ⟨routed, running⟩ ?_ ?_ out alloc
  · exact fun _ _ => ⟨routed.taskRetryDestroy _, running.frames (frames_taskRetryDestroy state _)⟩
  · intro next change _
    have frames : Frames state { state with next := next } :=
      Frames.of_eq rfl rfl (.refl _)
    have active := running.frames frames
    refine ⟨(routed.quiet frames rfl rfl).modifyRunning (fun _ => id) (.inr active)
      fun task live => ⟨rfl, rfl, active task live⟩, ?_⟩
    intro task live
    rw [modifyTask_task_self] at live
    obtain ⟨old, oldLive, rfl⟩ := Option.map_eq_some_iff.mp live
    exact active old oldLive

theorem Routed.finishRoute (ref : TaskRef) (out : Out) :
    Routed spared (finishRoute state ref out) :=
  routed.quiet (((frames_taskRetryClean state ref out).trans
      (frames_taskUsersDec _ ref)).trans (frames_taskUsersRelease _ ref))
    (quiet_finishRoute state ref out).flushes (quiet_finishRoute state ref out).queue

theorem Routed.taskUsersRelease (ref : TaskRef) : Routed spared (taskUsersRelease state ref) :=
  routed.quiet (frames_taskUsersRelease state ref) (sheds_taskUsersRelease state ref).flushes
    (sheds_taskUsersRelease state ref).queue

theorem Routed.handleOutputEvent (running : Running state ref)
    (out : Out) (ret : Ret) (env : OutputEnv) :
    Routed spared (handleOutputEvent config state ref out ret env) := by
  refine @handleOutputEvent_leaves _ _ _ _ _ (fun state => Routed spared state ∧ Running state ref)
    _ _ _ _
    ⟨flushNextIf_keeps _ routed ((routed_queueClosed spared out).outputTaskSingleplexFlushNext
      routed), running.frames (flushNextIf_keeps _ (Frames.refl state)
      ((frames_queueClosed state out).outputTaskSingleplexFlushNext (Frames.refl state)))⟩
    ?_ ?_ ?_ ?_
  · exact fun kept => kept.1.taskRetryCreate kept.2 out env.alloc
  · exact fun kept => kept.1.finishRoute ref out
  · exact fun kept => (kept.1.taskUsersDec ref).schedRequestCreate _ _ _
  · exact fun kept => ((kept.1.taskUsersDec ref).taskRetryDestroy _).taskUsersRelease ref

theorem Routed.schedRequestTimer {request : Request Out}
    (running : Running state request.data.parent) (env : RetryEnv) :
    Routed spared (schedRequestTimer config state request env) := by
  have closed : RouteClosed request.data.parent fun current : State Out =>
      Frames state current ∧ Routed spared current :=
    routed_routeClosed running
  exact schedRequestTimer_keeps routed (routed.schedRequestCreate request.data env.now env.backoff)
    (fun routed => routed.taskRetryDestroy _) (fun routed => routed.taskUsersRelease _)
    (fun _ => (closed.outputTaskSingleplexEnqueue ⟨Frames.refl state, routed⟩ _ _).2)
    (fun _ => (closed.outputTaskFlushDirect ⟨Frames.refl state, routed⟩ _).2)
    (fun routed => routed.quiet (Frames.of_eq rfl rfl (.refl _)) rfl rfl)

end

theorem routed_step {next : State Out} {event : Event Out}
    (kept : Numbered state ∧ Routed (fun _ => False) state)
    (uniform : UniformRounds config state event) (taken : step config state event = some next) :
    Numbered next ∧ Routed (fun _ => False) next := by
  refine ⟨numbered_step kept.1 taken, ?_⟩
  obtain ⟨numbered, routed⟩ := kept
  have same : ∀ {after : State Out}, after.task = state.task →
      after.tasks = state.tasks → after.handed = state.handed →
      after.flushes = state.flushes → after.queue = state.queue →
        Routed (fun _ => False) after := fun task tasks handed =>
    routed.quiet (Frames.of_eq task tasks (handed ▸ .refl _))
  have routes : ∀ ref out status, Routed (fun _ => False)
      (taskSetRouteStatus state ref out status) := by
    intro ref out status
    have frames : Frames state (taskSetRouteStatus state ref out status) := by
      refine frames_modifyTask state ref fun task => ?_
      refine ⟨rfl, rfl, ?_, .refl _⟩
      have outs : ((task.routes.map fun route =>
          if route.out = out then { route with status := status }
          else route).map (·.out)) = task.outs := by
        rw [map_map]
        refine map_congr_left fun route _ => ?_
        simp only [Function.comp_apply]
        split <;> rfl
      exact outs ▸ .refl _
    exact routed.quiet frames rfl rfl
  cases step_result taken with
  | dispatch input created script =>
    have loaded : Routed (fun _ => False) (state.load script) := same rfl rfl rfl rfl rfl
    exact loaded.engineDispatch { numbered with } input created uniform
  | workerStart flush created member phase =>
    unfold workerStart
    split
    · exact routed.setPhase _ _
    · exact routed.removeFlush _
  | resume flush task member phase live =>
    unfold resumeFlush
    split
    · exact (routes _ _ _).setPhase _ _
    · exact routes _ _ _
  | outputReturn flush ret member phase => exact (routes _ _ _).setPhase _ _
  | outputEvent flush ret task env starts member phase live =>
    have loaded : Routed (fun _ => False) (state.load { starts := starts, allocs := [] }) :=
      same rfl rfl rfl rfl rfl
    exact (loaded.removeFlush flush.id).handleOutputEvent
      (routed.flushes flush member) flush.out ret env
  | retryTimer request task env script member live linked =>
    have loaded : Routed (fun _ => False) (state.load script) := same rfl rfl rfl rfl rfl
    refine loaded.schedRequestTimer ?_ env
    intro other otherLive
    obtain ⟨retry, listed, _⟩ := linked
    refine routed.retried otherLive fun none => ?_
    rw [show state.task request.data.parent = some other from otherLive] at live
    cases live
    simp [none] at listed
  | frameTimer now timers => exact same rfl rfl rfl rfl rfl
  | rescheduleRetries now timers =>
    obtain ⟨_, frames⟩ := engineRescheduleRetries_keeps config
      (fun current _ => Frames state current) now
      (fun data kept => kept.trans (by
        unfold schedRetryNow schedRequestInvalidate
        split <;> split <;> exact Frames.of_eq rfl rfl (.refl _)))
      timers (Frames.refl state)
    have quiet : Quiet state (engineRescheduleRetries config state now timers) :=
      quiet_engineRescheduleRetries state now timers
    exact routed.quiet frames quiet.flushes quiet.queue
  | dropRoute ref out task live inUse =>
    exact (routes ref out .dropped).quiet (Frames.of_eq rfl rfl (.refl _)) rfl rfl
  | releaseChunk ref task live unused => exact routed.taskDestroy ref

end

section
variable {before : State Out}

theorem Survives.taskRetryDestroy (survives : Survives ref before state) (retry : RetryRef Out) :
    Survives ref before (taskRetryDestroy state retry) := by
  have invalidated : Survives ref before (schedRequestInvalidate state retry) :=
    survives.of_task (by unfold schedRequestInvalidate; split <;> rfl)
  exact invalidated.modifyTask _ _

theorem Survives.taskUsersRelease (survives : Survives ref before state) :
    Survives ref before (taskUsersRelease state ref) := by
  unfold Engine.taskUsersRelease
  split
  · exact survives
  · split
    · unfold taskDestroy
      split
      · exact survives
      · next task _ =>
        have destroyed : Survives ref before (task.retries.foldl
          (fun state retry => Engine.taskRetryDestroy state retry.ref) state) :=
          List.foldlRecOn task.retries _ survives
          fun _ kept retry _ => kept.taskRetryDestroy retry.ref
        intro other different live
        simpa [different] using destroyed other different live
    · exact survives

theorem survives_routeClosed (before : State Out) (ref handed : TaskRef) :
    RouteClosed handed (Survives ref before) :=
  { queue := fun out =>
      { ended := fun survives =>
          survives.of_task (endInProgress_task _ out)
        begun := fun _ survives =>
          ((survives.modifyTask _ _).modifyTask _ _).of_task rfl
        taken := fun _ survives => (survives.modifyTask _ _).of_task rfl
        destroyed := fun survives => survives.taskRetryDestroy _
        read := fun survives => survives.of_task rfl }
    handed := fun survives => survives.of_task rfl
    begun := fun survives => (survives.modifyTask _ _).of_task rfl
    entered := fun _ survives => (survives.modifyTask _ _).of_task rfl
    pushed := fun _ survives => (survives.modifyTask _ _).of_task rfl }

theorem Survives.finishRoute (survives : Survives ref before state) (out : Out) :
    Survives ref before (finishRoute state ref out) := by
  have cleaned : Survives ref before (taskRetryClean state ref out) := by
    unfold taskRetryClean
    split
    · exact survives
    · split
      · exact survives
      · exact survives.taskRetryDestroy _
  have left : Survives ref before (taskUsersDec (taskRetryClean state ref out) ref) :=
    cleaned.modifyTask _ _
  exact left.taskUsersRelease

theorem Survives.taskRetryCreate (survives : Survives ref before state) (out : Out) (alloc : Bool) :
    Survives ref before (taskRetryCreate config state ref out alloc).1 := by
  apply taskRetryCreate_keeps survives
  · exact fun _ _ => survives.taskRetryDestroy _
  · intro next change _
    have numbered : Survives ref before { state with next := next } := survives.of_task rfl
    exact numbered.modifyTask _ _

theorem survives_handleOutputEvent (config : Config Out) (state : State Out)
    (ref : TaskRef) (out : Out) (ret : Ret) (env : OutputEnv) :
    Survives ref state (handleOutputEvent config state ref out ret env) := by
  have start : Survives ref state state := fun _ _ live => live
  apply handleOutputEvent_leaves (flushNextIf_keeps (Survives ref state) start
    (((survives_routeClosed state ref ref).queue out).outputTaskSingleplexFlushNext start))
  · exact fun survives => survives.taskRetryCreate out env.alloc
  · exact fun survives => survives.finishRoute out
  · exact fun survives => (survives.modifyTask _ _).schedRequestCreate _ _ _
  · exact fun survives => ((survives.modifyTask _ _).taskRetryDestroy _).taskUsersRelease

theorem survives_schedRequestTimer (config : Config Out)
    (state : State Out) (request : Request Out) (env : RetryEnv) :
    Survives request.data.parent state (schedRequestTimer config state request env) := by
  have start : Survives request.data.parent state state := fun _ _ live => live
  have closed := survives_routeClosed state request.data.parent request.data.parent
  exact schedRequestTimer_keeps start (start.schedRequestCreate _ _ _)
    (fun survives => survives.taskRetryDestroy _) (fun survives => survives.taskUsersRelease)
    (fun _ => closed.outputTaskSingleplexEnqueue start _ _)
    (fun _ => closed.outputTaskFlushDirect start _)
    (fun survives => survives.of_task rfl)

end

def Event.completes : Event Out → Bool
  | .outputEvent _ _ _ | .retryTimer _ _ _ => true
  | _ => false

theorem Routed.running_of_destroyed {next : State Out} {event : Event Out}
    (routed : Routed (fun _ => False) state) (completes : event.completes = true)
    (taken : step config state event = some next) {task : Task Out}
    (live : state.task ref = some task) (destroyed : next.task ref = none) :
    task.status = .running := by
  cases step_result taken with
  | outputEvent flush ret other env starts member phase otherLive =>
    by_cases same : ref = flush.task
    · subst same
      exact routed.flushes flush member task live
    · have survives := survives_handleOutputEvent config
        ((state.load { starts := starts, allocs := [] }).removeFlush
          flush.id) flush.task flush.out ret env ref same
      rw [destroyed] at survives
      exact absurd (survives (Option.isSome_iff_exists.mpr ⟨task, live⟩)) (by simp)
  | retryTimer request other env script member otherLive linked =>
    by_cases same : ref = request.data.parent
    · subst same
      rw [live] at otherLive
      cases otherLive
      obtain ⟨retry, listed, _⟩ := linked
      exact routed.retried live (ne_nil_of_mem listed)
    · have survives := survives_schedRequestTimer config (state.load script) request env ref same
      rw [destroyed] at survives
      exact absurd (survives (Option.isSome_iff_exists.mpr ⟨task, live⟩)) (by simp)
  | dispatch | workerStart | resume => cases completes
  | outputReturn | frameTimer | rescheduleRetries | dropRoute | releaseChunk => cases completes

/-- In every run with uniform rounds a completion destroys a task only after
all its routes were handed over, and a route that was not handed over belongs
to a new task, which the next round of its input meets. -/
theorem routes_handed_before_destruction (config : Config Out) {state : State Out}
    (reached : Run.Reaches (step config) (UniformRounds config) State.initial state) :
    (∀ event next, event.completes = true → step config state event = some next →
      ∀ ref task, state.task ref = some task → next.task ref = none →
        ∀ out ∈ task.outs, (ref, out) ∈ state.handed) ∧
    ∀ ref task, state.task ref = some task →
      ∀ out ∈ task.outs, (ref, out) ∉ state.handed →
        task.status = .new ∧ ref ∈ state.tasks task.iIns := by
  have kept : Numbered state ∧ Routed (fun _ => False) state :=
    reached.invariant ⟨numbered_initial, routed_initial⟩ routed_step
  obtain ⟨_, routed⟩ := kept
  refine ⟨?_, ?_⟩
  · intro event next completes taken ref task live destroyed
    exact routed.handed live (routed.running_of_destroyed completes taken live destroyed) id
  · intro ref task live out member missing
    refine ⟨?_, routed.listed live⟩
    cases status : task.status with
    | new => rfl
    | running => exact absurd (routed.handed live status id out member) missing

/-- The only route of the task was handed over when its flush, which has
returned, destroys it. -/
theorem routes_handed_before_destruction_one_route :
    ∃ state next : State Unit,
      Run.runGuarded (step synchronousOutput) (UniformRounds synchronousOutput) State.initial
        [.dispatch 0 [routedTask] { starts := [], allocs := [] },
          .outputReturn 2 .ok] = some state ∧
      step synchronousOutput state (.outputEvent 2
        { alloc := true, now := 0, backoff := some 0 } []) = some next ∧
      next.task 0 = none ∧
      ∃ task, state.task 0 = some task ∧ task.outs = [()] ∧
        ∀ out ∈ task.outs, (0, out) ∈ state.handed := by
  obtain ⟨state, next, task, taken, completed, destroyed, live, outs⟩ :
      ∃ (state next : State Unit) (task : Task Unit),
        Run.runGuarded (step synchronousOutput) (UniformRounds synchronousOutput) State.initial
          [.dispatch 0 [routedTask] { starts := [], allocs := [] },
            .outputReturn 2 .ok] = some state ∧
        step synchronousOutput state (.outputEvent 2
          { alloc := true, now := 0, backoff := some 0 } []) = some next ∧
        next.task 0 = none ∧ state.task 0 = some task ∧
        task.outs = [()] := ⟨_, _, _, rfl, rfl, rfl, rfl, rfl⟩
  have handed := (routes_handed_before_destruction synchronousOutput
    (Run.Reaches.refl.of_runGuarded taken)).1 _ next rfl completed 0 task live destroyed
  exact ⟨state, next, taken, completed, destroyed, task, live, outs, handed⟩

def mixedOutputs : Config Bool :=
  { inputs := [0]
    output := fun out =>
      { synchronous := false
        noMultiplex := !out
        isThreaded := false
        testMode := false
        retryLimit := 1 } }

/-- A task for both outputs is dispatched while the first is busy, and its
flush by the second output returns. -/
def skippedRoute : List (Event Bool) :=
  [.dispatch 0 [{ routes := [false], nodup := by decide,
                  nonempty := by decide }] { starts := [], allocs := [] },
    .dispatch 0 [{ routes := [false, true], nodup := by decide,
                   nonempty := by decide }] { starts := [], allocs := [] },
    .outputReturn 3 .ok]

/-- The completion then destroys the task, though its route to the first
output was skipped and never handed over. -/
theorem tasksStart_loses_route :
    ∃ (state next : State Bool) (task : Task Bool),
      Run.run (step mixedOutputs) State.initial skippedRoute = some state ∧
      step mixedOutputs state (.outputEvent 3
        { alloc := true, now := 0, backoff := some 0 } []) = some next ∧
      state.task 2 = some task ∧ false ∈ task.outs ∧
      next.task 2 = none ∧ (2, false) ∉ next.handed ∧
      next.dropped = [] :=
  ⟨_, _, _, rfl, rfl, rfl, by decide, rfl, by decide, rfl⟩

end FluentBit.Engine
