import FluentBit.Engine.Queue

/-!
# Routes of tasks

A running task has handed every route it still has to the output.  A new task
has handed none that was skipped, has no flush in flight and no entry waiting,
and stays listed at its input, where the next round meets it again.  The status
of a task is one flag for all its routes, so this needs rounds in which the
routes of a task are all skipped or all started.
-/

namespace FluentBit.Engine

open List Function Option

variable {Out : Type} {ref : TaskRef}

def Task.outs (task : Task Out) : List Out := task.routes.map (·.out)

/-- A task with the status it had, that may have lost routes and retries. -/
structure TaskFrames (before after : Task Out) : Prop where
  iIns : after.iIns = before.iIns
  status : after.status = before.status
  outs : after.outs.Sublist before.outs
  retries : after.retries.Sublist before.retries

theorem TaskFrames.refl (task : Task Out) : TaskFrames task task :=
  ⟨rfl, rfl, .refl _, .refl _⟩

theorem TaskFrames.trans {before middle after : Task Out} (first : TaskFrames before middle)
    (second : TaskFrames middle after) : TaskFrames before after :=
  ⟨second.iIns.trans first.iIns, second.status.trans first.status,
    second.outs.trans first.outs, second.retries.trans first.retries⟩

/-- No task appears, what was handed over is remembered, and the tasks that
stay are listed as before. -/
structure Frames (before after : State Out) : Prop where
  tasks : ∀ {ref task}, after.task ref = some task →
    ∃ old, before.task ref = some old ∧ TaskFrames old task
  lists : ∀ {input ref}, ref ∈ before.tasks input →
    (after.task ref).isSome → ref ∈ after.tasks input
  handed : before.handed ⊆ after.handed

section
variable {before middle after : State Out}

theorem Frames.refl (state : State Out) : Frames state state :=
  ⟨fun live => ⟨_, live, TaskFrames.refl _⟩, fun member _ => member, .refl _⟩

theorem Frames.trans (first : Frames before middle) (second : Frames middle after) :
    Frames before after :=
  { tasks := by
      intro ref task live
      obtain ⟨kept, keptLive, frame⟩ := second.tasks live
      obtain ⟨old, oldLive, earlier⟩ := first.tasks keptLive
      exact ⟨old, oldLive, earlier.trans frame⟩
    lists := by
      intro input ref member live
      refine second.lists (first.lists member ?_) live
      obtain ⟨task, afterLive⟩ := isSome_iff_exists.mp live
      obtain ⟨kept, keptLive, _⟩ := second.tasks afterLive
      simp [keptLive]
    handed := List.Subset.trans first.handed second.handed }

theorem Frames.of_eq (task : after.task = before.task) (tasks : after.tasks = before.tasks)
    (handed : before.handed ⊆ after.handed) : Frames before after :=
  { tasks := by
      intro ref kept live
      rw [task] at live
      exact ⟨kept, live, TaskFrames.refl kept⟩
    lists := by
      intro input ref member _
      rw [tasks]
      exact member
    handed := handed }

section
variable (state : State Out) (ref : TaskRef)

theorem frames_modifyTask {change : Task Out → Task Out}
    (kept : ∀ task, TaskFrames task (change task)) : Frames state (state.modifyTask ref change) :=
  { tasks := by
      intro other task live
      rcases modifyTask_eq_some live with ⟨old, rfl, oldLive, rfl⟩ | ⟨_, live⟩
      · exact ⟨old, oldLive, kept old⟩
      · exact ⟨task, live, TaskFrames.refl task⟩
    lists := fun member _ => member
    handed := .refl _ }

theorem frames_taskUsersInc : Frames state (taskUsersInc state ref) := by
  refine frames_modifyTask state ref fun task => ?_
  exact ⟨rfl, rfl, .refl _, .refl _⟩

theorem frames_taskUsersDec : Frames state (taskUsersDec state ref) := by
  refine frames_modifyTask state ref fun task => ?_
  exact ⟨rfl, rfl, .refl _, .refl _⟩

theorem frames_startFlush (out : Out) (entry : Option Nat) (phase : Phase) :
    Frames state (startFlush (handOver state ref out) ref out entry phase) := by
  refine (frames_taskUsersInc state ref).trans (Frames.of_eq rfl rfl ?_)
  exact subset_append_left _ _

end

theorem Sheds.taskFrames {before after : State Out} (sheds : Sheds before after)
    {task : Task Out} (live : after.task ref = some task) :
    ∃ old, before.task ref = some old ∧ TaskFrames old task := by
  obtain ⟨old, oldLive, shed⟩ := sheds.tasks live
  exact ⟨old, oldLive, shed.iIns, shed.status,
    by rw [Task.outs, shed.routes]; exact .refl _,
    shed.retries⟩

theorem Sheds.frames {before after : State Out} (sheds : Sheds before after)
    (lists : ∀ {input ref}, ref ∈ before.tasks input →
      (after.task ref).isSome → ref ∈ after.tasks input) :
    Frames before after :=
  { tasks := fun live => sheds.taskFrames live
    lists := lists
    handed := by
      rw [sheds.handed]
      exact .refl _ }

theorem frames_schedRequestCreate (state : State Out) (data : RetryRef Out) (now : Nat)
    (backoff : Option Nat) : Frames state (schedRequestCreate state data now backoff).1 := by
  unfold schedRequestCreate
  split
  · exact Frames.refl state
  · dsimp only
    split <;> exact Frames.of_eq rfl rfl (.refl _)

theorem frames_enterQueue (state : State Out) (ref : TaskRef) (out : Out) :
    Frames state (enterQueue state ref out) :=
  (frames_taskUsersInc state ref).trans (Frames.of_eq rfl rfl (subset_append_left _ _))

/-- A new task that was not hit is as before, up to the routes of test
outputs. -/
theorem frames_setNew {state after : State Out} {task : Task Out}
    (live : state.task ref = some task) (new : task.status = .new)
    (frames : Frames (setStatus state ref .running) after) :
    Frames state (setStatus after ref .new) :=
  { tasks := by
      intro other kept keptLive
      rw [setStatus, modifyTask_task] at keptLive
      split at keptLive
      · next same =>
        subst other
        obtain ⟨routed, routedLive, rfl⟩ := map_eq_some_iff.mp keptLive
        obtain ⟨old, oldLive, frame⟩ := frames.tasks routedLive
        rw [setStatus, modifyTask_task_self, live] at oldLive
        cases oldLive
        exact ⟨task, live, frame.iIns, new.symm, frame.outs, frame.retries⟩
      · next different =>
        obtain ⟨old, oldLive, frame⟩ := frames.tasks keptLive
        rw [setStatus, modifyTask_task_of_ne _ _ _ different] at oldLive
        exact ⟨old, oldLive, frame⟩
    lists := by
      intro input other member alive
      refine frames.lists member ?_
      obtain ⟨kept, keptLive⟩ := isSome_iff_exists.mp alive
      rw [setStatus, modifyTask_task] at keptLive
      split at keptLive
      · next same =>
        subst other
        obtain ⟨old, oldLive, _⟩ := map_eq_some_iff.mp keptLive
        simp [oldLive]
      · simp [keptLive]
    handed := frames.handed }

theorem frames_removeRoute [DecidableEq Out] (state : State Out) (ref : TaskRef) (out : Out) :
    Frames state (removeRoute state ref out) := by
  refine frames_modifyTask state ref fun task => ?_
  exact ⟨rfl, rfl, filter_sublist.map _, .refl _⟩

end

def Running (state : State Out) (ref : TaskRef) : Prop :=
  ∀ task, state.task ref = some task → task.status = .running

theorem running_setStatus (state : State Out) (ref : TaskRef) :
    Running (setStatus state ref .running) ref := by
  intro task live
  rw [setStatus, modifyTask_task_self] at live
  obtain ⟨old, _, rfl⟩ := map_eq_some_iff.mp live
  rfl

theorem Running.frames {state after : State Out} (running : Running state ref)
    (frames : Frames state after) : Running after ref := by
  intro task live
  obtain ⟨old, oldLive, frame⟩ := frames.tasks live
  exact frame.status.trans (running old oldLive)

/-- Running tasks have handed over all their routes, besides those that are
spared; what is in flight or waits or is retried belongs to a running task. -/
structure Routed (spared : TaskRef → Prop) (state : State Out) : Prop where
  listed : ∀ {ref task}, state.task ref = some task → ref ∈ state.tasks task.iIns
  distinct : ∀ {ref task}, state.task ref = some task → task.outs.Nodup
  handed : ∀ {ref task}, state.task ref = some task →
    task.status = .running → ¬ spared ref → ∀ out ∈ task.outs, (ref, out) ∈ state.handed
  retried : ∀ {ref task}, state.task ref = some task → task.retries ≠ [] → task.status = .running
  flushes : ∀ flush ∈ state.flushes, Running state flush.task
  pending : ∀ out, ∀ entry ∈ (state.queue out).pending, Running state entry.task

theorem routed_initial : Routed (fun _ => False) (State.initial : State Out) := by
  constructor <;> simp [State.initial]

section
variable {spared : TaskRef → Prop} {state after : State Out}

section
variable (routed : Routed spared state)
include routed

theorem Routed.change (frames : Frames state after)
    (flushes : ∀ flush ∈ after.flushes, Running state flush.task)
    (pending : ∀ out, ∀ entry ∈ (after.queue out).pending,
      Running state entry.task) : Routed spared after :=
  { listed := by
      intro ref task live
      obtain ⟨old, oldLive, frame⟩ := frames.tasks live
      rw [frame.iIns]
      exact frames.lists (routed.listed oldLive) (by simp [live])
    distinct := by
      intro ref task live
      obtain ⟨old, oldLive, frame⟩ := frames.tasks live
      exact (routed.distinct oldLive).sublist frame.outs
    handed := by
      intro ref task live running present out member
      obtain ⟨old, oldLive, frame⟩ := frames.tasks live
      exact frames.handed (routed.handed oldLive (frame.status.symm.trans running) present out
        (frame.outs.subset member))
    retried := by
      intro ref task live some
      obtain ⟨old, oldLive, frame⟩ := frames.tasks live
      rw [frame.status]
      refine routed.retried oldLive fun none => some ?_
      exact eq_nil_of_sublist_nil (none ▸ frame.retries)
    flushes := fun flush member => (flushes flush member).frames frames
    pending := fun out entry member =>
      (pending out entry member).frames frames }

theorem Routed.frames (frames : Frames state after)
    (flushes : ∀ flush ∈ after.flushes, ∃ old ∈ state.flushes, old.task = flush.task)
    (pending : ∀ out, ∀ entry ∈ (after.queue out).pending,
      entry ∈ (state.queue out).pending) : Routed spared after := by
  refine routed.change frames ?_ ?_
  · intro flush member
    obtain ⟨old, oldMember, same⟩ := flushes flush member
    rw [← same]
    exact routed.flushes old oldMember
  · intro out entry member
    exact routed.pending out entry (pending out entry member)

theorem Routed.quiet (frames : Frames state after)
    (flushes : after.flushes = state.flushes) (queue : after.queue = state.queue) :
    Routed spared after :=
  routed.frames frames (fun flush member => ⟨flush, flushes ▸ member, rfl⟩)
    (fun _ _ member => queue ▸ member)

theorem Routed.startFlush
    (running : Running state ref) (out : Out) (entry : Option Nat) (phase : Phase) :
    Routed spared (startFlush (handOver state ref out) ref out entry phase) := by
  refine routed.change (frames_startFlush state ref out entry phase) ?_ routed.pending
  intro flush member
  rcases mem_append.mp member with old | new
  · exact routed.flushes flush old
  · rw [mem_singleton.mp new]
    exact running

theorem Routed.removeFlush (id : Nat) : Routed spared (state.removeFlush id) :=
  routed.frames (Frames.of_eq rfl rfl (.refl _))
    (fun flush member => ⟨flush, mem_of_mem_filter member, rfl⟩)
    (fun _ _ member => member)

theorem Routed.setPhase (id : Nat) (phase : Phase) : Routed spared (state.setPhase id phase) := by
  refine routed.frames (Frames.of_eq rfl rfl (.refl _)) ?_ (fun _ _ member => member)
  intro flush member
  obtain ⟨old, oldMember, rfl⟩ := mem_map.mp member
  refine ⟨old, oldMember, ?_⟩
  split <;> rfl

theorem Routed.taskCreate (numbered : Numbered state) (input : InId)
    (created : NewTask Out) : Routed spared (taskCreate state input created) := by
  have tasks : ∀ {ref : TaskRef} {task : Task Out},
      (Engine.taskCreate state input created).task ref = some task →
        (ref = state.next ∧ task.iIns = input ∧ task.status = .new ∧
          task.outs = created.routes ∧ task.retries = []) ∨
        (ref ≠ state.next ∧ state.task ref = some task) := by
    intro ref task live
    by_cases new : ref = state.next
    · subst ref
      simp only [Engine.taskCreate, update_self, some.injEq] at live
      subst live
      exact .inl ⟨rfl, rfl, rfl, by simp [Task.outs, comp_def], rfl⟩
    · exact .inr ⟨new, by simpa [Engine.taskCreate, new] using live⟩
  have older : ∀ {ref : TaskRef}, ref < state.next → Running state ref →
      Running (Engine.taskCreate state input created) ref := by
    intro ref known running task live
    rcases tasks live with ⟨rfl, _⟩ | ⟨_, old⟩
    · exact absurd known (Nat.lt_irrefl _)
    · exact running task old
  exact
    { listed := by
        intro ref task live
        rcases tasks live with ⟨rfl, rfl, _⟩ | ⟨_, old⟩
        · simp [Engine.taskCreate]
        · have member := routed.listed old
          by_cases same : task.iIns = input
          · rw [same] at member ⊢
            simp [Engine.taskCreate, member]
          · simpa [Engine.taskCreate, same] using member
      distinct := by
        intro ref task live
        rcases tasks live with ⟨_, _, _, outs, _⟩ | ⟨_, old⟩
        · rw [outs]
          exact created.nodup
        · exact routed.distinct old
      handed := by
        intro ref task live running
        rcases tasks live with ⟨_, _, status, _⟩ | ⟨_, old⟩
        · rw [status] at running
          cases running
        · exact routed.handed old running
      retried := by
        intro ref task live some
        rcases tasks live with ⟨_, _, _, _, none⟩ | ⟨_, old⟩
        · exact absurd none some
        · exact routed.retried old some
      flushes := fun flush member =>
        older (numbered.flushes flush member).2.1 (routed.flushes flush member)
      pending := fun out entry member =>
        older (numbered.pending out entry member).2 (routed.pending out entry member) }

end

theorem Routed.settle (routed : Routed (· = ref) state)
    (settled : ∀ task, state.task ref = some task →
      task.status = .running → ∀ out ∈ task.outs,
        (ref, out) ∈ state.handed) : Routed (fun _ => False) state :=
  { routed with
    handed := by
      intro other task live running _ out member
      by_cases same : other = ref
      · subst other
        exact settled task live running out member
      · exact routed.handed live running same out member }

variable (routed : Routed spared state)
include routed

/-- A task that is left running with the routes it had. -/
theorem Routed.modifyRunning {left : TaskRef → Prop} {change : Task Out → Task Out}
    (more : ∀ other, spared other → left other)
    (settled : left ref ∨ Running state ref)
    (kept : ∀ task, state.task ref = some task → (change task).iIns = task.iIns ∧
      (change task).outs = task.outs ∧ (change task).status = .running) :
    Routed left (state.modifyTask ref change) := by
  have tasks : ∀ {other : TaskRef} {task : Task Out},
      (state.modifyTask ref change).task other = some task →
        ∃ old, state.task other = some old ∧ task.iIns = old.iIns ∧ task.outs = old.outs ∧
          (other = ref ∧ task.status = .running ∨ task = old) := by
    intro other task live
    rcases modifyTask_eq_some live with ⟨old, rfl, oldLive, rfl⟩ | ⟨_, live⟩
    · obtain ⟨input, outs, status⟩ := kept old oldLive
      exact ⟨old, oldLive, input, outs, .inl ⟨rfl, status⟩⟩
    · exact ⟨task, live, rfl, rfl, .inr rfl⟩
  have stays : ∀ {other : TaskRef}, Running state other →
      Running (state.modifyTask ref change) other := by
    intro other before task live
    obtain ⟨old, oldLive, _, _, ⟨_, running⟩ | rfl⟩ := tasks live
    · exact running
    · exact before task oldLive
  exact
    { listed := by
        intro other task live
        obtain ⟨old, oldLive, input, _⟩ := tasks live
        rw [input]
        exact routed.listed oldLive
      distinct := by
        intro other task live
        obtain ⟨old, oldLive, _, outs, _⟩ := tasks live
        rw [outs]
        exact routed.distinct oldLive
      handed := by
        intro other task live status present out member
        obtain ⟨old, oldLive, _, outs, ⟨rfl, _⟩ | rfl⟩ := tasks live
        · rw [outs] at member
          exact routed.handed oldLive (settled.resolve_left present old oldLive)
            (fun before => present (more _ before)) out member
        · exact routed.handed oldLive status (fun before => present (more _ before)) out member
      retried := by
        intro other task live some
        obtain ⟨old, oldLive, _, _, ⟨_, running⟩ | rfl⟩ := tasks live
        · exact running
        · exact routed.retried oldLive some
      flushes := fun flush member => stays (routed.flushes flush member)
      pending := fun out entry member => stays (routed.pending out entry member) }

theorem Routed.schedRequestCreate (data : RetryRef Out) (now : Nat)
    (backoff : Option Nat) : Routed spared (schedRequestCreate state data now backoff).1 :=
  routed.quiet (frames_schedRequestCreate state data now backoff)
    (quiet_schedRequestCreate state data now backoff).flushes
    (quiet_schedRequestCreate state data now backoff).queue

theorem Routed.taskUsersDec (ref : TaskRef) :
    Routed spared (taskUsersDec state ref) :=
  routed.quiet (frames_taskUsersDec state ref) rfl rfl

end

variable [DecidableEq Out] {config : Config Out}
  {spared : TaskRef → Prop} {state : State Out}

section
variable (state : State Out)

theorem taskRetryDestroy_tasks (retry : RetryRef Out) :
    (taskRetryDestroy state retry).tasks = state.tasks := by
  unfold taskRetryDestroy schedRequestInvalidate
  split <;> rfl

theorem frames_taskRetryDestroy (retry : RetryRef Out) :
    Frames state (taskRetryDestroy state retry) :=
  (sheds_taskRetryDestroy state retry).frames fun member _ => by
    rw [taskRetryDestroy_tasks]
    exact member

theorem frames_taskDestroy (ref : TaskRef) : Frames state (taskDestroy state ref) := by
  refine (sheds_taskDestroy state ref).frames ?_
  intro input other member live
  have different : other ≠ ref := by
    rintro rfl
    rw [taskDestroy_task_self] at live
    cases live
  unfold taskDestroy
  split
  · exact member
  · next task _ =>
    have lists : (task.retries.foldl (fun state retry => taskRetryDestroy state retry.ref)
        state).tasks = state.tasks :=
      List.foldlRecOn (motive := fun current : State Out =>
        current.tasks = state.tasks) task.retries _ rfl
        fun current same retry _ =>
          (taskRetryDestroy_tasks current retry.ref).trans same
    dsimp only
    rw [lists]
    by_cases same : input = task.iIns
    · subst input
      rw [update_self]
      exact (mem_erase_of_ne different).mpr member
    · rw [update_of_ne same]
      exact member

theorem frames_taskUsersRelease (ref : TaskRef) : Frames state (taskUsersRelease state ref) := by
  unfold taskUsersRelease
  split
  · exact Frames.refl state
  · split
    · exact frames_taskDestroy state ref
    · exact Frames.refl state

theorem frames_taskRetryClean (ref : TaskRef) (out : Out) :
    Frames state (taskRetryClean state ref out) := by
  unfold taskRetryClean
  split
  · exact Frames.refl state
  · split
    · exact Frames.refl state
    · exact frames_taskRetryDestroy state _

end

theorem Routed.taskRetryDestroy (routed : Routed spared state) (retry : RetryRef Out) :
    Routed spared (taskRetryDestroy state retry) :=
  routed.quiet (frames_taskRetryDestroy state retry) (sheds_taskRetryDestroy state retry).flushes
    (sheds_taskRetryDestroy state retry).queue

theorem frames_takeEntry (state : State Out) (out : Out) (entry : Enqueued Out)
    (pending : List (Enqueued Out)) : Frames state (takeEntry state out entry pending) := by
  have queued : Frames state (state.setQueue out
      { pending := pending
        inProgress := (state.queue out).inProgress ++ [entry] }) :=
    Frames.of_eq rfl rfl (.refl _)
  exact (queued.trans (frames_taskUsersDec _ entry.task)).trans
    (Frames.of_eq rfl rfl (subset_append_left _ _))

theorem Routed.takeEntry (routed : Routed spared state) {out : Out} {entry : Enqueued Out}
    {pending : List (Enqueued Out)} (front : (state.queue out).pending = entry :: pending) :
    Routed spared (takeEntry state out entry pending) := by
  refine routed.frames (frames_takeEntry state out entry pending)
    (fun flush member => ⟨flush, member, rfl⟩) ?_
  intro other waiting member
  by_cases same : other = out
  · subst other
    rw [takeEntry_queue_self] at member
    rw [front]
    exact mem_cons_of_mem _ member
  · rw [takeEntry_queue_of_ne _ _ same] at member
    exact member

theorem frames_endInProgress (state : State Out) (out : Out) :
    Frames state (endInProgress state out) := by
  unfold endInProgress
  split
  · exact Frames.refl state
  · exact Frames.of_eq rfl rfl (.refl _)

theorem Routed.endInProgress (routed : Routed spared state) (out : Out) :
    Routed spared (endInProgress state out) := by
  refine routed.frames (frames_endInProgress state out)
    (fun flush member => ⟨flush, by simpa using member, rfl⟩) ?_
  intro other waiting member
  by_cases same : other = out
  · subst other
    simpa using member
  · rw [endInProgress_queue_of_ne _ _ same] at member
    exact member

theorem Routed.beginEntry (routed : Routed spared state) {out : Out} {entry : Enqueued Out}
    {pending : List (Enqueued Out)} (front : (state.queue out).pending = entry :: pending)
    (phase : Phase) : Routed spared (beginEntry state out entry pending phase) := by
  have taken := routed.takeEntry front
  have running : Running (Engine.takeEntry state out entry pending) entry.task :=
    (routed.pending out entry (by simp [front])).frames (frames_takeEntry state out entry pending)
  refine taken.change ?_ ?_ taken.pending
  · exact (frames_taskUsersInc _ entry.task).trans (Frames.of_eq rfl rfl (.refl _))
  · intro flush member
    rcases mem_append.mp member with old | new
    · exact taken.flushes flush old
    · rw [mem_singleton.mp new]
      exact running

theorem routed_queueClosed (spared : TaskRef → Prop) (out : Out) :
    QueueClosed out (Routed spared : State Out → Prop) :=
  { ended := fun routed => routed.endInProgress out
    begun := fun front routed => routed.beginEntry front _
    taken := fun front routed => routed.takeEntry front
    destroyed := fun routed => routed.taskRetryDestroy _
    read := fun routed => { routed with } }

theorem Routed.pushEntry (routed : Routed spared state)
    (running : Running state ref) (retry : Option (RetryRef Out)) (out : Out) :
    Routed spared (pushEntry state retry ref out) := by
  refine routed.change ?_ routed.flushes ?_
  · exact (frames_taskUsersInc state ref).trans (Frames.of_eq rfl rfl (subset_append_left _ _))
  · intro other waiting member
    by_cases same : other = out
    · subst other
      rw [pushEntry_queue_self] at member
      rcases mem_append.mp member with old | new
      · exact routed.pending _ waiting old
      · rw [mem_singleton.mp new]
        exact running
    · rw [pushEntry_queue_of_ne _ _ _ _ same] at member
      exact routed.pending other waiting member

theorem frames_beginEntry (state : State Out) (out : Out)
    (entry : Enqueued Out) (pending : List (Enqueued Out)) (phase : Phase) :
    Frames state (beginEntry state out entry pending phase) :=
  (frames_takeEntry state out entry pending).trans
    ((frames_taskUsersInc _ entry.task).trans (Frames.of_eq rfl rfl (.refl _)))

theorem frames_pushEntry (state : State Out) (retry : Option (RetryRef Out)) (ref : TaskRef)
    (out : Out) : Frames state (pushEntry state retry ref out) :=
  (frames_enterQueue state ref out).trans (Frames.of_eq rfl rfl (.refl _))

theorem frames_queueClosed (before : State Out) (out : Out) : QueueClosed out (Frames before) :=
  { ended := fun frames => frames.trans (frames_endInProgress _ out)
    begun := fun _ frames => frames.trans (frames_beginEntry _ _ _ _ _)
    taken := fun _ frames => frames.trans (frames_takeEntry _ _ _ _)
    destroyed := fun frames => frames.trans (frames_taskRetryDestroy _ _)
    read := fun frames => { frames with } }

theorem routed_routeClosed {before : State Out} (running : Running before ref) :
    RouteClosed ref fun state : State Out =>
      Frames before state ∧ Routed spared state :=
  { queue := fun out =>
      have frames := frames_queueClosed before out
      have routed := routed_queueClosed spared out
      { ended := fun kept => ⟨frames.ended kept.1, routed.ended kept.2⟩
        begun := fun front kept =>
          ⟨frames.begun front kept.1, routed.begun front kept.2⟩
        taken := fun front kept =>
          ⟨frames.taken front kept.1, routed.taken front kept.2⟩
        destroyed := fun kept =>
          ⟨frames.destroyed kept.1, routed.destroyed kept.2⟩
        read := fun kept => ⟨frames.read kept.1, routed.read kept.2⟩ }
    handed := fun {state out} kept =>
      have handed : Frames state (handOver state ref out) :=
        Frames.of_eq rfl rfl (subset_append_left _ _)
      ⟨kept.1.trans handed, kept.2.quiet handed rfl rfl⟩
    begun := fun kept =>
      ⟨kept.1.trans (frames_startFlush _ _ _ _ _), kept.2.startFlush (running.frames kept.1) _ _ _⟩
    entered := fun _ kept =>
      ⟨kept.1.trans (frames_enterQueue _ _ _), kept.2.quiet (frames_enterQueue _ _ _) rfl rfl⟩
    pushed := fun _ kept =>
      ⟨kept.1.trans (frames_pushEntry _ _ _ _), kept.2.pushEntry (running.frames kept.1) _ _⟩ }

theorem mem_handed_enqueue (config : Config Out) (state : State Out)
    (retry : Option (RetryRef Out)) (ref : TaskRef) (out : Out) :
    (ref, out) ∈ (outputTaskSingleplexEnqueue config state retry ref out).1.handed := by
  have entered : (ref, out) ∈ (enterQueue state ref out).handed := by simp [enterQueue]
  have pushed : (ref, out) ∈ (pushEntry state retry ref out).handed := by
    simp [pushEntry, enterQueue, State.setQueue]
  obtain ⟨ended, returned, result⟩ := outputTaskSingleplexEnqueue_result config state retry ref out
  rw [returned]
  cases result with
  | allocFailed first =>
    have closed := frames_queueClosed (enterQueue state ref out) out
    exact (closed.destroyRetry (Frames.refl _) retry).handed entered
  | queued first busy => exact pushed
  | flushed first idle =>
    have closed := frames_queueClosed (pushEntry state retry ref out) out
    exact (closed.flushOne (fun _ => closed.outputTaskSingleplexFlushNext)
      (Frames.refl _)).handed pushed

theorem mem_handed_startRoute (config : Config Out) (state : State Out) (ref : TaskRef)
    (out : Out) : (ref, out) ∈ (startRoute config state ref out).handed := by
  unfold startRoute
  split
  · exact mem_handed_enqueue config state none ref out
  · have handed : (ref, out) ∈ (handOver state ref out).handed := by simp [handOver]
    have closed := frames_queueClosed (handOver state ref out) out
    have failed : (ref, out) ∈ (afterFailure config (outputTaskSingleplexFlushNext config)
      (handOver state ref out) out).handed := (afterFailure_keeps
      (fun _ => closed.outputTaskSingleplexFlushNext) (Frames.refl _)).handed handed
    obtain ⟨ended, returned, result⟩ := outputTaskFlushDirect_result config state ref out
    rw [returned]
    cases result with
    | started first | createFailed unthreaded first => exact handed
    | poolFailed threaded first | writeFailed unthreaded first => exact failed

end FluentBit.Engine
