import FluentBit.Engine.RouteView

/-!
# Stages of a route

Seen from one of its routes a task goes through stages: it is not started,
waits in a queue, is flushed, waits for a timer, or is spent.  The stage tells
how often the output has answered and whether the records were counted as
dropped.
-/

namespace FluentBit.Engine

open List Function

variable {Out : Type}

/-- The answers of a route, and how often its records were counted as
dropped. -/
structure Tally where
  answers : Nat
  dropped : Nat
deriving DecidableEq, Repr

def Phase.isReturned : Phase → Bool
  | .returned _ => true
  | _ => false

inductive Stage (Out : Type) where
  | unstarted
  | queued (retry : Option (TaskRetry Out))
  | flying (flush : Flush Out) (retry : Option (TaskRetry Out))
  | scheduled (retry : TaskRetry Out)
  | spent

def Stage.view : Stage Out → View Out
  | .unstarted | .spent =>
    { flights := [], waiting := 0, requests := 0, retries := [] }
  | .queued retry =>
    { flights := [], waiting := 1, requests := 0, retries := retry.toList }
  | .flying flush retry =>
    { flights := [flush], waiting := 0, requests := 0, retries := retry.toList }
  | .scheduled retry =>
    { flights := [], waiting := 0, requests := {retry.ref}, retries := [retry] }

/-- Something is still to be done in the stage. -/
def Stage.IsOpen : Stage Out → Prop
  | .unstarted | .spent => False
  | _ => True

def attemptsOf (retry : Option (TaskRetry Out)) : Nat := (retry.map TaskRetry.attempts).getD 0

/-- The tally of a route in a stage, for an output with a limit. -/
inductive Stage.Tallied (limit : Int) : Stage Out → Tally → Prop where
  | unstarted : Tallied limit .unstarted { answers := 0, dropped := 0 }
  | queued {retry : Option (TaskRetry Out)} (within : 0 ≤ limit → attemptsOf retry ≤ limit) :
      Tallied limit (.queued retry)
        { answers := attemptsOf retry, dropped := 0 }
  | busy {flush : Flush Out} {retry : Option (TaskRetry Out)}
      (phase : flush.phase.isReturned = false)
      (within : 0 ≤ limit → attemptsOf retry ≤ limit) :
      Tallied limit (.flying flush retry)
        { answers := attemptsOf retry, dropped := 0 }
  | answered {flush : Flush Out} {retry : Option (TaskRetry Out)}
      (phase : flush.phase = .returned .retry)
      (within : 0 ≤ limit → attemptsOf retry ≤ limit) :
      Tallied limit (.flying flush retry)
        { answers := attemptsOf retry + 1, dropped := 0 }
  | scheduled {retry : TaskRetry Out} (within : 0 ≤ limit → retry.attempts ≤ limit) :
      Tallied limit (.scheduled retry)
        { answers := retry.attempts, dropped := 0 }
  | spent {attempts : Nat} (reached : limit = attempts) :
      Tallied limit .spent { answers := attempts + 1, dropped := 1 }

/-- The moves between stages that no answer and no drop goes with. -/
inductive Stage.Advances : Stage Out → Stage Out → Prop where
  | refl {stage : Stage Out} : Advances stage stage
  | enters : Advances .unstarted (.queued none)
  | starts {flush : Flush Out} (phase : flush.phase.isReturned = false) :
      Advances .unstarted (.flying flush none)
  | leaves {flush : Flush Out} {retry : Option (TaskRetry Out)}
      (phase : flush.phase.isReturned = false) :
      Advances (.queued retry) (.flying flush retry)
  | returns {retry : TaskRetry Out} : Advances (.scheduled retry) (.queued (some retry))
  | restarts {flush : Flush Out} {retry : TaskRetry Out} (phase : flush.phase.isReturned = false) :
      Advances (.scheduled retry) (.flying flush (some retry))
  | goesOn {flush : Flush Out} {retry : Option (TaskRetry Out)}
      {phase : Phase} (before : flush.phase.isReturned = false)
      (after : phase.isReturned = false) :
      Advances (.flying flush retry) (.flying { flush with phase := phase } retry)

section
variable {limit : Int} {tally : Tally} {stage next : Stage Out}

theorem Stage.Tallied.advances (tallied : stage.Tallied limit tally)
    (advances : stage.Advances next) : next.Tallied limit tally := by
  cases advances with
  | refl => exact tallied
  | enters =>
    cases tallied
    exact .queued (fun limited => limited)
  | starts phase =>
    cases tallied
    exact .busy phase (fun limited => limited)
  | leaves phase =>
    cases tallied with
    | queued within => exact .busy phase within
  | returns =>
    cases tallied with
    | scheduled within => exact .queued within
  | restarts phase =>
    cases tallied with
    | scheduled within => exact .busy phase within
  | goesOn before after =>
    cases tallied with
    | busy _ within => exact .busy after within
    | answered returned _ =>
      rw [returned] at before
      cases before

end

section
variable {ref : TaskRef} {state after : State Out}

/-- The task, if it lives, has the status it had and no new routes. -/
structure Follows (ref : TaskRef) (before after : State Out) : Prop where
  later : before.next ≤ after.next
  task : ∀ task, after.task ref = some task →
    ∃ old, before.task ref = some old ∧ task.status = old.status ∧ task.outs.Sublist old.outs

theorem Follows.trans {middle : State Out} (first : Follows ref state middle)
    (second : Follows ref middle after) : Follows ref state after := by
  constructor
  · exact first.later.trans second.later
  · intro task live
    obtain ⟨kept, keptLive, status, outs⟩ := second.task task live
    obtain ⟨old, oldLive, oldStatus, oldOuts⟩ := first.task kept keptLive
    exact ⟨old, oldLive, status.trans oldStatus, outs.trans oldOuts⟩

theorem Frames.follows (frames : Frames state after) (later : state.next ≤ after.next) :
    Follows ref state after := by
  constructor
  · exact later
  · intro task live
    obtain ⟨old, oldLive, frame⟩ := frames.tasks live
    exact ⟨old, oldLive, frame.status, frame.outs⟩

/-- The task lives on, with the status it had and no new routes. -/
structure Passes (ref : TaskRef) (before after : State Out) : Prop extends
    Follows ref before after where
  live : (after.task ref).isSome = (before.task ref).isSome

theorem Passes.trans {middle : State Out} (first : Passes ref state middle)
    (second : Passes ref middle after) : Passes ref state after :=
  ⟨first.toFollows.trans second.toFollows, second.live.trans first.live⟩

theorem passes_of_task (later : state.next ≤ after.next) (kept : after.task ref = state.task ref) :
    Passes ref state after := by
  refine ⟨⟨later, ?_⟩, by rw [kept]⟩
  intro task live
  exact ⟨task, kept ▸ live, rfl, .refl _⟩

theorem passes_modifyTask (state : State Out) (changed : TaskRef) {change : Task Out → Task Out}
    (kept : ∀ task, (change task).status = task.status ∧ (change task).outs.Sublist task.outs) :
    Passes ref state (state.modifyTask changed change) := by
  refine ⟨⟨Nat.le_refl _, ?_⟩, ?_⟩
  · intro task live
    rcases modifyTask_eq_some live with ⟨old, rfl, oldLive, rfl⟩ | ⟨_, live⟩
    · exact ⟨old, oldLive, kept old⟩
    · exact ⟨task, live, rfl, .refl _⟩
  · rw [modifyTask_task]
    split
    · next same =>
      subst same
      rw [Option.isSome_map]
    · rfl

theorem Follows.begun (follows : Follows ref state after)
    (begun : ref < state.next ∧ Running state ref) : ref < after.next ∧ Running after ref := by
  refine ⟨begun.1.trans_le follows.later, ?_⟩
  intro task live
  obtain ⟨old, oldLive, status, _⟩ := follows.task task live
  exact status.trans (begun.2 old oldLive)

theorem Follows.distinct (follows : Follows ref state after)
    (distinct : ∀ task, state.task ref = some task → task.outs.Nodup) :
    ∀ task, after.task ref = some task → task.outs.Nodup := by
  intro task live
  obtain ⟨old, oldLive, _, outs⟩ := follows.task task live
  exact (distinct old oldLive).sublist outs

end

variable [DecidableEq Out]

/-- The route is in a stage.  Only a task that runs has left the first one, and
a task lives as long as something is to be done for it. -/
structure Staged (ref : TaskRef) (out : Out) (state : State Out) (stage : Stage Out) : Prop where
  view : state.view ref out = stage.view
  begun : stage ≠ .unstarted → ref < state.next ∧ Running state ref
  live : stage.IsOpen → (state.task ref).isSome = true
  distinct : ∀ task, state.task ref = some task → task.outs.Nodup

def Budgeted (limit : Int) (tally : Tally) (ref : TaskRef) (out : Out) (state : State Out) : Prop :=
  ∃ stage, Staged ref out state stage ∧ stage.Tallied limit tally

variable {changed : TaskRef}

section
variable {ref : TaskRef} {out : Out} {state after : State Out}
  {stage following : Stage Out}

theorem staged_initial (ref : TaskRef) (out : Out) : Staged ref out State.initial .unstarted := by
  constructor
  · rfl
  · exact fun different => (different rfl).elim
  · exact fun impossible => impossible.elim
  · intro task live
    cases live

section
variable (staged : Staged ref out state stage)
include staged

theorem Staged.move (passes : Passes ref state after)
    (begun : stage = .unstarted → ref < state.next ∧ Running state ref)
    (live : (state.task ref).isSome = true)
    (view : after.view ref out = following.view) : Staged ref out after following := by
  refine ⟨view, fun _ => passes.begun ?_, fun _ => passes.live.trans live,
    passes.distinct staged.distinct⟩
  by_cases first : stage = .unstarted
  · exact begun first
  · exact staged.begun first

theorem Staged.same (follows : Follows ref state after)
    (live : stage.IsOpen → (after.task ref).isSome = true)
    (view : after.view ref out = state.view ref out) : Staged ref out after stage :=
  ⟨view.trans staged.view, fun begun => follows.begun (staged.begun begun), live,
    follows.distinct staged.distinct⟩

theorem Staged.pass (passes : Passes ref state after)
    (view : after.view ref out = state.view ref out) : Staged ref out after stage :=
  staged.same passes.toFollows (fun opened => passes.live.trans (staged.live opened)) view

theorem Staged.flying {flush : Flush Out}
    (member : flush ∈ state.flushes) (here : flush.task = ref ∧ flush.out = out) :
    ∃ retry, stage = .flying flush retry := by
  have flies : flush ∈ stage.view.flights := by
    rw [← staged.view]
    exact mem_filter.mpr ⟨member, by simpa using here⟩
  cases stage with
  | flying other retry =>
    obtain rfl := mem_singleton.mp flies
    exact ⟨retry, rfl⟩
  | unstarted | queued retry | scheduled retry | spent => cases flies

theorem Staged.modifyTask (changed : TaskRef) {change : Task Out → Task Out}
    (kept : ∀ task, (change task).status = task.status ∧ (change task).outs.Sublist task.outs)
    (retries : ∀ task, (change task).retries = task.retries) :
    Staged ref out (state.modifyTask changed change) stage :=
  staged.pass (passes_modifyTask state changed kept) (view_modifyTask retries)

theorem Staged.taskCreate (numbered : Numbered state) (input : InId) (created : NewTask Out) :
    Staged ref out (taskCreate state input created) stage := by
  by_cases new : ref = state.next
  · subst new
    have none : state.task state.next = none := by
      cases live : state.task state.next with
      | none => rfl
      | some task => exact (Nat.lt_irrefl _ (numbered.tasks live)).elim
    have first : stage = .unstarted := by
      by_contra different
      exact Nat.lt_irrefl _ (staged.begun different).1
    subst first
    constructor
    · rw [← staged.view]
      refine view_eq rfl rfl rfl ?_
      simp [State.retriesOf, Engine.taskCreate, none]
    · exact fun different => (different rfl).elim
    · exact fun impossible => impossible.elim
    · intro task live
      simp only [Engine.taskCreate, update_self] at live
      cases live
      simpa [Task.outs, comp_def] using created.nodup
  · have kept : (Engine.taskCreate state input created).task ref = state.task ref :=
      update_of_ne new _ _
    exact staged.pass (passes_of_task (Nat.le_succ _) kept)
      (view_eq rfl rfl rfl (retriesOf_of_task kept))

end

section
variable {spared : RetryRef Out → Prop}

theorem Staged.inFlight_pos {flush : Flush Out} {retry : Option (TaskRetry Out)}
    (staged : Staged ref out state (.flying flush retry)) : 0 < inFlight state ref := by
  have flies : state.flights ref out = [flush] := congrArg View.flights staged.view
  have member : flush ∈ state.flights ref out := by
    rw [flies]
    exact List.mem_singleton_self _
  obtain ⟨listed, here⟩ := List.mem_filter.mp member
  apply List.countP_pos_iff.mpr
  exact ⟨flush, listed, by simpa using (of_decide_eq_true here).1⟩

theorem Staged.taskDestroy (staged : Staged ref out state stage) (tended : Tended spared state)
    (unused : changed = ref → ¬stage.IsOpen ∧ state.retriesOf ref out = []) :
    Staged ref out (taskDestroy state changed) stage := by
  have follows : Follows ref state (Engine.taskDestroy state changed) := by
    apply (frames_taskDestroy state changed).follows
    rw [(sheds_taskDestroy state changed).next]
  apply staged.same follows
  · intro opened
    have different : changed ≠ ref := fun same => (unused same).1 opened
    rw [tended.taskDestroy_task_of_ne different.symm]
    exact staged.live opened
  · apply view_taskDestroy
    · intro task live retry member
      exact tended.parents live retry.ref (List.mem_map_of_mem member)
    · exact fun same => (unused same).2

variable [Fintype Out]

theorem Staged.pendingCount_pos {retry : Option (TaskRetry Out)}
    (staged : Staged ref out state (.queued retry)) : 0 < pendingCount state ref := by
  have waits : state.waiting ref out = 1 := congrArg View.waiting staged.view
  have counted : state.waiting ref out ≤ pendingCount state ref :=
    Finset.single_le_sum (fun _ _ => Nat.zero_le _) (Finset.mem_univ out)
  omega

variable (staged : Staged ref out state stage) (accounted : Accounted (fun _ => 0) state)
include staged accounted

theorem Staged.closed {task : Task Out} (live : state.task ref = some task)
    (unused : task.users = 0) (none : task.retries.length = 0) : ¬stage.IsOpen := by
  have users := accounted.users live
  have view := staged.view
  cases stage with
  | unstarted | spent => exact id
  | queued retry =>
    have counted := staged.pendingCount_pos
    omega
  | flying flush retry =>
    have counted := staged.inFlight_pos
    omega
  | scheduled retry =>
    have retries : state.retriesOf ref out = [retry] := congrArg View.retries view
    simp [State.retriesOf, live, eq_nil_of_length_eq_zero none] at retries

variable (tended : Tended spared state)
include tended

theorem Staged.releaseUnused
    {task : Task Out} (live : state.task changed = some task) (unused : task.users = 0)
    (none : task.retries.length = 0) : Staged ref out (Engine.taskDestroy state changed) stage := by
  apply staged.taskDestroy tended
  rintro rfl
  refine ⟨staged.closed accounted live unused none, ?_⟩
  simp [State.retriesOf, live, eq_nil_of_length_eq_zero none]

theorem Staged.taskUsersRelease (changed : TaskRef) :
    Staged ref out (taskUsersRelease state changed) stage := by
  simp only [Engine.taskUsersRelease]
  split
  · exact staged
  · next task live =>
    split
    · next unused => exact staged.releaseUnused accounted tended live unused.1 unused.2
    · exact staged

theorem Staged.cleanupTask (changed : TaskRef) :
    Staged ref out (cleanupTask state changed) stage := by
  simp only [Engine.cleanupTask]
  split
  · exact staged
  · next task live =>
    split
    · next unused => exact staged.releaseUnused accounted tended live unused.1 unused.2.1
    · exact staged

end

section
variable {config : Config Out} {retry : Option (RetryRef Out)}
  {output : Out}

theorem StartResult.passes (result : StartResult config state retry changed output after) :
    Passes ref state after := by
  have follows : Follows ref state after := by
    cases result with
    | flushed =>
      apply (frames_startFlush state changed output _ _).follows
      exact Nat.le_succ _
    | queued =>
      apply (frames_pushEntry state retry changed output).follows
      exact Nat.le_succ _
    | started empty =>
      apply ((frames_pushEntry _ _ _ _).trans (frames_beginEntry _ _ _ _ _)).follows
      exact (Nat.le_succ _).trans (Nat.le_succ _)
  refine ⟨follows, ?_⟩
  rw [result.task]
  apply Passes.live
  apply passes_modifyTask
  exact fun task => ⟨rfl, .refl _⟩

theorem Staged.start (staged : Staged ref out state stage)
    (result : StartResult config state retry changed output after)
    (elsewhere : ¬(changed = ref ∧ output = out)) : Staged ref out after stage :=
  staged.pass result.passes (result.view elsewhere)

omit [DecidableEq Out] in
theorem startPhase_isReturned (config : Config Out) (out : Out) :
    (startPhase config out).isReturned = false := by
  simp only [startPhase]
  split <;> rfl

theorem Staged.startFirst (staged : Staged ref out state .unstarted)
    (begun : ref < state.next ∧ Running state ref) (live : (state.task ref).isSome = true)
    (result : StartResult config state retry ref out after) :
    ∃ following, Stage.Advances .unstarted following ∧ Staged ref out after following := by
  rcases result.view_here with ⟨flush, phase, view⟩ | view
  · refine ⟨.flying flush none, .starts ?_, staged.move result.passes (fun _ => begun) live ?_⟩
    · rw [phase]
      exact startPhase_isReturned config out
    · rw [view, staged.view]
      rfl
  · refine ⟨.queued none, .enters, staged.move result.passes (fun _ => begun) live ?_⟩
    rw [view, staged.view]
    rfl

end

theorem Staged.removeRoute (staged : Staged ref out state stage) (changed : TaskRef)
    (output : Out) : Staged ref out (removeRoute state changed output) stage := by
  apply staged.modifyTask
  · exact fun task => ⟨rfl, List.filter_sublist.map _⟩
  · exact fun task => rfl

theorem view_setStatus (state : State Out) (changed : TaskRef) (status : TaskStatus) :
    (setStatus state changed status).view ref out = state.view ref out := by
  apply view_modifyTask
  intro task
  rfl

theorem Staged.setStatusElsewhere (staged : Staged ref out state stage)
    (different : changed ≠ ref) (status : TaskStatus) :
    Staged ref out (setStatus state changed status) stage :=
  staged.pass (passes_of_task (Nat.le_refl _) (modifyTask_task_of_ne _ _ _ different.symm))
    (view_setStatus state _ status)

theorem Staged.setStatusFirst (staged : Staged ref out state .unstarted) (status : TaskStatus) :
    Staged ref out (setStatus state ref status) .unstarted := by
  constructor
  · exact (view_setStatus state _ status).trans staged.view
  · exact fun different => (different rfl).elim
  · exact fun impossible => impossible.elim
  · intro task live
    rw [setStatus, modifyTask_task_self] at live
    obtain ⟨old, oldLive, rfl⟩ := Option.map_eq_some_iff.mp live
    exact staged.distinct old oldLive

section
variable [Fintype Out] (config : Config Out) {tally : Tally} {limit : Int}

theorem Staged.startRoutesElsewhere (staged : Staged ref out state stage) (lively : Lively state)
    (known : changed < state.next) (different : changed ≠ ref) (retry : Nat)
    (outs : List Out) : Staged ref out (startRoutes config changed retry outs state).1 stage := by
  have closed := lively_dispatchClosed config
  have kept := startRoutes_keeps
    (fun current : State Out => Lively current ∧ changed < current.next ∧
      Staged ref out current stage)
    (fun {current output} kept =>
      ⟨closed.removed kept.1, kept.2.1, kept.2.2.removeRoute changed output⟩)
    (fun {current output} kept => by
      have result : StartResult config current none changed output
          (startRoute config current changed output) :=
        kept.1.succeeds.startRoute_result kept.1.counted.idle changed output
      have passes : Passes ref current _ := result.passes
      refine ⟨closed.started kept.1 kept.2.1,
        kept.2.1.trans_le passes.later, kept.2.2.start result ?_⟩
      exact fun same => different same.1)
    retry outs ⟨lively, known, staged⟩
  exact kept.2.2

/-- The routes of the task are started; each output is met once. -/
theorem Staged.startRoutes (staged : Staged ref out state stage) (lively : Lively state)
    (known : ref < state.next) (running : Running state ref) (live : (state.task ref).isSome = true)
    (retry : Nat) {outs : List Out} (nodup : outs.Nodup) (first : out ∈ outs → stage = .unstarted) :
    ∃ following, stage.Advances following ∧
      Staged ref out (startRoutes config ref retry outs state).1 following ∧
      (out ∉ outs ∨ (startRoutes config ref retry outs state).2 = 0 → following = stage) := by
  have closed := lively_dispatchClosed config
  induction outs generalizing state stage with
  | nil => exact ⟨stage, .refl, staged, fun _ => rfl⟩
  | cons output outs ih =>
    have rest := nodup_cons.mp nodup
    have firstRest : out ∈ outs → stage = .unstarted := fun member =>
      first (mem_cons_of_mem _ member)
    have unhitRest : ∀ hits, out ∉ output :: outs ∨ hits = 0 → out ∉ outs ∨ hits = 0 :=
      fun hits unhit => unhit.imp (fun absent member => absent (mem_cons_of_mem _ member)) id
    simp only [Engine.startRoutes]
    split
    · obtain ⟨following, advances, after, same⟩ := ih (staged.removeRoute ref output)
        (closed.removed lively) known (running.frames (frames_removeRoute _ _ _)) (by simpa
        [Engine.removeRoute] using live) rest.2 firstRest
      exact ⟨following, advances, after, fun unhit => same (unhitRest _ unhit)⟩
    · split
      · obtain ⟨following, advances, after, same⟩ := ih staged lively known running live rest.2
          firstRest
        exact ⟨following, advances, after, fun unhit => same (unhitRest _ unhit)⟩
      · have result : StartResult config state none ref output (startRoute config state ref output)
          := lively.succeeds.startRoute_result lively.counted.idle ref output
        have passes : Passes ref state (startRoute config state ref output) := result.passes
        obtain ⟨still, runs⟩ := passes.begun ⟨known, running⟩
        have lives := passes.live.trans live
        by_cases here : output = out
        · subst here
          obtain rfl := first mem_cons_self
          obtain ⟨begun, advances, staged⟩ := staged.startFirst ⟨known, running⟩ live result
          obtain ⟨following, _, after, same⟩ := ih staged (closed.started lively known)
            still runs lives rest.2 (fun member => (rest.1 member).elim)
          obtain rfl := same (.inl rest.1)
          refine ⟨following, advances, after, ?_⟩
          rintro (absent | unhit)
          · exact (absent mem_cons_self).elim
          · cases unhit
        · obtain ⟨following, advances, after, same⟩ := ih (staged.start result
            fun both => here both.2) (closed.started lively known) still runs lives rest.2 firstRest
          refine ⟨following, advances, after, ?_⟩
          rintro (absent | unhit)
          · exact same (unhitRest _ (.inl absent))
          · cases unhit

variable (budgeted : Budgeted limit tally ref out state)
include budgeted

theorem Budgeted.startTask (lively : Lively state) (retry : Nat) (changed : TaskRef) :
    Budgeted limit tally ref out (startTask config state retry changed).1 := by
  obtain ⟨stage, staged, tallied⟩ := budgeted
  simp only [Engine.startTask]
  split
  · exact ⟨stage, staged, tallied⟩
  · next task live =>
    split
    · exact ⟨stage, staged, tallied⟩
    · next isNew =>
      have known : changed < state.next := lively.counted.numbered.tasks live
      have running : Lively (setStatus state changed .running) :=
        (lively_dispatchClosed config).status lively
      by_cases here : changed = ref
      · subst here
        -- a task that is still new has left no first stage
        have first : stage = .unstarted := by
          by_contra different
          exact isNew ((staged.begun different).2 task live ▸ by simp)
        subst first
        have lives : ((setStatus state changed .running).task changed).isSome = true := by
          rw [setStatus, modifyTask_task_self, live]
          rfl
        obtain ⟨following, advances, after, same⟩ :=
          (staged.setStatusFirst .running).startRoutes config running known
          (running_setStatus state changed) lives
          (countRetry task retry) (staged.distinct task live) (fun _ => rfl)
        split
        · next unhit =>
          obtain rfl := same (.inr unhit)
          exact ⟨_, after.setStatusFirst .new, tallied⟩
        · exact ⟨following, after, tallied.advances advances⟩
      · have after := (staged.setStatusElsewhere here
          .running).startRoutesElsewhere config running known here
          (countRetry task retry) (task.routes.map (·.out))
        split
        · exact ⟨stage, after.setStatusElsewhere here .new, tallied⟩
        · exact ⟨stage, after, tallied⟩

theorem Budgeted.startTasks (lively : Lively state) (refs : List TaskRef) (retry : Nat) :
    Budgeted limit tally ref out (startTasks config refs state retry) ∧
      Lively (startTasks config refs state retry) := by
  induction refs generalizing state retry with
  | nil => exact ⟨budgeted, lively⟩
  | cons changed refs ih =>
    apply ih
    · exact budgeted.startTask config lively retry changed
    · exact (lively_dispatchClosed config).startTask lively retry changed

theorem Budgeted.engineDispatch
    (lively : Lively state) (input : InId) (created : List (NewTask Out)) :
    Budgeted limit tally ref out (engineDispatch config state input created) := by
  have closed := lively_dispatchClosed config
  have made : Budgeted limit tally ref out (created.foldl (Engine.taskCreate · input ·) state) ∧
      Lively (created.foldl (Engine.taskCreate · input ·) state) := by
    refine List.foldlRecOn (motive := fun current : State Out =>
      Budgeted limit tally ref out current ∧ Lively current) created _
      ⟨budgeted, lively⟩ ?_
    rintro current ⟨⟨stage, staged, tallied⟩, lively⟩ new _
    exact ⟨⟨stage, staged.taskCreate lively.counted.numbered input new,
      tallied⟩, closed.created lively⟩
  have started := made.1.startTasks config made.2 (
    (created.foldl (Engine.taskCreate · input ·) state).tasks input) 0
  refine (List.foldlRecOn (motive := fun current : State Out =>
    Budgeted limit tally ref out current ∧ Lively current) _ _ started ?_).1
  rintro current ⟨⟨stage, staged, tallied⟩, lively⟩ changed _
  exact ⟨⟨stage, staged.cleanupTask lively.counted.accounted lively.tended
    changed, tallied⟩, closed.cleaned lively⟩

end

end

end FluentBit.Engine
