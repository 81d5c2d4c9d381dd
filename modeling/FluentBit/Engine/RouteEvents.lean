import FluentBit.Engine.RouteStage

/-!
# What events do to a route

The completion of the route's own flush schedules its retry or ends it, and its
own timer starts the next flush.  Completions and timers of other routes, the
promotion of requests and their rescheduling leave the route in its stage, up
to an entry that is started when the output becomes free.
-/

namespace FluentBit.Engine

open List

variable {Out : Type} [DecidableEq Out] {ref : TaskRef} {out : Out}
  {state after : State Out} {stage following : Stage Out}

section
variable {config : Config Out} {tally : Tally} {limit : Int}

theorem Staged.taskUsersDec (staged : Staged ref out state stage) (changed : TaskRef) :
    Staged ref out (taskUsersDec state changed) stage := by
  apply staged.modifyTask
  · exact fun task => ⟨rfl, .refl _⟩
  · exact fun task => rfl

theorem passes_taskRetryDestroy (state : State Out) (retry : RetryRef Out) :
    Passes ref state (taskRetryDestroy state retry) := by
  refine ⟨(frames_taskRetryDestroy state retry).follows ?_, ?_⟩
  · rw [(sheds_taskRetryDestroy state retry).next]
  · rw [← schedRequestInvalidate_task state retry]
    apply Passes.live
    apply passes_modifyTask
    exact fun task => ⟨rfl, .refl _⟩

theorem passes_taskRetryClean (state : State Out) (changed : TaskRef) (output : Out) :
    Passes ref state (taskRetryClean state changed output) := by
  have same : Passes ref state state := passes_of_task (Nat.le_refl _) rfl
  simp only [taskRetryClean]
  split
  · exact same
  · split
    · exact same
    · apply passes_taskRetryDestroy

theorem Staged.taskRetryDestroy (staged : Staged ref out state stage) {retry : RetryRef Out}
    (elsewhere : ¬OfRoute ref out retry) : Staged ref out (taskRetryDestroy state retry) stage :=
  staged.pass (passes_taskRetryDestroy state retry) (view_taskRetryDestroy elsewhere)

theorem passes_taskRetryCreate (state : State Out) (changed : TaskRef) (output : Out)
    (alloc : Bool) : Passes ref state (taskRetryCreate config state changed output alloc).1 := by
  apply taskRetryCreate_keeps (passes_of_task (Nat.le_refl _) rfl)
  · exact fun _ _ => passes_taskRetryDestroy _ _
  · intro next change later
    have numbered : Passes ref state { state with next := next } := passes_of_task later rfl
    apply numbered.trans
    apply passes_modifyTask
    exact fun task => ⟨rfl, .refl _⟩

omit [DecidableEq Out] in
theorem passes_schedRequestCreate (state : State Out) (data : RetryRef Out) (now : Nat)
    (backoff : Option Nat) : Passes ref state (schedRequestCreate state data now backoff).1 := by
  apply passes_of_task
  · simp only [schedRequestCreate]
    split
    · exact Nat.le_refl _
    · split <;> exact Nat.le_succ _
  · rw [schedRequestCreate_task]

theorem Staged.schedRequestCreate (staged : Staged ref out state stage) {data : RetryRef Out}
    (elsewhere : ¬OfRoute ref out data) (now backoff : Nat) :
    Staged ref out (schedRequestCreate state data now (some backoff)).1 stage := by
  apply staged.pass (passes_schedRequestCreate _ _ _ _)
  rw [view_schedRequestCreate, if_neg elsewhere]

/-- The end of a flush starts the entry at the front, which can be one of the
route. -/
theorem view_flushNext (succeeds : Succeeds state) (output : Out) :
    (outputTaskSingleplexFlushNext config state output).view ref out = state.view ref out ∨
      0 < (state.view ref out).waiting ∧
        ∃ flush : Flush Out, flush.phase.isReturned = false ∧
          (outputTaskSingleplexFlushNext config state output).view ref out =
            { state.view ref out with
              flights := (state.view ref out).flights ++ [flush]
              waiting := (state.view ref out).waiting - 1 } := by
  rw [succeeds.flushNext]
  split
  · left
    apply view_endInProgress
  · next entry pending front =>
    have ended : ((endInProgress state output).queue output).pending = entry :: pending := by
      simpa using front
    by_cases here : entry.task = ref ∧ output = out
    · right
      rw [view_beginEntry ended, if_pos here, view_endInProgress]
      obtain ⟨rfl, rfl⟩ := here
      refine ⟨?_, _, startPhase_isReturned config output, rfl⟩
      simp [State.view, State.waiting, front]
    · left
      rw [view_beginEntry ended, if_neg here, view_endInProgress]

theorem passes_flushNext (succeeds : Succeeds state) (output : Out) :
    Passes ref state (outputTaskSingleplexFlushNext config state output) := by
  apply passes_of_task
  · rw [succeeds.flushNext]
    split
    · rw [endInProgress_next]
    · exact (endInProgress_next state output).symm.le.trans (Nat.le_succ _)
  · rw [flushNext_task succeeds]

theorem Budgeted.flushNext (budgeted : Budgeted limit tally ref out state)
    (succeeds : Succeeds state) (output : Out) :
    Budgeted limit tally ref out (outputTaskSingleplexFlushNext config state output) := by
  obtain ⟨stage, staged, tallied⟩ := budgeted
  have passes : Passes ref state (outputTaskSingleplexFlushNext config state output) :=
    passes_flushNext succeeds output
  have moves := @view_flushNext _ _ ref out state config succeeds output
  rcases moves with same | ⟨waits, flush, phase, begun⟩
  · exact ⟨stage, staged.pass passes same, tallied⟩
  · rw [staged.view] at waits begun
    cases stage with
    | queued retry =>
      refine ⟨.flying flush retry, ?_, tallied.advances (.leaves phase)⟩
      exact staged.move passes (by rintro ⟨⟩) (staged.live trivial) begun
    | unstarted | flying other retry | scheduled retry | spent => cases waits

/-! ### The route's own completion -/

section
variable {flush : Flush Out} {retry : Option (TaskRetry Out)} {env : OutputEnv}

/-- What is left of the route once its flush is removed. -/
def freed (retry : Option (TaskRetry Out)) : View Out :=
  { flights := [], waiting := 0, requests := 0, retries := retry.toList }

/-- Between the end of a flush and its handling the route has its retry and
nothing else. -/
structure Freed (ref : TaskRef) (out : Out) (state : State Out)
    (retry : Option (TaskRetry Out)) : Prop where
  view : state.view ref out = freed retry
  known : ref < state.next
  running : Running state ref
  live : (state.task ref).isSome = true
  distinct : ∀ task, state.task ref = some task → task.outs.Nodup

theorem Staged.free (staged : Staged ref out state (.flying flush retry)) :
    Freed ref out (state.removeFlush flush.id) retry := by
  obtain ⟨known, running⟩ := staged.begun (by rintro ⟨⟩)
  constructor
  · rw [view_removeFlush_here (congrArg View.flights staged.view), staged.view]
    rfl
  · exact known
  · exact running
  · exact staged.live trivial
  · exact staged.distinct

section
variable (isFree : Freed ref out state retry)
include isFree

theorem Freed.flushNext (succeeds : Succeeds state) (output : Out) :
    Freed ref out (outputTaskSingleplexFlushNext config state output)
      retry := by
  have passes : Passes ref state (outputTaskSingleplexFlushNext config state output) :=
    passes_flushNext succeeds output
  obtain ⟨known, running⟩ := passes.begun ⟨isFree.known, isFree.running⟩
  have moves := @view_flushNext _ _ ref out state config succeeds output
  rcases moves with same | ⟨waits, _⟩
  · exact ⟨same.trans isFree.view, known, running, passes.live.trans isFree.live,
      passes.distinct isFree.distinct⟩
  · rw [isFree.view] at waits
    cases waits

theorem Freed.enter (follows : Follows ref state after)
    (live : stage.IsOpen → (after.task ref).isSome = true)
    (view : after.view ref out = stage.view) : Staged ref out after stage :=
  ⟨view, fun _ => follows.begun ⟨isFree.known, isFree.running⟩, live,
    follows.distinct isFree.distinct⟩

theorem Freed.schedule (passes : Passes ref state after) {scheduled : TaskRetry Out}
    (view : after.view ref out = freed (some scheduled)) (here : OfRoute ref out scheduled.ref)
    (now backoff : Nat) :
    Staged ref out
      (Engine.schedRequestCreate (Engine.taskUsersDec after ref)
        scheduled.ref now (some backoff)).1 (.scheduled scheduled) := by
  have left : Passes ref after (Engine.taskUsersDec after ref) := by
    apply passes_modifyTask
    exact fun task => ⟨rfl, .refl _⟩
  have passes := (passes.trans left).trans
    (passes_schedRequestCreate _ scheduled.ref now (some backoff))
  apply isFree.enter passes.toFollows
  · exact fun _ => passes.live.trans isFree.live
  · rw [view_schedRequestCreate, if_pos here, view_taskUsersDec, view]
    rfl

end

variable [Fintype Out]

theorem Freed.finish (isFree : Freed ref out state retry) (follows : Follows ref state after)
    (view : after.view ref out = freed none)
    (accounted : Accounted (moved (fun _ => 0) ref 1) after)
    (tended : Tended (OfRoute ref out) after) :
    Staged ref out (finishRoute after ref out) .spent := by
  have nothing : taskRetryClean after ref out = after := by
    have none : after.retriesOf ref out = [] := congrArg View.retries view
    simp only [taskRetryClean]
    split
    · rfl
    · next task live =>
      rw [find?_retriesOf live, none]
      rfl
  have spent : Staged ref out after .spent := by
    apply isFree.enter follows
    · exact fun impossible => impossible.elim
    · exact view
  have left := accounted.usersDec ref
  rw [moved_moved] at left
  have kept : Tended (OfRoute ref out) (Engine.taskUsersDec after ref) :=
    tended.modifyTask fun _ => .refl _
  simp only [finishRoute, nothing]
  exact (spent.taskUsersDec ref).taskUsersRelease left kept ref

/-- The route asks for a retry: it is scheduled, or it was the last one. -/
theorem Freed.handleRetry (isFree : Freed ref out state retry)
    (accounted : Accounted (moved (fun _ => 0) ref 1) state)
    (tended : Tended (OfRoute ref out) state)
    (retries : (config.output out).retryLimit ≠ 0)
    (alloc : env.alloc = true) {backoff : Nat}
    (wait : env.backoff = some backoff)
    (within : 0 ≤ (config.output out).retryLimit →
      attemptsOf retry ≤ (config.output out).retryLimit) :
    Budgeted (config.output out).retryLimit
      { answers := attemptsOf retry + 1
        dropped := if (taskRetryCreate config state ref out
          env.alloc).2.isNone then 1 else 0 } ref out
      (handleRetry config state ref out env) := by
  obtain ⟨task, live⟩ := Option.isSome_iff_exists.mp isFree.live
  have listed : state.retriesOf ref out = retry.toList := congrArg View.retries isFree.view
  have passes : Passes ref state (taskRetryCreate config state ref out env.alloc).1 :=
    passes_taskRetryCreate _ _ _ _
  have counted : Accounted (moved (fun _ => 0) ref 1)
      (taskRetryCreate config state ref out env.alloc).1 :=
    accounted.taskRetryCreate ref out env.alloc
  simp only [Engine.handleRetry, if_neg retries, wait]
  cases retry with
  | none =>
    have first := taskRetryCreate_first config live listed
    rw [← alloc] at first
    rcases created : taskRetryCreate config state ref out env.alloc with
      ⟨next, answer⟩
    rw [created] at first passes
    obtain ⟨rfl, view⟩ := first
    rw [isFree.view] at view
    simp only [if_neg schedRequestCreate_ne]
    refine ⟨_, isFree.schedule passes view ⟨rfl, rfl⟩ env.now backoff, .scheduled ?_⟩
    intro limited
    simp only
    omega
  | some old =>
    have member : old ∈ task.retries.filter fun other => other.ref.oIns = out := by
      simp only [State.retriesOf, live] at listed
      rw [listed]
      exact mem_singleton_self _
    obtain ⟨inTask, output⟩ := mem_filter.mp member
    have parent : old.ref.parent = ref := tended.parents live old.ref (mem_map_of_mem inTask)
    have here : OfRoute ref out old.ref := ⟨parent, of_decide_eq_true output⟩
    by_cases last : (config.output out).retryLimit ≤ old.attempts ∧
        0 ≤ (config.output out).retryLimit
    · have ends := taskRetryCreate_last config env.alloc live listed parent last.2 last.1
      rcases created : taskRetryCreate config state ref out env.alloc with
        ⟨next, answer⟩
      have kept := (tended.taskRetryCreate created).1
      rw [created] at ends passes counted
      obtain ⟨rfl, view⟩ := ends
      rw [isFree.view] at view
      refine ⟨.spent, isFree.finish passes.toFollows view counted kept, ?_⟩
      apply Stage.Tallied.spent
      exact le_antisymm last.1 (within last.2)
    · have again := taskRetryCreate_again config env.alloc live listed last
      rcases created : taskRetryCreate config state ref out env.alloc with
        ⟨next, answer⟩
      rw [created] at again passes
      obtain ⟨rfl, view⟩ := again
      rw [isFree.view] at view
      simp only [if_neg schedRequestCreate_ne]
      refine ⟨_, isFree.schedule passes view here env.now backoff, .scheduled ?_⟩
      intro limited
      simp only
      omega

end

section
variable [Fintype Out] {changed : TaskRef} {output : Out}
  (elsewhere : ¬(changed = ref ∧ output = out))
include elsewhere

variable (staged : Staged ref out state stage)
  (accounted : Accounted (moved (fun _ => 0) changed 1) state)
  (tended : Tended (OfRoute changed output) state)
include staged accounted tended

theorem Staged.finishElsewhere : Staged ref out (finishRoute state changed output) stage := by
  have cleaned : Staged ref out (taskRetryClean state changed output)
      stage := by
    apply staged.pass (passes_taskRetryClean state changed output)
    apply view_taskRetryClean _ elsewhere
    intro _ task live retry member
    exact tended.parents live retry.ref (mem_map_of_mem member)
  have left := (accounted.sheds (sheds_taskRetryClean state changed output)).usersDec changed
  rw [moved_moved] at left
  have kept : Tended (fun _ => False) (Engine.taskUsersDec (taskRetryClean state changed output)
    changed) := tended.taskRetryClean.modifyTask fun _ => .refl _
  exact (cleaned.taskUsersDec changed).taskUsersRelease left kept changed

theorem Staged.retryElsewhere (env : OutputEnv) :
    Staged ref out (handleRetry config state changed output env) stage := by
  obtain ⟨ended, returned, result⟩ := handleRetry_result config state changed output env
  have counted : Accounted (moved (fun _ => 0) changed 1)
      (taskRetryCreate config state changed output env.alloc).1 :=
    accounted.taskRetryCreate changed output env.alloc
  have created : Staged ref out
      (taskRetryCreate config state changed output env.alloc).1 stage := by
    apply staged.pass (passes_taskRetryCreate _ _ _ _)
    apply view_taskRetryCreate _ elsewhere
    intro _ task live retry member
    exact tended.parents live retry.ref (mem_map_of_mem member)
  have apart : ∀ {next retry}, taskRetryCreate config state changed output env.alloc =
      (next, some retry) → ¬OfRoute ref out retry := by
    rintro next retry present ⟨owner, outputs⟩
    obtain ⟨kept, of⟩ := tended.taskRetryCreate present
    obtain ⟨same, task, live, listed⟩ := of retry rfl
    exact elsewhere ⟨(kept.parents live retry listed).symm.trans owner, same.symm.trans outputs⟩
  rw [returned]
  cases result with
  | unretried => exact staged.finishElsewhere elsewhere accounted tended
  | refused absent =>
    rw [absent] at created counted
    exact created.finishElsewhere elsewhere counted (tended.taskRetryCreate absent).1
  | @scheduled next retry backoff present =>
    rw [present] at created
    exact (created.taskUsersDec changed).schedRequestCreate (apart present) _ _
  | @unscheduled next retry present =>
    rw [present] at created counted
    have left := counted.usersDec changed
    rw [moved_moved] at left
    have destroyed := (created.taskUsersDec changed).taskRetryDestroy (apart present)
    have dec : Tended (OfRoute changed output) (Engine.taskUsersDec next changed) :=
      (tended.taskRetryCreate present).1.modifyTask fun _ => .refl _
    exact destroyed.taskUsersRelease (left.sheds (sheds_taskRetryDestroy _ _))
      (dec.taskRetryDestroy retry) changed

end

end

section
variable {config : Config Out} {tally : Tally} {limit : Int}
  {request : Request Out} {env : RetryEnv}

theorem Staged.scheduled (staged : Staged ref out state stage) (member : request ∈ state.requests)
    (here : OfRoute ref out request.data) :
    ∃ retry, stage = .scheduled retry ∧ retry.ref = request.data := by
  have inside : request.data ∈ stage.view.requests := by
    rw [← staged.view]
    simp only [State.view]
    apply Multiset.mem_filter.mpr
    refine ⟨?_, here⟩
    exact mem_map_of_mem (mem_append_left _ member)
  cases stage with
  | scheduled retry => exact ⟨retry, rfl, (Multiset.mem_singleton.mp inside).symm⟩
  | unstarted | queued retry | flying flush retry | spent => cases Multiset.notMem_zero _ inside

omit [DecidableEq Out] in
theorem passes_dropRequest (state : State Out) (request : Request Out) :
    Passes ref state (dropRequest state request) :=
  passes_of_task (Nat.le_refl _) rfl

theorem Staged.dropRequest (staged : Staged ref out state stage)
    (ids : (state.allRequests.map (·.id)).Nodup) (member : request ∈ state.requests)
    (elsewhere : ¬OfRoute ref out request.data) :
    Staged ref out (dropRequest state request) stage := by
  apply staged.pass (passes_dropRequest state request)
  rw [view_dropRequest ids member, erase_requests_elsewhere elsewhere]

omit [DecidableEq Out] in
theorem mem_schedRequestCreate (member : request ∈ state.requests)
    (data : RetryRef Out) (now backoff : Nat) :
    request ∈ (Engine.schedRequestCreate state data now (some backoff)).1.requests := by
  simp only [Engine.schedRequestCreate]
  split
  · exact member
  · exact List.mem_append_left _ member

theorem Staged.timerElsewhere [Fintype Out] (staged : Staged ref out state stage)
    (numbered : Numbered state) (accounted : Accounted (fun _ => 0) state)
    (tended : Tended (fun _ => False) state) (member : request ∈ state.requests)
    (elsewhere : ¬OfRoute ref out request.data)
    (result : TimerResult config state request env after) : Staged ref out after stage := by
  cases result with
  | unscheduled down wait =>
    exact (staged.taskRetryDestroy elsewhere).taskUsersRelease (accounted.sheds
      (sheds_taskRetryDestroy _ _)) (tended.taskRetryDestroy request.data) _
  | rescheduled backoff =>
    apply (staged.schedRequestCreate elsewhere env.now backoff).dropRequest
    · exact (numbered.schedRequestCreate _ _ _).requestIds
    · exact mem_schedRequestCreate member _ _ _
    · exact elsewhere
  | unreadable up content => exact staged.taskRetryDestroy elsewhere
  | started start =>
    obtain ⟨requests, waits⟩ := start.requests
    apply (staged.start start elsewhere).dropRequest
    · rw [State.allRequests, requests, waits]
      exact numbered.requestIds
    · rw [requests]
      exact member
    · exact elsewhere

theorem Budgeted.timerHere (budgeted : Budgeted limit tally ref out state)
    (numbered : Numbered state) (member : request ∈ state.requests)
    (here : OfRoute ref out request.data) (scheduled : env.chunkUp = false → env.backoff ≠ none)
    (readable : env.chunkUp = true → env.content = true)
    (result : TimerResult config state request env after) : Budgeted limit tally ref out after := by
  obtain ⟨stage, staged, tallied⟩ := budgeted
  obtain ⟨retry, rfl, same⟩ := staged.scheduled member here
  cases result with
  | unscheduled down wait => exact (scheduled down wait).elim
  | rescheduled backoff =>
    refine ⟨_, staged.pass ((passes_schedRequestCreate _ _ _ _).trans (passes_dropRequest _ _)) ?_,
      tallied⟩
    rw [view_dropRequest (numbered.schedRequestCreate _ _ _).requestIds
      (mem_schedRequestCreate member _ _ _), view_schedRequestCreate, if_pos here]
    simp only [Multiset.erase_cons_head]
  | unreadable up content =>
    rw [readable up] at content
    cases content
  | @started begun start =>
    obtain ⟨requests, waits⟩ := start.requests
    obtain ⟨parent, output⟩ := here
    rw [parent, output] at start
    have ids : (begun.allRequests.map (·.id)).Nodup := by
      rw [State.allRequests, requests, waits]
      exact numbered.requestIds
    have inside : request ∈ begun.requests := by
      rw [requests]
      exact member
    have passes : Passes ref state (Engine.dropRequest begun request) :=
      start.passes.trans (passes_dropRequest _ _)
    have gone : (Stage.scheduled retry).view.requests.erase request.data =
        0 := by
      rw [← same]
      exact Multiset.erase_singleton _
    rcases start.view_here with ⟨flush, phase, view⟩ | view
    · refine ⟨.flying flush (some retry), staged.move passes ?_ (staged.live trivial) ?_,
        tallied.advances (.restarts ?_)⟩
      · rintro ⟨⟩
      · rw [view_dropRequest ids inside, view, staged.view, gone]
        rfl
      · rw [phase]
        exact startPhase_isReturned config out
    · refine ⟨.queued (some retry), staged.move passes ?_ (staged.live trivial) ?_,
        tallied.advances .returns⟩
      · rintro ⟨⟩
      · rw [view_dropRequest ids inside, view, staged.view, gone]
        rfl

theorem Staged.scheduleRequestPromote (staged : Staged ref out state stage) (now : Nat)
    (timers : List Bool) : Staged ref out (scheduleRequestPromote state now timers) stage :=
  staged.pass (passes_of_task (Nat.le_refl _) rfl)
    (view_eq rfl rfl (Multiset.coe_eq_coe.mpr ((scheduleRequestPromote_perm _ _ _).map _)) rfl)

section

/-- A request is replaced by a new one for the same retry, or one for another
route is added. -/
theorem view_reschedule {data : RetryRef Out}
    (requested : OfRoute ref out data → data ∈ state.requested) (now : Nat) :
    (schedRetryNow (schedRequestInvalidate state data) data now
      true).1.view ref out = state.view ref out := by
  have quiet : Quiet state (schedRetryNow (schedRequestInvalidate state data) data now true).1 :=
    (sheds_schedRequestInvalidate state data).quiet.trans (quiet_schedRetryNow _ _ _ _)
  apply View.ext
  · simp only [State.view, State.flights, quiet.flushes]
  · simp only [State.view, State.waiting, quiet.queue]
  · simp only [State.view, requested_schedRetryNow, requested_schedRequestInvalidate]
    by_cases here : OfRoute ref out data
    · rw [Multiset.cons_erase (requested here)]
    · rw [Multiset.filter_cons_of_neg _ here, filter_erase]
      apply Multiset.erase_of_notMem
      intro inside
      exact here (Multiset.mem_filter.mp inside).2
  · apply retriesOf_of_task
    rw [reschedule_task]

variable [Fintype Out] (staged : Staged ref out state stage)
  (accounted : Accounted (fun _ => 0) state)
include staged accounted

/-- A retry of a task without users is the one of a scheduled route. -/
theorem Staged.scheduled_of_unused {task : Task Out} (live : state.task ref = some task)
    (unused : ¬0 < task.users) {retry : TaskRetry Out} (member : retry ∈ task.retries)
    (output : retry.ref.oIns = out) : stage = .scheduled retry := by
  have users := accounted.users live
  have view := staged.view
  have inside : retry ∈ stage.view.retries := by
    rw [← view]
    simp only [State.view, State.retriesOf, live]
    exact mem_filter.mpr ⟨member, by simpa using output⟩
  cases stage with
  | unstarted | spent => cases inside
  | queued other =>
    have counted := staged.pendingCount_pos
    omega
  | flying flush other =>
    have counted := staged.inFlight_pos
    omega
  | scheduled other =>
    obtain rfl := mem_singleton.mp inside
    rfl

theorem Staged.engineRescheduleRetries (tended : Tended (fun _ => False) state) (now : Nat)
    {timers : List Bool} (fires : ∀ timer ∈ timers, timer = true) :
    Staged ref out (engineRescheduleRetries config state now timers)
      stage := by
  obtain ⟨_, kept⟩ := engineRescheduleRetries_keepsListed config
    (fun current timers => Staged ref out current stage ∧
      Accounted (fun _ => 0) current ∧ Tended (fun _ => False) current ∧
      ∀ timer ∈ timers, timer = true) now
    (fun {current timers changed task} live unused retry member kept => by
      obtain ⟨staged, accounted, tended, fires⟩ := kept
      have first : timers.headD true = true := by
        cases timers with
        | nil => rfl
        | cons timer timers => exact fires timer mem_cons_self
      rw [first]
      refine ⟨staged.pass (passes_of_task ?_ (by rw [reschedule_task])) ?_, (accounted.sheds
        (sheds_schedRequestInvalidate _ _)).schedRetryNow _ _ _, tended.reschedule _ now,
        fun timer inside => fires timer (mem_of_mem_tail inside)⟩
      · simp only [schedRetryNow, if_true]
        rw [(sheds_schedRequestInvalidate current retry.ref).next]
        exact Nat.le_succ _
      · apply view_reschedule
        rintro ⟨parent, output⟩
        -- the retry is one of the task itself, which has no users
        have owner : changed = ref :=
          (tended.parents live retry.ref (mem_map_of_mem member)).symm.trans parent
        subst owner
        obtain rfl := staged.scheduled_of_unused accounted live unused member output
        have inside : retry.ref ∈ (current.view changed out).requests := by
          rw [staged.view]
          exact Multiset.mem_singleton_self _
        exact Multiset.mem_of_mem_filter inside)
    timers ⟨staged, accounted, tended, fires⟩
  exact kept.1

end

end

end FluentBit.Engine
