import FluentBit.Engine.RouteEvents

/-!
# The budget of a route

The attempts of a route are counted in a retry that is created when a flush
first asks for one and that lives in the list of its task.  An output that
always asks for a retry is flushed once and then as often as its limit says;
what other outputs answer has no part in this.
-/

namespace FluentBit.Engine

variable {Out : Type} [DecidableEq Out]

/-- Whether `handle_output_event` adds the records of the task to
`output_dropped_records_total`. -/
def dropsRecords (config : Config Out) (state : State Out) (ref : TaskRef)
    (out : Out) (ret : Ret) (env : OutputEnv) : Bool :=
  let state :=
    if (config.output out).synchronous then
      outputTaskSingleplexFlushNext config state out
    else state
  match ret with
  | .ok => false
  | .error => true
  | .retry =>
    if (config.output out).retryLimit = 0 then true
    else (taskRetryCreate config state ref out env.alloc).2.isNone

def Event.drops (config : Config Out) (state : State Out) : Event Out → Option (TaskRef × Out)
  | .outputEvent id env starts =>
    match state.findFlush id with
    | none => none
    | some flush =>
      match flush.phase with
      | .returned ret =>
        let state := state.load { starts := starts, allocs := [] }
        if dropsRecords config (state.removeFlush id) flush.task
            flush.out ret env then
          some (flush.task, flush.out)
        else none
      | _ => none
  | _ => none

def Event.answers (state : State Out) : Event Out → Option (TaskRef × Out)
  | .outputReturn id _ => (state.findFlush id).map fun flush => (flush.task, flush.out)
  | _ => none

def Tally.after (config : Config Out) (ref : TaskRef) (out : Out)
    (state : State Out) (tally : Tally) (event : Event Out) : Tally :=
  { answers := tally.answers + if event.answers state = some (ref, out) then 1 else 0
    dropped := tally.dropped + if event.drops config state = some (ref, out) then 1 else 0 }

def tallyStep (config : Config Out) (ref : TaskRef) (out : Out) (current : State Out × Tally)
    (event : Event Out) : Option (State Out × Tally) :=
  (step config current.1 event).map fun next =>
    (next, current.2.after config ref out current.1 event)

/-- The flushes of a task to an output so far: those the output has answered
and those it is still busy with. -/
def flushedTo (state : State Out) (tally : Tally) (ref : TaskRef) (out : Out) : Nat :=
  tally.answers + (state.flights ref out).countP fun flush => !flush.phase.isReturned

def View.outstanding (view : View Out) : Nat :=
  view.flights.length + view.waiting + Multiset.card view.requests

/-- An output that asks for a retry each time is flushed once and as often
again as its limit says, and then its records are counted as dropped.  The task
lives until then. -/
structure WithinBudget (state : State Out) (tally : Tally) (ref : TaskRef)
    (out : Out) (limit : Nat) : Prop where
  most : flushedTo state tally ref out ≤ limit + 1
  unfinished : (state.view ref out).outstanding ≠ 0 →
    tally.dropped = 0 ∧ (state.task ref).isSome = true
  finished : (state.view ref out).outstanding = 0 →
    flushedTo state tally ref out = 0 ∧ tally.dropped = 0 ∨
      flushedTo state tally ref out = limit + 1 ∧ tally.dropped = 1

/-- Without a limit the records are never dropped, and once the task has been
flushed there is always something to be done for it. -/
structure NeverDropped (state : State Out) (tally : Tally) (ref : TaskRef) (out : Out) : Prop where
  dropped : tally.dropped = 0
  unfinished : flushedTo state tally ref out ≠ 0 →
    (state.view ref out).outstanding ≠ 0 ∧ (state.task ref).isSome = true

/-- The completion of a flush of one output leaves the routes of all tasks to
other outputs as they are: their retries and the requests for them, their
entries and their flushes. -/
def CompletionsApart (config : Config Out) (state : State Out) : Prop :=
  ∀ (flush : Flush Out) (env : OutputEnv) (starts : List StartOutcome)
    (next : State Out), flush ∈ state.flushes →
    step config state (.outputEvent flush.id env starts) = some next →
      ∀ ref out, out ≠ flush.out → next.view ref out = state.view ref out

/-- What the route itself meets: its flushes are not dropped, its output
answers them with `FLB_RETRY`, its retry can be allocated and scheduled, its
chunk is readable, and it is not evicted. -/
def RouteServed (ref : TaskRef) (out : Out) (state : State Out) : Event Out → Prop
  | .resume id =>
    ∀ flush ∈ state.findFlush id, flush.task = ref ∧ flush.out = out →
      ∀ task ∈ state.task ref, taskGetRouteStatus task out ≠ .dropped
  | .outputReturn id ret =>
    ∀ flush ∈ state.findFlush id, flush.task = ref ∧ flush.out = out → ret = .retry
  | .outputEvent id env _ =>
    ∀ flush ∈ state.findFlush id, flush.task = ref ∧ flush.out = out →
      env.alloc = true ∧ env.backoff ≠ none
  | .retryTimer id env _ =>
    ∀ request ∈ state.requests, request.id = id →
      OfRoute ref out request.data →
        (env.chunkUp = false → env.backoff ≠ none) ∧ (env.chunkUp = true → env.content = true)
  | .releaseChunk other => other ≠ ref
  | _ => True

def Sustained (ref : TaskRef) (out : Out) (current : State Out × Tally) (event : Event Out) :
    Prop :=
  NoTaskStranded current.1 event ∧ RouteServed ref out current.1 event

instance (ref : TaskRef) (out : Out) (state : State Out) :
    (event : Event Out) → Decidable (RouteServed ref out state event)
  | .resume _ | .outputReturn _ _ | .outputEvent _ _ _
  | .retryTimer _ _ _ => inferInstanceAs (Decidable (∀ _ ∈ _, _))
  | .releaseChunk _ => inferInstanceAs (Decidable (_ ≠ _))
  | .dispatch _ _ _ | .workerStart _ _ | .frameTimer _ _
  | .rescheduleRetries _ _ | .dropRoute _ _ => isTrue trivial

instance (ref : TaskRef) (out : Out) (current : State Out × Tally)
    (event : Event Out) : Decidable (Sustained ref out current event) :=
  inferInstanceAs (Decidable (_ ∧ _))

section
variable {config : Config Out} {ref : TaskRef} {out : Out}
  {state next : State Out} {tally : Tally} {stage : Stage Out} {limit : Int}

theorem Tally.after_of_none {event : Event Out} (answers : event.answers state ≠ some (ref, out))
    (drops : event.drops config state ≠ some (ref, out)) :
    tally.after config ref out state event = tally := by
  simp only [Tally.after, if_neg answers, if_neg drops, Nat.add_zero]

variable {flush : Flush Out}

omit [DecidableEq Out] in
theorem findFlush_of_mem (numbered : Numbered state) (member : flush ∈ state.flushes) :
    state.findFlush flush.id = some flush :=
  Keyed.lookup_of_mem numbered.flushIds member

theorem Budgeted.load (budgeted : Budgeted limit tally ref out state) (script : Script) :
    Budgeted limit tally ref out (state.load script) := by
  obtain ⟨stage, staged, tallied⟩ := budgeted
  exact ⟨stage, staged.pass (passes_of_task (Nat.le_refl _) rfl) rfl, tallied⟩

theorem Staged.setRouteStatus (staged : Staged ref out state stage)
    (changed : TaskRef) (output : Out) (status : RouteStatus) :
    Staged ref out (taskSetRouteStatus state changed output status)
      stage := by
  apply staged.modifyTask
  · intro task
    refine ⟨rfl, ?_⟩
    simp only [Task.outs, List.map_map]
    rw [List.map_congr_left]
    intro route _
    simp only [Function.comp_apply]
    split <;> rfl
  · exact fun task => rfl

theorem Staged.setPhaseElsewhere (staged : Staged ref out state stage) (numbered : Numbered state)
    (member : flush ∈ state.flushes) (elsewhere : ¬(flush.task = ref ∧ flush.out = out))
    (phase : Phase) : Staged ref out (state.setPhase flush.id phase) stage := by
  exact staged.pass (passes_of_task (Nat.le_refl _) rfl) (view_setPhase numbered member elsewhere)

theorem Staged.setPhaseHere {retry : Option (TaskRetry Out)}
    (staged : Staged ref out state (.flying flush retry)) (phase : Phase) :
    Staged ref out (state.setPhase flush.id phase)
      (.flying { flush with phase := phase } retry) := by
  constructor
  · rw [view_setPhase_here (congrArg View.flights staged.view), staged.view]
    rfl
  · exact fun _ => staged.begun (by rintro ⟨⟩)
  · exact fun _ => staged.live trivial
  · exact staged.distinct

section
variable (budgeted : Budgeted limit tally ref out state)
include budgeted

variable (numbered : Numbered state) (member : flush ∈ state.flushes)
include numbered member

theorem Budgeted.setPhase (before : flush.phase.isReturned = false) {phase : Phase}
    (after : phase.isReturned = false) :
    Budgeted limit tally ref out (state.setPhase flush.id phase) := by
  obtain ⟨stage, staged, tallied⟩ := budgeted
  by_cases here : flush.task = ref ∧ flush.out = out
  · obtain ⟨retry, rfl⟩ := staged.flying member here
    exact ⟨_, staged.setPhaseHere phase, tallied.advances (.goesOn before after)⟩
  · exact ⟨stage, staged.setPhaseElsewhere numbered member here phase, tallied⟩

theorem Budgeted.resume {task : Task Out}
    (served : flush.task = ref ∧ flush.out = out → taskGetRouteStatus task out ≠ .dropped) :
    Budgeted limit tally ref out (resumeFlush state flush task) := by
  obtain ⟨stage, staged, tallied⟩ := budgeted
  simp only [resumeFlush]
  split
  · next dropped =>
    have elsewhere : ¬(flush.task = ref ∧ flush.out = out) := by
      intro here
      exact served here (here.2 ▸ dropped)
    refine ⟨stage, ?_, tallied⟩
    exact (staged.setRouteStatus flush.task flush.out .inactive).setPhaseElsewhere
      (numbered.retains (retains_modifyTask _ _ _)) member elsewhere _
  · exact ⟨stage, staged.setRouteStatus _ _ _, tallied⟩

theorem Budgeted.outputReturn (phase : flush.phase = .running) {ret : Ret}
    (served : flush.task = ref ∧ flush.out = out → ret = .retry) :
    Budgeted limit (tally.after config ref out state (.outputReturn flush.id ret)) ref out
      (outputReturn state flush ret) := by
  obtain ⟨stage, staged, tallied⟩ := budgeted
  have routed := staged.setRouteStatus flush.task flush.out .inactive
  have answers : (Event.outputReturn flush.id ret).answers state =
      some (flush.task, flush.out) := by
    simp only [Event.answers, findFlush_of_mem numbered member, Option.map_some]
  by_cases here : flush.task = ref ∧ flush.out = out
  · obtain ⟨retry, rfl⟩ := staged.flying member here
    obtain rfl := served here
    rw [here.1, here.2] at answers
    simp only [Tally.after, answers, if_true, Event.drops]
    refine ⟨_, routed.setPhaseHere _, ?_⟩
    cases tallied with
    | busy _ within => exact .answered rfl within
    | answered returned _ =>
      rw [phase] at returned
      cases returned
  · have apart : (Event.outputReturn flush.id ret).answers state ≠
        some (ref, out) := by
      rw [answers]
      intro same
      cases same
      exact here ⟨rfl, rfl⟩
    rw [Tally.after_of_none apart (by rintro ⟨⟩)]
    refine ⟨stage, ?_, tallied⟩
    exact routed.setPhaseElsewhere (numbered.retains (retains_modifyTask _ _ _)) member here _

end

/-! ### Completions -/

section

theorem tended_flushNextIf {spared : RetryRef Out → Prop} (tended : Tended spared state)
    (succeeds : Succeeds state) (output : Out) :
    Tended spared (flushNextIf config state output) := by
  apply flushNextIf_keeps _ tended
  exact tended.flushNext succeeds output

variable [Fintype Out] {flush : Flush Out} {env : OutputEnv}

theorem accounted_flushNextIf {offset : TaskRef → Int} (accounted : Accounted offset state)
    (output : Out) : Accounted offset (flushNextIf config state output) := by
  apply flushNextIf_keeps _ accounted
  exact (accounted_queueClosed _ output).outputTaskSingleplexFlushNext accounted

theorem Budgeted.completionElsewhere (config : Config Out) (env : OutputEnv)
    (budgeted : Budgeted limit tally ref out state) (succeeds : Succeeds state) {changed : TaskRef}
    {output : Out} (elsewhere : ¬(changed = ref ∧ output = out))
    (accounted : Accounted (moved (fun _ => 0) changed 1) state)
    (tended : Tended (OfRoute changed output) state) (ret : Ret) :
    Budgeted limit tally ref out (handleOutputEvent config state changed output ret env) := by
  have flushed : Budgeted limit tally ref out
      (flushNextIf config state output) := by
    apply flushNextIf_keeps _ budgeted
    exact budgeted.flushNext succeeds output
  have counted := @accounted_flushNextIf _ _ config state _ _ accounted output
  have kept := @tended_flushNextIf _ _ config state _ tended succeeds output
  obtain ⟨stage, staged, tallied⟩ := flushed
  have finished := staged.finishElsewhere elsewhere counted kept
  cases ret with
  | ok | error => exact ⟨stage, finished, tallied⟩
  | retry => exact ⟨stage, staged.retryElsewhere elsewhere counted kept env, tallied⟩

theorem Freed.completion {retry : Option (TaskRetry Out)}
    (isFree : Freed ref out state retry) (succeeds : Succeeds state)
    (accounted : Accounted (moved (fun _ => 0) ref 1) state)
    (tended : Tended (OfRoute ref out) state)
    (retries : (config.output out).retryLimit ≠ 0)
    (alloc : env.alloc = true) (wait : env.backoff ≠ none)
    (within : 0 ≤ (config.output out).retryLimit →
      attemptsOf retry ≤ (config.output out).retryLimit) :
    Budgeted (config.output out).retryLimit
      { answers := attemptsOf retry + 1
        dropped := if dropsRecords config state ref out .retry env then 1
          else 0 } ref out
      (handleOutputEvent config state ref out .retry env) := by
  obtain ⟨backoff, granted⟩ := Option.ne_none_iff_exists'.mp wait
  have flushed : Freed ref out (flushNextIf config state out) retry := by
    apply flushNextIf_keeps (fun current => Freed ref out current retry) isFree
    exact isFree.flushNext succeeds out
  have counted := @accounted_flushNextIf _ _ config state _ _ accounted out
  have kept := @tended_flushNextIf _ _ config state _ tended succeeds out
  have drops : dropsRecords config state ref out .retry env =
      (taskRetryCreate config (flushNextIf config state out) ref out env.alloc).2.isNone := by
    simp only [dropsRecords, if_neg retries]
    rfl
  rw [drops]
  exact flushed.handleRetry counted kept retries alloc granted within

theorem Budgeted.outputEvent
    (budgeted : Budgeted (config.output out).retryLimit tally ref out state) (lively : Lively state)
    (member : flush ∈ state.flushes) {ret : Ret} (phase : flush.phase = .returned ret)
    (retries : (config.output out).retryLimit ≠ 0)
    (served : flush.task = ref ∧ flush.out = out → env.alloc = true ∧ env.backoff ≠ none) :
    Budgeted (config.output out).retryLimit
      { tally with
        dropped := tally.dropped +
          if (if dropsRecords config (state.removeFlush flush.id) flush.task
            flush.out ret env then some (flush.task, flush.out) else none) =
              some (ref, out) then 1 else 0 } ref out
      (handleOutputEvent config (state.removeFlush flush.id) flush.task flush.out ret env) := by
  have numbered := lively.counted.numbered
  have accounted := lively.counted.accounted.removeFlush numbered member
  have tended := lively.tended.removeFlush numbered member
  have succeeds : Succeeds (state.removeFlush flush.id) :=
    lively.succeeds.of_tail (.inl rfl) (.inl rfl)
  obtain ⟨stage, staged, tallied⟩ := budgeted
  by_cases here : flush.task = ref ∧ flush.out = out
  · obtain ⟨retry, rfl⟩ := staged.flying member here
    obtain ⟨alloc, wait⟩ := served here
    obtain ⟨rfl, rfl⟩ := here
    cases tallied with
    | busy unreturned _ =>
      rw [phase] at unreturned
      cases unreturned
    | answered returned within =>
      rw [phase] at returned
      cases returned
      have completed := staged.free.completion succeeds accounted tended retries alloc wait within
      cases drops : dropsRecords config (state.removeFlush flush.id)
          flush.task flush.out .retry env with
      | true | false => simpa [drops] using completed
  · have freed : Budgeted (config.output out).retryLimit tally ref out (state.removeFlush flush.id)
      := ⟨stage, ⟨(view_removeFlush numbered member here).trans staged.view, staged.begun,
      staged.live, staged.distinct⟩, tallied⟩
    have completed := freed.completionElsewhere config env succeeds here accounted tended ret
    have apart : some (flush.task, flush.out) ≠ some (ref, out) := by
      intro same
      cases same
      exact here ⟨rfl, rfl⟩
    cases drops : dropsRecords config (state.removeFlush flush.id)
        flush.task flush.out ret env with
    | true => simpa [drops, apart] using completed
    | false => simpa [drops] using completed

end

/-! ### Runs -/

section

theorem withinBudget_of_open {most : Nat} (staged : Staged ref out state stage)
    (opened : stage.IsOpen) (busy : stage.view.outstanding ≠ 0)
    (few : flushedTo state tally ref out ≤ most + 1) (dropped : tally.dropped = 0) :
    WithinBudget state tally ref out most := by
  refine ⟨few, fun _ => ⟨dropped, staged.live opened⟩, ?_⟩
  rw [staged.view]
  exact fun idle => (busy idle).elim

theorem Budgeted.withinBudget {most : Nat} (budgeted : Budgeted limit tally ref out state)
    (same : limit = most) : WithinBudget state tally ref out most := by
  obtain ⟨stage, staged, tallied⟩ := budgeted
  have flights : state.flights ref out = stage.view.flights := congrArg View.flights staged.view
  subst same
  cases tallied with
  | unstarted =>
    constructor <;>
      simp [flushedTo, staged.view, flights, Stage.view, View.outstanding]
  | queued within | scheduled within =>
    have few := within (Int.natCast_nonneg most)
    apply withinBudget_of_open staged trivial (by simp [Stage.view, View.outstanding]) _ rfl
    simp only [flushedTo, flights, Stage.view, List.countP_nil]
    omega
  | busy phase within =>
    have few := Int.ofNat_le.mp (within (Int.natCast_nonneg most))
    apply withinBudget_of_open staged trivial (by simp [Stage.view, View.outstanding]) _ rfl
    simpa [flushedTo, flights, Stage.view, phase] using few
  | answered phase within =>
    have few := Int.ofNat_le.mp (within (Int.natCast_nonneg most))
    apply withinBudget_of_open staged trivial (by simp [Stage.view, View.outstanding]) _ rfl
    simpa [flushedTo, flights, Stage.view, phase, Phase.isReturned] using few
  | spent reached =>
    obtain rfl := Int.ofNat_inj.mp reached
    constructor
    · simp [flushedTo, flights, Stage.view]
    · simp [staged.view, Stage.view, View.outstanding]
    · intro _
      exact .inr ⟨by simp [flushedTo, flights, Stage.view], rfl⟩

theorem Budgeted.neverDropped (budgeted : Budgeted limit tally ref out state)
    (unlimited : limit = -1) : NeverDropped state tally ref out := by
  obtain ⟨stage, staged, tallied⟩ := budgeted
  have flights : state.flights ref out = stage.view.flights := congrArg View.flights staged.view
  have live := staged.live
  cases tallied with
  | unstarted =>
    constructor
    · rfl
    · simp [flushedTo, flights, Stage.view]
  | queued within | busy phase within | answered phase within | scheduled within =>
    refine ⟨rfl, fun _ => ⟨?_, live trivial⟩⟩
    simp [staged.view, Stage.view, View.outstanding]
  | spent reached => omega

theorem completionsApart_of_wired (numbered : Numbered state) (wired : AllWired state) :
    CompletionsApart config state := by
  intro flush env starts next member taken other output different
  have elsewhere : ¬(flush.task = other ∧ flush.out = output) := fun both => different both.2.symm
  have loaded : Numbered (state.load { starts := starts, allocs := [] }) :=
    { numbered with }
  have removed := view_removeFlush loaded member elsewhere
  have still : AllWired ((state.load
      { starts := starts, allocs := [] }).removeFlush flush.id) :=
    wired.of_queue rfl
  have found := findFlush_of_mem numbered member
  simp only [step, found] at taken
  split at taken
  · cases taken
    rw [view_handleOutputEvent_of_ne different still, removed]
    rfl
  · cases taken

variable [Fintype Out]

theorem budgeted_step {event : Event Out} (alive : Alive state)
    (budgeted : Budgeted (config.output out).retryLimit tally ref out state)
    (retries : (config.output out).retryLimit ≠ 0) (stranded : NoTaskStranded state event)
    (served : RouteServed ref out state event) (taken : step config state event = some next) :
    Budgeted (config.output out).retryLimit
      (tally.after config ref out state event) ref out next := by
  have numbered := alive.counted.numbered
  have loaded := budgeted.load
  obtain ⟨stage, staged, tallied⟩ := id budgeted
  cases step_result taken with
  | dispatch input created script =>
    exact (loaded script).engineDispatch config (alive.lively stranded) input created
  | workerStart flush created member phase =>
    obtain rfl : created = true := stranded
    exact budgeted.setPhase numbered member (by rw [phase]; rfl) rfl
  | resume flush task member phase live =>
    apply budgeted.resume numbered member
    intro here
    exact served flush (findFlush_of_mem numbered member) here task (here.1 ▸ live)
  | outputReturn flush ret member phase =>
    apply budgeted.outputReturn numbered member phase
    exact served flush (findFlush_of_mem numbered member)
  | outputEvent flush ret task env starts member phase live =>
    have lively : Lively (state.load { starts := starts, allocs := [] }) :=
      alive.lively ⟨stranded, by simp⟩
    have completed := (loaded { starts := starts, allocs := [] }).outputEvent lively member phase
      retries (served flush (findFlush_of_mem numbered member))
    simpa [Tally.after, Event.answers, Event.drops,
      findFlush_of_mem numbered member, phase] using completed
  | retryTimer request task env script member live linked =>
    have lively := alive.lively stranded.1
    have result : TimerResult config (state.load script) request env
        (schedRequestTimer config (state.load script) request env) :=
      lively.succeeds.schedRequestTimer_result lively.counted.idle request env
    by_cases here : OfRoute ref out request.data
    · obtain ⟨scheduled, readable⟩ := served request member rfl here
      exact (loaded script).timerHere lively.counted.numbered member here scheduled readable result
    · obtain ⟨stage, staged, tallied⟩ := loaded script
      exact ⟨stage, staged.timerElsewhere lively.counted.numbered lively.counted.accounted
        lively.tended member here result, tallied⟩
  | frameTimer now timers =>
    exact ⟨stage, staged.scheduleRequestPromote now timers, tallied⟩
  | rescheduleRetries now timers =>
    exact ⟨stage, staged.engineRescheduleRetries alive.counted.accounted alive.tended now stranded,
      tallied⟩
  | dropRoute changed output task live inUse =>
    have dropped := staged.setRouteStatus changed output .dropped
    exact ⟨stage, dropped.pass (passes_of_task (Nat.le_refl _) rfl) rfl, tallied⟩
  | releaseChunk changed task live unused =>
    exact ⟨stage, staged.taskDestroy alive.tended (fun same => (served same).elim), tallied⟩

theorem budgeted_run {current : State Out × Tally} (retries : (config.output out).retryLimit ≠ 0)
    (reached : Run.Reaches (tallyStep config ref out) (Sustained ref out)
      (State.initial, { answers := 0, dropped := 0 }) current) :
    Alive current.1 ∧ Budgeted (config.output out).retryLimit current.2 ref out current.1 := by
  apply reached.invariant ⟨alive_initial, .unstarted, staged_initial ref out, .unstarted⟩
  rintro current next event ⟨alive, budgeted⟩ ⟨stranded, served⟩ taken
  obtain ⟨after, possible, rfl⟩ := Option.map_eq_some_iff.mp taken
  exact ⟨alive_step alive stranded possible,
    budgeted_step alive budgeted retries stranded served possible⟩

/-- In every run in which nothing fails for a route whose output always asks
for a retry: with a limit the task is flushed to the output once and as often
again as the limit says, and then its records are counted as dropped once;
without a limit they never are.  And in every run at all, the completion of a
flush leaves the retries of other outputs alone. -/
theorem retry_budget (config : Config Out) (ref : TaskRef) (out : Out) :
    (∀ current : State Out × Tally,
      Run.Reaches (tallyStep config ref out) (Sustained ref out)
        (State.initial, { answers := 0, dropped := 0 }) current →
      (∀ limit : Nat, 1 ≤ limit → (config.output out).retryLimit = limit →
        WithinBudget current.1 current.2 ref out limit) ∧
      ((config.output out).retryLimit = -1 → NeverDropped current.1 current.2 ref out)) ∧
    ∀ state : State Out,
      Run.Reaches (step config) (fun _ _ => True) State.initial state →
        CompletionsApart config state := by
  constructor
  · intro current reached
    constructor
    · intro limit positive same
      have retries : (config.output out).retryLimit ≠ 0 := by omega
      exact (budgeted_run retries reached).2.withinBudget same
    · intro unlimited
      have retries : (config.output out).retryLimit ≠ 0 := by omega
      exact (budgeted_run retries reached).2.neverDropped unlimited
  · intro state reached
    have kept : Numbered state ∧ AllWired state := by
      apply reached.invariant ⟨numbered_initial, allWired_initial⟩
      intro current next event kept _ taken
      exact wired_step kept taken
    exact completionsApart_of_wired kept.1 kept.2

end

end

/-- A task is dispatched to an output that is retried once, and both of its
flushes ask for a retry. -/
def retriedTwice : List (Event Unit) :=
  retriedOnce ++
    [.retryTimer 4
        { chunkUp := true, content := true, now := 1, backoff := none }
        { starts := [], allocs := [] },
      .outputReturn 6 .retry,
      .outputEvent 6 { alloc := true, now := 2, backoff := some 0 } []]

/-- The second of two flushes is the last one. -/
theorem retry_budget_retriedTwice :
    ∃ current : State Unit × Tally,
      Run.Reaches (tallyStep synchronousOutput 0 ()) (Sustained 0 ())
        (State.initial, { answers := 0, dropped := 0 }) current ∧
      current.2 = { answers := 2, dropped := 1 } ∧
      current.1.task 0 = none ∧
      WithinBudget current.1 current.2 0 () 1 := by
  obtain ⟨current, taken, tally, gone⟩ : ∃ current : State Unit × Tally,
      Run.runGuarded (tallyStep synchronousOutput 0 ()) (Sustained 0 ())
        (State.initial, { answers := 0, dropped := 0 }) retriedTwice = some current ∧
      current.2 = { answers := 2, dropped := 1 } ∧
      current.1.task 0 = none := ⟨_, rfl, rfl, rfl⟩
  have reached := Run.Reaches.refl.of_runGuarded taken
  exact ⟨current, reached, tally, gone,
    ((retry_budget synchronousOutput 0 ()).1 current reached).1 1 (Nat.le_refl _) rfl⟩

/-- When the retry of the first flush cannot be scheduled, the task is
destroyed after one flush, and its records are not counted as dropped. -/
theorem unscheduled_retry_is_not_counted :
    ∃ current : State Unit × Tally,
      Run.run (tallyStep synchronousOutput 0 ()) (State.initial, { answers := 0, dropped := 0 })
        [.dispatch 0 [routedTask] { starts := [], allocs := [] }, .outputReturn 2 .retry,
          .outputEvent 2 { alloc := true, now := 0, backoff := none } []] =
          some current ∧
      (synchronousOutput.output ()).retryLimit = 1 ∧
      current.2 = { answers := 1, dropped := 0 } ∧
      current.1.task 0 = none ∧ current.1.flushes = [] ∧
      current.1.allRequests = [] ∧ (current.1.queue ()).pending = [] :=
  ⟨_, rfl, rfl, rfl, rfl, rfl, rfl, rfl⟩

end FluentBit.Engine
