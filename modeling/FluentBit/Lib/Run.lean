import Mathlib.Data.List.Basic

/-!
# Guarded runs

A system is given by an executable step function: the new state and the
answer of one event, or nothing when the event is not possible.  A guard
restricts the steps a run may take.  The two rules below turn facts about one
step into facts about whole runs: an invariant holds in every state reached,
and a simulated specification allows every answer given on the way.
-/

namespace FluentBit.Run

variable {State Event Answer Abstract : Type*}

/-- The states reached by steps that all meet the guard. -/
inductive Reaches (step : State → Event → Option State)
    (guard : State → Event → Prop) (start : State) : State → Prop where
  | refl : Reaches step guard start start
  | step {current next : State} {event : Event} (reached : Reaches step guard start current)
      (allowed : guard current event)
      (taken : step current event = some next) :
      Reaches step guard start next

def run (step : State → Event → Option State) : State → List Event → Option State
  | state, [] => some state
  | state, event :: events =>
    match step state event with
    | none => none
    | some next => run step next events

theorem run_append (step : State → Event → Option State) (state : State)
    (first second : List Event) :
    run step state (first ++ second) =
      (run step state first).bind fun next => run step next second := by
  induction first generalizing state with
  | nil => rfl
  | cons event first ih =>
    rw [List.cons_append, run, run]
    cases step state event with
    | none => rfl
    | some next => exact ih next

def runGuarded (step : State → Event → Option State) (guard : State → Event → Prop)
    [∀ state event, Decidable (guard state event)] :
    State → List Event → Option State
  | state, [] => some state
  | state, event :: events =>
    if guard state event then
      match step state event with
      | none => none
      | some next => runGuarded step guard next events
    else none

section
variable {step : State → Event → Option State} {guard : State → Event → Prop} {start state : State}
  (reached : Reaches step guard start state)
include reached

/-- Invariant rule: what holds initially and is kept by every guarded step
holds in every state reached. -/
theorem Reaches.invariant {Invariant : State → Prop} (initial : Invariant start)
    (kept : ∀ {current next event}, Invariant current →
      guard current event → step current event = some next → Invariant next) :
    Invariant state := by
  induction reached with
  | refl => exact initial
  | step _ allowed taken ih => exact kept ih allowed taken

theorem Reaches.mono {weaker : State → Event → Prop}
    (weakened : ∀ {current event}, guard current event → weaker current event) :
    Reaches step weaker start state := by
  induction reached with
  | refl => exact .refl
  | step _ allowed taken ih => exact ih.step (weakened allowed) taken

theorem Reaches.of_runGuarded [∀ current event, Decidable (guard current event)] {last : State}
    {events : List Event}
    (taken : runGuarded step guard state events = some last) : Reaches step guard start last := by
  induction events generalizing state with
  | nil =>
    cases taken
    exact reached
  | cons event events ih =>
    simp only [runGuarded] at taken
    split at taken
    · next allowed =>
      split at taken
      · cases taken
      · next next possible => exact ih (reached.step allowed possible) taken
    · cases taken

end

/-- Every event of the list meets the guard in the state it finds, for systems
in which every event is possible. -/
def Meets (step : State → Event → State) (guard : State → Event → Prop) : State → List Event → Prop
  | _, [] => True
  | state, event :: events => guard state event ∧ Meets step guard (step state event) events

variable {guard : State → Event → Prop} {state : State} {events : List Event}

/-- What all events of the list satisfy may be added to the guard. -/
theorem Meets.and_forall {step : State → Event → State} {Admitted : Event → Prop}
    (meets : Meets step guard state events) (admitted : ∀ event ∈ events, Admitted event) :
    Meets step (fun state event => guard state event ∧ Admitted event) state
      events := by
  induction events generalizing state with
  | nil => trivial
  | cons event events ih =>
    obtain ⟨first, later⟩ := meets
    exact ⟨⟨first, admitted event List.mem_cons_self⟩, ih later fun other
      member => admitted other (List.mem_cons_of_mem _ member)⟩

/-- Invariant rule for facts about the state and the events before it. -/
theorem Meets.history_invariant {step : State → Event → State}
    {Invariant : State → List Event → Prop}
    (kept : ∀ {state past event}, Invariant state past → guard state event →
      Invariant (step state event) (past ++ [event])) {past : List Event}
    (initial : Invariant state past) (meets : Meets step guard state events) :
    Invariant (events.foldl step state) (past ++ events) := by
  induction events generalizing state past with
  | nil => rwa [List.append_nil]
  | cons event events ih =>
    obtain ⟨first, later⟩ := meets
    have final := ih (kept initial first) later
    rwa [List.append_assoc, List.singleton_append] at final

/-- The answers of a list of calls, for systems in which every call is
possible. -/
def answers (call : State → Event → State × Answer) : State → List Event → List Answer
  | _, [] => []
  | state, event :: events => (call state event).2 :: answers call (call state event).1 events

/-- Every call of the list meets the guard in the state it is made in. -/
def Guarded (call : State → Event → State × Answer) (guard : State → Event → Prop) :
    State → List Event → Prop
  | _, [] => True
  | state, event :: events => guard state event ∧ Guarded call guard (call state event).1 events

/-- The answers a specification allows for a list of calls. -/
inductive Conforms (spec : Abstract → Event → Answer → Abstract → Prop) :
    Abstract → List Event → List Answer → Prop where
  | nil {state : Abstract} : Conforms spec state [] []
  | cons {state next : Abstract} {event : Event} {events : List Event}
      {answer : Answer} {rest : List Answer}
      (allowed : spec state event answer next)
      (remaining : Conforms spec next events rest) :
      Conforms spec state (event :: events) (answer :: rest)

/-- Simulation rule: when every guarded call is matched by a step of the
specification, the specification allows all answers of a guarded run. -/
theorem conforms_of_simulation {call : State → Event → State × Answer}
    {spec : Abstract → Event → Answer → Abstract → Prop}
    (Related : State → Abstract → Prop)
    (simulates : ∀ {state abstract event}, Related state abstract →
      guard state event → ∃ next,
        spec abstract event (call state event).2 next ∧
          Related (call state event).1 next) {abstract : Abstract}
    (related : Related state abstract)
    (guarded : Guarded call guard state events) :
    Conforms spec abstract events (answers call state events) := by
  induction events generalizing state abstract with
  | nil => exact .nil
  | cons event events ih =>
    obtain ⟨allowed, remaining⟩ := guarded
    obtain ⟨next, answered, relatedNext⟩ := simulates related allowed
    exact .cons answered (ih relatedNext remaining)

end FluentBit.Run
