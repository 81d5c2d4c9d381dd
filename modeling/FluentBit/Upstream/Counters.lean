import FluentBit.Upstream.Pool

/-!
# The connection counters

The gauges of an upstream are compared with the queues and the callers they
are meant to count.  Every operation either keeps the difference or changes it
by an amount that can be read off the state it starts in: a connection that is
destroyed a second time is subtracted twice, a timeout takes a busy connection
off the gauge that its release takes off again, and a connection of a worker
is added twice to the gauge of its parent.
-/

namespace FluentBit.Upstream

open Handles Run List

def State.totalDrift (state : State) : Int :=
  state.totalConnections - (state.busyQueue.length + state.avQueue.length)

def State.busyDrift (state : State) : Int := state.busyConnections - state.held.length

/-- `1` for a connection that is in the destroy queue already. -/
def State.doomed (state : State) (conn : Ref) : Int := if conn ∈ state.destroyQueue then 1 else 0

section
variable {settings : Settings} {state : State} {conn : Ref}

theorem doomed_of_front (nodup : state.queued.Nodup)
    (front : conn ∈ state.busyQueue ∨ conn ∈ state.avQueue) : state.doomed conn = 0 := by
  apply if_neg
  intro destroy
  have apart := not_front_of_destroy nodup destroy
  exact front.elim apart.1 apart.2

theorem length_move_destroy (queue : Queue) :
    ((state.move conn queue).destroyQueue.length : Int) =
      state.destroyQueue.length - state.doomed conn + if queue = .destroy then 1 else 0 := by
  have erased : ((state.destroyQueue.erase conn).length : Int) =
      state.destroyQueue.length - state.doomed conn := by
    rw [State.doomed]
    split
    · next member =>
      have positive := length_pos_of_mem member
      rw [length_erase_of_mem member]
      omega
    · next other => rw [erase_of_not_mem other, Int.sub_zero]
  simp only [State.move, length_append]
  split
  · rw [length_singleton]
    omega
  · rw [length_nil]
    omega

theorem totalDrift_move (nodup : state.queued.Nodup)
    (member : conn ∈ state.queued) (queue : Queue) :
    (state.move conn queue).totalDrift =
      state.totalDrift - state.doomed conn + if queue = .destroy then 1 else 0 := by
  have same := (perm_move nodup member queue).length_eq
  have destroyed := @length_move_destroy state conn queue
  have total : (state.move conn queue).totalConnections = state.totalConnections := rfl
  simp only [State.queued, length_append] at same
  rw [State.totalDrift, State.totalDrift, total]
  omega

theorem totalDrift_prepareDestroyConn (nodup : state.queued.Nodup) (member : conn ∈ state.queued) :
    (prepareDestroyConn state conn).totalDrift = state.totalDrift - state.doomed conn := by
  have moved : ((state.modify conn Connection.close).move conn
      .destroy).totalDrift = state.totalDrift - state.doomed conn + 1 :=
    @totalDrift_move (state.modify conn Connection.close) conn nodup member .destroy
  rw [State.totalDrift] at moved ⊢
  simp only [prepareDestroyConn]
  omega

theorem totalDrift_prepareDestroyConn_front (nodup : state.queued.Nodup)
    (front : conn ∈ state.busyQueue ∨ conn ∈ state.avQueue) :
    (prepareDestroyConn state conn).totalDrift = state.totalDrift := by
  have member : conn ∈ state.queued := State.mem_queued.mpr (front.imp_right .inl)
  rw [totalDrift_prepareDestroyConn nodup member, doomed_of_front nodup front, Int.sub_zero]

variable {round : List Ref}

/-- The loop of a get keeps the connections and the gauge, and finds the first
one that works. -/
theorem takeAvailable_counts (failed : Ref → Bool) (nodup : state.queued.Nodup)
    (available : state.avQueue = round) :
    (takeAvailable failed round state).2.queued.Perm state.queued ∧
      (takeAvailable failed round state).2.totalDrift = state.totalDrift ∧
      (takeAvailable failed round state).2.busyDrift = state.busyDrift ∧
      (takeAvailable failed round state).1 = round.find? fun conn => !failed conn := by
  induction round generalizing state with
  | nil => exact ⟨.refl _, rfl, rfl, rfl⟩
  | cons conn round ih =>
    have av : conn ∈ state.avQueue := by
      rw [available]
      exact mem_cons_self
    have member : conn ∈ state.queued := State.mem_queued.mpr (.inr (.inl av))
    have moved := perm_move nodup member .busy
    have drift : (state.move conn .busy).totalDrift = state.totalDrift := by
      rw [totalDrift_move nodup member, doomed_of_front nodup (.inr av),
        if_neg nofun, Int.sub_zero, Int.add_zero]
    rw [takeAvailable]
    split
    · next broken =>
      generalize (fun connection : Connection =>
        { connection with busyFlag := false }) = change
      -- The connection goes through the busy queue to the destroy queue.
      have nodupMoved : ((state.move conn .busy).modify conn
        change).queued.Nodup := moved.nodup_iff.mpr nodup
      have busy : conn ∈ ((state.move conn .busy).modify conn
        change).busyQueue := (mem_move_busy nodup).mpr rfl
      have queued := State.mem_queued.mpr (.inl busy)
      have perm := perm_prepareDestroyConn nodupMoved queued
      have rest : (prepareDestroyConn ((state.move conn .busy).modify conn
          change) conn).avQueue = round := by
        rw [prepareDestroyConn_avQueue (not_av_of_busy nodupMoved busy)]
        exact move_busy_avQueue available
      obtain ⟨later, total, holders, found⟩ := ih (perm.nodup_iff.mpr nodupMoved) rest
      refine ⟨later.trans (perm.trans moved), ?_, holders, ?_⟩
      · rw [total, totalDrift_prepareDestroyConn_front nodupMoved (.inl busy)]
        exact drift
      · rw [found, List.find?_cons_of_neg (by simp [broken])]
    · next works =>
      refine ⟨moved, drift, rfl, ?_⟩
      rw [List.find?_cons_of_pos (by simp [works])]

def creates (settings : Settings) (failed : Ref → Bool) (allocated : Bool) (state : State) : Bool :=
  !(settings.keepalive && state.avQueue.any fun conn => !failed conn) &&
    !limitReached settings state && allocated

variable {next : State}

theorem limitReached_perm (perm : next.queued.Perm state.queued) :
    limitReached settings next = limitReached settings state := by
  have same := perm.length_eq
  simp only [State.queued, length_append] at same
  have lengths : (next.busyQueue.length + next.avQueue.length +
      next.destroyQueue.length : Int) = state.busyQueue.length +
        state.avQueue.length + state.destroyQueue.length := by
    omega
  rw [limitReached, limitReached, lengths]

theorem totalDrift_createConn (now : Int) :
    (createConn settings now state).totalDrift =
      state.totalDrift + if settings.hasParent then 1 else 0 := by
  simp only [createConn, incrementTotal, State.totalDrift, length_append, length_singleton]
  split <;> omega

theorem busyDrift_handOut (now : Int) :
    (handOut settings now state conn).busyDrift = state.busyDrift := by
  simp only [handOut, State.modify, State.busyDrift, length_append, length_singleton]
  omega

theorem connGet_counts (nodup : state.queued.Nodup) (now : Int)
    (failed : Ref → Bool) (allocated : Bool) :
    (connGet settings now failed allocated state).totalDrift =
        state.totalDrift + (if creates settings failed allocated state &&
          settings.hasParent then 1 else 0) ∧
      (connGet settings now failed allocated state).busyDrift = state.busyDrift := by
  have loop : ∃ found after,
      (if settings.keepalive then takeAvailable failed state.avQueue state
        else (none, state)) = (found, after) ∧
      after.queued.Perm state.queued ∧ after.totalDrift = state.totalDrift ∧
      after.busyDrift = state.busyDrift ∧
      (found.isSome = (settings.keepalive && state.avQueue.any fun conn => !failed conn)) := by
    by_cases keepalive : settings.keepalive = true
    · obtain ⟨perm, total, busy, found⟩ :=
        @takeAvailable_counts state state.avQueue failed nodup rfl
      refine ⟨_, _, if_pos keepalive, perm, total, busy, ?_⟩
      rw [found, keepalive, Bool.true_and, Bool.eq_iff_iff]
      simp
    · refine ⟨_, _, if_neg keepalive, .refl _, rfl, rfl, ?_⟩
      rw [Bool.eq_false_iff.mpr keepalive]
      rfl
  obtain ⟨found, after, eq, perm, total, busy, reused⟩ := loop
  rw [connGet, eq, creates, ← reused]
  cases found with
  | some conn =>
    refine ⟨?_, (busyDrift_handOut now).trans busy⟩
    rw [Option.isSome_some, Bool.not_true, Bool.false_and, Bool.false_and,
      Bool.false_and, if_neg Bool.false_ne_true, Int.add_zero]
    exact total
  | none =>
    dsimp only
    rw [limitReached_perm perm]
    by_cases limit : limitReached settings state = true
    · simp [limit, total, busy]
    · rw [if_neg limit]
      cases allocated with
      | false => simp [total, busy]
      | true =>
        refine ⟨?_, busy⟩
        rw [if_pos rfl, totalDrift_createConn, total]
        simp [limit]

/-- A release subtracts a connection from the total that the destroy queue
has, or makes it available without adding it. -/
theorem totalDrift_connRelease (nodup : state.queued.Nodup) (member : conn ∈ state.queued)
    (now : Int) (added : Bool) (connection : Connection) :
    (connRelease settings now added state conn connection).totalDrift =
      state.totalDrift - state.doomed conn := by
  have moved : (state.move conn .av).totalDrift =
      state.totalDrift - state.doomed conn := by
    rw [totalDrift_move nodup member, if_neg nofun, Int.add_zero]
  have nodupMoved : (state.move conn .av).queued.Nodup :=
    (perm_move nodup member .av).nodup_iff.mpr nodup
  have av : conn ∈ (state.move conn .av).avQueue := (mem_move_av nodup).mpr rfl
  have destroyed := @totalDrift_prepareDestroyConn_front (state.move conn .av)
    conn nodupMoved (.inr av)
  rw [connRelease]
  dsimp only
  split
  · split
    · exact destroyed.trans moved
    · split
      · exact destroyed.trans moved
      · exact moved
  · exact totalDrift_prepareDestroyConn nodup member

theorem busyDrift_connRelease (held : conn ∈ state.held) (now : Int)
    (added : Bool) (connection : Connection) :
    (connRelease settings now added state conn connection).busyDrift = state.busyDrift := by
  have gauge : (connRelease settings now added state conn
      connection).busyConnections = state.busyConnections - 1 := by
    rw [connRelease]
    dsimp only
    split
    · split
      · rfl
      · split <;> rfl
    · rfl
  have positive := length_pos_of_mem held
  rw [State.busyDrift, gauge, connRelease_held, length_erase_of_mem held, State.busyDrift]
  omega

def State.isExpired (settings : Settings) (now : Int) (state : State) (conn : Ref) : Bool :=
  match state.connections.get conn with
  | none => false
  | some connection => expired settings now connection

theorem busyDrift_timeoutBusy (now : Int) :
    (timeoutBusy settings now state conn).busyDrift =
      state.busyDrift - if state.isExpired settings now conn then 1 else 0 := by
  rw [timeoutBusy, State.isExpired]
  cases live : state.connections.get conn with
  | none => exact (Int.sub_zero _).symm
  | some connection =>
    dsimp only
    split
    · have later : ∀ gauge : Int, gauge - 1 - state.held.length =
          gauge - state.held.length - 1 := by
        intro gauge
        omega
      split <;> exact later _
    · exact (Int.sub_zero _).symm

theorem totalDrift_timeoutBusy (nodup : state.queued.Nodup) (busy : conn ∈ state.busyQueue)
    (now : Int) : (timeoutBusy settings now state conn).totalDrift = state.totalDrift := by
  rw [timeoutBusy]
  cases live : state.connections.get conn with
  | none => rfl
  | some connection =>
    dsimp only
    split
    · split
      · exact @totalDrift_prepareDestroyConn_front
          (state.modify conn Connection.timeOut) conn nodup (.inl busy)
      · rfl
    · rfl

theorem timeoutBusy_others (now : Int) {other : Ref} (apart : other ≠ conn) :
    (timeoutBusy settings now state conn).connections.get other = state.connections.get other ∧
      (other ∈ (timeoutBusy settings now state conn).busyQueue ↔ other ∈ state.busyQueue) := by
  have marked := @touches_modify state conn Connection.timeOut
  have destroyed := marked.trans touches_prepareDestroyConn
  rw [timeoutBusy]
  cases live : state.connections.get conn with
  | none => exact ⟨rfl, Iff.rfl⟩
  | some connection =>
    dsimp only
    split
    · split
      · exact ⟨destroyed.connections other apart, destroyed.busy other apart⟩
      · exact ⟨marked.connections other apart, marked.busy other apart⟩
    · exact ⟨rfl, Iff.rfl⟩

section
variable (sound : Sound settings state)
include sound

theorem timeoutBusy_round (now : Int) (distinct : round.Nodup)
    (members : ∀ conn ∈ round, conn ∈ state.busyQueue) :
    (round.foldl (timeoutBusy settings now) state).totalDrift = state.totalDrift ∧
      (round.foldl (timeoutBusy settings now) state).busyDrift =
        state.busyDrift - round.countP (state.isExpired settings now) := by
  induction round generalizing state with
  | nil => exact ⟨rfl, (Int.sub_zero _).symm⟩
  | cons conn round ih =>
    obtain ⟨fresh, distinct⟩ := nodup_cons.mp distinct
    have apart : ∀ other ∈ round, other ≠ conn := by
      intro other member same
      exact fresh (same ▸ member)
    have next := sound.timeoutBusy now conn
    obtain ⟨total, busy⟩ := ih next distinct fun other member =>
      (timeoutBusy_others now (apart other member)).2.mpr (members other (mem_cons_of_mem _ member))
    have unchanged : round.countP (State.isExpired settings now
        (timeoutBusy settings now state conn)) = round.countP (state.isExpired settings now) := by
      apply countP_congr
      intro other member
      rw [State.isExpired, State.isExpired, (timeoutBusy_others now (apart other member)).1]
    constructor
    · exact total.trans (totalDrift_timeoutBusy sound.nodup (members conn mem_cons_self) now)
    · rw [foldl_cons, busy, unchanged, busyDrift_timeoutBusy, countP_cons]
      split <;> omega

theorem timeoutAvailable_round (now : Int)
    (distinct : round.Nodup) (members : ∀ conn ∈ round, conn ∈ state.avQueue) :
    (round.foldl (timeoutAvailable settings now) state).totalDrift = state.totalDrift := by
  induction round generalizing state with
  | nil => rfl
  | cons conn round ih =>
    obtain ⟨fresh, distinct⟩ := nodup_cons.mp distinct
    have av := members conn mem_cons_self
    obtain ⟨next, others⟩ := sound.timeoutAvailable now av
    have later := ih next distinct fun other member =>
      others other (fun same => fresh (same ▸ member)) (members other (mem_cons_of_mem _ member))
    refine later.trans ?_
    rw [timeoutAvailable]
    cases live : state.connections.get conn with
    | none => rfl
    | some connection =>
      dsimp only
      split
      · exact totalDrift_prepareDestroyConn_front sound.nodup (.inr av)
      · rfl

theorem connTimeouts_counts (now : Int) :
    (connTimeouts settings now state).totalDrift = state.totalDrift ∧
      (connTimeouts settings now state).busyDrift = state.busyDrift -
        state.busyQueue.countP (state.isExpired settings now) := by
  obtain ⟨total, busy⟩ := timeoutBusy_round sound now
    (nodup_queues sound.nodup).1 fun _ member => member
  have next := sound.timeoutBusy_round now
  constructor
  · exact (timeoutAvailable_round next now (nodup_queues next.nodup).2.1
      fun _ member => member).trans total
  · refine Eq.trans (foldl_kept ?_ _) busy
    intro state conn
    rw [timeoutAvailable]
    split
    · rfl
    · split <;> rfl

end

/-- What a step adds to the drift of the total. -/
def totalError (settings : Settings) (state : State) : Event → Int
  | .get _ failed allocated =>
    if creates settings failed allocated state && settings.hasParent then 1
    else 0
  | .lookupDone conn _ _ => -state.doomed conn
  | .release conn _ _ => -state.doomed conn
  | .remoteClose conn => -state.doomed conn
  | _ => 0

/-- How many connections a step takes off the busy gauge that are held. -/
def busyError (settings : Settings) (state : State) : Event → Nat
  | .timeouts now => state.busyQueue.countP (state.isExpired settings now)
  | _ => 0

theorem totalDrift_connectFailed (sound : Sound settings state)
    {phase : Phase} (opening : (conn, phase) ∈ state.connecting) :
    (connectFailed state conn).totalDrift = state.totalDrift - state.doomed conn := by
  obtain ⟨_, live, _⟩ := (sound.each conn).owned (.inr ⟨phase, opening⟩)
  exact @totalDrift_prepareDestroyConn (state.modify conn _) conn sound.nodup (sound.member live)

theorem destroyConn_drift {pending : Ref → Bool} :
    (destroyConn pending state conn).totalDrift = state.totalDrift ∧
      (destroyConn pending state conn).busyDrift = state.busyDrift := by
  rw [destroyConn]
  split
  · exact ⟨rfl, rfl⟩
  · split <;> exact ⟨rfl, rfl⟩

theorem Sound.step_drift {event : Event} (sound : Sound settings state)
    (taken : Upstream.step settings state event = some next) :
    next.totalDrift = state.totalDrift + totalError settings state event ∧
      next.busyDrift = state.busyDrift - busyError settings state event := by
  cases event with
  | get now failed allocated =>
    cases taken
    obtain ⟨total, busy⟩ := connGet_counts sound.nodup now failed allocated
    exact ⟨total, busy.trans (Int.sub_zero _).symm⟩
  | lookupDone conn found fd =>
    rw [Upstream.step] at taken
    repeat' split at taken
    all_goals cases taken
    · next connection live opening success =>
      -- A lookup that a timeout moved away has an error.
      rw [Bool.and_eq_true, decide_eq_true_eq] at success
      have busy := (sound.lookup_live live (not_not.mp opening)).2.resolve_right
        (Int.not_lt.mpr success.2)
      rw [totalError, doomed_of_front sound.nodup (.inl busy)]
      exact ⟨(Int.add_zero _).symm, (Int.sub_zero _).symm⟩
    · next opening _ =>
      exact ⟨totalDrift_connectFailed sound (not_not.mp opening), (Int.sub_zero _).symm⟩
  | connectDone conn established now =>
    rw [Upstream.step] at taken
    repeat' split at taken
    all_goals cases taken
    · exact ⟨(Int.add_zero _).symm, (busyDrift_handOut now).trans (Int.sub_zero _).symm⟩
    · next opening _ =>
      rw [not_not] at opening
      obtain ⟨_, _, _, busy⟩ := (sound.each conn).handshake opening
      refine ⟨?_, (Int.sub_zero _).symm⟩
      rw [totalDrift_connectFailed sound opening, doomed_of_front sound.nodup (.inl busy)]
      rfl
  | use conn fd netError tsIoTimeout recycle event =>
    rw [Upstream.step] at taken
    repeat' split at taken
    all_goals cases taken
    exact ⟨(Int.add_zero _).symm, (Int.sub_zero _).symm⟩
  | release conn now added =>
    rw [Upstream.step] at taken
    repeat' split at taken
    all_goals cases taken
    next connection live held =>
      exact ⟨totalDrift_connRelease sound.nodup (sound.member live) now added connection,
        (busyDrift_connRelease (not_not.mp held) now added connection).trans (Int.sub_zero _).symm⟩
  | remoteClose conn =>
    rw [Upstream.step] at taken
    repeat' split at taken
    all_goals cases taken
    next connection live _ =>
      exact ⟨totalDrift_prepareDestroyConn sound.nodup (sound.member live), (Int.sub_zero _).symm⟩
  | timeouts now =>
    cases taken
    obtain ⟨total, busy⟩ := connTimeouts_counts sound now
    exact ⟨total.trans (Int.add_zero _).symm, busy⟩
  | pendingDestroy pending =>
    cases taken
    constructor
    · exact (foldl_kept (fun _ _ => destroyConn_drift.1) _).trans (Int.add_zero _).symm
    · exact (foldl_kept (fun _ _ => destroyConn_drift.2) _).trans (Int.sub_zero _).symm

/-- The steps that keep the counters right: a worker opens no connection, what
is looked up, released or closed by the other side is not in the destroy queue,
and a round of timeouts finds no expired connection. -/
def Counts (settings : Settings) (state : State) : Event → Prop
  | .get _ failed allocated =>
    creates settings failed allocated state = true → settings.hasParent = false
  | .lookupDone conn _ _ => conn ∉ state.destroyQueue
  | .release conn _ _ => conn ∉ state.destroyQueue
  | .remoteClose conn => conn ∉ state.destroyQueue
  | .timeouts now =>
    ∀ conn ∈ state.busyQueue, state.isExpired settings now conn = false
  | _ => True

theorem counts_iff (event : Event) :
    Counts settings state event ↔
      totalError settings state event = 0 ∧ busyError settings state event = 0 := by
  have doomed : ∀ conn, -state.doomed conn = 0 ↔
      conn ∉ state.destroyQueue := by
    intro conn
    rw [State.doomed]
    split <;> simp [*]
  cases event with
  | get now failed allocated => simp [Counts, totalError, busyError]
  | lookupDone conn found fd => simp only [Counts, totalError, busyError, doomed, and_true]
  | release conn now added => simp only [Counts, totalError, busyError, doomed, and_true]
  | remoteClose conn => simp only [Counts, totalError, busyError, doomed, and_true]
  | timeouts now => simp [Counts, totalError, busyError, countP_eq_zero]
  | connectDone conn established now => exact ⟨fun _ => ⟨rfl, rfl⟩, fun _ => trivial⟩
  | use conn fd netError tsIoTimeout recycle event => exact ⟨fun _ => ⟨rfl, rfl⟩, fun _ => trivial⟩
  | pendingDestroy pending => exact ⟨fun _ => ⟨rfl, rfl⟩, fun _ => trivial⟩

instance : (event : Event) → Decidable (Counts settings state event)
  | .get _ _ _ => inferInstanceAs (Decidable (_ → _))
  | .lookupDone _ _ _ | .release _ _ _ | .remoteClose _ => inferInstanceAs (Decidable (_ ∉ _))
  | .timeouts _ => inferInstanceAs (Decidable (∀ _ ∈ _, _))
  | .connectDone .. | .use .. | .pendingDestroy .. => isTrue trivial

def State.Exact (state : State) : Prop :=
  state.totalConnections = state.busyQueue.length + state.avQueue.length ∧
    state.busyConnections = state.held.length

theorem exact_iff : state.Exact ↔ state.totalDrift = 0 ∧ state.busyDrift = 0 := by
  rw [State.Exact, State.totalDrift, State.busyDrift, Int.sub_eq_zero, Int.sub_eq_zero]

/-- From right counters a step leads to right counters exactly when it is one
of those named. -/
theorem Sound.step_exact {event : Event} (sound : Sound settings state) (exact : state.Exact)
    (taken : Upstream.step settings state event = some next) :
    next.Exact ↔ Counts settings state event := by
  obtain ⟨total, busy⟩ := sound.step_drift taken
  obtain ⟨noTotal, noBusy⟩ := exact_iff.mp exact
  rw [exact_iff, counts_iff, total, busy, noTotal, noBusy]
  omega

end

/-- After every run of such steps the counters are right and not negative, and
the next step keeps them right exactly when it is such a step. -/
theorem counters_are_exact (settings : Settings) (state : State)
    (reached : Reaches (step settings) (Counts settings) .initial state) :
    state.Exact ∧ 0 ≤ state.totalConnections ∧ 0 ≤ state.busyConnections ∧
      ∀ event next, step settings state event = some next →
        (next.Exact ↔ Counts settings state event) := by
  have both : Sound settings state ∧ state.Exact := by
    apply reached.invariant ⟨sound_initial, rfl, rfl⟩
    intro current next event known allowed taken
    exact ⟨known.1.step taken, (known.1.step_exact known.2 taken).mpr allowed⟩
  obtain ⟨sound, exact⟩ := both
  refine ⟨exact, ?_, ?_, fun event next => sound.step_exact exact⟩
  · rw [exact.1]
    omega
  · rw [exact.2]
    omega

/-- A connection is opened, released, taken again and released again, and
then dropped when it was idle for too long. -/
def idleEvents : List Event :=
  [.get 0 (fun _ => false) true, .lookupDone 0 true 7, .connectDone 0 true 0,
    .timeouts 1, .release 0 2 true, .get 3 (fun _ => false) true,
    .release 0 4 true, .timeouts 40, .pendingDestroy fun _ => false]

theorem counters_are_exact_idleEvents :
    ∃ state, run (step keepaliveSettings) .initial idleEvents = some state ∧
      state.Exact ∧ 0 ≤ state.totalConnections ∧
      0 ≤ state.busyConnections := by
  obtain ⟨state, taken⟩ : ∃ state, runGuarded (step keepaliveSettings)
      (Counts keepaliveSettings) .initial idleEvents = some state := ⟨_, rfl⟩
  have right := counters_are_exact keepaliveSettings state (Reaches.refl.of_runGuarded taken)
  cases taken
  exact ⟨_, rfl, right.1, right.2.1, right.2.2.1⟩

/-- The holder waits for its socket when the timeout comes, and releases the
connection after it. -/
def timeoutEvents : List Event :=
  [.get 0 (fun _ => false) true, .lookupDone 0 true 7, .connectDone 0 true 0,
    .use 0 7 (-1) 10 true .coroutine, .timeouts 20,
    .use 0 7 timedOut 10 true .none, .release 0 21 true]

def droppedEvents : List Event :=
  [.get 0 (fun _ => false) true, .lookupDone 0 true 7, .connectDone 0 true 0,
    .release 0 1 true, .get 2 (fun _ => false) true, .remoteClose 0,
    .release 0 3 true]

theorem counters_become_negative :
    (run (step keepaliveSettings) .initial timeoutEvents).map
        (fun state => (state.held, state.busyConnections)) =
      some ([], -1) ∧
    (run (step keepaliveSettings) .initial droppedEvents).map
        (fun state => (state.busyQueue ++ state.avQueue, state.totalConnections)) = some ([], -1) ∧
    (run (step { keepaliveSettings with hasParent := true }) .initial
        [.get 0 (fun _ => false) true]).map
        (fun state => (state.busyQueue ++ state.avQueue, state.totalConnections)) = some ([0], 2) :=
  ⟨rfl, rfl, rfl⟩

end FluentBit.Upstream
