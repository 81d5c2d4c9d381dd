import FluentBit.Upstream

/-!
# Safety of the connection pool

Every live connection is in one queue.  A connection that a caller holds or
opens is marked busy and not available, so it is neither handed out again nor
freed.  While the name lookup runs the event of a new connection is not
registered: a timeout moves it to the destroy queue then, but also leaves the
error that makes the opening fail.
-/

namespace FluentBit.Upstream

open Handles Run List Function

def State.queued (state : State) : List Ref :=
  state.busyQueue ++ state.avQueue ++ state.destroyQueue

variable {state : State} {conn : Ref}

theorem State.mem_queued :
    conn ∈ state.queued ↔ conn ∈ state.busyQueue ∨ conn ∈ state.avQueue ∨
      conn ∈ state.destroyQueue := by
  rw [queued, mem_append, mem_append, or_assoc]

section

section
variable (nodup : state.queued.Nodup)
include nodup

theorem nodup_queues :
    state.busyQueue.Nodup ∧ state.avQueue.Nodup ∧ state.destroyQueue.Nodup := by
  obtain ⟨front, destroy, _⟩ := nodup_append.mp nodup
  obtain ⟨busy, av, _⟩ := nodup_append.mp front
  exact ⟨busy, av, destroy⟩

theorem not_busy_of_av (member : conn ∈ state.avQueue) :
    conn ∉ state.busyQueue := by
  obtain ⟨front, _, _⟩ := nodup_append.mp nodup
  intro busy
  exact (nodup_append.mp front).2.2 conn busy conn member rfl

theorem not_av_of_busy (member : conn ∈ state.busyQueue) :
    conn ∉ state.avQueue :=
  fun av => not_busy_of_av nodup av member

theorem not_front_of_destroy (member : conn ∈ state.destroyQueue) :
    conn ∉ state.busyQueue ∧ conn ∉ state.avQueue := by
  have apart := (nodup_append.mp nodup).2.2
  constructor
  · intro busy
    exact apart conn (mem_append_left _ busy) conn member rfl
  · intro av
    exact apart conn (mem_append_right _ av) conn member rfl

end

variable {queue : Queue}

section
variable (nodup : state.queued.Nodup)
include nodup

theorem mem_move_busy : conn ∈ (state.move conn queue).busyQueue ↔ queue = .busy := by
  have gone : conn ∉ state.busyQueue.erase conn := (nodup_queues nodup).1.not_mem_erase
  cases queue <;> simp [State.move, gone]

theorem mem_move_av : conn ∈ (state.move conn queue).avQueue ↔ queue = .av := by
  have gone : conn ∉ state.avQueue.erase conn := (nodup_queues nodup).2.1.not_mem_erase
  cases queue <;> simp [State.move, gone]

theorem mem_move_destroy : conn ∈ (state.move conn queue).destroyQueue ↔ queue = .destroy := by
  have gone : conn ∉ state.destroyQueue.erase conn := (nodup_queues nodup).2.2.not_mem_erase
  cases queue <;> simp [State.move, gone]

theorem queued_erase :
    state.busyQueue.erase conn ++ state.avQueue.erase conn ++
        state.destroyQueue.erase conn = state.queued.erase conn := by
  rw [State.queued]
  by_cases busy : conn ∈ state.busyQueue
  · have av := not_av_of_busy nodup busy
    have destroy : conn ∉ state.destroyQueue := fun member =>
      (not_front_of_destroy nodup member).1 busy
    rw [erase_of_not_mem av, erase_of_not_mem destroy,
      append_assoc, append_assoc, erase_append_left _ busy]
  · rw [erase_of_not_mem busy, append_assoc, append_assoc, erase_append_right _ busy]
    by_cases av : conn ∈ state.avQueue
    · have destroy : conn ∉ state.destroyQueue := fun member =>
        (not_front_of_destroy nodup member).2 av
      rw [erase_of_not_mem destroy, erase_append_left _ av]
    · rw [erase_of_not_mem av, erase_append_right _ av]

theorem perm_move (member : conn ∈ state.queued) (queue : Queue) :
    (state.move conn queue).queued.Perm state.queued := by
  have back : (conn :: state.queued.erase conn).Perm state.queued := (perm_cons_erase member).symm
  refine List.Perm.trans ?_ back
  rw [← queued_erase nodup]
  cases queue with
  | busy => simp [State.move, State.queued]
  | av =>
    have middle := @perm_middle _ conn (state.busyQueue.erase conn ++ state.avQueue.erase conn)
      (state.destroyQueue.erase conn)
    simpa [State.move, State.queued] using middle
  | destroy =>
    have last := perm_append_singleton conn
      (state.busyQueue.erase conn ++ state.avQueue.erase conn ++ state.destroyQueue.erase conn)
    simpa [State.move, State.queued] using last

end

end

def State.Owned (state : State) (conn : Ref) : Prop :=
  conn ∈ state.held ∨ ∃ phase, (conn, phase) ∈ state.connecting

def State.owners (state : State) : List Ref := state.held ++ state.connecting.map Prod.fst

theorem State.mem_owners : conn ∈ state.owners ↔ state.Owned conn := by
  simp [State.owners, State.Owned]

/-- What holds for a connection, whether it is live or not. -/
structure ConnSound (state : State) (conn : Ref) : Prop where
  live : conn ∈ state.queued ↔ (state.connections.get conn).isSome = true
  owned : state.Owned conn → ∃ connection,
    state.connections.get conn = some connection ∧ connection.busyFlag = true ∧ conn ∉ state.avQueue
  lookup : (conn, Phase.lookup) ∈ state.connecting → ∃ connection,
    state.connections.get conn = some connection ∧ connection.event = .none ∧
      (conn ∈ state.busyQueue ∨ connection.netError > 0)
  handshake : (conn, Phase.handshake) ∈ state.connecting → ∃ connection,
    state.connections.get conn = some connection ∧
      connection.event = .coroutine ∧ conn ∈ state.busyQueue

/-- Nothing changes for the other connections. -/
structure Touches (conn : Ref) (state next : State) : Prop where
  connections : ∀ other, other ≠ conn → next.connections.get other = state.connections.get other
  busy : ∀ other, other ≠ conn → (other ∈ next.busyQueue ↔ other ∈ state.busyQueue)
  av : ∀ other, other ≠ conn → (other ∈ next.avQueue ↔ other ∈ state.avQueue)
  destroy : ∀ other, other ≠ conn → (other ∈ next.destroyQueue ↔ other ∈ state.destroyQueue)
  held : ∀ other, other ≠ conn → (other ∈ next.held ↔ other ∈ state.held)
  connecting : ∀ other phase, other ≠ conn →
    ((other, phase) ∈ next.connecting ↔ (other, phase) ∈ state.connecting)

section
variable {next last : State} {other : Ref}

theorem Touches.refl : Touches conn state state := by
  constructor
  · exact fun _ _ => rfl
  · exact fun _ _ => Iff.rfl
  · exact fun _ _ => Iff.rfl
  · exact fun _ _ => Iff.rfl
  · exact fun _ _ => Iff.rfl
  · exact fun _ _ _ => Iff.rfl

theorem Touches.trans (first : Touches conn state next) (second : Touches conn next last) :
    Touches conn state last := by
  constructor
  · intro other apart
    rw [second.connections other apart, first.connections other apart]
  · intro other apart
    rw [second.busy other apart, first.busy other apart]
  · intro other apart
    rw [second.av other apart, first.av other apart]
  · intro other apart
    rw [second.destroy other apart, first.destroy other apart]
  · intro other apart
    rw [second.held other apart, first.held other apart]
  · intro other phase apart
    rw [second.connecting other phase apart, first.connecting other phase apart]

theorem ConnSound.of_touches (sound : ConnSound state other) (touches : Touches conn state next)
    (apart : other ≠ conn) : ConnSound next other := by
  have queued : other ∈ next.queued ↔ other ∈ state.queued := by
    rw [State.mem_queued, State.mem_queued, touches.busy other apart,
      touches.av other apart, touches.destroy other apart]
  constructor
  · rw [queued, touches.connections other apart]
    exact sound.live
  · intro owned
    rw [touches.connections other apart, touches.av other apart]
    apply sound.owned
    rcases owned with held | ⟨phase, opening⟩
    · exact .inl ((touches.held other apart).mp held)
    · exact .inr ⟨phase, (touches.connecting other phase apart).mp opening⟩
  · intro opening
    rw [touches.connections other apart, touches.busy other apart]
    exact sound.lookup ((touches.connecting other _ apart).mp opening)
  · intro opening
    rw [touches.connections other apart, touches.busy other apart]
    exact sound.handshake ((touches.connecting other _ apart).mp opening)

theorem touches_modify (change : Connection → Connection) :
    Touches conn state (state.modify conn change) :=
  { Touches.refl with connections := fun _ apart => update_of_ne apart _ _ }

theorem touches_move (queue : Queue) : Touches conn state (state.move conn queue) := by
  have kept : ∀ (list : List Ref) (here : Queue) (other : Ref),
      other ≠ conn → (other ∈ list.erase conn ++
        (if queue = here then [conn] else []) ↔ other ∈ list) := by
    intro list here other apart
    split <;> simp [apart]
  exact
    { Touches.refl with
      busy := kept state.busyQueue .busy
      av := kept state.avQueue .av
      destroy := kept state.destroyQueue .destroy }

theorem touches_prepareDestroyConn : Touches conn state (prepareDestroyConn state conn) := by
  have both : Touches conn state ((state.modify conn Connection.close).move conn .destroy) :=
    (touches_modify Connection.close).trans (touches_move .destroy)
  exact { both with }

end

structure Sound (settings : Settings) (state : State) : Prop where
  each : ∀ conn, ConnSound state conn
  nodup : state.queued.Nodup
  owners : state.owners.Nodup
  limit : settings.maxWorkerConnections > 0 →
    (state.queued.length : Int) ≤ settings.maxWorkerConnections

section
variable {settings : Settings} {next : State}

theorem sound_initial : Sound settings .initial := by
  constructor
  · intro conn
    constructor
    · simp [State.initial, State.queued, Heap.empty]
    · intro owned
      simp [State.Owned, State.initial] at owned
    · intro member
      cases member
    · intro member
      cases member
  · exact nodup_nil
  · exact nodup_nil
  · intro positive
    exact Int.le_of_lt positive

variable {connection : Connection} {connecting : List (Ref × Phase)}
  {phase : Phase}

section
variable (sound : Sound settings state)
include sound

section
variable (live : state.connections.get conn = some connection)
include live

theorem Sound.member : conn ∈ state.queued := (sound.each conn).live.mpr (by rw [live]; rfl)

theorem Sound.owned_live (owned : state.Owned conn) :
    connection.busyFlag = true ∧ conn ∉ state.avQueue := by
  obtain ⟨known, same, facts⟩ := (sound.each conn).owned owned
  rw [live] at same
  cases same
  exact facts

theorem Sound.lookup_live (opening : (conn, Phase.lookup) ∈ state.connecting) :
    connection.event = .none ∧ (conn ∈ state.busyQueue ∨ connection.netError > 0) := by
  obtain ⟨known, same, facts⟩ := (sound.each conn).lookup opening
  rw [live] at same
  cases same
  exact facts

theorem Sound.handshake_live (opening : (conn, Phase.handshake) ∈ state.connecting) :
    connection.event = .coroutine ∧ conn ∈ state.busyQueue := by
  obtain ⟨known, same, facts⟩ := (sound.each conn).handshake opening
  rw [live] at same
  cases same
  exact facts

end

theorem Sound.not_owned_of_av (av : conn ∈ state.avQueue) : ¬state.Owned conn := by
  intro owned
  obtain ⟨_, _, _, notAv⟩ := (sound.each conn).owned owned
  exact notAv av

theorem Sound.touch (touches : Touches conn state next) (here : ConnSound next conn)
    (perm : next.queued.Perm state.queued) (owners : next.owners.Nodup) : Sound settings next := by
  constructor
  · intro other
    by_cases same : other = conn
    · rw [same]
      exact here
    · exact (sound.each other).of_touches touches same
  · exact perm.nodup_iff.mpr sound.nodup
  · exact owners
  · rw [perm.length_eq]
    exact sound.limit

end

section
variable (live : state.connections.get conn = some connection)
include live

/-- `Connection` fields that matter for a connection that nobody opens. -/
theorem connSound_of_idle (member : conn ∈ state.queued)
    (owned : conn ∈ state.held → connection.busyFlag = true ∧
      conn ∉ state.avQueue) (idle : ∀ phase, (conn, phase) ∉ state.connecting) :
    ConnSound state conn := by
  constructor
  · simp [member, live]
  · rintro (held | ⟨phase, opening⟩)
    · exact ⟨connection, live, owned held⟩
    · exact absurd opening (idle phase)
  · intro opening
    exact absurd opening (idle _)
  · intro opening
    exact absurd opening (idle _)

theorem get_modify_self (change : Connection → Connection) :
    (state.modify conn change).connections.get conn = some (change connection) := by
  rw [State.modify, Heap.get_modify live, update_self]

theorem get_prepareDestroyConn :
    (prepareDestroyConn state conn).connections.get conn = some connection.close :=
  get_modify_self live Connection.close

end

theorem perm_prepareDestroyConn (nodup : state.queued.Nodup) (member : conn ∈ state.queued) :
    (prepareDestroyConn state conn).queued.Perm state.queued :=
  @perm_move (state.modify conn Connection.close) conn nodup member .destroy

theorem prepareDestroyConn_member (nodup : state.queued.Nodup) :
    conn ∈ (prepareDestroyConn state conn).queued ∧
      conn ∉ (prepareDestroyConn state conn).avQueue := by
  have same : (state.modify conn Connection.close).queued.Nodup := nodup
  constructor
  · apply State.mem_queued.mpr
    exact .inr (.inr ((mem_move_destroy same).mpr rfl))
  · intro av
    have wrong := (mem_move_av same).mp av
    cases wrong

theorem Sound.prepareDestroyConn (sound : Sound settings state)
    (live : state.connections.get conn = some connection)
    (idle : ∀ phase, (conn, phase) ∉ state.connecting) :
    Sound settings (prepareDestroyConn state conn) := by
  have member := sound.member live
  obtain ⟨queued, notAv⟩ := @prepareDestroyConn_member state conn sound.nodup
  refine sound.touch touches_prepareDestroyConn ?_
    (perm_prepareDestroyConn sound.nodup member) sound.owners
  apply connSound_of_idle (get_prepareDestroyConn live) queued
  · intro held
    exact ⟨(sound.owned_live live (.inl held)).1, notAv⟩
  · exact idle

theorem Sound.gauges (sound : Sound settings state) (total busy : Int) :
    Sound settings
      { state with totalConnections := total, busyConnections := busy } := by
  constructor
  · intro conn
    exact { sound.each conn with }
  · exact sound.nodup
  · exact sound.owners
  · exact sound.limit

/-- A round over the connections of a queue, each of which only leaves the
queue by itself. -/
theorem Sound.round {operation : State → Ref → State}
    {queue : State → List Ref}
    (kept : ∀ {state conn}, Sound settings state → conn ∈ queue state →
      Sound settings (operation state conn) ∧
        ∀ other, other ≠ conn → other ∈ queue state → other ∈ queue (operation state conn))
    {round : List Ref} (distinct : round.Nodup)
    (members : ∀ conn ∈ round, conn ∈ queue state)
    (sound : Sound settings state) :
    Sound settings (round.foldl operation state) := by
  induction round generalizing state with
  | nil => exact sound
  | cons conn round ih =>
    obtain ⟨notLater, distinct⟩ := nodup_cons.mp distinct
    obtain ⟨after, others⟩ := kept sound (members conn mem_cons_self)
    apply ih distinct _ after
    intro other later
    apply others other
    · intro same
      exact notLater (same ▸ later)
    · exact members other (mem_cons_of_mem _ later)

theorem timedOut_pos : timedOut > 0 := by
  decide

section
variable (sound : Sound settings state)
include sound

/-- A connection that is being looked up is moved with an error, one in its
handshake is not moved. -/
theorem Sound.timeoutBusy (now : Int) (conn : Ref) :
    Sound settings (timeoutBusy settings now state conn) := by
  rw [Upstream.timeoutBusy]
  cases live : state.connections.get conn with
  | none => exact sound
  | some connection =>
    dsimp only
    split
    · apply Sound.gauges
      have marked := get_modify_self live Connection.timeOut
      have touched := @touches_modify state conn Connection.timeOut
      have nodup : (state.modify conn Connection.timeOut).queued.Nodup := sound.nodup
      have flagged := sound.owned_live live
      split
      · next unregistered =>
        obtain ⟨queued, notAv⟩ := @prepareDestroyConn_member _ conn nodup
        have closed := get_prepareDestroyConn marked
        refine sound.touch (touched.trans touches_prepareDestroyConn) ?_
          (perm_prepareDestroyConn nodup (sound.member live)) sound.owners
        constructor
        · exact iff_of_true queued (Option.isSome_iff_exists.mpr ⟨_, closed⟩)
        · intro owned
          exact ⟨_, closed, (flagged owned).1, notAv⟩
        · intro opening
          exact ⟨_, closed, rfl, .inr timedOut_pos⟩
        · intro opening
          have waiting := (sound.handshake_live live opening).1
          rw [unregistered] at waiting
          cases waiting
      · refine sound.touch touched ?_ (.refl _) sound.owners
        constructor
        · exact iff_of_true (sound.member live) (Option.isSome_iff_exists.mpr ⟨_, marked⟩)
        · intro owned
          exact ⟨_, marked, flagged owned⟩
        · intro opening
          exact ⟨_, marked, (sound.lookup_live live opening).1, .inr timedOut_pos⟩
        · intro opening
          have waiting := sound.handshake_live live opening
          exact ⟨_, marked, waiting.1, waiting.2⟩
    · exact sound

theorem Sound.timeoutAvailable (now : Int) (av : conn ∈ state.avQueue) :
    Sound settings (timeoutAvailable settings now state conn) ∧
      ∀ other, other ≠ conn → other ∈ state.avQueue →
        other ∈ (timeoutAvailable settings now state conn).avQueue := by
  rw [Upstream.timeoutAvailable]
  cases live : state.connections.get conn with
  | none => exact ⟨sound, fun _ _ member => member⟩
  | some connection =>
    dsimp only
    split
    · constructor
      · apply sound.prepareDestroyConn live
        intro phase opening
        exact sound.not_owned_of_av av (.inr ⟨phase, opening⟩)
      · intro other apart member
        exact (touches_prepareDestroyConn.av other apart).mpr member
    · exact ⟨sound, fun _ _ member => member⟩

theorem Sound.timeoutBusy_round (now : Int) :
    Sound settings (state.busyQueue.foldl (Upstream.timeoutBusy settings now) state) := by
  generalize state.busyQueue = round
  induction round generalizing state with
  | nil => exact sound
  | cons conn round ih => exact ih (sound.timeoutBusy now conn)

theorem Sound.connTimeouts (now : Int) :
    Sound settings (connTimeouts settings now state) := by
  have busy := sound.timeoutBusy_round now
  exact Sound.round (fun sound av => sound.timeoutAvailable now av)
    (nodup_queues busy.nodup).2.1 (fun _ member => member) busy

end

theorem touches_free :
    Touches conn state
      { state with
        connections := state.connections.free conn
        destroyQueue := state.destroyQueue.erase conn } :=
  { Touches.refl with
    connections := fun _ apart => update_of_ne apart _ _
    destroy := fun _ apart => mem_erase_of_ne apart }

theorem Sound.destroyConn (sound : Sound settings state)
    (pending : Ref → Bool) (destroy : conn ∈ state.destroyQueue) :
    Sound settings (destroyConn pending state conn) ∧
      ∀ other, other ≠ conn → other ∈ state.destroyQueue →
        other ∈ (destroyConn pending state conn).destroyQueue := by
  rw [Upstream.destroyConn]
  cases live : state.connections.get conn with
  | none => exact ⟨sound, fun _ _ member => member⟩
  | some connection =>
    dsimp only
    split
    · exact ⟨sound, fun _ _ member => member⟩
    · next unused =>
      obtain ⟨notBusy, notAv⟩ := not_front_of_destroy sound.nodup destroy
      have free : ¬state.Owned conn := by
        intro owned
        simp [(sound.owned_live live owned).1] at unused
      have shorter : (state.busyQueue ++ state.avQueue ++
          state.destroyQueue.erase conn).Sublist state.queued :=
        List.Sublist.append_left erase_sublist _
      constructor
      · constructor
        · intro other
          by_cases same : other = conn
          · subst same
            constructor
            · refine iff_of_false ?_ ?_
              · rw [State.mem_queued]
                have gone := (nodup_queues sound.nodup).2.2.not_mem_erase (a := other)
                exact fun member => member.elim notBusy fun member => member.elim notAv gone
              · simp [Heap.get_free]
            · intro owned
              exact absurd owned free
            · intro opening
              exact absurd (.inr ⟨_, opening⟩) free
            · intro opening
              exact absurd (.inr ⟨_, opening⟩) free
          · exact (sound.each other).of_touches touches_free same
        · exact shorter.nodup sound.nodup
        · exact sound.owners
        · intro positive
          have bound := sound.limit positive
          have length := shorter.length_le
          change ((state.busyQueue ++ state.avQueue ++
            state.destroyQueue.erase conn).length : Int) ≤ _
          omega
      · intro other apart member
        exact (mem_erase_of_ne apart).mpr member

theorem Sound.pendingDestroy (sound : Sound settings state) (pending : Ref → Bool) :
    Sound settings (pendingDestroy pending state) :=
  Sound.round (fun sound destroy => sound.destroyConn pending destroy)
    (nodup_queues sound.nodup).2.2 (fun _ member => member) sound

theorem touches_callers {held : List Ref} {busy : Int}
    (touches : Touches conn state next) (sameHeld : ∀ other, other ≠ conn →
      (other ∈ held ↔ other ∈ state.held))
    (sameConnecting : ∀ other phase, other ≠ conn →
      ((other, phase) ∈ connecting ↔ (other, phase) ∈ state.connecting)) :
    Touches conn state
      { next with held := held, connecting := connecting, busyConnections := busy } :=
  { touches with held := sameHeld, connecting := sameConnecting }

theorem mem_forget {other : Ref} (apart : other ≠ conn) :
    (other, phase) ∈ connecting.filter (fun opening => opening.1 ≠ conn) ↔
      (other, phase) ∈ connecting := by
  simp [mem_filter, apart]

theorem forget_not_mem (phase : Phase) :
    (conn, phase) ∉ connecting.filter fun opening => opening.1 ≠ conn := by
  simp [mem_filter]

section
variable (sound : Sound settings state)
include sound

theorem Sound.not_held_of_connecting
    (opening : (conn, phase) ∈ state.connecting) : conn ∉ state.held := by
  intro held
  exact (nodup_append.mp sound.owners).2.2 conn held conn
    (mem_map_of_mem (f := Prod.fst) opening) rfl

theorem Sound.not_connecting_of_held (held : conn ∈ state.held)
    (phase : Phase) : (conn, phase) ∉ state.connecting :=
  fun opening => sound.not_held_of_connecting opening held

theorem Sound.connectFailed
    (opening : (conn, phase) ∈ state.connecting) : Sound settings (connectFailed state conn) := by
  obtain ⟨connection, live, _, _⟩ := (sound.each conn).owned (.inr ⟨phase, opening⟩)
  have nobody := sound.not_held_of_connecting opening
  rw [Upstream.connectFailed]
  generalize failing : (fun connection : Connection =>
    { connection with tsConnectTimeout := -1, busyFlag := false }) = change
  have nodup : (state.modify conn change).queued.Nodup := sound.nodup
  have closed := get_prepareDestroyConn (get_modify_self live change)
  obtain ⟨queued, _⟩ := @prepareDestroyConn_member _ conn nodup
  refine sound.touch (touches_callers ((touches_modify change).trans touches_prepareDestroyConn)
    (fun _ _ => Iff.rfl) (fun _ _ apart => mem_forget apart)) ?_ (perm_prepareDestroyConn nodup
    (sound.member live)) ?_
  · exact connSound_of_idle closed queued (fun held => absurd held nobody) forget_not_mem
  · apply List.Sublist.nodup _ sound.owners
    exact List.Sublist.append_left (List.Sublist.map _ filter_sublist) _

end

theorem connSound_of_free (live : state.connections.get conn = some connection)
    (member : conn ∈ state.queued) (free : ¬state.Owned conn) : ConnSound state conn :=
  connSound_of_idle live member (fun held => absurd (.inl held) free)
    fun _ opening => free (.inr ⟨_, opening⟩)

theorem Sound.modify_free (sound : Sound settings state)
    (live : state.connections.get conn = some connection) (free : ¬state.Owned conn)
    (change : Connection → Connection) : Sound settings (state.modify conn change) :=
  sound.touch (touches_modify change)
    (connSound_of_free (get_modify_self live change) (sound.member live) free)
    (.refl _) sound.owners

section
variable (sound : Sound settings state)
include sound

section
variable (live : state.connections.get conn = some connection)
include live

theorem Sound.move_free (free : ¬state.Owned conn)
    (queue : Queue) : Sound settings (state.move conn queue) := by
  refine sound.touch (touches_move queue) ?_
    (perm_move sound.nodup (sound.member live) queue) sound.owners
  refine connSound_of_free live ?_ free
  have nodup := sound.nodup
  rw [State.mem_queued, mem_move_busy nodup, mem_move_av nodup, mem_move_destroy nodup]
  cases queue <;> simp

theorem Sound.prepareDestroyConn_free (free : ¬state.Owned conn) :
    Sound settings (Upstream.prepareDestroyConn state conn) :=
  sound.prepareDestroyConn live fun _ opening => free (.inr ⟨_, opening⟩)

/-- A connection that nobody has may be handed out, when it is not left in the
available queue. -/
theorem Sound.handOut (notAv : conn ∉ state.avQueue)
    (free : ¬state.Owned conn) (now : Int) : Sound settings (handOut settings now state conn) := by
  rw [Upstream.handOut]
  generalize assigned : (fun connection : Connection =>
    { connection with
      busyFlag := true
      tsIoTimeout := if settings.ioTimeout > 0 then now + settings.ioTimeout
        else connection.tsIoTimeout }) = change
  have marked := get_modify_self live change
  refine sound.touch (touches_callers (touches_modify change) ?_ fun _ _ _ => Iff.rfl) ?_
    (.refl _) ?_
  · intro other apart
    simp [State.modify, apart]
  · have flag : (change connection).busyFlag = true := by rw [← assigned]
    exact connSound_of_idle marked (sound.member live)
      (fun _ => ⟨flag, notAv⟩) fun phase opening =>
        free (.inr ⟨phase, opening⟩)
  · have fresh : conn ∉ state.owners := fun owner =>
      free (State.mem_owners.mp owner)
    have middle : (state.held ++ [conn] ++
        state.connecting.map Prod.fst).Perm (conn :: state.owners) := by
      rw [State.owners, append_assoc]
      exact perm_middle
    exact middle.nodup_iff.mpr (nodup_cons.mpr ⟨fresh, sound.owners⟩)

end

theorem Sound.connected (opening : (conn, Phase.handshake) ∈ state.connecting) (now : Int) :
    Sound settings (connected settings now state conn) := by
  obtain ⟨connection, live, _, busy⟩ := (sound.each conn).handshake opening
  have nobody := sound.not_held_of_connecting opening
  rw [Upstream.connected]
  generalize (fun connection : Connection =>
    { connection with
      tsConnectTimeout := -1
      busyFlag := false
      event := .none }) = change
  have marked := get_modify_self live change
  have free : ¬State.Owned
      { state.modify conn change with
        connecting := state.connecting.filter fun other =>
          other.1 ≠ conn } conn := by
    rintro (held | ⟨phase, still⟩)
    · exact nobody held
    · exact forget_not_mem phase still
  have forgotten : Sound settings
      { state.modify conn change with
        connecting := state.connecting.filter fun other =>
          other.1 ≠ conn } := by
    refine sound.touch (touches_callers (touches_modify change) (fun _ _ => Iff.rfl)
      (fun _ _ apart => mem_forget apart)) ?_ (.refl _) ?_
    · exact connSound_of_free marked (sound.member live) free
    · apply List.Sublist.nodup _ sound.owners
      exact List.Sublist.append_left (List.Sublist.map _ filter_sublist) _
  exact forgotten.handOut marked (not_av_of_busy sound.nodup busy) free now

/-- The lookup came to an end: the connection is still in the busy queue,
since it has no error. -/
theorem Sound.lookupDone (live : state.connections.get conn = some connection)
    (opening : (conn, Phase.lookup) ∈ state.connecting)
    (noError : connection.netError ≤ 0) (fd : Int) :
    Sound settings
      { state.modify conn fun connection =>
          { connection with fd := fd, event := .coroutine } with
        connecting := state.connecting.map fun other =>
          if other.1 = conn then (conn, .handshake) else other } := by
  have marked := @get_modify_self state conn connection live
    fun connection => { connection with fd := fd, event := .coroutine }
  have busy := (sound.lookup_live live opening).2.resolve_right (by omega)
  obtain ⟨flag, notAv⟩ := sound.owned_live live (.inr ⟨_, opening⟩)
  have nobody := sound.not_held_of_connecting opening
  have others : ∀ other phase, other ≠ conn →
      ((other, phase) ∈ state.connecting.map (fun other =>
        if other.1 = conn then (conn, Phase.handshake) else other) ↔
          (other, phase) ∈ state.connecting) := by
    intro other phase apart
    rw [mem_map]
    constructor
    · rintro ⟨⟨place, at'⟩, member, moved⟩
      split at moved
      · cases moved
        exact absurd rfl apart
      · cases moved
        exact member
    · intro member
      exact ⟨_, member, if_neg apart⟩
  refine sound.touch (touches_callers (touches_modify _)
    (fun _ _ => Iff.rfl) others) ?_ (.refl _) ?_
  · constructor
    · exact iff_of_true (sound.member live) (Option.isSome_iff_exists.mpr ⟨_, marked⟩)
    · intro _
      exact ⟨_, marked, flag, notAv⟩
    · intro still
      obtain ⟨⟨place, phase⟩, _, moved⟩ := mem_map.mp still
      split at moved
      · cases moved
      · next apart =>
        cases moved
        exact absurd rfl apart
    · intro _
      exact ⟨_, marked, rfl, busy⟩
  · have same : (state.connecting.map fun other =>
        if other.1 = conn then (conn, Phase.handshake) else other).map
          Prod.fst = state.connecting.map Prod.fst := by
      rw [map_map]
      apply map_congr_left
      intro other _
      dsimp only [comp_apply]
      split
      · next equal => exact equal.symm
      · rfl
    rw [State.owners]
    rw [same]
    exact sound.owners

/-- The holder of a connection may change everything about it, except that it
is marked busy. -/
theorem Sound.use (held : conn ∈ state.held) {change : Connection → Connection}
    (flag : ∀ connection : Connection, (change connection).busyFlag = connection.busyFlag) :
    Sound settings (state.modify conn change) := by
  obtain ⟨connection, live, busy, notAv⟩ := (sound.each conn).owned (.inl held)
  refine sound.touch (touches_modify change) ?_ (.refl _) sound.owners
  exact connSound_of_idle (get_modify_self live change) (sound.member live) (fun _ =>
    ⟨(flag connection).trans busy, notAv⟩) (sound.not_connecting_of_held held)

variable (held : conn ∈ state.held) (live : state.connections.get conn = some connection)
include held live

theorem Sound.unhold (change : Connection → Connection) (busy : Int) :
    Sound settings
      { state.modify conn change with busyConnections := busy, held := state.held.erase conn } ∧
    ¬State.Owned
      { state.modify conn change with
        busyConnections := busy
        held := state.held.erase conn } conn := by
  have distinct := (nodup_append.mp sound.owners).1
  have free : ¬State.Owned
      { state.modify conn change with
        busyConnections := busy
        held := state.held.erase conn } conn := by
    rintro (still | ⟨phase, opening⟩)
    · exact distinct.not_mem_erase still
    · exact sound.not_connecting_of_held held phase opening
  refine ⟨?_, free⟩
  refine sound.touch (touches_callers (touches_modify change) (fun _ apart => mem_erase_of_ne apart)
    fun _ _ _ => Iff.rfl) ?_ (.refl _) ?_
  · exact connSound_of_free (get_modify_self live change) (sound.member live) free
  · apply List.Sublist.nodup _ sound.owners
    exact List.Sublist.append_right erase_sublist _

theorem Sound.connRelease (now : Int) (added : Bool) :
    Sound settings (connRelease settings now added state conn connection) := by
  rw [Upstream.connRelease]
  generalize (fun connection : Connection =>
    { connection with busyFlag := false }) = change
  obtain ⟨released, free⟩ := sound.unhold held live change (state.busyConnections - 1)
  have marked := get_modify_self live change
  dsimp only
  split
  · have moved := released.move_free marked free .av
    split
    · exact (moved.modify_free marked free _).prepareDestroyConn_free
        (get_modify_self marked _) free
    · have available := moved.modify_free marked free fun connection =>
        { connection with tsAvailable := now, event := if added then .keepalive else .none }
      have counted := available.modify_free (get_modify_self marked _) free
        fun connection =>
          { connection with kaCount := connection.kaCount + 1 }
      split
      · exact counted.prepareDestroyConn_free (get_modify_self (get_modify_self marked _) _) free
      · exact counted
  · exact released.prepareDestroyConn_free marked free

end

theorem move_busy_avQueue {round : List Ref} (available : state.avQueue = conn :: round) :
    (state.move conn .busy).avQueue = round := by
  simp [State.move, available]

theorem prepareDestroyConn_avQueue (other : conn ∉ state.avQueue) :
    (prepareDestroyConn state conn).avQueue = state.avQueue := by
  simp [prepareDestroyConn, State.move, State.modify, erase_of_not_mem other]

section
variable (sound : Sound settings state)
include sound

/-- The loop over the available connections finds one that nobody has, or
leaves none of them. -/
theorem Sound.takeAvailable (failed : Ref → Bool) {round : List Ref}
    (available : state.avQueue = round) :
    Sound settings (takeAvailable failed round state).2 ∧
      (takeAvailable failed round state).2.held = state.held ∧
      ∀ found, (takeAvailable failed round state).1 = some found → found ∈ round ∧
        (∃ connection, (takeAvailable failed round
          state).2.connections.get found = some connection) ∧
        found ∈ (takeAvailable failed round state).2.busyQueue ∧
        ¬(takeAvailable failed round state).2.Owned found := by
  induction round generalizing state with
  | nil => exact ⟨sound, rfl, nofun⟩
  | cons conn round ih =>
    have av : conn ∈ state.avQueue := by
      rw [available]
      exact mem_cons_self
    have free := sound.not_owned_of_av av
    obtain ⟨connection, live⟩ := Option.isSome_iff_exists.mp
      ((sound.each conn).live.mp (State.mem_queued.mpr (.inr (.inl av))))
    have moved := sound.move_free live free .busy
    have rest := move_busy_avQueue available
    rw [Upstream.takeAvailable]
    split
    · have distinct := (nodup_queues sound.nodup).2.1
      rw [available, nodup_cons] at distinct
      have closed := (moved.modify_free live free fun connection =>
        { connection with busyFlag := false }).prepareDestroyConn_free (get_modify_self live _) free
      have later := ih closed (by
        rw [prepareDestroyConn_avQueue]
        · exact rest
        · change conn ∉ (state.move conn .busy).avQueue
          rw [rest]
          exact distinct.1)
      refine ⟨later.1, later.2.1, ?_⟩
      intro found success
      obtain ⟨member, facts⟩ := later.2.2 found success
      exact ⟨mem_cons_of_mem _ member, facts⟩
    · refine ⟨moved.modify_free live free _, rfl, ?_⟩
      intro found success
      cases success
      refine ⟨mem_cons_self, ⟨_, get_modify_self live _⟩, ?_, free⟩
      exact (mem_move_busy sound.nodup).mpr rfl

theorem Sound.createConn (room : limitReached settings state = false)
    (now : Int) : Sound settings (createConn settings now state) := by
  have unused : state.connections.next ∉ state.queued := by
    intro member
    have live := (sound.each _).live.mp member
    simp at live
  have free : ¬state.Owned state.connections.next := by
    intro owned
    obtain ⟨_, live, _⟩ := (sound.each _).owned owned
    simp at live
  have perm : (state.busyQueue ++ [state.connections.next] ++
      state.avQueue ++ state.destroyQueue).Perm (state.connections.next :: state.queued) := by
    rw [State.queued, append_assoc, append_assoc, append_assoc]
    exact perm_middle
  apply Sound.gauges
  constructor
  · intro other
    by_cases same : other = state.connections.next
    · subst same
      have live : (state.connections.alloc
        (connectionCreate settings now)).get state.connections.next = some
        (connectionCreate settings now) := update_self ..
      have notAv : state.connections.next ∉ state.avQueue := fun av =>
        unused (State.mem_queued.mpr (.inr (.inl av)))
      constructor
      · refine iff_of_true ?_ (Option.isSome_iff_exists.mpr ⟨_, live⟩)
        exact perm.mem_iff.mpr mem_cons_self
      · intro _
        exact ⟨_, live, rfl, notAv⟩
      · intro _
        exact ⟨_, live, rfl, .inl (by simp)⟩
      · intro opening
        rcases mem_append.mp opening with old | new
        · exact absurd (.inr ⟨_, old⟩) free
        · simp at new
    · apply (sound.each other).of_touches _ same
      exact
        { Touches.refl with
          connections := fun _ apart => update_of_ne apart _ _
          busy := fun _ apart => by simp [apart]
          connecting := fun _ _ apart => by simp [apart] }
  · exact perm.nodup_iff.mpr (nodup_cons.mpr ⟨unused, sound.nodup⟩)
  · have new : state.connections.next ∉ state.owners := fun owner =>
      free (State.mem_owners.mp owner)
    rw [State.owners]
    simp only [map_append, map_cons, map_nil]
    rw [← append_assoc]
    exact ((perm_append_singleton _ _).nodup_iff).mpr (nodup_cons.mpr ⟨new, sound.owners⟩)
  · intro positive
    have length := perm.length_eq
    change ((state.busyQueue ++ [state.connections.next] ++
      state.avQueue ++ state.destroyQueue).length : Int) ≤ _
    rw [length, length_cons]
    simp only [limitReached, Bool.and_eq_false_imp, decide_eq_true_eq,
      decide_eq_false_iff_not] at room
    have below := room positive
    simp only [State.queued, length_append]
    omega

theorem Sound.connGet (now : Int) (failed : Ref → Bool)
    (allocated : Bool) : Sound settings (connGet settings now failed allocated state) := by
  have loop := sound.takeAvailable failed rfl
  rw [Upstream.connGet]
  by_cases keepalive : settings.keepalive = true
  · rw [if_pos keepalive]
    rcases result : Upstream.takeAvailable failed state.avQueue state with
      ⟨_ | conn, after⟩
    · rw [result] at loop
      dsimp only
      split
      · exact loop.1
      · next room =>
        split
        · exact loop.1.createConn (by simpa using room) now
        · exact loop.1
    · rw [result] at loop
      obtain ⟨after, _, found⟩ := loop
      obtain ⟨_, ⟨connection, live⟩, busy, free⟩ := found conn rfl
      exact after.handOut live (not_av_of_busy after.nodup busy) free now
  · rw [if_neg keepalive]
    dsimp only
    split
    · exact sound
    · next room =>
      split
      · exact sound.createConn (by simpa using room) now
      · exact sound

theorem Sound.step {event : Event}
    (taken : step settings state event = some next) : Sound settings next := by
  cases event with
  | get now failed allocated =>
    cases taken
    exact sound.connGet now failed allocated
  | lookupDone conn found fd =>
    rw [Upstream.step] at taken
    repeat' split at taken
    all_goals cases taken
    · next connection live opening success =>
      rw [Bool.and_eq_true, decide_eq_true_eq] at success
      exact sound.lookupDone live (not_not.mp opening) success.2 fd
    · next opening _ => exact sound.connectFailed (not_not.mp opening)
  | connectDone conn established now =>
    rw [Upstream.step] at taken
    repeat' split at taken
    all_goals cases taken
    · next opening _ => exact sound.connected (not_not.mp opening) now
    · next opening _ => exact sound.connectFailed (not_not.mp opening)
  | use conn fd netError tsIoTimeout recycle event =>
    rw [Upstream.step] at taken
    repeat' split at taken
    all_goals cases taken
    next held => exact sound.use (not_not.mp held) fun _ => rfl
  | release conn now added =>
    rw [Upstream.step] at taken
    repeat' split at taken
    all_goals cases taken
    next connection live held => exact sound.connRelease (not_not.mp held) live now added
  | remoteClose conn =>
    rw [Upstream.step] at taken
    repeat' split at taken
    all_goals cases taken
    next connection live registered =>
      rw [ne_eq, not_not] at registered
      apply sound.prepareDestroyConn live
      -- A connection that is being opened waits for its coroutine.
      intro phase opening
      cases phase with
      | lookup =>
        have event := (sound.lookup_live live opening).1
        rw [registered] at event
        cases event
      | handshake =>
        have event := (sound.handshake_live live opening).1
        rw [registered] at event
        cases event
  | timeouts now =>
    cases taken
    exact sound.connTimeouts now
  | pendingDestroy pending =>
    cases taken
    exact sound.pendingDestroy pending

end

theorem foldl_kept {α : Type} {measure : State → α} {operation : State → Ref → State}
    (kept : ∀ state conn, measure (operation state conn) = measure state) (round : List Ref) :
    measure (round.foldl operation state) = measure state := by
  induction round generalizing state with
  | nil => rfl
  | cons conn round ih => exact ih.trans (kept state conn)

theorem timeoutBusy_held (now : Int) (state : State) (conn : Ref) :
    (timeoutBusy settings now state conn).held = state.held := by
  rw [timeoutBusy]
  split
  · rfl
  · split
    · split <;> rfl
    · rfl

theorem timeoutAvailable_held (now : Int) (state : State) (conn : Ref) :
    (timeoutAvailable settings now state conn).held = state.held := by
  rw [timeoutAvailable]
  split
  · rfl
  · split <;> rfl

theorem connTimeouts_held (now : Int) : (connTimeouts settings now state).held = state.held := by
  rw [connTimeouts, foldl_kept (timeoutAvailable_held now), foldl_kept (timeoutBusy_held now)]

theorem pendingDestroy_held (pending : Ref → Bool) :
    (pendingDestroy pending state).held = state.held := by
  apply foldl_kept
  intro state conn
  rw [destroyConn]
  split
  · rfl
  · split <;> rfl

theorem connRelease_held (now : Int) (added : Bool) (connection : Connection) :
    (connRelease settings now added state conn connection).held = state.held.erase conn := by
  rw [connRelease]
  dsimp only
  split
  · split
    · rfl
    · split <;> rfl
  · rfl

theorem Sound.connGet_held (sound : Sound settings state) (now : Int) (failed : Ref → Bool)
    (allocated : Bool) (held : conn ∈ (Upstream.connGet settings now failed allocated state).held)
    (new : conn ∉ state.held) :
    conn ∉ state.destroyQueue ∧
      conn ∈ (Upstream.connGet settings now failed allocated state).busyQueue := by
  have loop := sound.takeAvailable failed rfl
  rw [Upstream.connGet] at held ⊢
  by_cases keepalive : settings.keepalive = true
  · rw [if_pos keepalive] at held ⊢
    rcases result : Upstream.takeAvailable failed state.avQueue state with
      ⟨_ | found, after⟩
    · rw [result] at loop held
      dsimp only at held
      have same : conn ∈ after.held := by
        split at held
        · exact held
        · split at held
          all_goals exact held
      rw [loop.2.1] at same
      exact absurd same new
    · rw [result] at loop held
      obtain ⟨_, unchanged, facts⟩ := loop
      obtain ⟨member, _, busy, _⟩ := facts found rfl
      have given : conn ∈ after.held ++ [found] := held
      rw [unchanged, mem_append, mem_singleton] at given
      obtain rfl := given.resolve_left new
      refine ⟨?_, busy⟩
      intro destroy
      exact (not_front_of_destroy sound.nodup destroy).2 member
  · rw [if_neg keepalive] at held
    dsimp only at held
    have same : conn ∈ state.held := by
      split at held
      · exact held
      · split at held
        all_goals exact held
    exact absurd same new

theorem Sound.step_held {event : Event} (sound : Sound settings state)
    (taken : Upstream.step settings state event = some next) (held : conn ∈ next.held)
    (new : conn ∉ state.held) : conn ∉ state.destroyQueue ∧ conn ∈ next.busyQueue := by
  cases event with
  | get now failed allocated =>
    cases taken
    exact sound.connGet_held now failed allocated held new
  | lookupDone other found fd =>
    rw [Upstream.step] at taken
    repeat' split at taken
    all_goals cases taken
    all_goals exact absurd held new
  | connectDone other established now =>
    rw [Upstream.step] at taken
    repeat' split at taken
    all_goals cases taken
    · next opening _ =>
      have given : conn ∈ state.held ++ [other] := held
      rw [mem_append, mem_singleton] at given
      obtain rfl := given.resolve_left new
      obtain ⟨_, _, _, busy⟩ := (sound.each conn).handshake (not_not.mp opening)
      refine ⟨?_, busy⟩
      intro destroy
      exact (not_front_of_destroy sound.nodup destroy).1 busy
    · exact absurd held new
  | use other fd netError tsIoTimeout recycle event | remoteClose other =>
    rw [Upstream.step] at taken
    repeat' split at taken
    all_goals cases taken
    exact absurd held new
  | release other now added =>
    rw [Upstream.step] at taken
    repeat' split at taken
    all_goals cases taken
    rw [connRelease_held] at held
    exact absurd (mem_of_mem_erase held) new
  | timeouts now =>
    cases taken
    rw [connTimeouts_held] at held
    exact absurd held new
  | pendingDestroy pending =>
    cases taken
    rw [pendingDestroy_held] at held
    exact absurd held new

end

/-- In every run: the live connections are those in the three queues, each in
one place; nobody holds a connection that another one holds, or that was freed;
no step hands out a connection that is to be destroyed; and the limit on the
connections holds. -/
theorem pool_is_safe (settings : Settings) (state : State)
    (reached : Reaches (step settings) (fun _ _ => True) .initial state) :
    (state.busyQueue ++ state.avQueue ++ state.destroyQueue).Nodup ∧
      (∀ conn, (∃ connection, state.connections.get conn = some connection) ↔
        conn ∈ state.busyQueue ∨ conn ∈ state.avQueue ∨ conn ∈ state.destroyQueue) ∧
      state.held.Nodup ∧
      (∀ conn ∈ state.held, ∃ connection, state.connections.get conn = some connection) ∧
      (∀ event next, step settings state event = some next →
        ∀ conn ∈ next.held, conn ∉ state.held →
          conn ∉ state.destroyQueue ∧ conn ∉ next.destroyQueue) ∧
      (settings.maxWorkerConnections > 0 →
        (state.busyQueue.length + state.avQueue.length +
          state.destroyQueue.length : Int) ≤ settings.maxWorkerConnections) := by
  have sound : Sound settings state :=
    reached.invariant sound_initial fun sound _ taken => sound.step taken
  refine ⟨sound.nodup, ?_, (nodup_append.mp sound.owners).1, ?_, ?_, ?_⟩
  · intro conn
    rw [← State.mem_queued, (sound.each conn).live, Option.isSome_iff_exists]
  · intro conn held
    obtain ⟨connection, live, _⟩ := (sound.each conn).owned (.inl held)
    exact ⟨connection, live⟩
  · intro event next taken conn held new
    obtain ⟨before, busy⟩ := sound.step_held taken held new
    refine ⟨before, ?_⟩
    intro destroy
    exact (not_front_of_destroy (sound.step taken).nodup destroy).1 busy
  · intro positive
    have bound := sound.limit positive
    simp only [State.queued, length_append] at bound
    omega

def keepaliveSettings : Settings :=
  { keepalive := true
    ioTcpKa := true
    connectTimeout := 10
    ioTimeout := 10
    keepaliveIdleTimeout := 30
    keepaliveMaxRecycle := 2000
    maxWorkerConnections := 1
    hasParent := false }

/-- A connection is opened, released and taken again, the other side closes it,
and it survives a round that destroys what nobody has. -/
def keepaliveEvents : List Event :=
  [.get 0 (fun _ => false) true, .lookupDone 0 true 7, .connectDone 0 true 0,
    .release 0 1 true, .get 2 (fun _ => false) true, .remoteClose 0,
    .pendingDestroy fun _ => false]

theorem pool_is_safe_keepaliveEvents :
    ∃ state, run (step keepaliveSettings) .initial keepaliveEvents = some state ∧
      state.held = [0] ∧ state.destroyQueue = [0] ∧
      ∃ connection, state.connections.get 0 = some connection := by
  obtain ⟨state, taken⟩ : ∃ state, runGuarded (step keepaliveSettings)
      (fun _ _ => True) .initial keepaliveEvents = some state := ⟨_, rfl⟩
  have safe := pool_is_safe keepaliveSettings state (Reaches.refl.of_runGuarded taken)
  cases taken
  exact ⟨_, rfl, rfl, rfl, safe.2.2.2.1 0 mem_cons_self⟩

end FluentBit.Upstream
