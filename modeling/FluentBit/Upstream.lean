import FluentBit.Lib.Handles
import FluentBit.Lib.Run

/-!
# Upstream connections

An upstream keeps its connections in three queues: the ones in use, the ones
kept alive for the next use, and the ones to be destroyed.  Opening a
connection suspends the caller twice, during the name lookup and during the
handshake, and anything else may happen in between.  A caller that holds a
connection may change it by its input and output, among other things its event
registration, on which it depends what a timeout does.
-/

namespace FluentBit.Upstream

open Handles

abbrev Ref := Nat

/-- How the event of a connection is registered: not at all, for the remote
close of a connection that is kept alive, or for the coroutine that waits. -/
inductive Registration where
  | none
  | keepalive
  | coroutine
deriving DecidableEq, Repr

structure Connection where
  fd : Int
  recycle : Bool
  busyFlag : Bool
  netError : Int
  event : Registration
  kaCount : Nat
  tsConnectTimeout : Int
  tsIoTimeout : Int
  tsAvailable : Int
deriving DecidableEq, Repr

/-- `struct flb_net_setup` of the upstream, the flag `FLB_IO_TCP_KA` of its
stream, and whether it has a parent, as the upstreams of workers do. -/
structure Settings where
  keepalive : Bool
  ioTcpKa : Bool
  connectTimeout : Int
  ioTimeout : Int
  keepaliveIdleTimeout : Int
  keepaliveMaxRecycle : Int
  maxWorkerConnections : Int
  hasParent : Bool
deriving DecidableEq, Repr

/-- Where `flb_io_net_connect` is suspended. -/
inductive Phase where
  | lookup
  | handshake
deriving DecidableEq, Repr

/-- `struct flb_upstream` with its queues and the two gauges, the connections
that are being opened, and those that callers got and did not release. -/
structure State where
  connections : Heap Connection
  busyQueue : List Ref
  avQueue : List Ref
  destroyQueue : List Ref
  totalConnections : Int
  busyConnections : Int
  connecting : List (Ref × Phase)
  held : List Ref

def State.initial : State :=
  { connections := Heap.empty
    busyQueue := []
    avQueue := []
    destroyQueue := []
    totalConnections := 0
    busyConnections := 0
    connecting := []
    held := [] }

inductive Queue where
  | busy
  | av
  | destroy
deriving DecidableEq, Repr

/-- `mk_list_del` followed by `mk_list_add`. -/
def State.move (state : State) (conn : Ref) (queue : Queue) : State :=
  let added (here : Queue) := if queue = here then [conn] else []
  { state with
    busyQueue := state.busyQueue.erase conn ++ added .busy
    avQueue := state.avQueue.erase conn ++ added .av
    destroyQueue := state.destroyQueue.erase conn ++ added .destroy }

def State.modify (state : State) (conn : Ref) (change : Connection → Connection) : State :=
  { state with connections := state.connections.modify conn change }

/-- The event is deleted and the socket closed. -/
def Connection.close (connection : Connection) : Connection :=
  { connection with event := .none, fd := if connection.fd > 0 then -1 else connection.fd }

def prepareDestroyConn (state : State) (conn : Ref) : State :=
  let state := (state.modify conn Connection.close).move conn .destroy
  { state with totalConnections := state.totalConnections - 1 }

/-- `destroy_conn`.  Events that wait in the priority queue delay it. -/
def destroyConn (pending : Ref → Bool) (state : State) (conn : Ref) : State :=
  match state.connections.get conn with
  | none => state
  | some connection =>
    if connection.busyFlag || pending conn then state
    else
      { state with
        connections := state.connections.free conn
        destroyQueue := state.destroyQueue.erase conn }

def pendingDestroy (pending : Ref → Bool) (state : State) : State :=
  state.destroyQueue.foldl (destroyConn pending) state

section
variable (settings : Settings)

/-- `flb_upstream_increment_total_connections_count`.  The gauge of a parent is
incremented by the call for the parent and then once more. -/
def incrementTotal (state : State) : State :=
  { state with totalConnections := state.totalConnections + if settings.hasParent then 2 else 1 }

/-- `flb_connection_create` and `flb_connection_reset_connection_timeout`. -/
def connectionCreate (now : Int) : Connection :=
  { fd := -1
    recycle := settings.ioTcpKa
    busyFlag := true
    netError := -1
    event := .none
    kaCount := 0
    tsConnectTimeout :=
      if settings.connectTimeout > 0 then now + settings.connectTimeout
      else -1
    tsIoTimeout := -1
    tsAvailable := 0 }

/-- `create_conn`, up to the point where the name lookup suspends. -/
def createConn (now : Int) (state : State) : State :=
  let conn := state.connections.next
  incrementTotal settings
    { state with
      connections := state.connections.alloc (connectionCreate settings now)
      busyQueue := state.busyQueue ++ [conn]
      connecting := state.connecting ++ [(conn, .lookup)] }

/-- What `create_conn` does when the connection failed. -/
def connectFailed (state : State) (conn : Ref) : State :=
  let state := state.modify conn fun connection =>
    { connection with tsConnectTimeout := -1, busyFlag := false }
  let state := prepareDestroyConn state conn
  { state with connecting := state.connecting.filter fun other => other.1 ≠ conn }

/-- The end of `flb_upstream_conn_get`: a connection goes to the caller. -/
def handOut (now : Int) (state : State) (conn : Ref) : State :=
  let state := state.modify conn fun connection =>
    { connection with
      busyFlag := true
      tsIoTimeout :=
        if settings.ioTimeout > 0 then now + settings.ioTimeout
        else connection.tsIoTimeout }
  { state with busyConnections := state.busyConnections + 1, held := state.held ++ [conn] }

/-- The end of `create_conn` for a connection that is established. -/
def connected (now : Int) (state : State) (conn : Ref) : State :=
  let state := state.modify conn fun connection =>
    { connection with tsConnectTimeout := -1, busyFlag := false, event := .none }
  handOut settings now
    { state with connecting := state.connecting.filter fun other => other.1 ≠ conn }
    conn

/-- The loop of `flb_upstream_conn_get` over the available connections.
Sockets in a failed state are given by a test. -/
def takeAvailable (failed : Ref → Bool) : List Ref → State → Option Ref × State
  | [], state => (none, state)
  | conn :: rest, state =>
    let state := state.move conn .busy
    if failed conn then
      let state := state.modify conn fun connection =>
        { connection with busyFlag := false }
      takeAvailable failed rest (prepareDestroyConn state conn)
    else
      (some conn,
        state.modify conn fun connection =>
          { connection with busyFlag := true, netError := -1 })

/-- The limit check of `flb_upstream_conn_get`. -/
def limitReached (state : State) : Bool :=
  settings.maxWorkerConnections > 0 &&
    (state.busyQueue.length + state.avQueue.length +
      state.destroyQueue.length : Int) ≥ settings.maxWorkerConnections

/-- `flb_upstream_conn_get`, up to where it suspends or returns. -/
def connGet (now : Int) (failed : Ref → Bool) (allocated : Bool) (state : State) : State :=
  let (found, state) :=
    if settings.keepalive then takeAvailable failed state.avQueue state
    else (none, state)
  match found with
  | some conn => handOut settings now state conn
  | none =>
    if limitReached settings state then state
    else if allocated then createConn settings now state
    else state

/-- `flb_upstream_conn_release`.  The event of a connection that is kept alive
is added, or the addition fails. -/
def connRelease (now : Int) (added : Bool) (state : State) (conn : Ref) (connection : Connection) :
    State :=
  let state := state.modify conn fun connection =>
    { connection with busyFlag := false }
  let state :=
    { state with busyConnections := state.busyConnections - 1, held := state.held.erase conn }
  if settings.keepalive && connection.recycle && connection.fd > -1 &&
      connection.netError = -1 then
    let state := (state.move conn .av).modify conn fun connection =>
      { connection with tsAvailable := now, event := if added then .keepalive else .none }
    if !added then prepareDestroyConn state conn
    else
      let state := state.modify conn fun connection =>
        { connection with kaCount := connection.kaCount + 1 }
      if settings.keepaliveMaxRecycle > 0 &&
          (connection.kaCount + 1 : Int) > settings.keepaliveMaxRecycle then
        prepareDestroyConn state conn
      else state
  else prepareDestroyConn state conn

def timedOut : Int := 110

def Connection.timeOut (connection : Connection) : Connection :=
  { connection with netError := timedOut }

/-- The test of `flb_upstream_conn_timeouts` on a busy connection. -/
def expired (now : Int) (connection : Connection) : Bool :=
  (settings.connectTimeout > 0 && connection.tsConnectTimeout > 0 &&
      connection.tsConnectTimeout ≤ now) ||
    (settings.ioTimeout > 0 && connection.tsIoTimeout > 0 && connection.tsIoTimeout ≤ now)

/-- A busy connection in `flb_upstream_conn_timeouts`.  The event of one that
is registered is injected, and its coroutine fails later. -/
def timeoutBusy (now : Int) (state : State) (conn : Ref) : State :=
  match state.connections.get conn with
  | none => state
  | some connection =>
    if expired settings now connection then
      let state := state.modify conn Connection.timeOut
      let state :=
        if connection.event = .none then prepareDestroyConn state conn
        else state
      { state with busyConnections := state.busyConnections - 1 }
    else state

/-- An available connection in `flb_upstream_conn_timeouts`. -/
def timeoutAvailable (now : Int) (state : State) (conn : Ref) : State :=
  match state.connections.get conn with
  | none => state
  | some connection =>
    if now - connection.tsAvailable ≥ settings.keepaliveIdleTimeout then
      prepareDestroyConn state conn
    else state

/-- `flb_upstream_conn_timeouts`, for one upstream. -/
def connTimeouts (now : Int) (state : State) : State :=
  let state := state.busyQueue.foldl (timeoutBusy settings now) state
  state.avQueue.foldl (timeoutAvailable settings now) state

/-- What happens to an upstream.  `lookupDone` and `connectDone` resume a
caller in `flb_io_net_connect`; `use` is what the holder of a connection does
to it. -/
inductive Event where
  | get (now : Int) (failed : Ref → Bool) (allocated : Bool)
  | lookupDone (conn : Ref) (found : Bool) (fd : Int)
  | connectDone (conn : Ref) (established : Bool) (now : Int)
  | use (conn : Ref) (fd netError tsIoTimeout : Int) (recycle : Bool) (event : Registration)
  | release (conn : Ref) (now : Int) (added : Bool)
  | remoteClose (conn : Ref)
  | timeouts (now : Int)
  | pendingDestroy (pending : Ref → Bool)

/-- One step, when it is possible: callers act on connections they hold or
open, and a remote close is seen when its event is registered. -/
def step (state : State) : Event → Option State
  | .get now failed allocated => some (connGet settings now failed allocated state)
  | .lookupDone conn found fd =>
    match state.connections.get conn with
    | none => none
    | some connection =>
      if (conn, .lookup) ∉ state.connecting then none
      else if found && connection.netError ≤ 0 then
        let state := state.modify conn fun connection =>
          { connection with fd := fd, event := .coroutine }
        some
          { state with
            connecting := state.connecting.map fun other =>
              if other.1 = conn then (conn, .handshake) else other }
      else some (connectFailed state conn)
  | .connectDone conn established now =>
    match state.connections.get conn with
    | none => none
    | some connection =>
      if (conn, .handshake) ∉ state.connecting then none
      else if established && connection.netError ≠ timedOut then
        some (connected settings now state conn)
      else some (connectFailed state conn)
  | .use conn fd netError tsIoTimeout recycle event =>
    if conn ∉ state.held then none
    else
      some (state.modify conn fun connection =>
        { connection with
          fd := fd
          netError := netError
          tsIoTimeout := tsIoTimeout
          recycle := recycle
          event := event })
  | .release conn now added =>
    match state.connections.get conn with
    | none => none
    | some connection =>
      if conn ∉ state.held then none
      else some (connRelease settings now added state conn connection)
  | .remoteClose conn =>
    match state.connections.get conn with
    | none => none
    | some connection =>
      if connection.event ≠ .keepalive then none
      else some (prepareDestroyConn state conn)
  | .timeouts now => some (connTimeouts settings now state)
  | .pendingDestroy pending => some (pendingDestroy pending state)

end

end FluentBit.Upstream
