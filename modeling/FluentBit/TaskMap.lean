import FluentBit.Lib.Handles
import FluentBit.RoutesMask
import FluentBit.Engine.Dispatch
import FluentBit.Lib.Run

/-!
# The task map

Every task has an id, the index of its entry in `config->task_map`.  The id
travels in the completion message of a flush, packed together with the return
value and the id of the output, and the engine finds the task again through
the map.  When the event chunk of a task cannot be created the task is freed
and its id is not given back.
-/

namespace FluentBit.TaskMap

open Handles List Function BitVec

/-- `FLB_ERROR`, `FLB_OK` and `FLB_RETRY`. -/
inductive Return where
  | error
  | ok
  | retry
deriving DecidableEq, Repr

def Return.value : Return → BitVec 32
  | .error => 0#32
  | .ok => 1#32
  | .retry => 2#32

def taskSet (ret taskId outId : BitVec 32) : BitVec 32 := (ret <<< 28) ||| (taskId <<< 14) ||| outId

def taskRet (val : BitVec 32) : BitVec 32 := val >>> 28

def taskId (val : BitVec 32) : BitVec 32 := (val &&& 0xfffc000#32) >>> 14

def taskOut (val : BitVec 32) : BitVec 32 := val &&& 0x3fff#32

def bitsU64Set (high low : BitVec 32) : BitVec 64 := (high.setWidth 64 <<< 32) ||| low.setWidth 64

/-- `FLB_BITS_U64_HIGH`, stored in an `uint32_t`. -/
def bitsU64High (val : BitVec 64) : BitVec 32 := (val >>> 32).setWidth 32

/-- `FLB_BITS_U64_LOW`, stored in an `uint32_t`. -/
def bitsU64Low (val : BitVec 64) : BitVec 32 := (val &&& 0xffffffff#64).setWidth 32

def engineTask : BitVec 32 := 2#32

/-- What `flb_output_return` writes on the channel of its event loop. -/
def outputReturn (ret : Return) (taskId outId : Nat) : BitVec 64 :=
  bitsU64Set engineTask (taskSet ret.value (BitVec.ofNat 32 taskId) (BitVec.ofNat 32 outId))

/-- How `handle_output_event` takes a message apart. -/
def handleOutputEvent (val : BitVec 64) : Option (BitVec 32 × BitVec 32 × BitVec 32) :=
  if bitsU64High val ≠ engineTask then none
  else
    let key := bitsU64Low val
    some (taskRet key, taskId key, taskOut key)

def defaultTaskMapSize : Nat := 2048

def taskMapSizeLimit : Nat := 16384

def taskMapGrowthSize : Nat := 256

abbrev TaskRef := Nat
abbrev InId := Nat
abbrev OutId := Nat

/-- `config->task_map` with its size.  The map starts at the default size and
grows in fixed steps up to the limit. -/
structure Table where
  slots : List (Option TaskRef)
  aligned : taskMapGrowthSize ∣ slots.length
  bounded : slots.length ≤ taskMapSizeLimit

/-- `flb_config_task_map_resize`.  A map of size zero is the null pointer; the
flag says whether the allocation succeeds.  The old map stays on failure. -/
def taskMapResize (allocated : Bool) (slots : List (Option TaskRef)) (newSize : Nat) : Option
    (List (Option TaskRef)) :=
  if newSize = slots.length then some slots
  else if newSize = 0 then some []
  else if allocated then
    some (slots.take newSize ++ List.replicate (newSize - slots.length) none)
  else none

theorem taskMapResize_grown {allocated : Bool} {slots grown : List (Option TaskRef)} {growth : Nat}
    (resized : taskMapResize allocated slots (slots.length + growth) = some grown) :
    grown = slots ++ List.replicate growth none := by
  have kept : slots.take (slots.length + growth) = slots := List.take_of_length_le (by omega)
  rw [taskMapResize, kept, Nat.add_sub_cancel_left] at resized
  split at resized
  · have none : growth = 0 := by omega
    simpa [none] using resized.symm
  · split at resized
    · exact absurd ‹slots.length + growth ≠ slots.length› (by omega)
    · split at resized
      · exact (Option.some.inj resized).symm
      · exact absurd resized (by simp)

def taskMapGrow (allocated : Bool) (table : Table) : Option Table :=
  if full : table.slots.length ≥ taskMapSizeLimit then none
  else
    match resized : taskMapResize allocated table.slots
        (table.slots.length + taskMapGrowthSize) with
    | none => none
    | some slots =>
      have length : slots.length = table.slots.length + taskMapGrowthSize := by
        rw [taskMapResize_grown resized, List.length_append, List.length_replicate]
      some
        { slots := slots
          aligned := by
            rw [length]
            exact Nat.dvd_add table.aligned (Nat.dvd_refl _)
          bounded := by
            -- Both sizes are multiples of the growth step.
            obtain ⟨steps, size⟩ := table.aligned
            rw [length, size]
            rw [size] at full
            simp only [taskMapGrowthSize, taskMapSizeLimit] at full ⊢
            omega }

/-- `map_get_task_id`: the lowest free id, or the first id of the part the map
has grown by.  The flag is about the growth of the map. -/
def mapGetTaskId (allocated : Bool) (table : Table) : Option Nat × Table :=
  match table.slots.findIdx? Option.isNone with
  | some id => (some id, table)
  | none =>
    match taskMapGrow allocated table with
    | some grown => (some table.slots.length, grown)
    | none => (none, table)

def Table.set (table : Table) (id : Nat) (entry : Option TaskRef) : Table :=
  { slots := table.slots.set id entry
    aligned := by rw [List.length_set]; exact table.aligned
    bounded := by rw [List.length_set]; exact table.bounded }

def mapSetTaskId (id : Nat) (task : TaskRef) (table : Table) : Table := table.set id (some task)

def mapFreeTaskId (id : Nat) (table : Table) : Table := table.set id none

/-- `FLB_INPUT_LOGS` to `FLB_INPUT_PROFILES`. -/
inductive EventType where
  | logs
  | metrics
  | traces
  | blobs
  | profiles
deriving DecidableEq, Repr

/-- The bit of `FLB_OUTPUT_LOGS` to `FLB_OUTPUT_PROFILES`. -/
def EventType.outputBit : EventType → BitVec 32
  | .logs => 1#32
  | .metrics => 2#32
  | .traces => 4#32
  | .blobs => 8#32
  | .profiles => 16#32

/-- `struct flb_output_instance`, as far as tasks are created from it. -/
structure Output where
  id : OutId
  eventType : BitVec 32
deriving DecidableEq, Repr

def routerMatchType (inEventType : EventType) (output : Output) : Bool :=
  output.eventType &&& inEventType.outputBit != 0#32

/-- The outputs of a configuration, and the direct routes of its inputs. -/
structure Setup where
  outputs : List Output
  routesDirect : InId → List OutId
  ids_nodup : (outputs.map Output.id).Nodup

/-- `flb_engine_start` sizes the routes masks by the number of outputs. -/
def Setup.maskConfig (setup : Setup) : RoutesMask.Config := RoutesMask.setSize setup.outputs.length

/-- `struct flb_task`.  The input is not set before the task is linked. -/
structure Task where
  id : Nat
  iIns : Option InId
  routes : List OutId
deriving DecidableEq, Repr

structure State where
  taskMap : Table
  heap : Heap Task
  tasks : InId → List TaskRef

/-- The state `flb_config_init` leaves. -/
def configInit : State :=
  { taskMap :=
      { slots := List.replicate defaultTaskMapSize none
        aligned := by
          rw [List.length_replicate]
          exact ⟨8, rfl⟩
        bounded := by
          rw [List.length_replicate]
          exact Nat.le_of_ble_eq_true rfl }
    heap := Heap.empty
    tasks := fun _ => [] }

/-- What one call of `flb_task_create` is given: the input, and the type and
the routes of the chunk. -/
structure Request (setup : Setup) where
  iIns : InId
  eventType : EventType
  routesMask : RoutesMask.Mask setup.maskConfig

/-- Which allocations of `flb_task_create` succeed: the task, the growth of the
map, the event chunk with its tag, and the routes in the order they are
asked for. -/
structure Memory where
  task : Bool
  taskMap : Bool
  eventChunk : Bool
  route : Nat → Bool

def taskAlloc (memory : Memory) (state : State) : Option TaskRef × State :=
  if memory.task then
    match mapGetTaskId memory.taskMap state.taskMap with
    | (none, taskMap) => (none, { state with taskMap := taskMap })
    | (some id, taskMap) =>
      (some state.heap.next,
        { state with
          taskMap := mapSetTaskId id state.heap.next taskMap
          heap := state.heap.alloc { id := id, iIns := none, routes := [] } })
  else (none, state)

/-- `flb_free` of a task, with no other cleanup. -/
def freeTask (ref : TaskRef) (state : State) : State :=
  { state with heap := state.heap.free ref }

/-- Keep track of the origin of a task: set its input, and link it there. -/
def linkTask (ref : TaskRef) (iIns : InId) (state : State) : State :=
  { state with
    heap := state.heap.modify ref fun task => { task with iIns := some iIns }
    tasks := Function.update state.tasks iIns (state.tasks iIns ++ [ref]) }

def setRoutes (ref : TaskRef) (routes : List OutId) (state : State) : State :=
  { state with heap := state.heap.modify ref fun task => { task with routes := routes } }

def taskDestroy (ref : TaskRef) (state : State) : State :=
  match state.heap.get ref with
  | none => state
  | some task =>
    { taskMap := mapFreeTaskId task.id state.taskMap
      heap := state.heap.free ref
      tasks :=
        match task.iIns with
        | none => state.tasks
        | some iIns => Function.update state.tasks iIns ((state.tasks iIns).erase ref) }

/-- The loop over the direct routes: it gives up at the first allocation that
fails. -/
def directRoutes (allocated : Nat → Bool) : Nat → List OutId → Option (List OutId)
  | _, [] => some []
  | asked, out :: outs =>
    if allocated asked then
      (directRoutes allocated (asked + 1) outs).map (out :: ·)
    else none

/-- The loop over the outputs: it goes on after an allocation that fails. -/
def matchingRoutes {config : RoutesMask.Config} (allocated : Nat → Bool)
    (eventType : EventType) (mask : RoutesMask.Mask config) :
    Nat → List Output → List OutId
  | _, [] => []
  | asked, output :: outputs =>
    if routerMatchType eventType output &&
        RoutesMask.getBit mask output.id then
      if allocated asked then
        output.id :: matchingRoutes allocated eventType mask (asked + 1) outputs
      else matchingRoutes allocated eventType mask (asked + 1) outputs
    else matchingRoutes allocated eventType mask asked outputs

/-- What `flb_task_create` does once the task is linked to its input. -/
def routeTask {setup : Setup} (request : Request setup) (memory : Memory)
    (ref : TaskRef) (state : State) : Option TaskRef × State :=
  if setup.routesDirect request.iIns = [] then
    match matchingRoutes memory.route request.eventType request.routesMask 0
        setup.outputs with
    | [] => (none, taskDestroy ref state)
    | out :: outs => (some ref, setRoutes ref (out :: outs) state)
  else
    match directRoutes memory.route 0 (setup.routesDirect request.iIns) with
    | none => (none, taskDestroy ref state)
    | some routes => (some ref, setRoutes ref routes state)

/-- `flb_task_create`: the task, the error flag, and the new state.  Without an
event chunk the task is only freed. -/
def taskCreate {setup : Setup} (request : Request setup) (memory : Memory) (state : State) :
    Option TaskRef × Bool × State :=
  match taskAlloc memory state with
  | (none, state) => (none, true, state)
  | (some ref, state) =>
    if memory.eventChunk then
      let (result, state) := routeTask request memory ref (linkTask ref request.iIns state)
      (result, false, state)
    else (none, true, freeTask ref state)

/-- The calls that read or change the map.  `flb_engine_dispatch` asks for an
id before it creates a task; the map may grow then, too. -/
inductive Call (setup : Setup) where
  | create (request : Request setup) (memory : Memory)
  | destroy (ref : TaskRef)
  | getTaskId (allocated : Bool)

/-- One call.  Only a live task is destroyed. -/
def step {setup : Setup} (state : State) : Call setup → Option State
  | .create request memory => some (taskCreate request memory state).2.2
  | .destroy ref =>
    match state.heap.get ref with
    | none => none
    | some _ => some (taskDestroy ref state)
  | .getTaskId allocated =>
    some
      { state with taskMap := (mapGetTaskId allocated state.taskMap).2 }

section
variable {ret task out : BitVec 32} (retBound : ret.toNat < 16) (taskBound : task.toNat < 16384)
  (outBound : out.toNat < 16384)
include retBound taskBound outBound

theorem toNat_taskSet :
    (taskSet ret task out).toNat = ret.toNat * 268435456 + task.toNat * 16384 + out.toNat := by
  have low : task.toNat <<< 14 ||| out.toNat = task.toNat <<< 14 + out.toNat :=
    (Nat.shiftLeft_add_eq_or_of_lt outBound _).symm
  have high : ret.toNat <<< 28 ||| (task.toNat <<< 14 + out.toNat) =
      ret.toNat <<< 28 + (task.toNat <<< 14 + out.toNat) :=
    (Nat.shiftLeft_add_eq_or_of_lt (by rw [Nat.shiftLeft_eq]; omega) _).symm
  simp only [Nat.shiftLeft_eq] at low high
  simp only [taskSet, toNat_or, toNat_shiftLeft, Nat.shiftLeft_eq]
  rw [Nat.mod_eq_of_lt (by omega), Nat.mod_eq_of_lt (by omega), Nat.or_assoc, low, high]
  omega

theorem taskRet_taskSet : taskRet (taskSet ret task out) = ret := by
  apply eq_of_toNat_eq
  rw [taskRet, toNat_ushiftRight,
    toNat_taskSet retBound taskBound outBound, Nat.shiftRight_eq_div_pow]
  omega

end

theorem toNat_taskId (val : BitVec 32) : (taskId val).toNat = val.toNat / 16384 % 16384 := by
  have mask : 0xfffc000#32 >>> 14 = 0x3fff#32 := rfl
  rw [taskId, ushiftRight_and_distrib, mask, toNat_and,
    toNat_ushiftRight, Nat.shiftRight_eq_div_pow]
  exact Nat.and_two_pow_sub_one_eq_mod _ 14

theorem toNat_taskOut (val : BitVec 32) : (taskOut val).toNat = val.toNat % 16384 := by
  exact Nat.and_two_pow_sub_one_eq_mod _ 14

theorem toNat_bitsU64Set (high low : BitVec 32) :
    (bitsU64Set high low).toNat = high.toNat * 4294967296 + low.toNat := by
  have joined : high.toNat <<< 32 ||| low.toNat = high.toNat <<< 32 + low.toNat :=
    (Nat.shiftLeft_add_eq_or_of_lt low.isLt _).symm
  have highBound := high.isLt
  have lowBound := low.isLt
  simp only [Nat.shiftLeft_eq] at joined
  simp only [bitsU64Set, toNat_or, toNat_shiftLeft,
    toNat_setWidth, Nat.shiftLeft_eq]
  rw [Nat.mod_eq_of_lt (by omega : low.toNat < 2 ^ 64), Nat.mod_eq_of_lt
    (by omega : high.toNat < 2 ^ 64), Nat.mod_eq_of_lt (by omega), joined]

theorem bitsU64High_bitsU64Set (high low : BitVec 32) :
    bitsU64High (bitsU64Set high low) = high := by
  have lowBound := low.isLt
  apply eq_of_toNat_eq
  rw [bitsU64High, toNat_setWidth, toNat_ushiftRight,
    toNat_bitsU64Set, Nat.shiftRight_eq_div_pow]
  omega

theorem bitsU64Low_bitsU64Set (high low : BitVec 32) : bitsU64Low (bitsU64Set high low) = low := by
  have masked : ((bitsU64Set high low) &&& 0xffffffff#64).toNat =
      (bitsU64Set high low).toNat % 4294967296 := by
    exact Nat.and_two_pow_sub_one_eq_mod _ 32
  apply eq_of_toNat_eq
  rw [bitsU64Low, toNat_setWidth, masked, toNat_bitsU64Set]
  omega

def Decodes (ret : Return) (task out : Nat) : Prop :=
  ∃ taskPart outPart : BitVec 32,
    handleOutputEvent (outputReturn ret task out) = some (ret.value, taskPart, outPart) ∧
    taskPart.toNat = task ∧ outPart.toNat = out

theorem handleOutputEvent_outputReturn (ret : Return) (task out : Nat) :
    let key := taskSet ret.value (BitVec.ofNat 32 task) (BitVec.ofNat 32 out)
    handleOutputEvent (outputReturn ret task out) =
      some (taskRet key, taskId key, taskOut key) := by
  rw [handleOutputEvent, outputReturn, bitsU64High_bitsU64Set,
    bitsU64Low_bitsU64Set, if_neg (not_not_intro rfl)]

theorem decodes (ret : Return) {task out : Nat} (taskBound : task < 16384)
    (outBound : out < 16384) : Decodes ret task out := by
  have retSmall : ret.value.toNat < 16 := by
    cases ret <;> simp [Return.value]
  have taskPart : (BitVec.ofNat 32 task).toNat = task := by
    rw [toNat_ofNat]
    omega
  have outPart : (BitVec.ofNat 32 out).toNat = out := by
    rw [toNat_ofNat]
    omega
  rw [← taskPart] at taskBound
  rw [← outPart] at outBound
  have packed := toNat_taskSet retSmall taskBound outBound
  have message := handleOutputEvent_outputReturn ret task out
  dsimp only at message
  rw [taskRet_taskSet retSmall taskBound outBound] at message
  refine ⟨_, _, message, ?_, ?_⟩
  · rw [toNat_taskId, packed]
    omega
  · rw [toNat_taskOut, packed]
    omega

/-- `config->task_map[id].task`. -/
def Table.entry (table : Table) : Nat → Option TaskRef := slotAt table.slots

def State.entry (state : State) : Nat → Option TaskRef := state.taskMap.entry

variable {table : Table} {ref : TaskRef} {state next : State} {setup : Setup}
  {request : Request setup} {memory : Memory}

theorem Table.entry_set {id : Nat} (inside : id < table.slots.length) (content : Option TaskRef) :
    (table.set id content).entry = update table.entry id content :=
  slotAt_set inside content

theorem taskMapGrow_entry {allocated : Bool} {grown : Table}
    (success : taskMapGrow allocated table = some grown) :
    grown.entry = table.entry ∧ table.slots.length < grown.slots.length := by
  rw [taskMapGrow] at success
  split at success
  · exact absurd success (by simp)
  · split at success
    · exact absurd success (by simp)
    · next slots resized =>
      have shape := taskMapResize_grown resized
      cases success
      constructor
      · simp only [Table.entry, shape, slotAt_append_replicate]
      · simp only [shape, length_append, length_replicate, taskMapGrowthSize]
        omega

/-- Whether `map_get_task_id` has an id to give. -/
def Table.hasId (table : Table) (allocated : Bool) : Bool :=
  table.slots.any Option.isNone || (decide (table.slots.length < taskMapSizeLimit) && allocated)

theorem taskMapGrow_isSome (allocated : Bool) (table : Table) :
    (taskMapGrow allocated table).isSome =
      (decide (table.slots.length < taskMapSizeLimit) && allocated) := by
  rw [taskMapGrow]
  split
  · next full => simp [Nat.not_lt.mpr full]
  · next room =>
    have below : table.slots.length < taskMapSizeLimit := by omega
    have positive : table.slots.length + taskMapGrowthSize ≠
        table.slots.length := by simp [taskMapGrowthSize]
    have nonzero : table.slots.length + taskMapGrowthSize ≠ 0 := by simp [taskMapGrowthSize]
    split
    · next refused =>
      rw [taskMapResize, if_neg positive, if_neg nonzero] at refused
      split at refused
      · exact absurd refused (by simp)
      · next failed => simp [failed]
    · next slots resized =>
      rw [taskMapResize, if_neg positive, if_neg nonzero] at resized
      split at resized
      · next succeeded => simp [below, succeeded]
      · exact absurd resized (by simp)

/-- What `map_get_task_id` gives: a free id inside the map that holds the same
entries as before, or no id and the map as it was. -/
theorem mapGetTaskId_cases (allocated : Bool) (table : Table) :
    (∃ id grown, mapGetTaskId allocated table = (some id, grown) ∧
      table.hasId allocated = true ∧ grown.entry = table.entry ∧
      table.entry id = none ∧ id < grown.slots.length) ∨
    mapGetTaskId allocated table = (none, table) ∧ table.hasId allocated = false := by
  rw [mapGetTaskId]
  cases found : table.slots.findIdx? Option.isNone with
  | some id =>
    left
    obtain ⟨inside, free, _⟩ := List.findIdx?_eq_some_iff_getElem.mp found
    refine ⟨id, table, rfl, ?_, rfl, ?_, inside⟩
    · rw [Table.hasId, Bool.or_eq_true, any_eq_true]
      exact Or.inl ⟨_, getElem_mem inside, free⟩
    · rw [Table.entry, slotAt, List.getElem?_eq_getElem inside, Option.isNone_iff_eq_none.mp free]
      rfl
  | none =>
    have full : table.slots.any Option.isNone = false := by
      rw [any_eq_false]
      intro entry member
      rw [List.findIdx?_eq_none_iff.mp found entry member]
      exact Bool.false_ne_true
    have available := taskMapGrow_isSome allocated table
    cases grew : taskMapGrow allocated table with
    | some grown =>
      left
      obtain ⟨same, longer⟩ := taskMapGrow_entry grew
      refine ⟨table.slots.length, grown, rfl, ?_, same, ?_, longer⟩
      · rw [Table.hasId, full, ← available, grew]
        rfl
      · rw [Table.entry, slotAt, List.getElem?_eq_none (by omega)]
        rfl
    | none =>
      right
      refine ⟨rfl, ?_⟩
      rw [Table.hasId, full, ← available, grew]
      rfl

/-- What a call does to the entries of the map and to the live tasks. -/
inductive Outcome (state next : State) : Prop where
  | unchanged (entries : next.entry = state.entry) (tasks : next.heap.get = state.heap.get)
  | entered (ref : TaskRef) (task : Task) (unheld : state.entry task.id = none)
      (fresh : state.heap.get ref = none)
      (entries : next.entry = update state.entry task.id (some ref))
      (tasks : next.heap.get = update state.heap.get ref (some task))
  | removed (ref : TaskRef) (task : Task) (live : state.heap.get ref = some task)
      (entries : next.entry = update state.entry task.id none)
      (tasks : next.heap.get = update state.heap.get ref none)

def Leaked (state next : State) : Prop :=
  ∃ id ref, state.entry id = none ∧ state.heap.get ref = none ∧
    next.entry = update state.entry id (some ref) ∧
    next.heap.get = state.heap.get

/-- What `task_alloc` does when it succeeds. -/
structure Allocated (state next : State) (ref : TaskRef) (task : Task) : Prop where
  unheld : state.entry task.id = none
  fresh : state.heap.get ref = none
  inside : task.id < next.taskMap.slots.length
  entries : next.entry = update state.entry task.id (some ref)
  tasks : next.heap.get = update state.heap.get ref (some task)

theorem Allocated.live {task : Task} (allocated : Allocated state next ref task) :
    next.heap.get ref = some task := by
  rw [allocated.tasks, update_self]

theorem taskAlloc_cases (memory : Memory) (state : State) :
    (∃ ref task next, taskAlloc memory state = (some ref, next) ∧
      (memory.task && state.taskMap.hasId memory.taskMap) = true ∧
      Allocated state next ref task) ∨
    (∃ next, taskAlloc memory state = (none, next) ∧
      (memory.task && state.taskMap.hasId memory.taskMap) = false ∧
      Outcome state next) := by
  rw [taskAlloc]
  by_cases given : memory.task = true
  · rw [if_pos given, given, Bool.true_and]
    obtain ⟨id, grown, result, available, same, unheld, inside⟩ | ⟨result, unavailable⟩ :=
      mapGetTaskId_cases memory.taskMap state.taskMap
    · left
      refine ⟨state.heap.next, { id := id, iIns := none, routes := [] },
        { state with
          taskMap := mapSetTaskId id state.heap.next grown
          heap := state.heap.alloc { id := id, iIns := none, routes := [] } },
        by rw [result], available, ?_⟩
      refine
        { unheld := unheld
          fresh := state.heap.get_next
          inside := ?_
          entries := ?_
          tasks := rfl }
      · simpa only [mapSetTaskId, Table.set, length_set] using inside
      · change (grown.set id (some state.heap.next)).entry = _
        rw [Table.entry_set inside, same]
        rfl
    · right
      refine ⟨state, by rw [result], unavailable, ?_⟩
      exact .unchanged rfl rfl
  · rw [if_neg given]
    right
    refine ⟨state, rfl, ?_, .unchanged rfl rfl⟩
    simp [given]

theorem taskDestroy_live {task : Task} (live : state.heap.get ref = some task)
    (inside : task.id < state.taskMap.slots.length) :
    (taskDestroy ref state).entry = update state.entry task.id none ∧
      (taskDestroy ref state).heap.get = update state.heap.get ref none := by
  rw [taskDestroy, live]
  constructor
  · exact Table.entry_set inside none
  · rfl

namespace Allocated

variable {state next : State} {ref : TaskRef} {task : Task}

section
variable (allocated : Allocated state next ref task)
include allocated

theorem modify (change : Task → Task) (keepsId : ∀ task, (change task).id = task.id)
    {changed : State} (sameMap : changed.taskMap = next.taskMap)
    (modified : changed.heap = next.heap.modify ref change) :
    Allocated state changed ref (change task) := by
  refine
    { unheld := ?_, fresh := allocated.fresh, inside := ?_, entries := ?_, tasks := ?_ }
  · rw [keepsId]
    exact allocated.unheld
  · rw [keepsId, sameMap]
    exact allocated.inside
  · rw [keepsId, State.entry, sameMap]
    exact allocated.entries
  · rw [modified, Heap.get_modify allocated.live, allocated.tasks, update_idem]

theorem linkTask (iIns : InId) :
    Allocated state (linkTask ref iIns next) ref
      { task with iIns := some iIns } :=
  allocated.modify (fun task => { task with iIns := some iIns }) (fun _ => rfl) rfl rfl

theorem setRoutes (routes : List OutId) :
    Allocated state (setRoutes ref routes next) ref
      { task with routes := routes } :=
  allocated.modify (fun task => { task with routes := routes }) (fun _ => rfl) rfl rfl

theorem outcome : Outcome state next :=
  .entered ref task allocated.unheld allocated.fresh allocated.entries allocated.tasks

theorem taskDestroy : Outcome state (taskDestroy ref next) := by
  obtain ⟨entries, tasks⟩ := taskDestroy_live allocated.live allocated.inside
  apply Outcome.unchanged
  · rw [entries, allocated.entries, update_idem]
    exact update_eq_self_iff.mpr allocated.unheld.symm
  · rw [tasks, allocated.tasks, update_idem]
    exact update_eq_self_iff.mpr allocated.fresh.symm

theorem freeTask : Leaked state (freeTask ref next) := by
  refine ⟨task.id, ref, allocated.unheld, allocated.fresh, allocated.entries, ?_⟩
  rw [TaskMap.freeTask, Heap.get_free, allocated.tasks, update_idem]
  exact update_eq_self_iff.mpr allocated.fresh.symm

end

theorem routeTask {setup : Setup} {request : Request setup}
    {memory : Memory} (allocated : Allocated state next ref task) :
    Outcome state (routeTask request memory ref next).2 := by
  rw [TaskMap.routeTask]
  split
  · split
    · exact allocated.taskDestroy
    · exact (allocated.setRoutes _).outcome
  · split
    · exact allocated.taskDestroy
    · exact (allocated.setRoutes _).outcome

end Allocated

/-- A call that creates the event chunk of every task it takes an id for. -/
def Call.keepsMap {setup : Setup} (state : State) : Call setup → Bool
  | .create _ memory =>
    !(memory.task && state.taskMap.hasId memory.taskMap) || memory.eventChunk
  | .destroy _ => true
  | .getTaskId _ => true

theorem taskCreate_outcome (keeps : (Call.create request memory).keepsMap state = true) :
    Outcome state (taskCreate request memory state).2.2 := by
  rw [taskCreate]
  obtain ⟨ref, task, next, result, available, allocated⟩ |
      ⟨next, result, _, outcome⟩ := taskAlloc_cases memory state
  · rw [Call.keepsMap, available] at keeps
    have created : memory.eventChunk = true := by simpa using keeps
    simp only [result, if_pos created]
    exact (allocated.linkTask request.iIns).routeTask
  · simp only [result]
    exact outcome

theorem taskCreate_leaked (loses : (Call.create request memory).keepsMap state = false) :
    Leaked state (taskCreate request memory state).2.2 := by
  rw [taskCreate]
  rw [Call.keepsMap, Bool.or_eq_false_iff] at loses
  obtain ⟨taken, failed⟩ := loses
  obtain ⟨ref, task, next, result, _, allocated⟩ |
      ⟨next, result, unavailable, _⟩ := taskAlloc_cases memory state
  · simp only [result, failed, Bool.false_eq_true, if_false]
    exact allocated.freeTask
  · rw [unavailable] at taken
    exact absurd taken (by simp)

theorem matchingRoutes_sublist {config : RoutesMask.Config} (allocated : Nat → Bool)
    (eventType : EventType) (mask : RoutesMask.Mask config) (asked : Nat) (outputs : List Output) :
    (matchingRoutes allocated eventType mask asked outputs).Sublist (outputs.map Output.id) := by
  induction outputs generalizing asked with
  | nil => exact .slnil
  | cons output outputs ih =>
    rw [matchingRoutes, map_cons]
    split
    · split
      · exact (ih (asked + 1)).cons_cons output.id
      · exact (ih (asked + 1)).cons output.id
    · exact (ih asked).cons output.id

/-- A task created from the routes mask of its chunk is what the engine
dispatches: it has a route, and no output twice. -/
theorem taskCreate_newTask (indirect : setup.routesDirect request.iIns = [])
    (success : (taskCreate request memory state).1 = some ref) :
    ∃ (created : Engine.NewTask OutId) (task : Task),
      (taskCreate request memory state).2.2.heap.get ref = some task ∧
      task.routes = created.routes ∧ task.iIns = some request.iIns := by
  rw [taskCreate] at success ⊢
  obtain ⟨new, task, next, result, _, allocated⟩ | ⟨next, result, _, _⟩ :=
    taskAlloc_cases memory state
  · simp only [result] at success ⊢
    split at success
    · next created =>
      simp only [created, if_true]
      rw [routeTask, if_pos indirect] at success ⊢
      have listed := matchingRoutes_sublist memory.route request.eventType
        request.routesMask 0 setup.outputs
      cases routes : matchingRoutes memory.route request.eventType
          request.routesMask 0 setup.outputs with
      | nil => simp [routes] at success
      | cons out outs =>
        rw [routes] at listed success
        cases success
        have live := ((allocated.linkTask request.iIns).setRoutes (out :: outs)).live
        exact
          ⟨{ routes := out :: outs
             nodup := setup.ids_nodup.sublist listed
             nonempty := cons_ne_nil out outs }, _, live, rfl, rfl⟩
    · exact absurd success (by simp)
  · simp [result] at success

/-- The entries of the map are the live tasks under their ids, the ids are
distinct and fit the completion messages. -/
structure Sound (state : State) : Prop where
  set_iff : ∀ id, state.entry id ≠ none ↔ ∃ ref task, state.heap.get ref = some task ∧ task.id = id
  entry_live : ∀ id ref, state.entry id = some ref →
    ∃ task, state.heap.get ref = some task ∧ task.id = id
  distinct : ∀ ref other task otherTask, state.heap.get ref = some task →
    state.heap.get other = some otherTask →
    task.id = otherTask.id → ref = other
  below : ∀ ref task, state.heap.get ref = some task → task.id < 16384
  decoded : ∀ ref task, state.heap.get ref = some task →
    ∀ out < 16384, ∀ ret, Decodes ret task.id out

theorem sound_iff (state : State) : Sound state ↔ Indexed state.entry state.heap.get Task.id := by
  constructor
  · intro sound id ref
    constructor
    · exact sound.entry_live id ref
    · rintro ⟨task, live, rfl⟩
      have held := (sound.set_iff task.id).mpr ⟨ref, task, live, rfl⟩
      obtain ⟨other, entry⟩ := Option.ne_none_iff_exists'.mp held
      obtain ⟨otherTask, otherLive, same⟩ := sound.entry_live task.id other entry
      rw [entry, sound.distinct ref other task otherTask live otherLive same.symm]
  · intro indexed
    have below : ∀ ref task, state.heap.get ref = some task → task.id < 16384 := by
      intro ref task live
      exact Nat.lt_of_lt_of_le (slotAt_lt (indexed.slot_eq live)) (Table.bounded _)
    refine
      { set_iff := ?_
        entry_live := fun id ref held => (indexed id ref).mp held
        distinct := fun _ _ _ _ => indexed.address_eq
        below := below
        decoded := ?_ }
    · intro id
      rw [Option.ne_none_iff_exists']
      exact exists_congr (indexed id)
    · intro ref task live out outBound ret
      exact decodes ret (below ref task live) outBound

theorem Outcome.indexed (outcome : Outcome state next)
    (indexed : Indexed state.entry state.heap.get Task.id) :
    Indexed next.entry next.heap.get Task.id := by
  cases outcome with
  | unchanged entries tasks =>
    rw [entries, tasks]
    exact indexed
  | entered ref task unheld fresh entries tasks =>
    rw [entries, tasks]
    exact indexed.insert unheld fresh
  | removed ref task live entries tasks =>
    rw [entries, tasks]
    exact indexed.remove live

theorem step_outcome {call : Call setup} (indexed : Indexed state.entry state.heap.get Task.id)
    (keeps : call.keepsMap state = true) (taken : step state call = some next) :
    Outcome state next := by
  cases call with
  | create request memory =>
    cases taken
    exact taskCreate_outcome keeps
  | destroy ref =>
    rw [step] at taken
    cases live : state.heap.get ref with
    | none =>
      rw [live] at taken
      exact absurd taken (by simp)
    | some task =>
      rw [live] at taken
      cases taken
      obtain ⟨entries, tasks⟩ := taskDestroy_live live (slotAt_lt (indexed.slot_eq live))
      exact .removed ref task live entries tasks
  | getTaskId allocated =>
    cases taken
    apply Outcome.unchanged
    · obtain ⟨id, grown, result, _, same, _, _⟩ | ⟨result, _⟩ :=
        mapGetTaskId_cases allocated state.taskMap
      · simp only [State.entry, result, same]
      · simp only [State.entry, result]
    · rfl

theorem step_leaked {call : Call setup} (loses : call.keepsMap state = false)
    (taken : step state call = some next) : Leaked state next := by
  cases call with
  | create request memory =>
    cases taken
    exact taskCreate_leaked loses
  | destroy ref | getTaskId allocated => exact absurd loses (by simp [Call.keepsMap])

theorem configInit_indexed : Indexed configInit.entry configInit.heap.get Task.id := by
  have entries : configInit.entry = fun _ => none := by
    have grown := slotAt_append_replicate [] defaultTaskMapSize
    exact grown
  rw [entries]
  exact Indexed.empty

theorem reached_indexed
    (reached : Run.Reaches (@step setup)
      (fun state call => call.keepsMap state = true) configInit state) :
    Indexed state.entry state.heap.get Task.id := by
  apply reached.invariant configInit_indexed
  intro current next call indexed keeps taken
  exact (step_outcome indexed keeps taken).indexed indexed

/-- The map is sound in every state of a run that creates the event chunk of
every task it takes an id for, and the first call that does not do so makes it
unsound. -/
theorem task_map_sound {setup : Setup} {state : State}
    (reached : Run.Reaches (@step setup)
      (fun state call => call.keepsMap state = true) configInit state) :
    Sound state ∧ ∀ (call : Call setup) (next : State),
      step state call = some next → (Sound next ↔ call.keepsMap state = true) := by
  have indexed := reached_indexed reached
  refine ⟨(sound_iff state).mpr indexed, ?_⟩
  intro call next taken
  rw [sound_iff]
  cases keeps : call.keepsMap state with
  | true =>
    simp only [iff_true]
    exact (step_outcome indexed keeps taken).indexed indexed
  | false =>
    simp only [Bool.false_eq_true, iff_false]
    obtain ⟨id, ref, _, fresh, entries, tasks⟩ := step_leaked keeps taken
    rw [entries, tasks]
    exact Indexed.not_update_of_fresh fresh

def oneOutput : Setup :=
  { outputs := [{ id := 0, eventType := 1#32 }]
    routesDirect := fun _ => []
    ids_nodup := by simp }

def logsRequest : Request oneOutput :=
  { iIns := 0, eventType := .logs, routesMask := RoutesMask.setBit (RoutesMask.zeroed _) 0 }

def allAllocated : Memory :=
  { task := true, taskMap := true, eventChunk := true, route := fun _ => true }

theorem taskCreate_newTask_logsRequest :
    ∃ (created : Engine.NewTask OutId) (task : Task),
      (taskCreate logsRequest allAllocated configInit).2.2.heap.get 0 = some task ∧
      task.routes = created.routes ∧ task.iIns = some 0 :=
  taskCreate_newTask rfl rfl

/-- Two tasks are created, the first one is destroyed, and its id is used
again after a creation that fails to allocate its route. -/
def reusedId : List (Call oneOutput) :=
  [.create logsRequest allAllocated, .create logsRequest allAllocated, .destroy 0,
    .create logsRequest { allAllocated with route := fun _ => false },
    .create logsRequest allAllocated]

theorem task_map_sound_reusedId :
    ∃ state, Run.runGuarded (@step oneOutput)
        (fun state call => call.keepsMap state = true) configInit
        reusedId = some state ∧
      state.entry 0 = some 3 ∧ state.entry 1 = some 1 ∧
      state.entry 2 = none ∧ Sound state := by
  obtain ⟨state, taken⟩ : ∃ state, Run.runGuarded (@step oneOutput)
      (fun state call => call.keepsMap state = true) configInit reusedId = some state := ⟨_, rfl⟩
  have sound := (task_map_sound (.of_runGuarded .refl taken)).1
  cases taken
  exact ⟨_, rfl, rfl, rfl, rfl, sound⟩

/-- When the event chunk cannot be created, the first entry of the map is left
with the address of the freed task. -/
theorem failed_event_chunk_leaves_entry :
    ∃ state, step configInit
        (.create logsRequest { allAllocated with eventChunk := false }) = some state ∧
      state.entry 0 = some 0 ∧ (∀ ref, state.heap.get ref = none) ∧
      ¬Sound state := by
  have noTask : ∀ ref, (taskCreate logsRequest
      { allAllocated with eventChunk := false }
      configInit).2.2.heap.get ref = none := by
    intro ref
    cases ref with
    | zero | succ ref => rfl
  refine ⟨_, rfl, rfl, noTask, ?_⟩
  intro sound
  obtain ⟨task, live, _⟩ := sound.entry_live 0 0 rfl
  rw [noTask] at live
  exact absurd live (by simp)

end FluentBit.TaskMap
