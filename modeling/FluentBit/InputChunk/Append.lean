import FluentBit.Engine.Dispatch
import FluentBit.HashTable
import FluentBit.Lib.Keyed
import FluentBit.Router
import FluentBit.RoutesMask

/-!
# Input chunks

The chunks of all inputs, the hash tables from tags to chunks, and the two
counters of filesystem bytes every output keeps: one for its chunks, one for
the chunks of the storage backlog that wait for it.  Chunks are heap cells
named by a reference that is never reused.  What Chunk I/O reports about a
chunk is kept with it; every call that may change the report is given the new
one.  The metadata of a chunk is a header of four bytes followed by the tag, or
the tag alone in chunks of old versions.

An output with a limit that new data would exceed gets room by dropping
chunks: first those of the storage backlog, as input chunks and as files that
still wait, then its route from the chunks of the input, then from those of
the other inputs.  Then the data is appended to the chunk the tag index names,
or to a new one.

`size_t` is a 64 bit word.  `ssize_t` values are integers: sizes of chunks and
sums of them are far from the bounds of the type.
-/

namespace FluentBit.InputChunk

open RoutesMask (Mask)

abbrev SizeT := BitVec 64

/-- An `ssize_t` converted to `size_t`. -/
def SizeT.ofInt (size : Int) : SizeT := BitVec.ofInt 64 size

abbrev ChunkRef := Nat

abbrev OutId := Nat

/-- A chunk file of the storage backlog (`struct cio_chunk`). -/
abbrev FileRef := Nat

/-- `CIO_STORE_FS`, `CIO_STORE_MEM` and `FLB_STORAGE_MEMRB`. -/
inductive StorageType where
  | fs
  | mem
  | memrb
deriving DecidableEq, Repr

/-- `FLB_INPUT_LOGS`, `FLB_INPUT_METRICS`, `FLB_INPUT_TRACES`,
`FLB_INPUT_PROFILES` and `FLB_INPUT_BLOBS`. -/
inductive EventType where
  | logs
  | metrics
  | traces
  | profiles
  | blobs
deriving DecidableEq, Repr

/-- Whether the input keeps a hash table for the chunks of the type. -/
def EventType.indexed : EventType → Bool
  | .blobs => false
  | _ => true

/-- `struct flb_input_instance`, with `tag` or, when that is not set, the
instance name as its default tag. -/
structure Input where
  id : Nat
  storageType : StorageType
  routable : Bool
  defaultTag : List Byte
deriving DecidableEq, Repr

/-- `struct flb_output_instance`.  A regular expression is the test it makes
on a tag. -/
structure Output where
  id : OutId
  totalLimitSize : SizeT
  matchRule : Option CString
  matchRegex : Option (List Byte → Bool)

/-- `total_limit_size != -1`. -/
def Output.limited (output : Output) : Bool := output.totalLimitSize != -1#64

/-- `flb_router_match` with the rule and the expression of an output. -/
def Output.accepts (output : Output) (tag : List Byte) : Bool :=
  (match output.matchRegex with
    | none => false
    | some regex => regex tag) ||
  Router.routerMatch (some tag) tag.length output.matchRule

/-- The instances of a configuration, and the hash function of the tag tables.
The storage backlog is an input of its own; `storage.path`, without which no
input has filesystem storage, creates it. -/
structure Setup where
  hash64 : List Byte → UInt64
  outputs : List Output
  inputs : List Input
  storageBacklog : Input
  storageDelBadChunks : Bool
  ids_nodup : (outputs.map Output.id).Nodup

/-- `flb_engine_start` sizes the routes masks by the number of outputs. -/
def Setup.maskConfig (setup : Setup) : RoutesMask.Config := RoutesMask.setSize setup.outputs.length

/-- What Chunk I/O reports about a chunk: `cio_chunk_get_real_size`,
`cio_chunk_get_content_size` and `cio_meta_size` of the loaded chunk, and
whether its tag can be read. -/
structure Report where
  realSize : Int
  contentSize : Int
  metaSize : Int
  tagReadable : Bool
deriving DecidableEq, Repr

/-- `struct flb_input_chunk`, with the tag in the header of its file.  The
last field is not in the source: the size of the chunk when it was last
accounted to its outputs. -/
structure Chunk (setup : Setup) where
  ref : ChunkRef
  input : Input
  eventType : EventType
  tag : List Byte
  routesMask : Mask setup.maskConfig
  fsCounted : Bool
  busy : Bool
  locked : Bool
  task : Option (Engine.Task OutId)
  report : Report
  accounted : Int

/-- The tables `ht_log_chunks`, `ht_metric_chunks`, `ht_trace_chunks` and
`ht_profile_chunks` of the inputs. -/
abbrev TagTables := Input → EventType → HashTable.Table

/-- A tag table of a new input: 512 chains, no eviction and no expiry. -/
def newTagTable : HashTable.Table := (HashTable.create 0 .none 512 0 true).get (by decide)

structure SbOutChunk where
  chunk : FileRef
  size : SizeT
deriving DecidableEq, Repr

/-- The chunks of all inputs in the order of `flb_input_instance.chunks`, the
tag tables, the counters `fs_chunks_size` and `fs_backlog_chunks_size` of the
outputs, the queues of the storage backlog, and what
`cio_chunk_get_real_size` reports for their files.  An output without queue
has an empty one. -/
structure State (setup : Setup) where
  next : ChunkRef
  chunks : List (Chunk setup)
  tagTables : TagTables
  fsChunksSize : OutId → SizeT
  fsBacklogChunksSize : OutId → SizeT
  backlogs : OutId → List SbOutChunk
  fileRealSize : FileRef → Int

def State.initial (setup : Setup) (fileRealSize : FileRef → Int) : State setup :=
  { next := 0
    chunks := []
    tagTables := fun _ _ => newTagTable
    fsChunksSize := fun _ => 0#64
    fsBacklogChunksSize := fun _ => 0#64
    backlogs := fun _ => []
    fileRealSize := fileRealSize }

variable {setup : Setup}

def State.chunk (state : State setup) (ref : ChunkRef) : Option (Chunk setup) :=
  Keyed.lookup Chunk.ref state.chunks ref

def State.modifyChunk (state : State setup) (ref : ChunkRef) (change : Chunk setup → Chunk setup) :
    State setup :=
  { state with chunks := Keyed.modify Chunk.ref state.chunks ref change }

/-- `flb_routes_mask_get_bit` on the mask of a chunk. -/
def Chunk.routed (chunk : Chunk setup) (output : Output) : Bool :=
  RoutesMask.getBit chunk.routesMask output.id

def getRealSize (report : Report) : Int :=
  if report.realSize ≠ 0 then report.realSize
  else if report.contentSize = 0 then -1
  else report.contentSize + (report.metaSize + 2 + 4 + 16 + 2)

def routesMaskSetByTag (setup : Setup) (tag : List Byte) : Mask setup.maskConfig :=
  setup.outputs.foldl (fun mask output =>
    if output.accepts tag then RoutesMask.setBit mask output.id else mask)
    (RoutesMask.zeroed setup.maskConfig)

/-- The outputs whose counter a chunk is accounted in. -/
def Chunk.charges (chunk : Chunk setup) (output : Output) : Bool :=
  output.limited && chunk.routed output

def Chunk.account (chunk : Chunk setup) (accounted : Int) : Chunk setup :=
  { chunk with
    fsCounted := chunk.fsCounted || setup.outputs.any chunk.charges
    accounted := accounted }

/-- `flb_input_chunk_update_output_instances`; `accounted` records the size
the counters then stand for. -/
def updateOutputInstances (state : State setup) (chunk : Chunk setup)
    (chunkSize : SizeT) (accounted : Int) : State setup :=
  { state.modifyChunk chunk.ref (fun _ => chunk.account accounted) with
    fsChunksSize :=
      Keyed.updateEach Output.id chunk.charges (· + chunkSize) state.fsChunksSize setup.outputs }

/-- The loop of `flb_input_chunk_destroy` over the outputs. -/
def discountOutputInstances (chunk : Chunk setup) (fsChunksSize : OutId → SizeT) : OutId → SizeT :=
  let bytes := getRealSize chunk.report
  Keyed.updateEach Output.id
    (fun output =>
      output.limited && bytes != -1 && chunk.routed output && chunk.fsCounted)
    (· - SizeT.ofInt bytes) fsChunksSize setup.outputs

/-- Change the table of an input for one event type; there is none for
blobs. -/
def TagTables.modify (tagTables : TagTables) (input : Input) (eventType : EventType)
    (change : HashTable.Table → HashTable.Table) : TagTables :=
  if eventType.indexed then
    Function.update tagTables input
      (Function.update (tagTables input) eventType (change (tagTables input eventType)))
  else tagTables

theorem TagTables.modify_apply (tagTables : TagTables) (input : Input) (eventType : EventType)
    (change : HashTable.Table → HashTable.Table) (otherInput : Input) (otherType : EventType) :
    tagTables.modify input eventType change otherInput otherType =
      if eventType.indexed = true ∧ otherInput = input ∧
          otherType = eventType then
        change (tagTables input eventType)
      else tagTables otherInput otherType := by
  unfold TagTables.modify
  by_cases indexed : eventType.indexed = true
  · by_cases sameInput : otherInput = input
    · subst otherInput
      by_cases sameType : otherType = eventType
      · subst otherType
        simp [indexed]
      · simp [indexed, sameType]
    · simp [indexed, sameInput]
  · simp [indexed]

/-- `flb_hash_table_del_ptr` on the table of the chunk. -/
def tagTableDelPtr (tagTables : TagTables) (chunk : Chunk setup) (tag : List Byte) : TagTables :=
  tagTables.modify chunk.input chunk.eventType fun table =>
    (HashTable.delPtr setup.hash64 table tag chunk.ref).1

/-- The part of the destruction of a chunk that cleans the tag tables. -/
def forgetTag (tagTables : TagTables) (chunk : Chunk setup) (del : Bool)
    (tag : Option (List Byte)) : TagTables :=
  match tag with
  | none => tagTables
  | some tag => if del then tagTableDelPtr tagTables chunk tag else tagTables

/-- What `flb_input_chunk_destroy` and `flb_input_chunk_destroy_corrupted` do
with the tag that the first reads and the second is given. -/
def destroyWith (state : State setup) (chunk : Chunk setup) (del : Bool)
    (tag : Option (List Byte)) : State setup :=
  { state with
    fsChunksSize := discountOutputInstances chunk state.fsChunksSize
    tagTables := forgetTag state.tagTables chunk del tag
    chunks := Keyed.erase Chunk.ref state.chunks chunk.ref }

/-- The tag `flb_input_chunk_destroy` reads from the chunk. -/
def Chunk.readTag (chunk : Chunk setup) : Option (List Byte) :=
  if chunk.report.tagReadable then some chunk.tag else none

def destroy (state : State setup) (chunk : Chunk setup) (del : Bool) : State setup :=
  destroyWith state chunk del chunk.readTag

def destroyCorrupted (state : State setup) (chunk : Chunk setup) (tag : List Byte) (del : Bool) :
    State setup :=
  destroyWith state chunk del (some tag)

def tagMax : Nat := 65535 - 4

/-- The cell of a new chunk.  The header of its file has room for `tagMax`
bytes of the tag. -/
def State.newChunk (state : State setup) (input : Input) (eventType : EventType) (tag : List Byte)
    (report : Report) : Chunk setup :=
  { ref := state.next
    input := input
    eventType := eventType
    tag := tag.take tagMax
    routesMask := routesMaskSetByTag setup tag
    fsCounted := false
    busy := false
    locked := false
    task := none
    report := report
    accounted := 0 }

/-- The cell of a chunk whose file exists, with the tag of the file. -/
def State.mappedChunk (state : State setup) (input : Input) (eventType : EventType)
    (tag : List Byte) (report : Report) : Chunk setup :=
  { state.newChunk input eventType tag report with tag := tag }

def State.addChunk (state : State setup) (chunk : Chunk setup) : State setup :=
  { state with next := state.next + 1, chunks := state.chunks ++ [chunk] }

/-- `flb_hash_table_add` on the table of the chunk.  The time and the random
number matter to tables with expiry and eviction only. -/
def tagTableAdd (tagTables : TagTables) (chunk : Chunk setup) (tag : List Byte) : TagTables :=
  tagTables.modify chunk.input chunk.eventType fun table =>
    (HashTable.add setup.hash64 { time := 0, random := 0 } table tag
      { val := chunk.ref, copy := none }).1

/-- `flb_input_chunk_create`.  Without a report the chunk file, its header or
one of the allocations failed. -/
def create (state : State setup) (input : Input) (eventType : EventType) (tag : List Byte)
    (report : Option Report) : State setup × Option (Chunk setup) :=
  match report with
  | none => (state, none)
  | some report =>
    let chunk := state.newChunk input eventType tag report
    ({ state.addChunk chunk with tagTables := tagTableAdd state.tagTables chunk tag }, some chunk)

/-- `flb_input_chunk_map`.  Without a report the content or the tag of the
file could not be read, or holds no valid record.  The chunk is not put into
the tag tables. -/
def map (state : State setup) (input : Input) (eventType : EventType)
    (tag : List Byte) (report : Option Report) : State setup :=
  match report with
  | none => state
  | some report =>
    let bytes := getRealSize report
    if bytes < 0 then state
    else
      let chunk := state.mappedChunk input eventType tag report
      updateOutputInstances (state.addChunk chunk) chunk (SizeT.ofInt bytes) bytes

open List

/-- Where a `struct cio_chunk` keeps its metadata: in memory, or in a mapped
file, of which the two bytes of the metadata length, the size of the content and
the mapped bytes behind the length are kept here. -/
inductive Storage where
  | mem (metaData : Option (List Byte))
  | fs (lengthHigh lengthLow : Byte) (dataSize : Nat) (area : List Byte)
deriving DecidableEq, Repr

/-- `cio_file_st_get_meta_len`. -/
def fileMetaLength (lengthHigh lengthLow : Byte) : Nat := lengthHigh.toNat * 256 + lengthLow.toNat

/-- The map in which longer metadata is written.  The file is resized when the
24 bytes of its header and the map have no room for them beside the content. -/
def grownArea (metaAv dataSize size : Nat) (area : List Byte) : List Byte :=
  if 24 + area.length - dataSize < size then
    (area ++ replicate (size - metaAv + dataSize) 0).take (size - metaAv + dataSize)
  else area

/-- `cio_meta_write`; nothing when it fails or writes behind the map.  In a file
the content is moved behind the new metadata: its own bytes when the metadata
gets shorter, as many bytes as the metadata has when it gets longer. -/
def cioMetaWrite (storage : Storage) (buf : List Byte) : Option Storage :=
  if 65535 < buf.length then none
  else
    match storage with
    | .mem _ => some (.mem (some buf))
    | .fs high low dataSize area =>
      let metaAv := fileMetaLength high low
      let written (moved : Nat) (area : List Byte) : Storage :=
        .fs (UInt8.ofNat (buf.length / 256)) (UInt8.ofNat buf.length) dataSize
          (buf ++ ((area.drop metaAv).take moved ++ area.drop (buf.length + moved)))
      if buf.length ≤ metaAv then some (written dataSize area)
      else
        let area := grownArea metaAv dataSize buf.length area
        if area.length < 2 * buf.length then none else some (written buf.length area)

/-- Metadata of this size can be written. -/
def Storage.Holds (storage : Storage) (size : Nat) : Prop :=
  match storage with
  | .mem _ => True
  | .fs high low dataSize area =>
    size ≤ fileMetaLength high low ∨
      2 * size ≤ (grownArea (fileMetaLength high low) dataSize size area).length

def cioMetaRead : Storage → Option (List Byte)
  | .mem metaData => metaData
  | .fs high low _ area =>
    if fileMetaLength high low = 0 then none
    else some (area.take (fileMetaLength high low))

theorem fileMetaLength_ofNat {size : Nat} (fits : size ≤ 65535) :
    fileMetaLength (UInt8.ofNat (size / 256)) (UInt8.ofNat size) = size := by
  rw [fileMetaLength, UInt8.toNat_ofNat', UInt8.toNat_ofNat']
  omega

theorem cioMetaWrite_cases (storage : Storage) {buf : List Byte} (nonempty : buf ≠ [])
    (fits : buf.length ≤ 65535) :
    cioMetaWrite storage buf = none ∧ ¬storage.Holds buf.length ∨
      storage.Holds buf.length ∧
        ∃ written, cioMetaWrite storage buf = some written ∧ cioMetaRead written = some buf := by
  have positive := length_pos_iff.mpr nonempty
  unfold cioMetaWrite
  rw [if_neg (by omega)]
  cases storage with
  | mem metaData => exact .inr ⟨trivial, _, rfl, rfl⟩
  | fs high low dataSize area =>
    have read : ∀ rest, cioMetaRead (.fs (UInt8.ofNat (buf.length / 256))
        (UInt8.ofNat buf.length) dataSize (buf ++ rest)) = some buf := by
      intro rest
      rw [cioMetaRead, fileMetaLength_ofNat fits, if_neg (by omega), take_left]
    dsimp only [Storage.Holds]
    split
    · next shorter => exact .inr ⟨.inl shorter, _, rfl, read _⟩
    · next longer =>
      split
      · next small => exact .inl ⟨rfl, by omega⟩
      · next large => exact .inr ⟨.inr (by omega), _, rfl, read _⟩

def metaHeader : Nat := 4

/-- The third byte of the header.  There is no branch for blobs: the byte keeps
the zero it was allocated with. -/
def headerType : EventType → Byte
  | .logs => 0
  | .metrics => 1
  | .traces => 2
  | .profiles => 4
  | .blobs => 0

def writeHeader (storage : Storage) (eventType : EventType) (tag : List Byte) : Option Storage :=
  let tagLen := if tag.length > tagMax then tagMax else tag.length
  cioMetaWrite storage (0xf1 :: 0x77 :: headerType eventType :: 0 :: tag.take tagLen)

def hasMagicBytes (buf : List Byte) : Bool :=
  match buf with
  | first :: second :: _ :: fourth :: _ => first == 0xf1 && second == 0x77 && fourth == 0
  | _ => false

def getEventType (storage : Storage) : Option EventType :=
  match cioMetaRead storage with
  | none => none
  | some buf =>
    if hasMagicBytes buf then
      let type := buf.getD 2 0
      if type = 0 then some .logs
      else if type = 1 then some .metrics
      else if type = 2 then some .traces
      else if type = 4 then some .profiles
      else if type = 3 then some .blobs
      else none
    else some .logs

def getTag (storage : Storage) : Option (List Byte) :=
  (cioMetaRead storage).map fun buf =>
    if hasMagicBytes buf then buf.drop metaHeader else buf

theorem take_min_tagMax (tag : List Byte) :
    tag.take (if tag.length > tagMax then tagMax else tag.length) = tag.take tagMax := by
  split
  · rfl
  · next short => rw [take_length, take_of_length_le (Nat.le_of_not_lt short)]

def headerSize (tag : List Byte) : Nat := metaHeader + (tag.take tagMax).length

theorem writeHeader_cases (storage : Storage) (eventType : EventType) (tag : List Byte) :
    writeHeader storage eventType tag = none ∧ ¬storage.Holds (headerSize tag) ∨
      storage.Holds (headerSize tag) ∧
        ∃ written, writeHeader storage eventType tag = some written ∧
          cioMetaRead written =
            some (0xf1 :: 0x77 :: headerType eventType :: 0 :: tag.take tagMax) := by
  have bound := length_take_le tagMax tag
  have size : (0xf1 :: 0x77 :: headerType eventType :: 0 :: tag.take tagMax).length =
      headerSize tag := by
    simp only [length_cons, headerSize, metaHeader]
    omega
  rw [writeHeader, take_min_tagMax, ← size]
  apply cioMetaWrite_cases storage (cons_ne_nil _ _)
  simp only [length_cons]
  rw [tagMax] at *
  omega

/-- The header of a new chunk is written and read back with its type and its
tag, cut at the maximal length, if and only if the type is not blobs and the
storage holds the header. -/
theorem chunk_header_round_trip (storage : Storage) (eventType : EventType) (tag : List Byte) :
    (∃ written, writeHeader storage eventType tag = some written ∧
      getTag written = some (tag.take tagMax) ∧ getEventType written = some eventType) ↔
        eventType ≠ .blobs ∧ storage.Holds (headerSize tag) := by
  rcases writeHeader_cases storage eventType tag with
    ⟨fails, small⟩ | ⟨holds, written, success, read⟩
  · simp [fails, small]
  · have sameTag : getTag written = some (tag.take tagMax) := by
      rw [getTag, read]
      rfl
    have sameType : getEventType written = some eventType ↔ eventType ≠ .blobs := by
      rw [getEventType, read]
      cases eventType <;> simp [hasMagicBytes, headerType]
    simp [success, sameTag, sameType, holds]

/-- The map of a new file of one page. -/
def newFile : Storage := .fs 0 0 0 (replicate 4072 0)

/-- A chunk of blobs with the tag `a` is found again as a chunk of logs.  A tag
of 5000 bytes moves bytes behind the map. -/
theorem blobs_are_read_as_logs :
    (∃ written, writeHeader newFile .blobs [0x61] = some written ∧
      getTag written = some [0x61] ∧ getEventType written = some .logs) ∧
      writeHeader newFile .logs (replicate 5000 0x61) = none := by
  constructor
  · rcases writeHeader_cases newFile .blobs [0x61] with ⟨_, small⟩ | ⟨_, written, success, read⟩
    · refine absurd (.inr ?_) small
      rw [grownArea, if_neg (by rw [length_replicate]; decide), length_replicate]
      decide
    · refine ⟨written, success, ?_, ?_⟩
      · rw [getTag, read]
        rfl
      · rw [getEventType, read]
        rfl
  · rcases writeHeader_cases newFile .logs (replicate 5000 0x61) with ⟨fails, _⟩ | ⟨holds, _⟩
    · exact fails
    · have size : headerSize (replicate 5000 0x61) = 5004 := by
        rw [headerSize, length_take, length_replicate]
        rfl
      have area : (grownArea (fileMetaLength 0 0) 0 5004 (replicate 4072 0)).length = 5004 := by
        rw [grownArea, if_pos (by rw [length_replicate]; decide), length_take, length_append,
          length_replicate, length_replicate]
        simp [fileMetaLength]
      rw [size, newFile, Storage.Holds, area] at holds
      revert holds
      decide

/-- `FLB_INPUT_CHUNK_RELEASE_SCOPE_LOCAL` and
`FLB_INPUT_CHUNK_RELEASE_SCOPE_GLOBAL`. -/
inductive ReleaseScope where
  | scopeLocal
  | scopeGlobal
deriving DecidableEq, Repr

/-- `flb_input_chunk_drop_task_route`: the task afterwards, or nothing when
the route must stay. -/
def dropTaskRoute (task : Option (Engine.Task OutId)) (output : Output) :
    Option (Option (Engine.Task OutId)) :=
  match task with
  | none => some none
  | some task =>
    if task.users ≠ 0 then
      if Engine.taskGetRouteStatus task output.id = .inactive then
        some (some
          { task with
            routes := task.routes.map fun route =>
              if route.out = output.id then { route with status := .dropped }
              else route })
      else none
    else some (some task)

/-- Whether a destroyed chunk can go: its task, if it has one, has no
users.  `flb_task_destroy` then takes the chunk with it. -/
def taskIsSafeDelete (task : Option (Engine.Task OutId)) : Bool :=
  match task with
  | none => true
  | some task => decide (task.users = 0)

/-- The `chunk_destroy_flag` branch of `flb_input_chunk_release_space`. -/
def dropChunk (state : State setup) (chunk : Chunk setup) : State setup × Bool :=
  if taskIsSafeDelete chunk.task then (destroy state chunk true, true)
  else (state, false)

def releaseGlobal (state : State setup) (chunk : Chunk setup) : State setup × Int :=
  let dropped := dropChunk state chunk
  (dropped.1, if dropped.2 then getRealSize chunk.report else 0)

/-- The chunk with its route to one output taken away. -/
def Chunk.cleared (chunk : Chunk setup) (output : Output) : Chunk setup :=
  { chunk with routesMask := RoutesMask.clearBit chunk.routesMask output.id }

/-- Take the route to one output from a chunk.  The counter of the output goes
down whether or not the chunk was counted. -/
def takeRoute (state : State setup) (chunk : Chunk setup) (output : Output) : State setup :=
  { state.modifyChunk chunk.ref (fun _ => chunk.cleared output) with
    fsChunksSize :=
      Function.update state.fsChunksSize output.id
        (state.fsChunksSize output.id - SizeT.ofInt (getRealSize chunk.report)) }

/-- Release a chunk for one output, and the chunk itself when that was its
last route. -/
def releaseLocal (state : State setup) (chunk : Chunk setup) (output : Output) :
    State setup × Int :=
  let taken := takeRoute state chunk output
  let cleared := chunk.cleared output
  (if RoutesMask.isEmpty cleared.routesMask then (dropChunk taken cleared).1
    else taken,
    getRealSize chunk.report)

def releaseFor (state : State setup) (chunk : Chunk setup) (output : Output) :
    ReleaseScope → State setup × Int
  | .scopeLocal => releaseLocal state chunk output
  | .scopeGlobal => releaseGlobal state chunk

def Chunk.withTask (chunk : Chunk setup) (task : Option (Engine.Task OutId)) : Chunk setup :=
  { chunk with task := task }

/-- The body of the loop of `flb_input_chunk_release_space`: the new state and
the space released, or nothing for `continue`. -/
def releaseChunk (state : State setup) (new : ChunkRef) (output : Output) (scope : ReleaseScope)
    (old : Chunk setup) : Option (State setup × Int) :=
  if !old.routed output then none
  -- flb_input_chunk_safe_delete
  else if old.ref = new then none
  else
    match dropTaskRoute old.task output with
    | none => none
    | some task =>
      let chunk := old.withTask task
      some (releaseFor (state.modifyChunk old.ref fun _ => chunk) chunk output scope)

/-- The loop of `flb_input_chunk_release_space` over the chunks an input had
when it started; each round can only take out its own chunk. -/
def releaseLoop (new : ChunkRef) (output : Output) (scope : ReleaseScope) (required : Int) :
    List ChunkRef → State setup → Int → State setup × Int
  | [], state, released => (state, released)
  | ref :: rest, state, released =>
    match state.chunk ref with
    | none => releaseLoop new output scope required rest state released
    | some old =>
      match releaseChunk state new output scope old with
      | none => releaseLoop new output scope required rest state released
      | some (state, size) =>
        if released + size ≥ required then (state, released + size)
        else
          releaseLoop new output scope required rest state (released + size)

/-- `flb_input_chunk_release_space`: the state and the space that is still
required. -/
def releaseSpace (state : State setup) (new : ChunkRef) (input : Input) (output : Output)
    (required : Int) (scope : ReleaseScope) : State setup × Int :=
  let refs := (state.chunks.filter (·.input = input)).map Chunk.ref
  let result := releaseLoop new output scope required refs state 0
  (result.1, required - result.2)

/-- `sb_remove_chunk_from_segregated_backlogs`: every queue that holds the
file lets go of it. -/
def sbRemoveChunkFromSegregatedBacklogs (state : State setup) (target : FileRef) : State setup :=
  { state with
    backlogs := fun id =>
      (state.backlogs id).eraseP fun entry => decide (entry.chunk = target)
    fsBacklogChunksSize := fun id =>
      if (state.backlogs id).any fun entry => decide (entry.chunk = target) then
        state.fsBacklogChunksSize id - SizeT.ofInt (state.fileRealSize target)
      else state.fsBacklogChunksSize id }

/-- The loop of `sb_release_output_queue_space`, for a positive requirement and
sizes whose sum does not wrap; the source compares two `size_t`. -/
def sbReleaseLoop (required : Int) : List SbOutChunk → State setup → Nat → State setup × Nat
  | [], state, released => (state, released)
  | entry :: rest, state, released =>
    let released := released + entry.size.toNat
    let state := sbRemoveChunkFromSegregatedBacklogs state entry.chunk
    if (released : Int) ≥ required then (state, released)
    else sbReleaseLoop required rest state released

def sbReleaseOutputQueueSpace (state : State setup) (output : Output) (required : Int) :
    State setup × Int :=
  let result := sbReleaseLoop required (state.backlogs output.id) state 0
  (result.1, required - result.2)

/-- The chunks of one input, unless it is that of the new chunk. -/
def releaseOther (new : Chunk setup) (output : Output) (input : Input)
    (state : State setup) (remainder : Int) : State setup × Int :=
  if input ≠ new.input then
    releaseSpace state new.ref input output remainder .scopeLocal
  else (state, remainder)

/-- The last stage: the inputs other than that of the new chunk. -/
def releaseOthers (new : Chunk setup) (output : Output) :
    List Input → State setup → Int → State setup × Int
  | [], state, remainder => (state, remainder)
  | input :: rest, state, remainder =>
    let result := releaseOther new output input state remainder
    if result.2 ≤ 0 then result
    else releaseOthers new output rest result.1 result.2

/-- A stage runs while space is still required. -/
def stage (run : State setup → Int → State setup × Int) (current : State setup × Int) :
    State setup × Int :=
  if current.2 > 0 then run current.1 current.2 else current

/-- `flb_input_chunk_release_space_compound`, with the requirement it
leaves. -/
def releaseSpaceCompound (state : State setup) (new : Chunk setup)
    (output : Output) (releaseLocalSpace : Bool) : State setup × SizeT :=
  let start := (state, getRealSize new.report)
  let backlogChunks := stage (fun state remainder =>
    releaseSpace state new.ref setup.storageBacklog output remainder .scopeGlobal) start
  let backlogFiles := stage (fun state remainder =>
    sbReleaseOutputQueueSpace state output remainder) backlogChunks
  let own :=
    if releaseLocalSpace then
      stage (fun state remainder =>
        releaseSpace state new.ref new.input output remainder .scopeLocal)
        backlogFiles
    else backlogFiles
  let others := stage (releaseOthers new output setup.inputs) own
  (others.1, SizeT.ofInt (if others.2 < 0 then 0 else others.2))

/-- What `1 << id` gives for an `int`: the compiler and the processor decide
for ids the type has no bit for. -/
structure IntShift where
  shiftOne : Nat → BitVec 32
  defined : ∀ id, id < 32 → shiftOne id = 1#32 <<< id

/-- The comparison of `flb_input_chunk_has_overlimit_routes`. -/
def State.overlimit (state : State setup) (output : Output) (chunkSize : SizeT) : Bool :=
  output.totalLimitSize <
    state.fsChunksSize output.id + state.fsBacklogChunksSize output.id + chunkSize

def hasOverlimitRoutes (shift : IntShift) (state : State setup)
    (chunk : Chunk setup) (chunkSize : SizeT) : BitVec 32 :=
  setup.outputs.foldl (fun overlimit output =>
    if !output.limited || !chunk.routed output then overlimit
    else if state.overlimit output chunkSize then
      overlimit ||| shift.shiftOne output.id
    else overlimit) 0#32

/-- The result of `flb_input_chunk_find_space_new_data`, with the outputs it
tried to make room for. -/
structure Search (setup : Setup) where
  state : State setup
  count : Nat
  tried : List Output

/-- One round of `flb_input_chunk_find_space_new_data`. -/
def findSpaceRound (shift : IntShift) (chunk : Chunk setup) (overlimit : BitVec 32)
    (search : Search setup) (output : Output) : Search setup :=
  if !output.limited || shift.shiftOne output.id &&& overlimit == 0#32 ||
      !chunk.routed output then search
  else
    let result := releaseSpaceCompound search.state chunk output true
    { state := result.1
      count := if result.2 ≠ 0#64 then search.count + 1 else search.count
      tried := search.tried ++ [output] }

def findSpaceNewData (shift : IntShift) (state : State setup)
    (chunk : Chunk setup) (overlimit : BitVec 32) : Search setup :=
  setup.outputs.foldl (findSpaceRound shift chunk overlimit)
    { state := state, count := 0, tried := [] }

def placeNewChunk (shift : IntShift) (state : State setup)
    (chunk : Chunk setup) (chunkSize : SizeT) : State setup × Bool :=
  if chunk.input.storageType = .fs then
    let overlimit := hasOverlimitRoutes shift state chunk chunkSize
    if overlimit ≠ 0#32 then
      let search := findSpaceNewData shift state chunk overlimit
      if search.count ≠ 0 then (search.state, false)
      else (search.state, !RoutesMask.isEmpty chunk.routesMask)
    else (state, !RoutesMask.isEmpty chunk.routesMask)
  else (state, !RoutesMask.isEmpty chunk.routesMask)

/-- The loop of `memrb_input_chunk_release_space`.  The signed sum is compared
with the unsigned requirement. -/
def memrbReleaseLoop (required : SizeT) : List ChunkRef → State setup → Int → State setup × Int
  | [], state, released => (state, released)
  | ref :: rest, state, released =>
    match state.chunk ref with
    | none => memrbReleaseLoop required rest state released
    | some chunk =>
      if taskIsSafeDelete chunk.task then
        let released := released + getRealSize chunk.report
        let state := destroy state chunk true
        if SizeT.ofInt released ≥ required then (state, released)
        else memrbReleaseLoop required rest state released
      else memrbReleaseLoop required rest state released

/-- `memrb_input_chunk_release_space`: whether the space was released. -/
def memrbReleaseSpace (state : State setup) (input : Input) (required : SizeT) :
    State setup × Bool :=
  let refs := (state.chunks.filter (·.input = input)).map Chunk.ref
  let result := memrbReleaseLoop required refs state 0
  (result.1, decide (SizeT.ofInt result.2 ≥ required))

/-- How a chunk that is down comes up: `CIO_OK`, `CIO_CORRUPTED` or another
error. -/
inductive Load where
  | up
  | corrupted
  | failed
deriving DecidableEq, Repr

inductive WriteOutcome where
  | failed (report : Report)
  | written (report : Report)
deriving DecidableEq, Repr

/-- What is decided outside of the chunk code during an append: whether the
input is over its memory limit or paused, how the chunk of the tag comes up,
the report on a new chunk if one can be created, whether the chunk is up for
the write, and the report after filters and write. -/
structure AppendScript where
  memOverlimit : Bool
  paused : Bool
  load : Load
  created : Option Report
  raised : Bool
  outcome : WriteOutcome
deriving DecidableEq, Repr

/-- `flb_hash_table_get` on the table of the event type.  The hit counter of
the entry, which only tables with eviction read, stays as it is. -/
def State.indexed (state : State setup) (input : Input) (eventType : EventType) (tag : List Byte) :
    Option ChunkRef :=
  if eventType.indexed then
    (HashTable.hashGetEntry setup.hash64 (state.tagTables input eventType)
      tag).map fun found =>
        ((state.tagTables input eventType).heap found.2).value.val
  else none

/-- The chunk of the tag, if it can take more data.  Nothing is defined for
an entry that refers to a destroyed chunk. -/
def reuse (state : State setup) (tag : List Byte) (entry : Option ChunkRef) (load : Load) :
    Option (State setup × Option (Chunk setup)) :=
  match entry with
  | none => some (state, none)
  | some ref =>
    match state.chunk ref with
    | none => none
    | some chunk =>
      if chunk.busy || chunk.locked then some (state, none)
      else
        match load with
        | .up => some (state, some chunk)
        | .corrupted => some (destroyCorrupted state chunk tag setup.storageDelBadChunks, none)
        | .failed => some (state, none)

/-- The end of `input_chunk_get`: make room, or give the chunk back.  A chunk
that is not new keeps its routes while room is made, so it is not destroyed
for having none. -/
def placeOrDestroy (shift : IntShift) (state : State setup) (chunk : Chunk setup) (newChunk : Bool)
    (chunkSize : SizeT) : State setup × Option (Chunk setup) :=
  if RoutesMask.isEmpty chunk.routesMask then (state, some chunk)
  else
    let placed := placeNewChunk shift state chunk chunkSize
    if placed.2 then (placed.1, some chunk)
    else if newChunk then (destroy placed.1 chunk true, none)
    else (placed.1, none)

def inputChunkGet (shift : IntShift) (state : State setup) (input : Input) (eventType : EventType)
    (tag : List Byte) (chunkSize : SizeT) (script : AppendScript) :
    Option (State setup × Option (Chunk setup)) :=
  let tag := tag.take tagMax
  match reuse state tag (state.indexed input eventType tag)
      script.load with
  | none => none
  | some (state, some chunk) => some (placeOrDestroy shift state chunk false chunkSize)
  | some (state, none) =>
    match create state input eventType tag script.created with
    | (state, none) => some (state, none)
    | (state, some chunk) => some (placeOrDestroy shift state chunk true chunkSize)

def fsMaxSize : Int := 2048000

/-- The chunk after a write; large chunks are locked. -/
def Chunk.written (chunk : Chunk setup) (report : Report) : Chunk setup :=
  { chunk with report := report, locked := chunk.locked || decide (report.contentSize > fsMaxSize) }

/-- `pre_real_size`: the size of an empty chunk has never been accounted. -/
def Chunk.preRealSize (chunk : Chunk setup) : Int :=
  if chunk.report.contentSize = 0 then 0 else getRealSize chunk.report

/-- `input_chunk_append_raw` after a successful write. -/
def afterWrite (state : State setup) (input : Input) (before : Chunk setup) (report : Report) :
    State setup :=
  let chunk := before.written report
  let state := state.modifyChunk before.ref fun _ => chunk
  if report.contentSize = 0 then destroy state chunk true
  else if !input.routable then destroy state chunk true
  else
    let realSize := getRealSize report
    if realSize ≠ before.preRealSize then
      updateOutputInstances state chunk
        (SizeT.ofInt realSize - SizeT.ofInt before.preRealSize) realSize
    else state

/-- `input_chunk_append_raw` on the chunk it got: the state and the value
returned. -/
def appendTo (state : State setup) (input : Input) (chunk : Chunk setup) (script : AppendScript) :
    State setup × Int :=
  if !script.raised then (state, -1)
  else
    match script.outcome with
    | .failed report =>
      (state.modifyChunk chunk.ref fun _ =>
        { chunk with report := report }, -1)
    | .written report => (afterWrite state input chunk report, 0)

/-- `input_chunk_append_raw`.  Filters act through the script: they do not
append themselves. -/
def inputChunkAppendRaw (shift : IntShift) (state : State setup) (input : Input)
    (eventType : EventType) (tag : Option (List Byte)) (bufSize : SizeT) (script : AppendScript) :
    Option (State setup × Int) :=
  let freed :=
    if input.storageType = .memrb ∧ script.memOverlimit = true then
      memrbReleaseSpace state input bufSize
    else (state, true)
  if !freed.2 then some (freed.1, -1)
  else if script.paused then some (freed.1, -1)
  else if bufSize = 0#64 then some (freed.1, -1)
  else
    match inputChunkGet shift freed.1 input eventType
      (tag.getD input.defaultTag) bufSize script with
    | none => none
    | some (state, none) => some (state, -1)
    | some (state, some chunk) => some (appendTo state input chunk script)

/-- How `flb_input_chunk_flush` ends: the chunk does not come up, its content
cannot be read, it has none, or it is handed out. -/
inductive FlushOutcome where
  | upFailed (report : Report)
  | contentFailed (report : Report)
  | empty (report : Report)
  | loaded (report : Report)
deriving DecidableEq, Repr

def Chunk.loaded (chunk : Chunk setup) (report : Report) : Chunk setup :=
  { chunk with report := report, locked := true, busy := true }

def flush (state : State setup) (chunk : Chunk setup) (outcome : FlushOutcome) : State setup :=
  match outcome with
  | .upFailed report => state.modifyChunk chunk.ref fun _ => { chunk with report := report }
  | .contentFailed report | .empty report =>
    state.modifyChunk chunk.ref fun _ =>
      { chunk with report := report, locked := true }
  | .loaded report =>
    let loaded := chunk.loaded report
    let state := state.modifyChunk chunk.ref fun _ => loaded
    let preSize := getRealSize chunk.report
    let postSize := getRealSize report
    if postSize ≠ preSize then
      updateOutputInstances state loaded (SizeT.ofInt postSize - SizeT.ofInt preSize) postSize
    else state

/-- The calls that touch chunks, and the engine changing the task of one. -/
inductive Event where
  | create (input : Input) (eventType : EventType) (tag : List Byte) (report : Option Report)
  | append (input : Input) (eventType : EventType)
      (tag : Option (List Byte)) (bufSize : SizeT) (script : AppendScript)
  | map (file : FileRef) (eventType : EventType) (tag : List Byte) (report : Option Report)
  | flush (ref : ChunkRef) (outcome : FlushOutcome)
  | release (new : ChunkRef) (input : Input) (output : OutId)
      (required : Int) (scope : ReleaseScope)
  | destroy (ref : ChunkRef) (del : Bool)
  | releaseLock (ref : ChunkRef)
  | setTask (ref : ChunkRef) (task : Option (Engine.Task OutId))

def step (shift : IntShift) (state : State setup) : Event → Option (State setup)
  | .create input eventType tag report => some (create state input eventType tag report).1
  | .append input eventType tag bufSize script =>
    (inputChunkAppendRaw shift state input eventType tag bufSize script).map Prod.fst
  -- cb_queue_chunks: whether or not the file can be mapped, it leaves the
  -- queues.
  | .map file eventType tag report =>
    some (sbRemoveChunkFromSegregatedBacklogs
      (map state setup.storageBacklog eventType tag report) file)
  | .flush ref outcome => (state.chunk ref).map fun chunk => flush state chunk outcome
  | .release new input output required scope =>
    (Keyed.lookup Output.id setup.outputs output).map fun output =>
      (releaseSpace state new input output required scope).1
  | .destroy ref del => (state.chunk ref).map fun chunk => destroy state chunk del
  | .releaseLock ref =>
    (state.chunk ref).map fun chunk =>
      state.modifyChunk ref fun _ => { chunk with busy := false }
  | .setTask ref task =>
    (state.chunk ref).map fun chunk =>
      state.modifyChunk ref fun _ => chunk.withTask task

end FluentBit.InputChunk
