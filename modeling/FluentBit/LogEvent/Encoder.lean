import FluentBit.Lib.Msgpack
import FluentBit.Lib.Run

/-!
# The log event encoder

A record is put together in three dynamic fields: its metadata, its body and
the root that holds both.  A dynamic field is a buffer with a stack of open
containers.  The header of a container is written with a size that takes 32
bits and is overwritten when the container is closed, by the number of values
that were appended to it.  A container counts as an entry of the one around it
from the moment it is opened.  A rollback of a map takes back the bytes and not
that entry; a rollback of an array is a commit.
-/

namespace FluentBit.LogEvent

open Msgpack List

structure Time where
  sec : Int
  nsec : Int
deriving DecidableEq, Repr

/-- The formats of an encoder; `FLB_LOG_EVENT_FORMAT_FLUENT_BIT_V1` is another
name of the forward format. -/
inductive Format where
  | forwardLegacy
  | forward
  | fluentBitV2
deriving DecidableEq, Repr

inductive ScopeType where
  | map
  | array
deriving DecidableEq, Repr

/-- `struct flb_log_event_encoder_dynamic_field_scope`, with the header it
counts the entries for. -/
structure Scope where
  type : ScopeType
  offset : Nat
  entries : Nat
deriving DecidableEq, Repr

/-- `struct flb_log_event_encoder_dynamic_field`.  The innermost scope comes
first; `data` and `size` are the part of the buffer at the last flush. -/
structure Field where
  buffer : List Byte
  scopes : List Scope
  data : Option (List Byte)

/-- A field as `flb_log_event_encoder_dynamic_field_init` leaves it. -/
def Field.empty : Field :=
  { buffer := [], scopes := [], data := none }

/-- `flb_mp_set_map_header_size` and `flb_mp_set_array_header_size`: write the
size of a container into its header, in the form the header has. -/
def setHeaderSize (fixed short long : Byte) (size : Nat) : List Byte → List Byte
  | [] => []
  | tag :: rest =>
    if tag >>> 4 = fixed >>> 4 then (fixed ||| UInt8.ofNat size) :: rest
    else if tag = short then short :: (toBigEndian 2 size ++ rest.drop 2)
    else if tag = long then long :: (toBigEndian 4 size ++ rest.drop 4)
    else tag :: rest

def setMapHeaderSize : Nat → List Byte → List Byte := setHeaderSize 0x80 0xde 0xdf

def setArrayHeaderSize : Nat → List Byte → List Byte := setHeaderSize 0x90 0xdc 0xdd

/-- `flb_log_event_encoder_dynamic_field_append`: one more entry of the
innermost scope. -/
def Field.append (field : Field) : Field :=
  match field.scopes with
  | [] => field
  | scope :: scopes =>
    { field with scopes := { scope with entries := scope.entries + 1 } :: scopes }

def Field.scopeEnter (field : Field) (type : ScopeType) : Field :=
  let field := field.append
  { field with
    buffer := field.buffer ++
      match type with
      | .map => packMap 65536
      | .array => packArray 65536
    scopes :=
      { type := type, offset := field.buffer.length, entries := 0 } :: field.scopes }

/-- Write the number of entries into the header of a scope.  Keys and values
are counted one by one. -/
def Scope.close (scope : Scope) (buffer : List Byte) : List Byte :=
  buffer.take scope.offset ++
    match scope.type with
    | .map => setMapHeaderSize (scope.entries / 2) (buffer.drop scope.offset)
    | .array => setArrayHeaderSize scope.entries (buffer.drop scope.offset)

/-- `flb_log_event_encoder_dynamic_field_scope_leave` with a commit.  Without
a scope the argument is invalid. -/
def Field.scopeCommit (field : Field) : Option Field :=
  match field.scopes with
  | [] => none
  | scope :: scopes =>
    some
      { field with buffer := scope.close field.buffer, scopes := scopes }

def Field.flush (field : Field) : Field :=
  let buffer := field.scopes.foldl (fun buffer scope => scope.close buffer) field.buffer
  { buffer := buffer, scopes := [], data := some buffer }

/-- `flb_log_event_encoder_dynamic_field_reset`.  The buffer is cleared by its
size alone, and leaving the scopes sets the size to the place where the
outermost one was entered. -/
def Field.reset (field : Field) : Field :=
  { buffer :=
      match field.scopes.getLast? with
      | none => []
      | some scope => field.buffer.take scope.offset
    scopes := []
    data := none }

/-- `flb_log_event_encoder_append_value`: the bytes of a value, as a new entry
or as the body of the entry before. -/
def Field.appendValue (field : Field) (incrementEntryCount : Bool) (bytes : List Byte) : Field :=
  let field := if incrementEntryCount then field.append else field
  { field with buffer := field.buffer ++ bytes }

def Field.appendMsgpackObject (field : Field) (value : Object) : Field :=
  field.appendValue true (pack value)

/-- `flb_log_event_encoder_append_raw_msgpack`.  A null buffer is an invalid
argument. -/
def Field.appendRawMsgpack (field : Field) (value : Option (List Byte)) : Option Field :=
  value.map (field.appendValue true)

def Field.appendExt (field : Field) (type : Byte) (value : List Byte) : Field :=
  (field.appendValue true (packExt value.length type)).appendValue false value

def uint32 (value : Int) : Nat := (BitVec.ofInt 32 value).toNat

/-- The eight bytes of a forward timestamp, in network byte order. -/
def forwardTimestamp (value : Time) : List Byte :=
  toBigEndian 4 (uint32 value.sec) ++ toBigEndian 4 (uint32 value.nsec)

def Field.appendTimestamp (field : Field) (format : Format) (value : Time) : Field :=
  match format with
  | .forwardLegacy => field.appendValue true (packUint64 (BitVec.ofInt 64 value.sec))
  | .forward => field.appendExt 0 (forwardTimestamp value)
  | .fluentBitV2 => field.appendExt 0 (forwardTimestamp value)

structure Encoder where
  format : Format
  timestamp : Time
  metadata : Field
  body : Field
  root : Field
  buffer : List Byte

def encoderInit (format : Format) : Encoder :=
  { format := format
    timestamp := { sec := 0, nsec := 0 }
    metadata := Field.empty
    body := Field.empty
    root := Field.empty
    buffer := [] }

def resetRecord (encoder : Encoder) : Encoder :=
  { encoder with
    timestamp := { sec := 0, nsec := 0 }
    metadata := encoder.metadata.reset
    body := encoder.body.reset
    root := encoder.root.reset }

def encoderReset (encoder : Encoder) : Encoder :=
  { encoder with
    metadata := encoder.metadata.reset
    body := encoder.body.reset
    root := encoder.root.reset
    buffer := [] }

def beginRecord (encoder : Encoder) : Encoder :=
  let encoder := resetRecord encoder
  { encoder with
    metadata := encoder.metadata.scopeEnter .map
    body := encoder.body.scopeEnter .map }

def setTimestamp (encoder : Encoder) (timestamp : Time) : Encoder :=
  { encoder with timestamp := timestamp }

/-- The root that `flb_log_event_encoder_emit_record` composes when none was
set before. -/
def composeRoot (encoder : Encoder) : Option Field :=
  let root := encoder.root.scopeEnter .array
  let timestamped (root : Field) := root.appendTimestamp encoder.format encoder.timestamp
  let headed :=
    if encoder.format = .fluentBitV2 then
      ((timestamped (root.scopeEnter .array)).appendRawMsgpack
        encoder.metadata.data).bind Field.scopeCommit
    else some (timestamped root)
  headed.bind fun root =>
    (root.appendRawMsgpack encoder.body.data).map Field.flush

def emitRawRecord (encoder : Encoder) (record : List Byte) : Encoder :=
  resetRecord { encoder with buffer := encoder.buffer ++ record }

def emitRecord (encoder : Encoder) : Bool × Encoder :=
  let root :=
    if encoder.root.data.getD [] = [] then composeRoot encoder
    else some encoder.root
  match root with
  | none => (false, resetRecord encoder)
  | some root =>
    (true, resetRecord
      { encoder with root := root, buffer := encoder.buffer ++ root.data.getD [] })

def commitRecord (encoder : Encoder) : Bool × Encoder :=
  emitRecord
    { encoder with metadata := encoder.metadata.flush, body := encoder.body.flush }

/-- `flb_log_event_encoder_set_metadata_from_raw_msgpack` and its variants for
the body, and for an object that is packed first. -/
def Field.setFromRawMsgpack (field : Field) (bytes : List Byte) : Field :=
  (field.reset.appendValue true bytes).flush

def Field.setFromMsgpackObject (field : Field) (value : Object) : Field :=
  (field.reset.appendMsgpackObject value).flush

/-- The headers of containers closed by a dynamic field. -/
def arrayHeader (size : Nat) : List Byte := 0xdd :: toBigEndian 4 size

def mapHeader (size : Nat) : List Byte := 0xdf :: toBigEndian 4 size

theorem setMapHeaderSize_packMap (size : Nat) (rest : List Byte) :
    setMapHeaderSize size (packMap 65536 ++ rest) = mapHeader size ++ rest :=
  rfl

theorem unpackToken_arrayHeader {size : Nat} (fits : size < 2 ^ 32) (rest : List Byte) :
    unpackToken (arrayHeader size ++ rest) = .done (.array size) rest := by
  apply unpackToken_number rfl
  omega

theorem unpackToken_mapHeader {size : Nat} (fits : size < 2 ^ 32) (rest : List Byte) :
    unpackToken (mapHeader size ++ rest) = .done (.map size) rest := by
  apply unpackToken_number rfl
  omega

theorem Field.reset_flush (field : Field) : field.flush.reset = Field.empty :=
  rfl

/-- The ways to fill the map that `flb_log_event_encoder_begin_record` opens
in a field: replace it by an object or by bytes, or append its keys and values
one by one. -/
inductive Contents where
  | object (pairs : List (Object × Object)) (fits : (Object.map pairs).Fits)
  | raw (pairs : List (Object × Object)) (bytes : List Byte) (encodes : Encodes bytes (.map pairs))
  | values (pairs : List (Object × Object)) (fits : (Object.map pairs).Fits)

namespace Contents

def pairs : Contents → List (Object × Object)
  | .object pairs _ => pairs
  | .raw pairs _ _ => pairs
  | .values pairs _ => pairs

def bytes : Contents → List Byte
  | .object pairs _ => pack (.map pairs)
  | .raw _ bytes _ => bytes
  | .values pairs _ => mapHeader pairs.length ++ packPairs pairs

def fill (field : Field) : Contents → Field
  | .object pairs _ => field.setFromMsgpackObject (.map pairs)
  | .raw _ bytes _ => field.setFromRawMsgpack bytes
  | .values pairs _ =>
    pairs.foldl
      (fun field pair =>
        (field.appendMsgpackObject pair.1).appendMsgpackObject pair.2)
      field

theorem encodes_bytes (contents : Contents) : Encodes contents.bytes (.map contents.pairs) := by
  cases contents with
  | object pairs fits => exact encodes_pack (.map pairs) fits
  | raw pairs bytes encodes => exact encodes
  | values pairs fits =>
    rw [bytes, packPairs_eq]
    exact .map (unpackToken_mapHeader fits.1) (encodes_pairs pairs fits.2)

end Contents

theorem Field.appendMsgpackObject_eq {field : Field} {scope : Scope} {scopes : List Scope}
    (entered : field.scopes = scope :: scopes) (value : Object) :
    field.appendMsgpackObject value =
      { field with
        buffer := field.buffer ++ pack value
        scopes := { scope with entries := scope.entries + 1 } :: scopes } := by
  simp only [Field.appendMsgpackObject, Field.appendValue, if_true, Field.append, entered]

theorem foldl_append_pairs (pairs : List (Object × Object)) (field : Field) (scope : Scope)
    (scopes : List Scope) (entered : field.scopes = scope :: scopes) :
    pairs.foldl
        (fun field pair =>
          (field.appendMsgpackObject pair.1).appendMsgpackObject pair.2)
        field =
      { field with
        buffer := field.buffer ++ packPairs pairs
        scopes :=
          { scope with entries := scope.entries + 2 * pairs.length } :: scopes } := by
  induction pairs generalizing field scope with
  | nil =>
    obtain ⟨buffer, _, data⟩ := field
    cases entered
    simp [packPairs]
  | cons pair pairs ih =>
    have counted : scope.entries + 1 + 1 + 2 * pairs.length =
        scope.entries + 2 * (pairs.length + 1) := by omega
    rw [foldl_cons, Field.appendMsgpackObject_eq entered,
      Field.appendMsgpackObject_eq rfl, ih _ _ rfl]
    simp only [counted, packPairs, append_assoc, length_cons]

theorem Contents.fill_flush (contents : Contents) :
    (contents.fill (Field.empty.scopeEnter .map)).flush.data = some contents.bytes := by
  cases contents with
  | object pairs fits | raw pairs bytes encodes => rfl
  | values pairs fits =>
    rw [Contents.fill, foldl_append_pairs pairs _ _ [] rfl]
    have halved : (0 + 2 * pairs.length) / 2 = pairs.length := by omega
    simp only [Field.flush, foldl_cons, foldl_nil, Scope.close, halved]
    exact congrArg some (setMapHeaderSize_packMap _ _)

def timestampBytes (timestamp : Time) : List Byte := packExt 8 0 ++ forwardTimestamp timestamp

def recordBytes (timestamp : Time) (metadata body : List Byte) : List Byte :=
  arrayHeader 2 ++ [arrayHeader 2 ++ [timestampBytes timestamp, metadata].flatten, body].flatten

/-- `enum flb_time_eventtime_fmt`, up to the formats that are not valid. -/
inductive TimeFormat where
  | int
  | v0
  | v1Ext
  | v1Fixext
deriving DecidableEq, Repr

/-- `flb_time_append_to_msgpack`: the bytes the other writers of timestamps
use. -/
def timeAppendToMsgpack (tm : Time) : TimeFormat → List Byte
  | .int => packUint64 (BitVec.ofInt 64 tm.sec)
  | .v0 => packExt 8 0 ++ forwardTimestamp tm
  | .v1Ext => packExt 8 0 ++ forwardTimestamp tm
  | .v1Fixext => packExt 8 0 ++ forwardTimestamp tm

/-- The encoder writes timestamps as `flb_time_append_to_msgpack` does. -/
theorem Field.appendTimestamp_buffer (field : Field) (format : Format) (timestamp : Time) :
    (field.appendTimestamp format timestamp).buffer =
      field.buffer ++ timeAppendToMsgpack timestamp
        (if format = .forwardLegacy then .int else .v1Fixext) := by
  have appended : field.append.buffer = field.buffer := by
    rw [Field.append]
    split <;> rfl
  have extension : (field.appendExt 0 (forwardTimestamp timestamp)).buffer =
      field.buffer ++ (packExt 8 0 ++ forwardTimestamp timestamp) := by
    rw [← append_assoc, ← appended]
    rfl
  cases format with
  | forwardLegacy => exact congrArg (· ++ _) appended
  | forward | fluentBitV2 => exact extension

variable {encoder : Encoder}

theorem composeRoot_data {metadata body : List Byte} (format : encoder.format = .fluentBitV2)
    (root : encoder.root = Field.empty) (metadataSet : encoder.metadata.data = some metadata)
    (bodySet : encoder.body.data = some body) :
    ∃ composed, composeRoot encoder = some composed ∧ composed.scopes = [] ∧
      composed.data = some (recordBytes encoder.timestamp metadata body) := by
  rw [composeRoot, root, format, if_pos rfl, metadataSet, bodySet]
  refine ⟨_, rfl, rfl, ?_⟩
  simp only [recordBytes, timestampBytes, flatten_cons, flatten_nil, append_nil, append_assoc]
  rfl

/-- A record to encode: a timestamp in the range of an `uint32_t` and of
nanoseconds, and how its maps are filled. -/
structure Record where
  sec : Nat
  nsec : Nat
  metadata : Contents
  body : Contents
  sec_lt : sec < 2 ^ 32
  nsec_lt : nsec < 10 ^ 9

def Record.timestamp (record : Record) : Time :=
  { sec := record.sec, nsec := record.nsec }

def Record.bytes (record : Record) : List Byte :=
  recordBytes record.timestamp record.metadata.bytes record.body.bytes

/-- Write one record, from `flb_log_event_encoder_begin_record` to
`flb_log_event_encoder_commit_record`. -/
def writeRecord (encoder : Encoder) (timestamp : Time) (metadata body : Contents) :
    Bool × Encoder :=
  let encoder := setTimestamp (beginRecord encoder) timestamp
  commitRecord
    { encoder with metadata := metadata.fill encoder.metadata, body := body.fill encoder.body }

def encodeRecord (encoder : Encoder) (record : Record) : Bool × Encoder :=
  writeRecord encoder record.timestamp record.metadata record.body

/-- Encode records one after the other with a new encoder, and stop at the
first one that cannot be committed. -/
def encode (records : List Record) : Option Encoder :=
  records.foldlM
    (fun encoder record =>
      match encodeRecord encoder record with
      | (true, encoder) => some encoder
      | (false, _) => none)
    (encoderInit .fluentBitV2)

/-- An encoder between two records. -/
structure Idle (encoder : Encoder) : Prop where
  format : encoder.format = .fluentBitV2
  metadata : encoder.metadata = Field.empty
  body : encoder.body = Field.empty
  root : encoder.root = Field.empty

theorem commitRecord_idle {metadata body : List Byte} (format : encoder.format = .fluentBitV2)
    (root : encoder.root = Field.empty) (metadataSet : encoder.metadata.flush.data = some metadata)
    (bodySet : encoder.body.flush.data = some body) :
    (commitRecord encoder).1 = true ∧
      (commitRecord encoder).2.buffer =
        encoder.buffer ++ recordBytes encoder.timestamp metadata body ∧
      Idle (commitRecord encoder).2 := by
  obtain ⟨composed, compose, left, data⟩ := @composeRoot_data
    { encoder with
      metadata := encoder.metadata.flush
      body := encoder.body.flush } metadata body format root metadataSet
    bodySet
  simp only [commitRecord, emitRecord, root, Field.empty, Option.getD_none, if_true]
  simp only [root, Field.empty] at compose
  rw [compose]
  refine ⟨rfl, ?_, ?_⟩
  · simp only [resetRecord, data, Option.getD_some]
  · exact
      { format := format
        metadata := encoder.metadata.reset_flush
        body := encoder.body.reset_flush
        root := by
          change composed.reset = Field.empty
          simp only [Field.reset, left, List.getLast?_nil, Field.empty] }

theorem writeRecord_idle (idle : Idle encoder) (timestamp : Time) (metadata body : Contents) :
    (writeRecord encoder timestamp metadata body).1 = true ∧
      (writeRecord encoder timestamp metadata body).2.buffer =
        encoder.buffer ++ recordBytes timestamp metadata.bytes body.bytes ∧
      Idle (writeRecord encoder timestamp metadata body).2 := by
  apply commitRecord_idle
  · exact idle.format
  · change encoder.root.reset = Field.empty
    rw [idle.root]
    rfl
  · change (metadata.fill (encoder.metadata.reset.scopeEnter .map)).flush.data = _
    rw [idle.metadata]
    exact metadata.fill_flush
  · change (body.fill (encoder.body.reset.scopeEnter .map)).flush.data = _
    rw [idle.body]
    exact body.fill_flush

theorem encode_buffer (records : List Record) :
    ∃ encoder, encode records = some encoder ∧
      encoder.buffer = (records.map Record.bytes).flatten := by
  suffices appended : ∀ start, Idle start → ∃ encoder,
      records.foldlM
          (fun encoder record =>
            match encodeRecord encoder record with
            | (true, encoder) => some encoder
            | (false, _) => none)
          start = some encoder ∧
        encoder.buffer =
          start.buffer ++ (records.map Record.bytes).flatten by
    exact appended _ ⟨rfl, rfl, rfl, rfl⟩
  induction records with
  | nil =>
    intro start _
    exact ⟨start, rfl, by simp⟩
  | cons record records ih =>
    intro start idle
    obtain ⟨committed, buffer, next⟩ := writeRecord_idle idle
      record.timestamp record.metadata record.body
    rcases encoded : encodeRecord start record with ⟨success, after⟩
    rw [encodeRecord] at encoded
    rw [encoded] at committed buffer next
    obtain ⟨encoder, result, appended⟩ := ih after next
    dsimp only at committed buffer
    refine ⟨encoder, ?_, ?_⟩
    · rw [foldlM_cons, encodeRecord, encoded, committed]
      exact result
    · rw [appended, buffer, map_cons, flatten_cons, append_assoc, Record.bytes]

open Run

/-- `flb_log_event_encoder_dynamic_field_scope_leave` without a commit. -/
def Field.scopeRollback (field : Field) : Option Field :=
  match field.scopes with
  | [] => none
  | scope :: scopes =>
    some
      { field with buffer := field.buffer.take scope.offset, scopes := scopes }

def Field.beginMap (field : Field) : Field := field.scopeEnter .map

def Field.beginArray (field : Field) : Field := field.scopeEnter .array

def Field.commitMap (field : Field) : Option Field := field.scopeCommit

def Field.commitArray (field : Field) : Option Field := field.scopeCommit

def Field.rollbackMap (field : Field) : Option Field := field.scopeRollback

/-- `flb_log_event_encoder_dynamic_field_rollback_array`, which leaves the scope
with a commit. -/
def Field.rollbackArray (field : Field) : Option Field := field.scopeCommit

inductive Operation where
  | enter (type : ScopeType)
  | append (bytes : List Byte)
  | commit (type : ScopeType)
  | rollback (type : ScopeType)

def operate (field : Field) : Operation → Option Field
  | .enter .map => some field.beginMap
  | .enter .array => some field.beginArray
  | .append bytes => some (field.appendValue true bytes)
  | .commit .map => field.commitMap
  | .commit .array => field.commitArray
  | .rollback .map => field.rollbackMap
  | .rollback .array => field.rollbackArray

inductive Ending where
  | commit
  | rollback
deriving DecidableEq

/-- A well-bracketed sequence of operations: values, and containers that are
committed or rolled back.  A value comes with its bytes. -/
inductive Script where
  | done
  | value (bytes : List Byte) (object : Object) (encodes : Encodes bytes object) (rest : Script)
  | scope (type : ScopeType) (inner : Script) (ending : Ending) (rest : Script)

def Ending.operation (type : ScopeType) : Ending → Operation
  | .commit => .commit type
  | .rollback => .rollback type

def Script.operations : Script → List Operation
  | .done => []
  | .value bytes _ _ rest => .append bytes :: rest.operations
  | .scope type inner ending rest =>
    .enter type :: (inner.operations ++ ending.operation type :: rest.operations)

def pairUp : List Object → List (Object × Object)
  | key :: value :: rest => (key, value) :: pairUp rest
  | _ => []

def ScopeType.build : ScopeType → List Object → Object
  | .map, items => .map (pairUp items)
  | .array, items => .array items

def Script.objects : Script → List Object
  | .done => []
  | .value _ object _ rest => object :: rest.objects
  | .scope type inner .commit rest => type.build inner.objects :: rest.objects
  | .scope _ _ .rollback rest => rest.objects

/-- A map has keys with values, and the size of a container has 32 bits. -/
def ScopeType.Holds : ScopeType → Nat → Prop
  | .map, items => items % 2 = 0 ∧ items / 2 < 2 ^ 32
  | .array, items => items < 2 ^ 32

def Script.Valid : Script → Prop
  | .done => True
  | .value _ _ _ rest => rest.Valid
  | .scope type inner .commit rest => type.Holds inner.objects.length ∧ inner.Valid ∧ rest.Valid
  | .scope _ _ .rollback rest => rest.Valid

inductive Decodes : List Byte → List Object → Prop where
  | nil : Decodes [] []
  | cons {bytes rest : List Byte} {object : Object} {objects : List Object}
      (read : unpack bytes = .done object rest)
      (more : Decodes rest objects) : Decodes bytes (object :: objects)

/-- Every rollback brings the field back to what it was before the matching
begin. -/
def Script.Restores (field : Field) : Script → Prop
  | .done => True
  | .value bytes _ _ rest => rest.Restores (field.appendValue true bytes)
  | .scope type inner ending rest =>
    ∃ inside left, run operate (field.scopeEnter type) inner.operations = some inside ∧
      operate inside (ending.operation type) = some left ∧
      inner.Restores (field.scopeEnter type) ∧
      (ending = .rollback → left = field) ∧
      rest.Restores left

/-- Only maps are rolled back, and only outside of any other container. -/
def Script.Clean (outside : Bool) : Script → Prop
  | .done => True
  | .value _ _ _ rest => rest.Clean outside
  | .scope type inner ending rest =>
    (ending = .rollback → type = .map ∧ outside = true) ∧ inner.Clean false ∧ rest.Clean outside

def ScopeType.header : ScopeType → Nat → List Byte
  | .map, entries => mapHeader (entries / 2)
  | .array, entries => arrayHeader entries

def Script.counted : Script → Nat
  | .done => 0
  | .value _ _ _ rest => 1 + rest.counted
  | .scope _ _ _ rest => 1 + rest.counted

/-- The bytes that leaving a container leaves in the buffer. -/
def Ending.left (type : ScopeType) (bytes : List Byte) : Ending → List Byte
  | .commit => bytes
  | .rollback =>
    match type with
    | .map => []
    | .array => bytes

def Script.written : Script → List Byte
  | .done => []
  | .value bytes _ _ rest => bytes ++ rest.written
  | .scope type inner ending rest =>
    ending.left type (type.header inner.counted ++ inner.written) ++ rest.written

def countEntries (entries : Nat) : List Scope → List Scope
  | [] => []
  | scope :: scopes =>
    { scope with entries := scope.entries + entries } :: scopes

def Field.grow (field : Field) (bytes : List Byte) (entries : Nat) : Field :=
  { field with buffer := field.buffer ++ bytes, scopes := countEntries entries field.scopes }

theorem countEntries_zero (scopes : List Scope) : countEntries 0 scopes = scopes := by
  cases scopes with
  | nil | cons scope scopes => rfl

theorem countEntries_countEntries (first second : Nat) (scopes : List Scope) :
    countEntries second (countEntries first scopes) = countEntries (first + second) scopes := by
  cases scopes with
  | nil => rfl
  | cons scope scopes => simp only [countEntries, Nat.add_assoc]

theorem Field.grow_nil_zero (field : Field) : field.grow [] 0 = field := by
  rw [Field.grow, append_nil, countEntries_zero]

theorem Field.grow_grow (field : Field) (first second : List Byte) (entries more : Nat) :
    (field.grow first entries).grow second more =
      field.grow (first ++ second) (entries + more) := by
  simp only [Field.grow, append_assoc, countEntries_countEntries]

theorem Field.append_eq_grow (field : Field) : field.append = field.grow [] 1 := by
  obtain ⟨buffer, scopes, data⟩ := field
  cases scopes with
  | nil | cons scope scopes => simp [Field.append, Field.grow, countEntries]

theorem Field.appendValue_eq_grow (field : Field) (bytes : List Byte) :
    field.appendValue true bytes = field.grow bytes 1 := by
  rw [Field.appendValue, if_pos rfl, Field.append_eq_grow]
  simp [Field.grow]

def ScopeType.opening : ScopeType → List Byte
  | .map => packMap 65536
  | .array => packArray 65536

theorem Field.scopeEnter_eq (field : Field) (type : ScopeType) :
    field.scopeEnter type =
      { buffer := field.buffer ++ type.opening
        scopes :=
          { type := type
            offset := field.buffer.length
            entries := 0 } :: countEntries 1 field.scopes
        data := field.data } := by
  unfold Field.scopeEnter
  simp only [Field.append_eq_grow, Field.grow, append_nil]
  cases type with
  | map | array => rfl

theorem Scope.close_opening (type : ScopeType) (before bytes : List Byte) (entries : Nat) :
    Scope.close
        { type := type, offset := before.length, entries := entries }
        (before ++ (type.opening ++ bytes)) =
      before ++ (type.header entries ++ bytes) := by
  rw [Scope.close, take_left, drop_left]
  cases type with
  | map => rw [ScopeType.opening, setMapHeaderSize_packMap, ScopeType.header]
  | array => rfl

section
variable (field : Field) (type : ScopeType)

theorem Field.scopeCommit_grow (bytes : List Byte) (entries : Nat) :
    ((field.scopeEnter type).grow bytes entries).scopeCommit =
      some (field.grow (type.header entries ++ bytes) 1) := by
  rw [Field.scopeEnter_eq]
  simp only [Field.grow, Field.scopeCommit, countEntries, Nat.zero_add,
    append_assoc, Scope.close_opening]

theorem Field.scopeRollback_grow (bytes : List Byte) (entries : Nat) :
    ((field.scopeEnter type).grow bytes entries).scopeRollback = some (field.grow [] 1) := by
  rw [Field.scopeEnter_eq]
  simp only [Field.grow, Field.scopeRollback, countEntries, append_assoc, take_left, append_nil]

theorem operate_ending (ending : Ending) (bytes : List Byte) (entries : Nat) :
    operate ((field.scopeEnter type).grow bytes entries) (ending.operation type) =
      some (field.grow (ending.left type (type.header entries ++ bytes)) 1) := by
  cases ending with
  | commit =>
    cases type with
    | map => exact field.scopeCommit_grow .map bytes entries
    | array => exact field.scopeCommit_grow .array bytes entries
  | rollback =>
    cases type with
    | map => exact field.scopeRollback_grow .map bytes entries
    | array => exact field.scopeCommit_grow .array bytes entries

theorem operate_enter : operate field (.enter type) = some (field.scopeEnter type) := by
  cases type with
  | map | array => rfl

end

/-- A script adds its bytes and its entries, and leaves the outer scopes as they
are. -/
theorem run_operations (script : Script) (field : Field) :
    run operate field script.operations = some (field.grow script.written script.counted) := by
  induction script generalizing field with
  | done => exact congrArg some field.grow_nil_zero.symm
  | value bytes object encodes rest ih =>
    rw [Script.operations, run, operate]
    simp only
    rw [ih, Field.appendValue_eq_grow, Field.grow_grow]
    rfl
  | scope type inner ending rest ihInner ihRest =>
    rw [Script.operations, run, operate_enter]
    simp only
    rw [run_append, ihInner, Option.bind_some, run, operate_ending]
    simp only
    rw [ihRest, Field.grow_grow]
    rfl

theorem countEntries_isEmpty (entries : Nat) (scopes : List Scope) :
    (countEntries entries scopes).isEmpty = scopes.isEmpty := by
  cases scopes with
  | nil | cons scope scopes => rfl

theorem countEntries_one_eq_iff {scopes : List Scope} :
    countEntries 1 scopes = scopes ↔ scopes.isEmpty = true := by
  cases scopes with
  | nil => exact ⟨fun _ => rfl, fun _ => rfl⟩
  | cons scope scopes =>
    constructor
    · intro same
      have entries := congrArg Scope.entries (cons.inj same).1
      exact absurd entries (Nat.succ_ne_self _)
    · intro empty
      cases empty

theorem ScopeType.header_ne_nil (type : ScopeType) (entries : Nat) : type.header entries ≠ [] := by
  cases type with
  | map | array => exact cons_ne_nil _ _

/-- A rollback gives the field back exactly when a map is rolled back outside of
any other container. -/
theorem Field.grow_left_eq_iff (field : Field) (type : ScopeType)
    (entries : Nat) (bytes : List Byte) :
    field.grow (Ending.rollback.left type (type.header entries ++ bytes)) 1 = field ↔
      type = .map ∧ field.scopes.isEmpty = true := by
  cases type with
  | array =>
    constructor
    · intro same
      have buffer := congrArg Field.buffer same
      have empty := append_right_eq_self.mp buffer
      exact absurd (append_eq_nil_iff.mp empty).1 (ScopeType.header_ne_nil .array entries)
    · intro outside
      cases outside.1
  | map =>
    constructor
    · intro same
      exact ⟨rfl, countEntries_one_eq_iff.mp (congrArg Field.scopes same)⟩
    · intro outside
      have scopes := countEntries_one_eq_iff.mpr outside.2
      simp only [Ending.left, Field.grow, append_nil, scopes]

theorem Script.restores_iff (script : Script) (field : Field) :
    script.Restores field ↔ script.Clean field.scopes.isEmpty := by
  induction script generalizing field with
  | done => exact Iff.rfl
  | value bytes object encodes rest ih =>
    rw [Script.Restores, Script.Clean, ih, Field.appendValue_eq_grow,
      Field.grow, countEntries_isEmpty]
  | scope type inner ending rest ihInner ihRest =>
    have inside := run_operations inner (field.scopeEnter type)
    have left := operate_ending field type ending inner.written inner.counted
    have opened : (field.scopeEnter type).scopes.isEmpty = false := by
      rfl
    have back : (ending = .rollback → field.grow (ending.left type
        (type.header inner.counted ++ inner.written)) 1 = field) ↔
          (ending = .rollback → type = .map ∧ field.scopes.isEmpty = true) := by
      cases ending with
      | commit =>
        have committed : Ending.commit ≠ .rollback := by decide
        exact ⟨fun _ rollback => absurd rollback committed,
          fun _ rollback => absurd rollback committed⟩
      | rollback => rw [Field.grow_left_eq_iff]
    have same : (field.grow (ending.left type (type.header inner.counted ++ inner.written))
      1).scopes.isEmpty = field.scopes.isEmpty := countEntries_isEmpty 1 field.scopes
    rw [Script.Clean, ← back, ← opened, ← ihInner, ← same, ← ihRest, Script.Restores]
    constructor
    · intro restores
      obtain ⟨inside', left', ran, taken, inner', rollback, rest'⟩ := restores
      rw [inside] at ran
      cases ran
      rw [left] at taken
      cases taken
      exact ⟨rollback, inner', rest'⟩
    · intro clean
      exact ⟨_, _, inside, left, clean.2.1, clean.1, clean.2.2⟩

variable {parts : List (List Byte)}

theorem decodes_of_encodes {objects : List Object}
    (encoded : Forall₂ Encodes parts objects) : Decodes parts.flatten objects := by
  induction encoded with
  | nil => exact .nil
  | cons encodes encoded ih =>
    exact .cons (encodes _) ih

theorem length_pairUp (items : List Object) : (pairUp items).length = items.length / 2 := by
  induction items using pairUp.induct with
  | case1 key value rest ih =>
    rw [pairUp, length_cons, ih, length_cons, length_cons]
    omega
  | case2 items short =>
    cases items with
    | nil => rfl
    | cons key items =>
      cases items with
      | nil => simp [pairUp]
      | cons value rest => exact absurd rfl (short key value rest)

theorem encodesPair_pairUp {items : List Object}
    (encoded : Forall₂ Encodes parts items) (even : items.length % 2 = 0) :
    ∃ pairs, Forall₂ EncodesPair pairs (pairUp items) ∧
      parts.flatten = pairs.flatMap fun part => part.1 ++ part.2 := by
  induction items using pairUp.induct generalizing parts with
  | case1 key value rest ih =>
    cases encoded with
    | @cons keyBytes _ _ _ encodesKey encoded =>
      cases encoded with
      | @cons valueBytes _ more _ encodesValue encoded =>
        have evenRest : rest.length % 2 = 0 := by
          rw [length_cons, length_cons] at even
          omega
        obtain ⟨pairs, encodedPairs, same⟩ := ih encoded evenRest
        refine ⟨(keyBytes, valueBytes) :: pairs, .cons ⟨encodesKey, encodesValue⟩ encodedPairs, ?_⟩
        rw [flatten_cons, flatten_cons, flatMap_cons, same, append_assoc]
  | case2 items short =>
    cases encoded with
    | nil => exact ⟨[], .nil, rfl⟩
    | @cons _ first _ others _ encoded =>
      cases encoded with
      | nil => exact absurd even (by simp)
      | cons _ _ => exact absurd rfl (short _ _ _)

theorem ScopeType.encodes_build {type : ScopeType} {items : List Object}
    (encoded : Forall₂ Encodes parts items) (holds : type.Holds items.length) :
    Encodes (type.header items.length ++ parts.flatten) (type.build items) := by
  cases type with
  | array => exact .array (unpackToken_arrayHeader holds) encoded
  | map =>
    obtain ⟨pairs, encodedPairs, same⟩ := encodesPair_pairUp encoded holds.1
    rw [ScopeType.header, same, ← length_pairUp]
    apply Encodes.map _ encodedPairs
    apply unpackToken_mapHeader
    rw [length_pairUp]
    exact holds.2

/-- What a clean script writes are the encodings of its objects; inside of a
container each of them is counted. -/
theorem Script.written_encodes {script : Script} {outside : Bool}
    (clean : script.Clean outside) (valid : script.Valid) :
    ∃ parts, script.written = parts.flatten ∧ Forall₂ Encodes parts script.objects ∧
      (outside = false → script.counted = script.objects.length) := by
  induction script generalizing outside with
  | done => exact ⟨[], rfl, .nil, fun _ => rfl⟩
  | value bytes object encodes rest ih =>
    obtain ⟨parts, written, encoded, counted⟩ := ih clean valid
    refine ⟨bytes :: parts, ?_, .cons encodes encoded, ?_⟩
    · rw [Script.written, written, flatten_cons]
    · intro inside
      rw [Script.counted, counted inside, Script.objects, length_cons, Nat.add_comm]
  | scope type inner ending rest ihInner ihRest =>
    obtain ⟨rollback, cleanInner, cleanRest⟩ := clean
    cases ending with
    | rollback =>
      obtain ⟨rfl, rfl⟩ := rollback rfl
      obtain ⟨parts, written, encoded, _⟩ := ihRest cleanRest valid
      refine ⟨parts, ?_, encoded, fun inside => ?_⟩
      · rw [Script.written, written]
        rfl
      · cases inside
    | commit =>
      obtain ⟨holds, validInner, validRest⟩ := valid
      obtain ⟨inner', writtenInner, encodedInner, countedInner⟩ := ihInner cleanInner validInner
      obtain ⟨parts, written, encoded, counted⟩ := ihRest cleanRest validRest
      refine ⟨(type.header inner.counted ++ inner.written) :: parts, ?_, .cons ?_ encoded, ?_⟩
      · rw [Script.written, written, flatten_cons]
        rfl
      · rw [countedInner rfl, writtenInner]
        exact ScopeType.encodes_build encodedInner holds
      · intro inside
        rw [Script.counted, counted inside, Script.objects, length_cons, Nat.add_comm]

/-- The field decodes to the trees of the committed operations after a flush,
and every rollback restores the field. -/
structure Script.BuildsTrees (script : Script) : Prop where
  decodes : ∃ field data,
    run operate Field.empty script.operations = some field ∧
      field.flush.data = some data ∧ Decodes data script.objects
  restores : script.Restores Field.empty

/-- A well-bracketed sequence builds its trees exactly when only maps are rolled
back, and only outside of any other container. -/
theorem field_holds_committed (script : Script) (valid : script.Valid) :
    script.BuildsTrees ↔ script.Clean true := by
  have restores : script.Restores Field.empty ↔ script.Clean true := script.restores_iff Field.empty
  constructor
  · intro builds
    exact restores.mp builds.restores
  · intro clean
    obtain ⟨parts, written, encoded, _⟩ := script.written_encodes clean valid
    refine ⟨⟨_, script.written, run_operations script Field.empty, rfl, ?_⟩, restores.mpr clean⟩
    rw [written]
    exact decodes_of_encodes encoded

theorem encodes_one : Encodes [1] (.positiveInteger 1) := .of_token fun _ => rfl

def twoContainers : Script :=
  .scope .map (.value [1] _ encodes_one .done) .rollback
    (.scope .array (.value [1] _ encodes_one .done) .commit .done)

theorem field_holds_committed_twoContainers : twoContainers.BuildsTrees :=
  (field_holds_committed twoContainers (by
    refine ⟨?_, trivial, trivial⟩
    exact (by decide : 1 < 2 ^ 32))).mpr
    ⟨fun _ => ⟨rfl, rfl⟩, trivial, by
      refine ⟨fun rollback => ?_, trivial, trivial⟩
      cases rollback⟩

/-- A map that is rolled back stays an entry of the array around it, whose size
is then too large; and an array that is rolled back stays in the field. -/
theorem rollback_leaves_entry :
    (run operate Field.empty
        [.enter .array, .enter .map, .rollback .map, .append [1],
          .commit .array]).map (fun field => field.flush.data) =
      some (some [0xdd, 0, 0, 0, 2, 1]) ∧
    unpack [0xdd, 0, 0, 0, 2, 1] = .more [] ∧
    (run operate Field.empty [.enter .array, .rollback .array]).map
        (fun field => field.flush.data) =
      some (some [0xdd, 0, 0, 0, 0]) :=
  ⟨rfl, rfl, rfl⟩

end FluentBit.LogEvent
