import FluentBit.LogEvent.RoundTrip

/-!
# The forward input

A connection gets a stream of messages.  What was read is kept in a buffer and
parsed from its start by every call of `fw_prot_process`, which feeds an
unpacker in steps of 32 bytes, handles each object that comes out and removes
from the buffer what it counted as used.  What the input, the allocator and
the decompressor answer is given from outside, and so is what lies in memory
behind the elements of an array.  Every record leaves the shared encoder empty,
so a message leaves only the flag for the options to the next one.  What the
decompressor gives is appended piece by piece, cut where the buffer is full.
-/

namespace FluentBit.Forward

open Msgpack LogEvent Option

abbrev Tag := List Byte

/-- `FLB_EVENT_TYPE_LOGS` and the other types. -/
inductive EventType where
  | logs
  | metrics
  | traces
deriving DecidableEq, Repr

/-- What goes out: data handed to the input, with whether it was taken, and
acknowledgements. -/
inductive Effect where
  | append (type : EventType) (tag : Tag) (data : List Byte) (taken : Bool)
  | ack (chunk : Object)

/-- The result of one call of `flb_decompress`, which puts at most
`buffer_chunk_size` bytes into its buffer. -/
structure Inflated where
  ret : Int
  output : List Byte

/-- What is answered while a message is handled: to each append, to setting up
the decompressor, and to its calls.  `behind` is what lies behind the second
element of an array that has no third. -/
structure Replies where
  appended : Nat → Bool
  prepared : Bool
  inflated : List Inflated
  behind : Object

/-- `struct flb_in_fw_config`.  `insTag` is the tag of the input when it was set
by hand. -/
structure Config where
  tagPrefix : Option Tag
  insTag : Option Tag
  bufferChunkSize : Nat
  bufferMaxSize : Nat

/-- The keys "chunk", "metadata", "fluent_signal" and "compressed". -/
def chunkKey : List Byte := [99, 104, 117, 110, 107]

def metadataKey : List Byte := [109, 101, 116, 97, 100, 97, 116, 97]

def fluentSignalKey : List Byte := [102, 108, 117, 101, 110, 116, 95, 115, 105, 103, 110, 97, 108]

def compressedKey : List Byte := [99, 111, 109, 112, 114, 101, 115, 115, 101, 100]

def isStr : Object → Bool
  | .str _ => true
  | _ => false

/-- The first value of a key, which has to be of the right type. -/
def findOption (key : List Byte) (valid : Object → Bool) :
    List (Object × Object) → Option (Option Object)
  | [] => some none
  | (.str name, value) :: pairs =>
    if name = key then
      if valid value then some (some value) else none
    else findOption key valid pairs
  | _ :: pairs => findOption key valid pairs

/-- `get_options_chunk` and `get_options_metadata`: the value of an option, or
nothing for an invalid options field. -/
def getOptions (key : List Byte) (valid : Object → Bool) (options : Option Object) : Option
    (Option Object) :=
  match options with
  | none => some none
  | some .nil => some none
  | some (.map pairs) => findOption key valid pairs
  | some _ => none

def getOptionsChunk : Option Object → Option (Option Object) := getOptions chunkKey isStr

def getOptionsMetadata : Option Object → Option (Option Object) := getOptions metadataKey isMap

/-- The loop of `get_chunk_event_type`. -/
def findEventType : List (Object × Object) → Option EventType
  | [] => some .logs
  | (.str name, value) :: pairs =>
    if name = fluentSignalKey then
      match value with
      | .positiveInteger u64 =>
        if u64 = 0 then some .logs
        else if u64 = 1 then some .metrics
        else if u64 = 2 then some .traces
        else none
      | _ => none
    else findEventType pairs
  | _ :: _ => none

def getChunkEventType : Object → Option EventType
  | .map pairs => findEventType pairs
  | _ => none

/-- The loop of `get_compression_type`. -/
def findCompression : List (Object × Object) → Int
  | [] => 0
  | (.str name, .str value) :: pairs =>
    if name = compressedKey ∧ value = [103, 122, 105, 112] then 1
    else if name = compressedKey ∧ value = [122, 115, 116, 100] then 2
    else findCompression pairs
  | _ :: pairs => findCompression pairs

def getCompressionType : Object → Int
  | .map pairs => findCompression pairs
  | _ => -1

def sniffMagic : List Byte → Int
  | 0x1f :: 0x8b :: _ => 1
  | 0x28 :: 0xb5 :: 0x2f :: 0xfd :: _ => 2
  | _ => 0

def compressionType (options : Object) (data : List Byte) : Int :=
  let optType := getCompressionType options
  let sniff := sniffMagic data
  if sniff ≠ 0 ∧ optType ≠ 0 ∧ sniff ≠ optType then sniff
  else if optType = 0 then sniff
  else optType

/-- From `flb_log_event_encoder_begin_record` to
`flb_log_event_encoder_commit_record`. -/
def encodeEvent (encoder : Encoder) (timestamp : Time) (metadata : Option Object) (body : Object) :
    Bool × Encoder :=
  let encoder := setTimestamp (beginRecord encoder) timestamp
  let encoder :=
    match metadata with
    | none => encoder
    | some metadata =>
      { encoder with metadata := encoder.metadata.setFromMsgpackObject metadata }
  commitRecord
    { encoder with body := encoder.body.setFromMsgpackObject body }

/-- Encode a record, hand it to the input and reset the encoder. -/
def appendEvent (encoder : Encoder) (outTag : Tag) (taken : Bool) (timestamp : Time)
    (metadata : Option Object) (body : Object) : Option Effect × Encoder :=
  match encodeEvent encoder timestamp metadata body with
  | (true, encoder) => (some (.append .logs outTag encoder.buffer taken), encoderReset encoder)
  | (false, encoder) => (none, encoderReset encoder)

section
variable (ofDouble : BitVec 64 → Time)

def processForwardModeEntry (encoder : Encoder) (outTag : Tag) (taken : Bool) (entry : Object) :
    Option Effect × Encoder :=
  match decodeObject ofDouble entry with
  | .error _ => (none, encoderReset encoder)
  | .ok event => appendEvent encoder outTag taken event.timestamp (some event.metadata) event.body

/-- The loop over the entries of a message in forward mode.  It ends at the
first entry that fails. -/
def forwardEntries (replies : Replies) (outTag : Tag) :
    Nat → List Object → Encoder → List Effect × Encoder
  | _, [], encoder => ([], encoder)
  | number, entry :: entries, encoder =>
    match processForwardModeEntry ofDouble encoder outTag
      (replies.appended number) entry with
    | (none, encoder) => ([], encoder)
    | (some effect, encoder) =>
      let (later, encoder) := forwardEntries replies outTag (number + 1) entries encoder
      (effect :: later, encoder)

def sendAck (chunk : Option Object) : List Effect := chunk.toList.map .ack

def processMessageModeEntry (encoder : Encoder) (outTag : Tag) (taken : Bool) (ts body : Object)
    (metadata chunk : Option Object) : List Effect × Encoder :=
  match decodeTimestamp ofDouble ts with
  | .error _ => (sendAck chunk, encoderReset encoder)
  | .ok timestamp =>
    let (effect, encoder) := appendEvent encoder outTag taken timestamp metadata body
    (effect.toList ++ sendAck chunk, encoder)

/-- The loop that decompresses a payload and hands over what comes out.  The
flag says whether it ends without an error. -/
def inflate (replies : Replies) (type : EventType) (outTag : Tag) :
    Nat → List Inflated → Bool × List Effect
  | _, [] => (true, [])
  | number, call :: calls =>
    if call.ret = -1 then (call.output.isEmpty, [])
    else if call.output.isEmpty then (true, [])
    else
      let taken := replies.appended number
      let effect := Effect.append type outTag call.output taken
      if taken then
        let (ended, later) := inflate replies type outTag (number + 1) calls
        (ended, effect :: later)
      else (false, [effect])

def packedPayload (replies : Replies) (containOptions : Bool) (options : Object) (outTag : Tag)
    (data : List Byte) : Bool × List Effect :=
  match
    if containOptions then getChunkEventType options else some .logs with
  | none => (false, [])
  | some type =>
    if containOptions && decide (0 < compressionType options data) then
      if replies.prepared then inflate replies type outTag 0 replies.inflated
      else (false, [])
    else
      let taken := replies.appended 0
      (taken, [.append type outTag data taken])

/-- What comes of an object: whether the loop goes on, what went out, and the
variables it leaves. -/
structure Handled where
  ok : Bool
  effects : List Effect
  containOptions : Bool
  encoder : Encoder

def composeTag (config : Config) (stag : Tag) : Tag :=
  match config.tagPrefix with
  | some tagPrefix => tagPrefix ++ stag
  | none => config.insTag.getD stag

/-- The body of the inner loop of `fw_prot_process`, by the type of the second
element. -/
def handleEntry (replies : Replies) (containOptions : Bool) (encoder : Encoder) (outTag : Tag)
    (entry : Object) (more : List Object) : Handled :=
  let failed : Handled :=
    { ok := false, effects := [], containOptions := containOptions, encoder := encoder }
  let third := more.headD replies.behind
  match entry with
  | .array entries =>
    match getOptionsChunk more[0]? with
    | none => failed
    | some chunk =>
      let (effects, encoder) := forwardEntries ofDouble replies outTag 0 entries encoder
      { ok := true
        effects := effects ++ sendAck chunk
        containOptions := containOptions
        encoder := encoder }
  | .positiveInteger _ | .ext _ _ =>
    if isMap third then
      match getOptionsChunk more[1]?, getOptionsMetadata more[1]? with
      | some chunk, some metadata =>
        let (effects, encoder) :=
          processMessageModeEntry ofDouble encoder outTag
            (replies.appended 0) entry third metadata chunk
        { ok := true, effects := effects, containOptions := containOptions, encoder := encoder }
      | _, _ => failed
    else failed
  | .str data | .bin data =>
    match getOptionsChunk more[0]? with
    | none => failed
    | some chunk =>
      let (ended, effects) := packedPayload replies containOptions third outTag data
      { ok := ended
        effects := if ended then effects ++ sendAck chunk else effects
        containOptions := containOptions
        encoder := encoder }
  | _ => failed

/-- The body of the inner loop of `fw_prot_process`. -/
def handleRoot (config : Config) (replies : Replies) (containOptions : Bool)
    (encoder : Encoder) (root : Object) : Handled :=
  match root with
  | .array (tag :: entry :: more) =>
    -- the flag is set for three elements and never taken back
    let containOptions := containOptions || decide (more.length = 1)
    match tag with
    | .str stag =>
      handleEntry ofDouble replies containOptions encoder (composeTag config stag) entry more
    | _ =>
      { ok := false, effects := [], containOptions := containOptions, encoder := encoder }
  | _ =>
    { ok := false, effects := [], containOptions := containOptions, encoder := encoder }

def eachRecvSize : Nat := 32

/-- The variables of `fw_prot_process`.  `rest` is the part of the buffer that
was not given to the unpacker, `pending` what the unpacker has and did not
return as an object; `handled` numbers the objects of the connection. -/
structure Loop where
  rest : List Byte
  pending : List Byte
  allUsed : Nat
  bytes : Nat
  containOptions : Bool
  encoder : Encoder
  handled : Nat
  effects : List Effect

/-- Handle an object: `all_used` grows by what the last call of
`msgpack_unpacker_next_with_size` reported. -/
def handleObject (config : Config) (replies : Nat → Replies) (root : Object) (loop : Loop) :
    Bool × Loop :=
  let after :=
    handleRoot ofDouble config (replies loop.handled) loop.containOptions loop.encoder root
  (after.ok,
    { loop with
      allUsed := loop.allUsed + loop.bytes
      containOptions := after.containOptions
      encoder := after.encoder
      handled := loop.handled + 1
      effects := loop.effects ++ after.effects })

/-- The inner loop, with a bound on the number of objects.  The next object is
asked for with `msgpack_unpacker_next`, which reports no size. -/
def objectLoop (config : Config) (replies : Nat → Replies) : Nat → Object → Loop → Bool × Loop
  | 0, _, loop => (true, loop)
  | objects + 1, root, loop =>
    match handleObject ofDouble config replies root loop with
    | (false, loop) => (false, loop)
    | (true, loop) =>
      match unpack loop.pending with
      | .done root left =>
        objectLoop config replies objects root
          { loop with pending := left }
      | _ => (true, loop)

/-- The outer loop, with a bound on the number of steps.  Each step gives at
most 32 bytes to the unpacker and asks for an object and its size. -/
def receiveLoop (config : Config) (replies : Nat → Replies) : Nat → Loop → Bool × Loop
  | 0, loop => (true, loop)
  | steps + 1, loop =>
    if loop.rest.isEmpty then (true, loop)
    else
      let pending := loop.pending ++ loop.rest.take eachRecvSize
      let loop :=
        { loop with rest := loop.rest.drop eachRecvSize, pending := pending }
      match unpack pending with
      | .malformed _ => (false, loop)
      | .more _ => receiveLoop config replies steps loop
      | .done root left =>
        match objectLoop ofDouble config replies (left.length + 1) root
          { loop with pending := left, bytes := pending.length - left.length } with
        | (false, loop) => (false, loop)
        | (true, loop) => receiveLoop config replies steps loop

/-- `struct fw_conn`, with the encoder of its context.  `handled` counts the
objects that came out of the connection. -/
structure Conn where
  buf : List Byte
  bufSize : Nat
  encoder : Encoder
  handled : Nat

def adjust (buf : List Byte) (allUsed : Nat) : List Byte :=
  if allUsed ≤ buf.length ∧ 0 < allUsed then buf.drop allUsed else buf

/-- `fw_prot_process`: the flag is false when it returns -1.  Every step takes
a byte of the buffer, so the bound is not reached. -/
def fwProtProcess (config : Config) (replies : Nat → Replies) (conn : Conn) :
    Bool × Conn × List Effect :=
  let (ok, loop) :=
    receiveLoop ofDouble config replies (conn.buf.length + 1)
      { rest := conn.buf
        pending := []
        allUsed := 0
        bytes := 0
        containOptions := false
        encoder := conn.encoder
        handled := conn.handled
        effects := [] }
  (ok,
    { conn with
      buf := if ok then adjust conn.buf loop.allUsed else conn.buf
      encoder := loop.encoder
      handled := loop.handled },
    loop.effects)

/-- The room for a read that `fw_conn_event` makes: nothing when the buffer is
full and as large as it may get. -/
def makeRoom (config : Config) (conn : Conn) : Option Conn :=
  if conn.buf.length < conn.bufSize then some conn
  else if config.bufferMaxSize ≤ conn.bufSize then none
  else if config.bufferMaxSize < conn.bufSize + config.bufferChunkSize then
    some { conn with bufSize := config.bufferMaxSize }
  else some { conn with bufSize := conn.bufSize + config.bufferChunkSize }

/-- `fw_conn_event` for a read of an established connection.  The connection is
deleted when there is no room or when the processing fails. -/
def fwConnEvent (config : Config) (replies : Nat → Replies) (conn : Conn) (received : List Byte) :
    Option Conn × List Effect :=
  match makeRoom config conn with
  | none => (none, [])
  | some conn =>
    match fwProtProcess ofDouble config replies
      { conn with buf := conn.buf ++ received } with
    | (true, conn, effects) => (some conn, effects)
    | (false, _, effects) => (none, effects)

def fwConnAdd (config : Config) : Conn :=
  { buf := []
    bufSize := config.bufferChunkSize
    encoder := encoderInit .fluentBitV2
    handled := 0 }

end

def plainConfig : Config :=
  { tagPrefix := none, insTag := none, bufferChunkSize := 64, bufferMaxSize := 256 }

structure Rested (encoder : Encoder) : Prop where
  idle : Idle encoder
  buffer : encoder.buffer = []

theorem rested_encoderInit : Rested (encoderInit .fluentBitV2) := ⟨⟨rfl, rfl, rfl, rfl⟩, rfl⟩

variable {encoder : Encoder}

theorem rested_encoderReset (idle : Idle encoder) : Rested (encoderReset encoder) := by
  refine ⟨⟨idle.format, ?_, ?_, ?_⟩, rfl⟩
  · rw [encoderReset, idle.metadata]
    rfl
  · rw [encoderReset, idle.body]
    rfl
  · rw [encoderReset, idle.root]
    rfl

def eventBytes (timestamp : Time) (metadata : Option Object) (body : Object) : List Byte :=
  recordBytes timestamp ((metadata.map pack).getD (mapHeader 0)) (pack body)

theorem commitRecord_rested (rested : Rested encoder) (timestamp : Time) {field : Field}
    {metadata : List Byte} (filled : field.flush.data = some metadata) (body : Object) :
    let committed := commitRecord
      { setTimestamp (beginRecord encoder) timestamp with
        metadata := field
        body := (beginRecord encoder).body.setFromMsgpackObject body }
    committed.1 = true ∧ committed.2.buffer = recordBytes timestamp metadata (pack body) ∧
      Idle committed.2 := by
  intro committed
  have root : encoder.root.reset = Field.empty := by
    rw [rested.idle.root]
    rfl
  have bodySet : ((encoder.body.reset.scopeEnter .map).setFromMsgpackObject
      body).flush.data = some (pack body) := by
    rw [rested.idle.body]
    rfl
  obtain ⟨success, buffer, idle⟩ := @commitRecord_idle
    { setTimestamp (beginRecord encoder) timestamp with
      metadata := field
      body := (beginRecord encoder).body.setFromMsgpackObject body }
    metadata (pack body) rested.idle.format root filled bodySet
  refine ⟨success, ?_, idle⟩
  have empty : (beginRecord encoder).buffer = [] := rested.buffer
  rw [buffer]
  change (beginRecord encoder).buffer ++ _ = _
  rw [empty]
  rfl

theorem encodeEvent_rested (rested : Rested encoder) (timestamp : Time)
    (metadata : Option Object) (body : Object) :
    (encodeEvent encoder timestamp metadata body).1 = true ∧
      (encodeEvent encoder timestamp metadata body).2.buffer = eventBytes timestamp metadata body ∧
      Idle (encodeEvent encoder timestamp metadata body).2 := by
  cases metadata with
  | none =>
    apply commitRecord_rested rested timestamp
    change (encoder.metadata.reset.scopeEnter .map).flush.data = _
    rw [rested.idle.metadata]
    rfl
  | some metadata =>
    apply commitRecord_rested rested timestamp
    change ((encoder.metadata.reset.scopeEnter .map).setFromMsgpackObject metadata).flush.data = _
    rw [rested.idle.metadata]
    rfl

theorem appendEvent_rested (rested : Rested encoder) (outTag : Tag) (taken : Bool)
    (timestamp : Time) (metadata : Option Object) (body : Object) :
    ∃ after, Rested after ∧
      appendEvent encoder outTag taken timestamp metadata body =
        (some (.append .logs outTag (eventBytes timestamp metadata body) taken), after) := by
  obtain ⟨success, buffer, idle⟩ := encodeEvent_rested rested timestamp metadata body
  rw [appendEvent]
  generalize encodeEvent encoder timestamp metadata body = encoded at *
  obtain ⟨committed, after⟩ := encoded
  cases success
  refine ⟨encoderReset after, rested_encoderReset idle, ?_⟩
  dsimp only at buffer ⊢
  rw [buffer]

/-- What follows the tag: a time and a record, a list of entries, or the packed
entries as a string or as binary data. -/
inductive Body where
  | message (time : Object) (record : List (Object × Object))
  | forward (entries : List Object)
  | packed (data : List Byte) (binary : Bool)

structure Message where
  tag : Tag
  body : Body
  options : Option (List (Object × Object))

/-- The types of the time of a message. -/
def isEventTime : Object → Bool
  | .positiveInteger _ => true
  | .ext _ _ => true
  | _ => false

namespace Message

variable (message : Message)

def optionsObject : Option Object := message.options.map .map

/-- The second element. -/
def entry : Object :=
  match message.body with
  | .message time _ => time
  | .forward entries => .array entries
  | .packed data true => .bin data
  | .packed data false => .str data

/-- The elements behind the second. -/
def more : List Object :=
  match message.body with
  | .message _ record => .map record :: message.optionsObject.toList
  | _ => message.optionsObject.toList

def root : Object := .array (.str message.tag :: message.entry :: message.more)

def setsFlag : Bool :=
  decide (message.more.length = 1)

def bare : Bool :=
  match message.body, message.options with
  | .packed _ _, none => true
  | _, _ => false

def chunk : Option Object := (getOptionsChunk message.optionsObject).join

def metadata : Option Object := (getOptionsMetadata message.optionsObject).join

def compressed (data : List Byte) : Bool :=
  match message.options with
  | none => false
  | some options => decide (0 < compressionType (.map options) data)

/-- The time has one of the types of the protocol, and the options that are
looked at have the right types. -/
structure WellFormed : Prop where
  chunk : getOptionsChunk message.optionsObject ≠ none
  time : ∀ time record, message.body = .message time record →
    isEventTime time = true ∧ getOptionsMetadata message.optionsObject ≠ none
  signal : ∀ data binary options, message.body = .packed data binary →
    message.options = some options → findEventType options ≠ none

variable (ofDouble : BitVec 64 → Time) (replies : Replies) (outTag : Tag)

def recordEffects (time : Object) (record : List (Object × Object)) : List Effect :=
  match decodeTimestamp ofDouble time with
  | .error _ => []
  | .ok timestamp =>
    [.append .logs outTag (eventBytes timestamp message.metadata (.map record))
      (replies.appended 0)]

/-- What the packed entries do, and whether there is an error. -/
def payload (data : List Byte) : Bool × List Effect :=
  match message.options with
  | none => (replies.appended 0, [.append .logs outTag data (replies.appended 0)])
  | some options => packedPayload replies true (.map options) outTag data

end Message

def entryEffects (ofDouble : BitVec 64 → Time) (replies : Replies) (outTag : Tag) :
    Nat → List Object → List Effect
  | _, [] => []
  | number, entry :: entries =>
    match decodeObject ofDouble entry with
    | .error _ => []
    | .ok event =>
      .append .logs outTag (eventBytes event.timestamp (some event.metadata) event.body)
          (replies.appended number) ::
        entryEffects ofDouble replies outTag (number + 1) entries

/-- What a message does, and whether the connection goes on. -/
def Message.outcome (message : Message) (ofDouble : BitVec 64 → Time)
    (config : Config) (replies : Replies) : Bool × List Effect :=
  let outTag := composeTag config message.tag
  match message.body with
  | .message time record =>
    (true, message.recordEffects ofDouble replies outTag time record ++ sendAck message.chunk)
  | .forward entries =>
    (true, entryEffects ofDouble replies outTag 0 entries ++ sendAck message.chunk)
  | .packed data _ =>
    let (ended, effects) := message.payload replies outTag data
    (ended, if ended then effects ++ sendAck message.chunk else effects)

theorem Message.payload_eq {message : Message} {data : List Byte} {binary : Bool}
    (wellFormed : message.WellFormed) (form : message.body = .packed data binary)
    (replies : Replies) (outTag : Tag) :
    ∃ type, message.payload replies outTag data =
      if message.compressed data then
        if replies.prepared then inflate replies type outTag 0 replies.inflated else (false, [])
      else (replies.appended 0, [.append type outTag data (replies.appended 0)]) := by
  rw [Message.payload, Message.compressed]
  cases given : message.options with
  | none => exact ⟨.logs, rfl⟩
  | some options =>
    obtain ⟨type, typed⟩ := ne_none_iff_exists'.mp
      (wellFormed.signal data binary options form given)
    have read : getChunkEventType (.map options) = some type := typed
    refine ⟨type, ?_⟩
    dsimp only
    rw [packedPayload, if_pos rfl, read, Bool.true_and]

variable {chunk : Option Object}

section
variable {ofDouble : BitVec 64 → Time} {config : Config} {replies : Replies}
  {encoder : Encoder}

theorem forwardEntries_rested (outTag : Tag) (entries : List Object) :
    ∀ {number : Nat} {encoder : Encoder}, Rested encoder →
      ∃ after, Rested after ∧
        forwardEntries ofDouble replies outTag number entries encoder =
          (entryEffects ofDouble replies outTag number entries, after) := by
  induction entries with
  | nil =>
    intro number encoder rested
    exact ⟨encoder, rested, rfl⟩
  | cons entry entries ih =>
    intro number encoder rested
    rw [forwardEntries, processForwardModeEntry, entryEffects]
    cases decodeObject ofDouble entry with
    | error result => exact ⟨_, rested_encoderReset rested.idle, rfl⟩
    | ok event =>
      obtain ⟨middle, between, appended⟩ := appendEvent_rested rested outTag
        (replies.appended number) event.timestamp (some event.metadata) event.body
      obtain ⟨after, last, later⟩ := ih between
      refine ⟨after, last, ?_⟩
      dsimp only
      rw [appended]
      dsimp only
      rw [later]

theorem processMessageModeEntry_rested (rested : Rested encoder) (message : Message) (outTag : Tag)
    (time : Object) (record : List (Object × Object)) :
    ∃ after, Rested after ∧
      processMessageModeEntry ofDouble encoder outTag (replies.appended 0) time
          (.map record) message.metadata message.chunk =
        (message.recordEffects ofDouble replies outTag time record ++
          sendAck message.chunk, after) := by
  rw [processMessageModeEntry, Message.recordEffects]
  cases decodeTimestamp ofDouble time with
  | error result => exact ⟨_, rested_encoderReset rested.idle, rfl⟩
  | ok timestamp =>
    obtain ⟨after, last, appended⟩ := appendEvent_rested rested outTag
      (replies.appended 0) timestamp message.metadata (.map record)
    refine ⟨after, last, ?_⟩
    dsimp only
    rw [appended]
    rfl

theorem handleRoot_root (message : Message) (containOptions : Bool) :
    handleRoot ofDouble config replies containOptions encoder message.root =
      handleEntry ofDouble replies (containOptions || message.setsFlag) encoder
        (composeTag config message.tag) message.entry message.more :=
  rfl

variable {options : Option Object}

theorem handleEntry_message {time : Object} (timed : isEventTime time = true)
    (containOptions : Bool) (outTag : Tag) (record : List (Object × Object))
    {metadata : Option Object} (chunkFound : getOptionsChunk options = some chunk)
    (metadataFound : getOptionsMetadata options = some metadata) :
    handleEntry ofDouble replies containOptions encoder outTag time
        (.map record :: options.toList) =
      let (effects, after) :=
        processMessageModeEntry ofDouble encoder outTag (replies.appended 0)
          time (.map record) metadata chunk
      { ok := true, effects := effects, containOptions := containOptions, encoder := after } := by
  have second : (Object.map record :: options.toList)[1]? = options := by
    cases options with
    | none | some options => rfl
  cases time with
  | positiveInteger u64 | ext type data =>
    rw [handleEntry, second, chunkFound, metadataFound]
    rfl
  | _ => cases timed

theorem handleEntry_forward (containOptions : Bool) (outTag : Tag) (entries : List Object)
    (found : getOptionsChunk options = some chunk) :
    handleEntry ofDouble replies containOptions encoder outTag (.array entries) options.toList =
      let (effects, after) := forwardEntries ofDouble replies outTag 0 entries encoder
      { ok := true
        effects := effects ++ sendAck chunk
        containOptions := containOptions
        encoder := after } := by
  have first : options.toList[0]? = options := by
    cases options with
    | none | some options => rfl
  rw [handleEntry, first, found]

theorem handleEntry_packed (containOptions binary : Bool) (outTag : Tag) (data : List Byte)
    (found : getOptionsChunk options = some chunk) :
    handleEntry ofDouble replies containOptions encoder outTag
        (if binary then .bin data else .str data) options.toList =
      let (ended, effects) :=
        packedPayload replies containOptions (options.getD replies.behind) outTag data
      { ok := ended
        effects := if ended then effects ++ sendAck chunk else effects
        containOptions := containOptions
        encoder := encoder } := by
  have first : options.toList[0]? = options := by
    cases options with
    | none | some options => rfl
  have third : options.toList.headD replies.behind =
      options.getD replies.behind := by
    cases options with
    | none | some options => rfl
  cases binary with
  | true => rw [if_pos rfl, handleEntry, first, found, third]
  | false => rw [if_neg Bool.false_ne_true, handleEntry, first, found, third]

/-- A message that does not read behind its end is handled as its parts say,
whatever the messages before it were. -/
theorem handleRoot_message {message : Message} (wellFormed : message.WellFormed)
    (rested : Rested encoder) {containOptions : Bool}
    (apart : containOptions = true → message.bare = false) :
    ∃ after, Rested after ∧
      handleRoot ofDouble config replies containOptions encoder message.root =
        { ok := (message.outcome ofDouble config replies).1
          effects := (message.outcome ofDouble config replies).2
          containOptions := containOptions || message.setsFlag
          encoder := after } := by
  obtain ⟨chunk, found⟩ := ne_none_iff_exists'.mp wellFormed.chunk
  have isChunk : message.chunk = chunk := by rw [Message.chunk, found, join_some]
  rw [handleRoot_root, Message.outcome]
  cases form : message.body with
  | message time record =>
    obtain ⟨timed, valid⟩ := wellFormed.time time record form
    obtain ⟨metadata, given⟩ := ne_none_iff_exists'.mp valid
    have isMetadata : message.metadata = metadata := by
      rw [Message.metadata, given, join_some]
    obtain ⟨after, last, processed⟩ := @processMessageModeEntry_rested
      ofDouble replies encoder rested message
      (composeTag config message.tag) time record
    refine ⟨after, last, ?_⟩
    rw [Message.entry, Message.more, form]
    rw [handleEntry_message timed _ _ _ found given, ← isChunk, ← isMetadata, processed]
  | forward entries =>
    obtain ⟨after, last, processed⟩ := @forwardEntries_rested ofDouble
      replies (composeTag config message.tag) entries 0 encoder rested
    refine ⟨after, last, ?_⟩
    rw [Message.entry, Message.more, form]
    rw [handleEntry_forward _ _ _ found, processed, isChunk]
  | packed data binary =>
    refine ⟨encoder, rested, ?_⟩
    have entry : message.entry = if binary then .bin data else .str data := by
      rw [Message.entry, form]
      cases binary with
      | true | false => rfl
    have more : message.more = message.optionsObject.toList := by rw [Message.more, form]
    have same : packedPayload replies (containOptions || message.setsFlag)
        (message.optionsObject.getD replies.behind)
        (composeTag config message.tag) data =
        message.payload replies (composeTag config message.tag) data := by
      rw [Message.payload, Message.setsFlag, more, Message.optionsObject]
      cases given : message.options with
      | none =>
        have bare : message.bare = true := by rw [Message.bare, form, given]
        have off : containOptions = false := by
          cases containOptions with
          | false => rfl
          | true =>
            rw [apart rfl] at bare
            cases bare
        rw [off]
        rfl
      | some options =>
        have on : (containOptions || decide
            ((some (Object.map options)).toList.length = 1)) = true := by
          simp
        rw [map_some, on]
        rfl
    rw [entry, more, handleEntry_packed _ _ _ _ found, same, isChunk]

end

open List

/-- The data of the calls of `append_log`. -/
def appendCalls (effects : List Effect) : List (List Byte) :=
  effects.filterMap fun effect =>
    match effect with
    | .append _ _ data _ => some data
    | .ack _ => none

/-- The decompressor delivers the pieces and nothing more, and the input takes
them. -/
def delivering (pieces : List (List Byte)) (behind : Object) : Replies :=
  { appended := fun _ => true
    prepared := true
    inflated := pieces.map (Inflated.mk 0) ++ [{ ret := 0, output := [] }]
    behind := behind }

/-- A log record, in both formats. -/
def IsRecord (bytes : List Byte) : Prop :=
  ∃ header body, Encodes bytes (.array [header, .map body])

def AreRecords (records : List (List Byte)) : Prop := ∀ record ∈ records, IsRecord record

def Whole (bytes : List Byte) : Prop := ∃ records, AreRecords records ∧ records.flatten = bytes

variable {records pieces : List (List Byte)} {size : Nat}

theorem inflate_pieces {replies : Replies} (taken : ∀ number, replies.appended number = true)
    (type : EventType) (outTag : Tag) (nonempty : ∀ piece ∈ pieces, piece ≠ []) (number : Nat) :
    inflate replies type outTag number
        (pieces.map (Inflated.mk 0) ++ [{ ret := 0, output := [] }]) =
      (true, pieces.map fun piece => .append type outTag piece true) := by
  induction pieces generalizing number with
  | nil => rfl
  | cons piece pieces ih =>
    obtain ⟨first, later⟩ := forall_mem_cons.mp nonempty
    simp [inflate, first, taken, ih later]

/-- A stream is cut into records in one way only. -/
theorem records_unique {others : List (List Byte)} (formed : AreRecords records)
    (othersFormed : AreRecords others) (same : records.flatten = others.flatten) :
    records = others := by
  induction records generalizing others with
  | nil =>
    cases others with
    | nil => rfl
    | cons other others =>
      obtain ⟨_, _, encodes⟩ := othersFormed other (.head _)
      exact absurd (append_eq_nil_iff.mp same.symm).1 encodes.ne_nil
  | cons record records ih =>
    obtain ⟨⟨_, _, encodes⟩, later⟩ := forall_mem_cons.mp formed
    cases others with
    | nil => exact absurd (append_eq_nil_iff.mp same).1 encodes.ne_nil
    | cons other others =>
      obtain ⟨⟨_, _, encodesOther⟩, othersLater⟩ := forall_mem_cons.mp othersFormed
      obtain ⟨_, rfl, rest⟩ := encodes.unique encodesOther same
      rw [ih later othersLater rest]

theorem exists_groups (whole : ∀ piece ∈ pieces, Whole piece) :
    ∃ groups : List (List (List Byte)), AreRecords groups.flatten ∧
      groups.map flatten = pieces := by
  induction pieces with
  | nil => exact ⟨[], by simp [AreRecords], rfl⟩
  | cons piece pieces ih =>
    obtain ⟨⟨group, first, rfl⟩, later⟩ := forall_mem_cons.mp whole
    obtain ⟨groups, grouped, rfl⟩ := ih later
    exact ⟨group :: groups, forall_mem_append.mpr ⟨first, grouped⟩, rfl⟩

/-- The positions at which a text is cut into parts, with its two ends. -/
def Ends (parts : List (List Byte)) (position : Nat) : Prop :=
  ∃ count, (parts.take count).flatten.length = position

theorem Ends.drop {count position : Nat}
    (ends : Ends records ((records.take count).flatten.length + position)) :
    Ends (records.drop count) position := by
  obtain ⟨other, known⟩ := ends
  rcases Nat.le_total count other with before | after
  · refine ⟨other - count, ?_⟩
    have parts : records.take other =
        records.take count ++ (records.drop count).take (other - count) := by
      rw [← take_add, Nat.add_sub_cancel' before]
    rw [parts, flatten_append, length_append] at known
    omega
  · have less := (take_sublist_take_left (l := records) after).flatten.length_le
    exact ⟨0, by simp; omega⟩

theorem whole_of_ends (formed : AreRecords records) (same : pieces.flatten = records.flatten)
    (ends : ∀ position, Ends pieces position → Ends records position) :
    ∀ piece ∈ pieces, Whole piece := by
  induction pieces generalizing records with
  | nil => simp
  | cons piece pieces ih =>
    obtain ⟨count, first⟩ := ends piece.length ⟨1, by simp⟩
    have cut : piece ++ pieces.flatten =
        (records.take count).flatten ++ (records.drop count).flatten := by
      rw [← flatten_append, take_append_drop]
      exact same
    obtain ⟨rfl, rest⟩ := append_inj cut first.symm
    refine forall_mem_cons.mpr ⟨⟨_, fun record inside => formed record (mem_of_mem_take inside),
      rfl⟩, ih (fun record inside => formed record (mem_of_mem_drop inside)) rest ?_⟩
    rintro position ⟨other, rfl⟩
    exact (ends _ ⟨other + 1, by simp⟩).drop

/-- Pieces carry whole records when no piece ends inside of a record. -/
theorem whole_iff_ends (formed : AreRecords records) (same : pieces.flatten = records.flatten) :
    (∀ piece ∈ pieces, Whole piece) ↔ ∀ position, Ends pieces position → Ends records position := by
  constructor
  · rintro whole position ⟨count, rfl⟩
    obtain ⟨groups, grouped, rfl⟩ := exists_groups whole
    obtain rfl := records_unique grouped formed (flatten_flatten.trans same)
    refine ⟨(groups.take count).flatten.length, ?_⟩
    have front : groups.flatten = (groups.take count).flatten ++ (groups.drop count).flatten := by
      rw [← flatten_append, take_append_drop]
    rw [front, take_left, ← map_take, flatten_flatten]
  · exact whole_of_ends formed same

theorem length_take_filled (filled : ∀ piece ∈ pieces.dropLast, piece.length = size) {count : Nat}
    (inside : count < pieces.length) : (pieces.take count).flatten.length = count * size := by
  have front : pieces.take count = pieces.dropLast.take count := by
    rw [dropLast_eq_take, take_take, Nat.min_eq_left (by omega)]
  have each : (pieces.take count).map length = replicate count size := by
    rw [eq_replicate_iff, length_map, length_take, Nat.min_eq_left (Nat.le_of_lt inside)]
    refine ⟨rfl, ?_⟩
    rintro _ member
    obtain ⟨piece, taken, rfl⟩ := mem_map.mp member
    rw [front] at taken
    exact filled piece (mem_of_mem_take taken)
  rw [length_flatten, each, sum_replicate, smul_eq_mul]

/-- A decompressor that fills the buffer cuts the payload at the multiples of
its size. -/
theorem ends_filled_iff (bounded : ∀ piece ∈ pieces, piece ≠ [] ∧ piece.length ≤ size)
    (filled : ∀ piece ∈ pieces.dropLast, piece.length = size)
    (same : pieces.flatten = records.flatten) :
    (∀ position, Ends pieces position → Ends records position) ↔
      ∀ count, count * size < records.flatten.length → Ends records (count * size) := by
  rw [← same]
  constructor
  · intro ends count before
    apply ends
    refine ⟨count, length_take_filled filled ?_⟩
    by_contra beyond
    have most := sum_le_card_nsmul (pieces.map length) size (by simpa using fun piece member =>
      (bounded piece member).2)
    rw [length_map, smul_eq_mul, ← length_flatten] at most
    have more := Nat.mul_le_mul_right size (Nat.le_of_not_lt beyond)
    omega
  · rintro ends position ⟨count, rfl⟩
    by_cases inside : count < pieces.length
    · rw [length_take_filled filled inside]
      apply ends
      have rest : (pieces.drop count).flatten ≠ [] := by
        rw [drop_eq_getElem_cons inside, flatten_cons]
        exact append_ne_nil_of_left_ne_nil (bounded _ (getElem_mem inside)).1 _
      have total := congrArg (length ∘ flatten) (take_append_drop count pieces)
      have positive := length_pos_iff.mpr rest
      simp only [Function.comp_apply, flatten_append, length_append,
        length_take_filled filled inside] at total
      omega
    · exact ⟨records.length, by
        rw [take_length, take_of_length_le (Nat.le_of_not_lt inside), same]⟩

/-- A message with a compressed payload: the option, and `shortRecord` as gzip
packs it. -/
def gzipped : Message :=
  { tag := [116]
    body := .packed
      [31, 139, 8, 0, 0, 0, 0, 0, 2, 3, 155, 196, 216, 0, 0, 237, 7, 117, 245, 3, 0, 0, 0] true
    options := some [(.str compressedKey, .str [103, 122, 105, 112])] }

theorem gzipped_wellFormed : gzipped.WellFormed :=
  ⟨some_ne_none _, by rintro _ _ ⟨⟩, by rintro _ _ _ ⟨⟩ ⟨⟩; exact some_ne_none _⟩

/-- The record of the time 1 and the empty map. -/
def shortRecord : List Byte := [146, 1, 128]

theorem isRecord_shortRecord : IsRecord shortRecord := ⟨.positiveInteger 1, [], fun _ => rfl⟩

end FluentBit.Forward
