import FluentBit.Lib.CString
import FluentBit.Lib.Run

/-!
# Multiline

A multiline context gathers the lines of a stream into records.  Every parser
instance has its own buffer for every stream.  A line is offered to the parser
that took the last one, then to the others in order.  A parser of the type
regex may decline a line; the other types answer zero when they do not store
it, which is taken for success.  Buffers are emptied by the parsers themselves,
by a line that no parser takes, and by flushes from outside.
-/

namespace FluentBit.Multiline

def newline : Byte := 10

abbrev Line := List Byte

abbrev StreamId := Nat

/-- `FLB_ML_REGEX`, `FLB_ML_ENDSWITH` and `FLB_ML_EQ`. -/
inductive ParserType where
  | regex
  | endsWith
  | equal
deriving DecidableEq, Repr

/-- `struct flb_ml_rule`.  A regular expression is the test it makes on a
line. -/
structure Rule where
  fromStates : List String
  toState : Option String
  regex : Line → Bool

def Rule.startState (rule : Rule) : Bool := rule.fromStates.contains "start_state"

/-- `struct flb_ml_parser`, with the content key of its instance. -/
structure Parser where
  type : ParserType
  negate : Bool
  matchStr : Line
  regexRules : List Rule
  keyContent : Option (List Byte)

/-- `set_to_state_map`: the rules that can follow a rule. -/
def toStateMap (parser : Parser) (rule : Rule) : List Rule :=
  match rule.toState with
  | none => []
  | some state => parser.regexRules.filter fun next => next.fromStates.contains state

def matchNegate (parser : Parser) (matched : Bool) : Bool :=
  if matched then !parser.negate else parser.negate

/-- `struct flb_ml_stream_group` of a stream without group key. -/
structure StreamGroup where
  buf : List Byte
  ruleToState : Option Rule
  truncated : Bool

/-- A record given to the flush callback of a stream. -/
structure Record where
  stream : StreamId
  key : List Byte
  content : List Byte
  truncated : Bool
deriving DecidableEq, Repr

/-- Put a newline behind the buffer, unless it is empty or has one. -/
def breakLine (buf : List Byte) : List Byte :=
  match buf.getLast? with
  | none => buf
  | some last => if last ≠ newline then buf ++ [newline] else buf

def breaklinePrepare (parser : Parser) (buf : List Byte) : List Byte :=
  if parser.keyContent.isSome then buf else breakLine buf

def logKey : List Byte := [0x6c, 0x6f, 0x67]

/-- `flb_ml_flush_stream_group`, for content that came as text. -/
def flushStreamGroup (parser : Parser) (stream : StreamId) (group : StreamGroup) :
    StreamGroup × List Record :=
  let buf := breaklinePrepare parser group.buf
  let records : List Record :=
    if buf.length > 0 then
      [{ stream := stream
         key := parser.keyContent.getD logKey
         content := buf
         truncated := group.truncated }]
    else []
  ({ group with buf := [], truncated := false }, records)

/-- `FLB_MULTILINE_OK` and `FLB_MULTILINE_TRUNCATED`. -/
inductive Status where
  | ok
  | truncated
deriving DecidableEq, Repr

/-- `flb_ml_group_cat`.  A limit of zero is none. -/
def groupCat (limit : Nat) (group : StreamGroup) (data : List Byte) : Status × StreamGroup :=
  if limit > 0 ∧ group.buf.length ≥ limit then
    (.truncated, { group with truncated := true })
  else if limit > 0 ∧ data.length > limit - group.buf.length then
    (.truncated,
      { group with buf := group.buf ++ data.take (limit - group.buf.length), truncated := true })
  else (.ok, { group with buf := group.buf ++ data })

/-- What a parser answers to a line it was offered: `-1`, `FLB_FALSE`,
`FLB_TRUE` or `FLB_MULTILINE_TRUNCATED`. -/
inductive Answer where
  | declined
  | notProcessed
  | processed
  | truncated
deriving DecidableEq, Repr

/-- `try_flushing_buffer`, once `rule_to_state` is set. -/
def tryFlushingBuffer (parser : Parser) (stream : StreamId) (rule : Rule) (group : StreamGroup) :
    StreamGroup × List Record :=
  if (toStateMap parser rule).any Rule.startState ∧ group.buf.length > 0 then
    flushStreamGroup parser stream group
  else (group, [])

/-- The continuation that `flb_ml_rule_process` finds for a line. -/
def continuation (parser : Parser) (group : StreamGroup) (line : Line) : Option Rule :=
  match group.ruleToState with
  | none => none
  | some current =>
    (toStateMap parser current).find? fun rule =>
      !rule.startState && rule.regex line

def tryStartState (parser : Parser) (line : Line) : Option Rule :=
  parser.regexRules.find? fun rule => rule.startState && rule.regex line

def ruleProcess (limit : Nat) (parser : Parser) (stream : StreamId) (group : StreamGroup)
    (line : Line) : Answer × StreamGroup × List Record :=
  match continuation parser group line with
  | some rule =>
    let group := { group with buf := breakLine group.buf }
    let (status, group) :=
      if line = [] then
        (Status.ok, { group with buf := group.buf ++ [newline] })
      else groupCat limit group line
    match status with
    | .truncated =>
      let (group, records) := flushStreamGroup parser stream group
      (.truncated, { group with ruleToState := none }, records)
    | .ok =>
      let group := { group with ruleToState := some rule }
      (.processed, tryFlushingBuffer parser stream rule group)
  | none =>
    match tryStartState parser line with
    | none => (.declined, group, [])
    | some rule =>
      let (group, before) :=
        if group.buf.length > 0 then flushStreamGroup parser stream group
        else (group, [])
      let group := { group with ruleToState := some rule }
      match groupCat limit group line with
      | (.truncated, group) => (.truncated, group, before)
      | (.ok, group) =>
        let (group, after) := tryFlushingBuffer parser stream rule group
        (.processed, group, before ++ after)

/-- What the types other than regex do with a line: a match ends the record. -/
def concatenate (parser : Parser) (stream : StreamId) (group : StreamGroup)
    (line : Line) (matched : Bool) : Answer × StreamGroup × List Record :=
  let group :=
    { group with buf := breaklinePrepare parser group.buf ++ line }
  if matchNegate parser matched then
    (.processed, flushStreamGroup parser stream group)
  else (.processed, group, [])

/-- `package_content`, for text. -/
def packageContent (limit : Nat) (parser : Parser) (stream : StreamId) (group : StreamGroup)
    (line : Line) : Answer × StreamGroup × List Record :=
  match parser.type with
  | .regex => ruleProcess limit parser stream group line
  | .endsWith =>
    if parser.matchStr.length ≤ line.length then
      concatenate parser stream group line
        (line.drop (line.length - parser.matchStr.length) = parser.matchStr)
    else (.notProcessed, group, [])
  | .equal => concatenate parser stream group line (line = parser.matchStr)

/-- `struct flb_ml`, with the parsers of its group and the streams that were
created on them.  A context gets its group with its first parser. -/
structure Context where
  parsers : List Parser
  bufferLimit : Nat
  streams : List StreamId
  nonempty : parsers ≠ []

def Context.parser (context : Context) (index : Nat) : Parser :=
  context.parsers.getD index (context.parsers.head context.nonempty)

def Context.indices (context : Context) : List Nat := List.range context.parsers.length

structure State where
  lruParser : Option Nat
  lastStreamId : Nat → StreamId
  group : Nat → StreamId → StreamGroup
  records : List Record

def State.initial : State :=
  { lruParser := none
    lastStreamId := fun _ => 0
    group := fun _ _ => { buf := [], ruleToState := none, truncated := false }
    records := [] }

def State.setGroup (state : State) (index : Nat) (stream : StreamId)
    (change : StreamGroup × List Record) : State :=
  { state with
    group := Function.update state.group index (Function.update (state.group index) stream change.1)
    records := state.records ++ change.2 }

section
variable (context : Context)

/-- `flb_ml_flush_stream_group` on the group of a stream. -/
def flushStream (index : Nat) (state : State) (stream : StreamId) : State :=
  state.setGroup index stream
    (flushStreamGroup (context.parser index) stream (state.group index stream))

def flushParserInstance (streamId : StreamId) (state : State) (index : Nat) : State :=
  (context.streams.filter fun stream => streamId = 0 ∨ stream = streamId).foldl
    (flushStream context index) state

def flushPending (state : State) : State :=
  context.indices.foldl (flushParserInstance context 0) state

/-- `ml_append_try_parser`.  Without a stream the line counts as done. -/
def tryParser (stream : StreamId) (line : Line) (state : State) (index : Nat) : Answer × State :=
  if stream ∈ context.streams then
    let (answer, change) := packageContent context.bufferLimit
      (context.parser index) stream (state.group index stream) line
    (answer, state.setGroup index stream change)
  else (.notProcessed, state)

/-- The parser of the last line, when that was of the same stream. -/
def State.isLastUsed (state : State) (stream : StreamId) (index : Nat) : Bool :=
  state.lruParser = some index ∧ state.lastStreamId index = stream

/-- The loop of `flb_ml_append_text` over the parsers. -/
def tryParsers (stream : StreamId) (line : Line) : List Nat → State → Answer × State
  | [], state => (.declined, state)
  | index :: indices, state =>
    if state.isLastUsed stream index then
      tryParsers stream line indices state
    else
      match tryParser context stream line state index with
      | (.declined, state) => tryParsers stream line indices state
      | (answer, state) =>
        (answer,
          { state with
            lruParser := some index
            lastStreamId := Function.update state.lastStreamId index stream })

/-- The shortcut of `flb_ml_append_text`. -/
def tryLastUsed (stream : StreamId) (line : Line) (state : State) : Answer × State :=
  match state.lruParser with
  | none => (.declined, state)
  | some index =>
    if state.isLastUsed stream index then
      tryParser context stream line state index
    else (.declined, state)

/-- A line that no parser takes ends what is pending and is a record of its
own. -/
def appendStandalone (stream : StreamId) (line : Line) (state : State) : Option Status × State :=
  let state := context.indices.foldl (flushParserInstance context stream) state
  if stream ∈ context.streams then
    let (status, group) := groupCat context.bufferLimit (state.group 0 stream) line
    (some status, state.setGroup 0 stream (flushStreamGroup (context.parser 0) stream group))
  else (none, state)

def Answer.status : Answer → Status
  | .truncated => .truncated
  | _ => .ok

def appendText (state : State) (stream : StreamId) (line : Line) : Option Status × State :=
  match tryLastUsed context stream line state with
  | (.declined, state) =>
    match tryParsers context stream line context.indices state with
    | (.declined, state) => appendStandalone context stream line state
    | (answer, state) => (some answer.status, state)
  | (answer, state) => (some answer.status, state)

/-- What is done with a context: `flb_ml_append_text`,
`flb_ml_flush_pending` and `flb_ml_flush_parser_instance`. -/
inductive Event where
  | appendText (stream : StreamId) (line : Line)
  | flushPending
  | flushParserInstance (index : Nat) (streamId : StreamId)

def step (state : State) : Event → State
  | .appendText stream line => (appendText context state stream line).2
  | .flushPending => flushPending context state
  | .flushParserInstance index streamId => flushParserInstance context streamId state index

end

end FluentBit.Multiline
