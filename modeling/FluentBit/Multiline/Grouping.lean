import FluentBit.Multiline.Order

/-!
# Messages of a regex parser

The lines of one stream under one parser of the type regex, compared with a
machine that gathers them into messages.  The code keeps the rule of the last
line when the buffer is emptied, so both agree as long as no line continues an
empty buffer.  What is pending may be flushed between any two lines.
-/

namespace FluentBit.Multiline

open Run List Option

structure Reference where
  opened : Option (Rule × List Line)
  closed : List (List Line)

def Reference.messages (reference : Reference) : List (List Line) :=
  reference.closed ++ (reference.opened.map Prod.snd).toList

def Reference.continued (parser : Parser) (reference : Reference) (line : Line) :
    Option (Rule × List Line) :=
  reference.opened.bind fun message =>
    ((toStateMap parser message.1).find? fun rule => !rule.startState && rule.regex line).map
      fun rule => (rule, message.2 ++ [line])

/-- A line that does not continue a message closes it, and opens one or stands alone. -/
def Reference.next (parser : Parser) (reference : Reference) (line : Line) : Reference :=
  match tryStartState parser line with
  | some rule => { opened := some (rule, [line]), closed := reference.messages }
  | none => { opened := none, closed := reference.messages ++ [[line]] }

def Reference.step (parser : Parser) (reference : Reference) (line : Line) : Reference :=
  match reference.continued parser line with
  | some message => { reference with opened := some message }
  | none => reference.next parser line

def reference (parser : Parser) (lines : List Line) : Reference :=
  lines.foldl (Reference.step parser) { opened := none, closed := [] }

def compose (lines : List Line) : List Byte :=
  lines.foldl (fun text line => breakLine text ++ if line = [] then [newline] else line) []

def recordOf (parser : Parser) (stream : StreamId) (lines : List Line) : Record :=
  { stream := stream
    key := parser.keyContent.getD logKey
    content := breaklinePrepare parser (compose lines)
    truncated := false }

variable {parser : Parser} {stream : StreamId} {group : StreamGroup} {records : List Record}
  {closed : List (List Line)} {lines : List Line} {line : Line} {rule : Rule} {limit : Nat}
  {current : Reference} {state : State}

theorem compose_concat (lines : List Line) (line : Line) :
    compose (lines ++ [line]) =
      breakLine (compose lines) ++ if line = [] then [newline] else line := by
  rw [compose, foldl_append]
  rfl

theorem compose_singleton (nonempty : line ≠ []) : compose [line] = line := by
  rw [← nil_append [line], compose_concat, if_neg nonempty]
  rfl

theorem length_breakLine (buf : List Byte) : buf.length ≤ (breakLine buf).length := by
  rw [breakLine]
  split
  · exact Nat.le_refl _
  · split <;> simp

theorem length_compose_pos (filled : lines ≠ []) : 0 < (compose lines).length := by
  obtain ⟨front, line, rfl⟩ := (eq_nil_or_concat' lines).resolve_left filled
  rw [compose_concat, length_append]
  split
  · simp
  · next nonempty => exact Nat.add_pos_right _ (length_pos_iff.mpr nonempty)

/-- The code in a state of the reference machine: a message may be given out while it is open. -/
inductive Follows (parser : Parser) (stream : StreamId) :
    StreamGroup → List Record → Reference → Prop where
  | idle {ruleToState : Option Rule} {closed : List (List Line)} :
      Follows parser stream ⟨[], ruleToState, false⟩ (closed.map (recordOf parser stream))
        ⟨none, closed⟩
  | held {rule : Rule} {lines : List Line} {closed : List (List Line)} (filled : lines ≠ []) :
      Follows parser stream ⟨compose lines, some rule, false⟩
        (closed.map (recordOf parser stream)) ⟨some (rule, lines), closed⟩
  | flushed {rule : Rule} {lines : List Line} {closed : List (List Line)} :
      Follows parser stream ⟨[], some rule, false⟩
        ((closed ++ [lines]).map (recordOf parser stream)) ⟨some (rule, lines), closed⟩

theorem flushStreamGroup_compose (filled : lines ≠ []) (ruleToState : Option Rule) :
    flushStreamGroup parser stream ⟨compose lines, ruleToState, false⟩ =
      (⟨[], ruleToState, false⟩, [recordOf parser stream lines]) := by
  have positive : 0 < (breaklinePrepare parser (compose lines)).length := by
    rw [breaklinePrepare]
    split
    · exact length_compose_pos filled
    · exact Nat.lt_of_lt_of_le (length_compose_pos filled) (length_breakLine _)
  rw [flushStreamGroup]
  simp only [if_pos positive]
  rfl

theorem follows_tryFlushingBuffer (filled : lines ≠ []) :
    Follows parser stream
      (tryFlushingBuffer parser stream rule ⟨compose lines, some rule, false⟩).1
      (closed.map (recordOf parser stream) ++
        (tryFlushingBuffer parser stream rule ⟨compose lines, some rule, false⟩).2)
      ⟨some (rule, lines), closed⟩ := by
  rw [tryFlushingBuffer]
  split
  · rw [flushStreamGroup_compose filled, ← map_singleton, ← map_append]
    exact .flushed
  · rw [append_nil]
    exact .held filled

/-- A line that continues the group finds a text in the buffer, the others have bytes, and there is
room for them. -/
def gathers (limit : Nat) (parser : Parser) (group : StreamGroup) (line : Line) : Bool :=
  if (continuation parser group line).isSome then
    group.buf ≠ [] && fitsContinuation limit parser group line
  else line ≠ [] && (limit = 0 || line.length ≤ limit)

section
variable (follows : Follows parser stream group records current)
include follows

theorem Follows.flush :
    (flushStreamGroup parser stream group).1 = ⟨[], group.ruleToState, false⟩ ∧
      records ++ (flushStreamGroup parser stream group).2 =
        current.messages.map (recordOf parser stream) := by
  cases follows with
  | held filled => simp [flushStreamGroup_compose filled, Reference.messages]
  | idle | flushed => exact ⟨rfl, by simp [contents_flush_empty, Reference.messages]⟩

theorem Follows.flushed_pending :
    Follows parser stream (flushStreamGroup parser stream group).1
      (records ++ (flushStreamGroup parser stream group).2) current := by
  cases follows with
  | held filled =>
    rw [flushStreamGroup_compose filled, ← map_singleton, ← map_append]
    exact .flushed
  | idle =>
    rw [contents_flush_empty rfl, append_nil]
    exact .idle
  | flushed =>
    rw [contents_flush_empty rfl, append_nil]
    exact .flushed

theorem Follows.step_none (continued : continuation parser group line = none) :
    current.step parser line = current.next parser line := by
  have none : current.continued parser line = none := by
    cases follows with
    | idle => rfl
    | held | flushed => exact congrArg (Option.map _) continued
  rw [Reference.step, none]

variable (fits : gathers limit parser group line = true)
include fits

theorem Follows.ruleProcess
    (accepted : (continuation parser group line).isSome ∨ (tryStartState parser line).isSome) :
    Follows parser stream (ruleProcess limit parser stream group line).2.1
      (records ++ (ruleProcess limit parser stream group line).2.2) (current.step parser line) := by
  cases continued : continuation parser group line with
  | some rule =>
    simp only [gathers, continued, isSome_some, if_true, Bool.and_eq_true,
      decide_eq_true_eq] at fits
    rw [ruleProcess_continued continued fits.2]
    cases follows with
    | idle | flushed => exact absurd rfl fits.1
    | @held last lines closed filled =>
      have next : Reference.continued parser ⟨some (last, lines), closed⟩ line =
          some (rule, lines ++ [line]) := congrArg (Option.map _) continued
      rw [Reference.step, next, ← compose_concat]
      exact follows_tryFlushingBuffer (by simp)
  | none =>
    obtain ⟨rule, started⟩ : ∃ rule, tryStartState parser line = some rule :=
      isSome_iff_exists.mp (accepted.resolve_left (by simp [continued]))
    simp only [gathers, continued, isSome_none, Bool.false_eq_true, if_false,
      Bool.and_eq_true, decide_eq_true_eq, Bool.or_eq_true] at fits
    obtain ⟨truncated, still, result⟩ :=
      @ruleProcess_started parser stream group limit line rule continued started fits.1 fits.2
    obtain rfl : truncated = false := still (by cases follows <;> rfl)
    have opened := @follows_tryFlushingBuffer parser stream current.messages [line] rule (by simp)
    rw [compose_singleton fits.1] at opened
    rw [result, ← append_assoc, follows.flush.2, follows.step_none continued, Reference.next,
      started]
    exact opened

theorem Follows.standalone (continued : continuation parser group line = none)
    (none : tryStartState parser line = none) :
    let stored := (groupCat limit (flushStreamGroup parser stream group).1 line).2
    Follows parser stream (flushStreamGroup parser stream stored).1
      (records ++ (flushStreamGroup parser stream group).2 ++
        (flushStreamGroup parser stream stored).2) (current.step parser line) := by
  simp only [gathers, continued, isSome_none, Bool.false_eq_true, if_false,
    Bool.and_eq_true, decide_eq_true_eq, Bool.or_eq_true] at fits
  have stored : groupCat limit ⟨[], group.ruleToState, false⟩ line =
      (.ok, ⟨line, group.ruleToState, false⟩) := groupCat_fits (by simpa using fits.2) fits.1
  have alone := @flushStreamGroup_compose parser stream [line] (by simp) group.ruleToState
  rw [compose_singleton fits.1] at alone
  dsimp only
  rw [follows.flush.1, stored, alone, follows.flush.2, follows.step_none continued, Reference.next,
    none, ← map_singleton, ← map_append]
  exact .idle

end

def single (parser : Parser) (limit : Nat) (stream : StreamId) : Context :=
  { parsers := [parser], bufferLimit := limit, streams := [stream], nonempty := cons_ne_nil _ _ }

/-- The events of one stream: lines as above, and flushes. -/
def Gathers (parser : Parser) (limit : Nat) (stream : StreamId) (state : State) : Event → Prop
  | .appendText target line =>
    target = stream ∧ gathers limit parser (state.group 0 stream) line = true
  | .flushPending => True
  | .flushParserInstance index streamId => index = 0 ∧ (streamId = 0 ∨ streamId = stream)

structure Gathered (parser : Parser) (stream : StreamId) (state : State) (current : Reference) :
    Prop where
  lru : ∀ index, state.lruParser = some index → index = 0
  follows : Follows parser stream (state.group 0 stream) state.records current

theorem taker_single (lru : ∀ index, state.lruParser = some index → index = 0) :
    taker (single parser limit stream) state stream line =
      if accepts parser (state.group 0 stream) line then some 0 else none := by
  have one : (single parser limit stream).indices = [0] := rfl
  have order : trialOrder (single parser limit stream) state stream = [0] := by
    rw [trialOrder, one]
    cases last : state.lruParser with
    | none => simp [State.isLastUsed, last]
    | some index =>
      obtain rfl := lru index last
      cases used : state.isLastUsed stream 0 <;> simp [used]
  rw [taker, order, List.find?_singleton]
  rfl

theorem flushed_single {target : StreamId} (meant : target = 0 ∨ target = stream) :
    flushParserInstance (single parser limit stream) target state 0 =
      state.setGroup 0 stream (flushStreamGroup parser stream (state.group 0 stream)) := by
  have listed : (single parser limit stream).streams.filter
      (fun other => target = 0 ∨ other = target) = [stream] := by
    rcases meant with rfl | rfl <;> simp [single]
  rw [flushParserInstance, listed]
  rfl

theorem Gathered.gather (regex : parser.type = .regex)
    (gathered : Gathered parser stream state current)
    (fits : gathers limit parser (state.group 0 stream) line = true) :
    Gathered parser stream (appendText (single parser limit stream) state stream line).2
      (current.step parser line) := by
  have known : stream ∈ (single parser limit stream).streams := mem_singleton_self stream
  have found := @taker_single parser stream line limit state gathered.lru
  rw [accepts, regex] at found
  dsimp only at found
  split at found
  · next accepted =>
    obtain ⟨last, result⟩ := appendText_taken known found
    have package : packaged (single parser limit stream) state stream line 0 =
        state.setGroup 0 stream
          (ruleProcess limit parser stream (state.group 0 stream) line).2 := by
      simp only [packaged, packageContent, single, Context.parser, getD_cons_zero, regex]
    rw [result]
    refine ⟨by rintro _ ⟨⟩; rfl, ?_⟩
    simp only [package, State.setGroup_group, and_self, if_true]
    exact gathered.follows.ruleProcess fits (Bool.or_eq_true_iff.mp accepted)
  · next declined =>
    rw [Bool.or_eq_true, not_or, not_isSome_iff_eq_none, not_isSome_iff_eq_none]
      at declined
    have one : (single parser limit stream).indices = [0] := rfl
    rw [appendText_standalone known found, appendStandalone, one, foldl_cons, foldl_nil,
      flushed_single (.inr rfl), if_pos known]
    refine ⟨gathered.lru, ?_⟩
    simp only [State.setGroup_group, and_self, if_true]
    exact gathered.follows.standalone fits declined.1 declined.2

theorem Gathered.flush (gathered : Gathered parser stream state current) {target : StreamId}
    (meant : target = 0 ∨ target = stream) :
    Gathered parser stream (flushParserInstance (single parser limit stream) target state 0)
      current := by
  rw [flushed_single meant]
  refine ⟨gathered.lru, ?_⟩
  simp only [State.setGroup_group, and_self, if_true]
  exact gathered.follows.flushed_pending

theorem Gathered.step (regex : parser.type = .regex) {past : List Event} {event : Event}
    (gathered : Gathered parser stream state (reference parser (appended stream past)))
    (fits : Gathers parser limit stream state event) :
    Gathered parser stream (step (single parser limit stream) state event)
      (reference parser (appended stream (past ++ [event]))) := by
  rw [appended_append]
  cases event with
  | appendText target line =>
    obtain ⟨rfl, fits⟩ := fits
    rw [lineOf, if_pos rfl, toList_some, reference, foldl_append]
    exact gathered.gather regex fits
  | flushPending =>
    change Gathered parser stream _ (reference parser (appended stream past ++ []))
    rw [append_nil]
    exact gathered.flush (.inl rfl)
  | flushParserInstance index target =>
    obtain ⟨rfl, meant⟩ := fits
    change Gathered parser stream _ (reference parser (appended stream past ++ []))
    rw [append_nil]
    exact gathered.flush meant

/-- The records are those of the reference machine, when no line continues an empty buffer. -/
theorem regex_records_are_messages (parser : Parser) (regex : parser.type = .regex) (limit : Nat)
    (stream : StreamId) (events : List Event)
    (fits : Meets (step (single parser limit stream)) (Gathers parser limit stream) .initial
      events) :
    (flushPending (single parser limit stream)
        (events.foldl (step (single parser limit stream)) .initial)).records =
      (reference parser (appended stream events)).messages.map (recordOf parser stream) := by
  have initial : Gathered parser stream .initial (reference parser []) :=
    ⟨by rintro _ ⟨⟩, @Follows.idle parser stream none []⟩
  have gathered := @Meets.history_invariant _ _ _ _ events (step (single parser limit stream))
    (fun state past => Gathered parser stream state (reference parser (appended stream past)))
    (fun gathered fits => gathered.step regex fits) [] initial fits
  exact gathered.follows.flush.2

def blankParser : Parser := regexParser (· = [0x61])

/-- The lines `a`, ` b`, `x` and `a` are three messages, also with a flush in
front of `x`. -/
theorem regex_records_are_messages_three :
    ((flushPending (single blankParser 0 1)
        ([.appendText 1 [0x61], .appendText 1 [0x20, 0x62], .flushPending, .appendText 1 [0x78],
          .appendText 1 [0x61]].foldl (step (single blankParser 0 1)) .initial)).records.map
        Record.content) =
      [[0x61, 0x0a, 0x20, 0x62, 0x0a], [0x78, 0x0a], [0x61, 0x0a]] := by
  have records := regex_records_are_messages blankParser rfl 0 1
    [.appendText 1 [0x61], .appendText 1 [0x20, 0x62], .flushPending, .appendText 1 [0x78],
      .appendText 1 [0x61]]
    ⟨⟨rfl, rfl⟩, ⟨rfl, rfl⟩, trivial, ⟨rfl, rfl⟩, ⟨rfl, rfl⟩, trivial⟩
  rw [records]
  rfl

/-- Behind `a` and `x` the lines ` b` and ` c` continue no message, but they are gathered into one
record. -/
theorem continuation_without_start :
    (flushPending (single blankParser 0 1)
        ([.appendText 1 [0x61], .appendText 1 [0x78], .appendText 1 [0x20, 0x62],
          .appendText 1 [0x20, 0x63]].foldl (step (single blankParser 0 1)) .initial)).records.map
          Record.content =
        [[0x61, 0x0a], [0x78, 0x0a], [0x20, 0x62, 0x0a, 0x20, 0x63, 0x0a]] ∧
      (reference blankParser [[0x61], [0x78], [0x20, 0x62], [0x20, 0x63]]).messages =
        [[[0x61]], [[0x78]], [[0x20, 0x62]], [[0x20, 0x63]]] :=
  ⟨rfl, rfl⟩

end FluentBit.Multiline
