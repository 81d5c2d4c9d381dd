import FluentBit.Lib.Lines
import FluentBit.Multiline

/-!
# Order of the lines

The lines of a stream come out in the order they went in, as long as the parser
that takes a line stores it and no other parser holds lines of the stream: the
buffers of two parsers are emptied in the order of the parsers, not of the
lines.
-/

namespace FluentBit.Multiline

open Run List Function Lines Option

structure IsLine (line : Line) : Prop where
  nonempty : line ≠ []
  free : newline ∉ line

theorem breakLine_append {line : Line} (isLine : IsLine line) (buf : List Byte) :
    breakLine (buf ++ line) = buf ++ line ++ [newline] := by
  obtain ⟨front, last, rfl⟩ := (eq_nil_or_concat' line).resolve_left isLine.nonempty
  have other : last ≠ newline := by
    intro same
    exact isLine.free (by simp [same])
  rw [breakLine, ← append_assoc, List.getLast?_concat]
  simp only [if_pos other]

def Holds (buf : List Byte) (lines : List Line) : Prop := breakLine buf = join newline lines

theorem holds_nil : Holds [] [] := rfl

variable {lines : List Line}

theorem Holds.append {buf : List Byte} {line : Line} (holds : Holds buf lines)
    (isLine : IsLine line) : Holds (breakLine buf ++ line) (lines ++ [line]) := by
  rw [Holds, breakLine_append isLine, holds, join_append, join_singleton, append_assoc]

theorem join_eq_nil (empty : join newline lines = []) : lines = [] := by
  cases lines with
  | nil => rfl
  | cons line lines => simp [join_cons] at empty

theorem Holds.eq_nil (holds : Holds [] lines) : lines = [] := join_eq_nil holds.symm

theorem Holds.buf_eq_nil {buf : List Byte} (holds : Holds buf []) : buf = [] := by
  rcases eq_nil_or_concat' buf with empty | ⟨front, last, rfl⟩
  · exact empty
  · rw [Holds, breakLine, List.getLast?_concat] at holds
    dsimp only at holds
    split at holds <;> simp at holds

def contents (records : List Record) : List Byte := (records.map Record.content).flatten

@[simp]
theorem contents_nil : contents [] = [] := rfl

@[simp]
theorem contents_append (records others : List Record) :
    contents (records ++ others) = contents records ++ contents others := by
  simp [contents]

section
variable {parser : Parser} {stream : StreamId} {group : StreamGroup}
  {lines : List Line}

theorem contents_flushStreamGroup (noKey : parser.keyContent = none)
    (holds : Holds group.buf lines) :
    contents (flushStreamGroup parser stream group).2 = join newline lines := by
  have prepared : breaklinePrepare parser group.buf =
      join newline lines := by
    rw [breaklinePrepare, noKey]
    exact holds
  rw [flushStreamGroup, prepared]
  split
  · simp [contents]
  · next empty =>
    have nothing : join newline lines = [] :=
      eq_nil_of_length_eq_zero (Nat.eq_zero_of_not_pos empty)
    rw [nothing]
    rfl

theorem contents_flush_empty (empty : group.buf = []) :
    (flushStreamGroup parser stream group).2 = [] := by
  have prepared : breaklinePrepare parser group.buf = [] := by
    rw [breaklinePrepare, empty]
    split <;> rfl
  rw [flushStreamGroup, prepared]
  rfl

theorem flushStreamGroup_stream :
    ∀ record ∈ (flushStreamGroup parser stream group).2, record.stream = stream := by
  intro record member
  rw [flushStreamGroup] at member
  split at member
  · rw [mem_singleton.mp member]
  · cases member

variable {limit : Nat} {line : Line}

theorem groupCat_fits {data : List Byte} (fits : limit = 0 ∨ group.buf.length + data.length ≤ limit)
    (nonempty : data ≠ []) :
    groupCat limit group data = (.ok, { group with buf := group.buf ++ data }) := by
  have positive := length_pos_iff.mpr nonempty
  rw [groupCat, if_neg (by omega), if_neg (by omega)]

/-- A change of a group that brings in a line: what was held and the line are
given out or held now, in order. -/
def Takes (stream : StreamId) (lines : List Line) (change : StreamGroup × List Record) : Prop :=
  (∀ record ∈ change.2, record.stream = stream) ∧
    ∃ emitted kept, lines = emitted ++ kept ∧ contents change.2 = join newline emitted ∧
      Holds change.1.buf kept

theorem takes_keep (holds : Holds group.buf lines) : Takes stream lines (group, []) :=
  ⟨nofun, [], lines, rfl, rfl, holds⟩

theorem takes_flush (noKey : parser.keyContent = none) (holds : Holds group.buf lines) :
    Takes stream lines (flushStreamGroup parser stream group) :=
  ⟨flushStreamGroup_stream, lines, [], (append_nil _).symm,
    contents_flushStreamGroup noKey holds, holds_nil⟩

theorem takes_tryFlushingBuffer (noKey : parser.keyContent = none) (holds : Holds group.buf lines)
    (rule : Rule) : Takes stream lines (tryFlushingBuffer parser stream rule group) := by
  rw [tryFlushingBuffer]
  split
  · exact takes_flush noKey holds
  · exact takes_keep holds

theorem Takes.prepend {earlier : List Line} {before : List Record}
    {change : StreamGroup × List Record} (takes : Takes stream lines change)
    (streams : ∀ record ∈ before, record.stream = stream)
    (said : contents before = join newline earlier) :
    Takes stream (earlier ++ lines) (change.1, before ++ change.2) := by
  obtain ⟨ofStream, emitted, kept, split, out, holds⟩ := takes
  refine ⟨?_, earlier ++ emitted, kept, ?_, ?_, holds⟩
  · intro record member
    rcases mem_append.mp member with first | second
    · exact streams record first
    · exact ofStream record second
  · rw [split, append_assoc]
  · rw [contents_append, said, out, join_append]

theorem takes_concatenate (noKey : parser.keyContent = none)
    (holds : Holds group.buf lines) (isLine : IsLine line) (matched : Bool) :
    Takes stream (lines ++ [line]) (concatenate parser stream group line matched).2 := by
  have appended : Holds (breaklinePrepare parser group.buf ++ line)
      (lines ++ [line]) := by
    rw [breaklinePrepare, noKey]
    exact holds.append isLine
  rw [concatenate]
  split
  · exact takes_flush noKey appended
  · exact takes_keep appended

/-- What the buffer of a group may take on when a line continues it. -/
def fitsContinuation (limit : Nat) (parser : Parser) (group : StreamGroup) (line : Line) : Bool :=
  (continuation parser group line).isNone || limit = 0 ||
    (breakLine group.buf).length + line.length ≤ limit

/-- A parser takes a line of a kind it does not decline. -/
def accepts (parser : Parser) (group : StreamGroup) (line : Line) : Bool :=
  match parser.type with
  | .regex => (continuation parser group line).isSome || (tryStartState parser line).isSome
  | _ => true

theorem ruleProcess_continued {rule : Rule} (continued : continuation parser group line = some rule)
    (fits : fitsContinuation limit parser group line = true) :
    ruleProcess limit parser stream group line =
      (.processed, tryFlushingBuffer parser stream rule
        { group with
          buf := breakLine group.buf ++ if line = [] then [newline] else line
          ruleToState := some rule }) := by
  rw [ruleProcess, continued]
  by_cases empty : line = []
  · simp only [if_pos empty]
  · have room : limit = 0 ∨ (breakLine group.buf).length + line.length ≤ limit := by
      simpa [fitsContinuation, continued] using fits
    have stored : groupCat limit { group with buf := breakLine group.buf } line =
        (.ok, { group with buf := breakLine group.buf ++ line }) := groupCat_fits room empty
    simp only [if_neg empty, stored]

theorem ruleProcess_started {rule : Rule} (continued : continuation parser group line = none)
    (started : tryStartState parser line = some rule) (nonempty : line ≠ [])
    (short : limit = 0 ∨ line.length ≤ limit) :
    ∃ truncated, (group.truncated = false → truncated = false) ∧
      ruleProcess limit parser stream group line =
        (.processed,
          (tryFlushingBuffer parser stream rule ⟨line, some rule, truncated⟩).1,
          (flushStreamGroup parser stream group).2 ++
            (tryFlushingBuffer parser stream rule ⟨line, some rule, truncated⟩).2) := by
  have stored : ∀ truncated, groupCat limit ⟨[], some rule, truncated⟩ line =
      (.ok, ⟨line, some rule, truncated⟩) := fun truncated =>
    groupCat_fits (by simpa using short) nonempty
  rw [ruleProcess, continued, started]
  by_cases pending : group.buf.length > 0
  · have cleared : groupCat limit { (flushStreamGroup parser stream group).1 with
        ruleToState := some rule } line = (.ok, ⟨line, some rule, false⟩) := stored false
    refine ⟨false, fun _ => rfl, ?_⟩
    simp only [if_pos pending, cleared]
  · have empty : group.buf = [] := eq_nil_of_length_eq_zero (Nat.eq_zero_of_not_pos pending)
    refine ⟨group.truncated, id, ?_⟩
    simp only [if_neg pending, contents_flush_empty empty]
    simp only [empty, stored]

theorem takes_ruleProcess (noKey : parser.keyContent = none) (holds : Holds group.buf lines)
    (isLine : IsLine line) (short : limit = 0 ∨ line.length ≤ limit)
    (fits : fitsContinuation limit parser group line = true)
    (accepted : (continuation parser group line).isSome ∨ (tryStartState parser line).isSome) :
    Takes stream (lines ++ [line]) (ruleProcess limit parser stream group line).2 := by
  cases continued : continuation parser group line with
  | some rule =>
    rw [ruleProcess_continued continued fits, if_neg isLine.nonempty]
    exact takes_tryFlushingBuffer noKey (holds.append isLine) rule
  | none =>
    obtain ⟨rule, started⟩ : ∃ rule, tryStartState parser line = some rule :=
      isSome_iff_exists.mp (accepted.resolve_left (by simp [continued]))
    obtain ⟨truncated, _, result⟩ :=
      @ruleProcess_started _ stream _ _ _ _ continued started isLine.nonempty short
    rw [result]
    apply Takes.prepend _ flushStreamGroup_stream (contents_flushStreamGroup noKey holds)
    exact takes_tryFlushingBuffer noKey (holds_nil.append isLine) rule

theorem tryFlushingBuffer_stream (rule : Rule) :
    ∀ record ∈ (tryFlushingBuffer parser stream rule group).2, record.stream = stream := by
  rw [tryFlushingBuffer]
  split
  · exact flushStreamGroup_stream
  · nofun

theorem ruleProcess_stream :
    ∀ record ∈ (ruleProcess limit parser stream group line).2.2, record.stream = stream := by
  rw [ruleProcess]
  cases continuation parser group line with
  | some rule =>
    dsimp only
    generalize (if line = [] then _ else _ : Status × StreamGroup) = outcome
    rcases outcome with ⟨_ | _, stored⟩
    · exact tryFlushingBuffer_stream rule
    · exact flushStreamGroup_stream
  | none =>
    cases tryStartState parser line with
    | none => nofun
    | some rule =>
      have before : ∀ record ∈ (if group.buf.length > 0 then
          flushStreamGroup parser stream group else (group, [])).2, record.stream = stream := by
        split
        · exact flushStreamGroup_stream
        · nofun
      dsimp only
      generalize groupCat limit _ line = outcome
      rcases outcome with ⟨_ | _, stored⟩
      · intro record member
        rcases mem_append.mp member with first | second
        · exact before record first
        · exact tryFlushingBuffer_stream rule record second
      · exact before

theorem packageContent_stream :
    ∀ record ∈ (packageContent limit parser stream group line).2.2, record.stream = stream := by
  have concatenated : ∀ matched, ∀ record ∈
      (concatenate parser stream group line matched).2.2, record.stream = stream := by
    intro matched
    rw [concatenate]
    split
    · exact flushStreamGroup_stream
    · nofun
  rw [packageContent]
  split
  · exact ruleProcess_stream
  · split
    · exact concatenated _
    · nofun
  · exact concatenated _

/-- The parser puts a line that it accepts into its buffer, with a newline in
front and behind. -/
def stores (limit : Nat) (parser : Parser) (group : StreamGroup) (line : Line) : Bool :=
  parser.keyContent.isNone &&
    match parser.type with
    | .regex => fitsContinuation limit parser group line
    | .endsWith => parser.matchStr.length ≤ line.length
    | .equal => true

theorem packageContent_declined (declined : accepts parser group line = false) :
    packageContent limit parser stream group line = (.declined, group, []) := by
  rw [accepts] at declined
  rw [packageContent]
  cases type : parser.type with
  | regex =>
    rw [type] at declined
    simp only [Bool.or_eq_false_iff, isSome_eq_false_iff,
      isNone_iff_eq_none] at declined
    simp only [ruleProcess, declined.1, declined.2]
  | _ =>
    rw [type] at declined
    cases declined

theorem ruleProcess_accepted
    (accepted : (continuation parser group line).isSome ∨ (tryStartState parser line).isSome) :
    (ruleProcess limit parser stream group line).1 ≠ .declined := by
  rw [ruleProcess]
  cases continued : continuation parser group line with
  | some rule =>
    dsimp only
    generalize (if line = [] then _ else _ : Status × StreamGroup) = outcome
    rcases outcome with ⟨_ | _, stored⟩
    all_goals simp
  | none =>
    obtain ⟨rule, started⟩ : ∃ rule, tryStartState parser line = some rule :=
      isSome_iff_exists.mp (accepted.resolve_left (by simp [continued]))
    simp only [started]
    generalize groupCat limit _ line = outcome
    rcases outcome with ⟨_ | _, stored⟩
    all_goals simp

theorem packageContent_accepted (accepted : accepts parser group line = true) :
    (packageContent limit parser stream group line).1 ≠ .declined := by
  rw [accepts] at accepted
  rw [packageContent]
  cases type : parser.type with
  | regex =>
    rw [type] at accepted
    rw [Bool.or_eq_true] at accepted
    exact ruleProcess_accepted accepted
  | endsWith =>
    dsimp only [concatenate]
    split
    · split <;> simp
    · simp
  | equal =>
    dsimp only [concatenate]
    split <;> simp

theorem takes_packageContent (holds : Holds group.buf lines) (isLine : IsLine line)
    (short : limit = 0 ∨ line.length ≤ limit) (accepted : accepts parser group line = true)
    (stored : stores limit parser group line = true) :
    Takes stream (lines ++ [line]) (packageContent limit parser stream group line).2 := by
  rw [stores, Bool.and_eq_true, isNone_iff_eq_none] at stored
  obtain ⟨noKey, kept⟩ := stored
  rw [accepts] at accepted
  rw [packageContent]
  cases type : parser.type with
  | regex =>
    rw [type] at accepted kept
    rw [Bool.or_eq_true] at accepted
    exact takes_ruleProcess noKey holds isLine short kept accepted
  | endsWith =>
    rw [type] at kept
    rw [if_pos (of_decide_eq_true kept)]
    exact takes_concatenate noKey holds isLine _
  | equal => exact takes_concatenate noKey holds isLine _

end

section
variable {context : Context} {state : State} {stream : StreamId}
  {line : Line}

theorem State.setGroup_self (state : State) (index : Nat) (stream : StreamId) :
    state.setGroup index stream (state.group index stream, []) = state := by
  rw [State.setGroup, update_eq_self, update_eq_self, append_nil]

def packaged (context : Context) (state : State) (stream : StreamId) (line : Line) (index : Nat) :
    State :=
  state.setGroup index stream
    (packageContent context.bufferLimit (context.parser index) stream
      (state.group index stream) line).2

def State.accepts (context : Context) (state : State) (stream : StreamId)
    (line : Line) (index : Nat) : Bool :=
  Multiline.accepts (context.parser index) (state.group index stream) line

variable {index place : Nat} {indices : List Nat}
  {change : StreamGroup × List Record} {done : List Line}
  {target streamId : StreamId}

section
variable (known : stream ∈ context.streams)
include known

theorem tryParser_declined (declined : state.accepts context stream line index = false) :
    tryParser context stream line state index = (.declined, state) := by
  rw [tryParser, if_pos known, packageContent_declined declined]
  exact congrArg _ (state.setGroup_self index stream)

theorem tryParser_accepted (accepted : state.accepts context stream line index = true) :
    ∃ answer, answer ≠ .declined ∧
      tryParser context stream line state index =
        (answer, packaged context state stream line index) := by
  rw [tryParser, if_pos known]
  exact ⟨_, packageContent_accepted accepted, rfl⟩

theorem tryParsers_none (declined : ∀ index ∈ indices, state.isLastUsed stream index = false →
      state.accepts context stream line index = false) :
    tryParsers context stream line indices state = (.declined, state) := by
  induction indices with
  | nil => rfl
  | cons index indices ih =>
    have later := ih fun other member =>
      declined other (mem_cons_of_mem _ member)
    rw [tryParsers]
    cases used : state.isLastUsed stream index with
    | true => simpa using later
    | false =>
      have first := declined index mem_cons_self used
      simpa [tryParser_declined known first] using later

theorem tryParsers_some (found : (indices.filter fun index =>
      !state.isLastUsed stream index).find? (state.accepts context stream line) = some index) :
    ∃ answer last, answer ≠ .declined ∧
      tryParsers context stream line indices state =
        (answer,
          { packaged context state stream line index with
            lruParser := some index
            lastStreamId := last }) := by
  induction indices with
  | nil => cases found
  | cons first indices ih =>
    rw [tryParsers]
    cases used : state.isLastUsed stream first with
    | true =>
      rw [filter_cons_of_neg (by simp [used])] at found
      simpa using ih found
    | false =>
      rw [filter_cons_of_pos (by simp [used])] at found
      cases accepted : state.accepts context stream line first with
      | true =>
        rw [List.find?_cons_of_pos accepted] at found
        cases found
        obtain ⟨answer, taken, tried⟩ := tryParser_accepted known accepted
        rw [tried]
        cases answer with
        | declined => exact absurd rfl taken
        | _ => exact ⟨_, _, by simp, rfl⟩
      | false =>
        rw [List.find?_cons_of_neg (by simp [accepted])] at found
        simpa [tryParser_declined known accepted] using ih found

/-- The parsers in the order in which a line is offered to them. -/
def trialOrder (context : Context) (state : State) (stream : StreamId) : List Nat :=
  state.lruParser.toList.filter (state.isLastUsed stream) ++
    context.indices.filter fun index => !state.isLastUsed stream index

def taker (context : Context) (state : State) (stream : StreamId) (line : Line) : Option Nat :=
  (trialOrder context state stream).find? (state.accepts context stream line)

/-- The shortcut takes a line, or leaves it to the loop over the parsers. -/
theorem tryLastUsed_cases :
    (tryLastUsed context stream line state = (.declined, state) ∧
      taker context state stream line =
        (context.indices.filter fun index =>
          !state.isLastUsed stream index).find? (state.accepts context stream line)) ∨
    ∃ index answer, state.lruParser = some index ∧ answer ≠ .declined ∧
      tryLastUsed context stream line state = (answer, packaged context state stream line index) ∧
      taker context state stream line = some index := by
  rw [taker, trialOrder, tryLastUsed]
  cases state.lruParser with
  | none => exact .inl ⟨rfl, rfl⟩
  | some index =>
    cases used : state.isLastUsed stream index with
    | false => exact .inl (by simp [used])
    | true =>
      cases accepted : state.accepts context stream line index with
      | false => exact .inl (by simp [used, accepted, tryParser_declined known accepted])
      | true =>
        obtain ⟨answer, taken, tried⟩ := tryParser_accepted known accepted
        exact .inr ⟨index, answer, rfl, taken, by simp [used, tried], by simp [used, accepted]⟩

theorem appendText_taken (found : taker context state stream line = some index) :
    ∃ last, (appendText context state stream line).2 =
      { packaged context state stream line index with
        lruParser := some index
        lastStreamId := last } := by
  rw [appendText]
  rcases @tryLastUsed_cases context state stream line known with
    ⟨declined, order⟩ | ⟨last, answer, used, taken, tried, same⟩
  · rw [order] at found
    obtain ⟨answer, last, taken, tried⟩ := tryParsers_some known found
    rw [declined]
    dsimp only
    rw [tried]
    cases answer with
    | declined => exact absurd rfl taken
    | _ => exact ⟨last, rfl⟩
  · rw [same] at found
    cases found
    rw [tried]
    refine ⟨state.lastStreamId, ?_⟩
    cases answer with
    | declined => exact absurd rfl taken
    | _ =>
      rw [← used]
      rfl

theorem appendText_standalone (found : taker context state stream line = none) :
    appendText context state stream line = appendStandalone context stream line state := by
  rw [appendText]
  rcases @tryLastUsed_cases context state stream line known with
    ⟨declined, order⟩ | ⟨last, answer, used, taken, tried, same⟩
  · rw [order, List.find?_eq_none] at found
    have loop := @tryParsers_none context state stream line context.indices
      known (by
        intro index member fresh
        have refused := found index (mem_filter.mpr ⟨member, by simp [fresh]⟩)
        simpa using refused)
    rw [declined]
    dsimp only
    rw [loop]
  · rw [same] at found
    cases found

end

def State.said (state : State) (stream : StreamId) : List Byte :=
  contents (state.records.filter fun record => record.stream = stream)

/-- Of the lines of a stream that were appended, the last ones are held by one
parser, and the ones before were given out. -/
structure Keeping (context : Context) (stream : StreamId) (state : State)
    (done : List Line) : Prop where
  lru : ∀ index, state.lruParser = some index → index < context.parsers.length
  held : ∃ index lines, index < context.parsers.length ∧
    Holds (state.group index stream).buf lines ∧
    (lines ≠ [] → (context.parser index).keyContent = none) ∧
    (∀ other, other ≠ index → (state.group other stream).buf = []) ∧
    state.said stream ++ join newline lines = join newline done

theorem State.setGroup_group (state : State) (index other : Nat)
    (stream target : StreamId) (change : StreamGroup × List Record) :
    (state.setGroup index stream change).group other target =
      if other = index ∧ target = stream then change.1
      else state.group other target := by
  rw [State.setGroup]
  dsimp only
  by_cases same : other = index
  · subst same
    rw [update_self, update_apply]
    simp
  · rw [update_of_ne same, if_neg (fun both => same both.1)]

theorem State.said_setGroup {state : State} {stream : StreamId}
    (streams : ∀ record ∈ change.2, record.stream = stream) (target : StreamId) :
    (state.setGroup index stream change).said target =
      state.said target ++ if target = stream then contents change.2 else [] := by
  rw [State.said, State.setGroup]
  rw [filter_append, contents_append, State.said]
  congr 1
  split
  · next same =>
    rw [filter_eq_self.mpr]
    intro record member
    simp [streams record member, same]
  · next other =>
    rw [filter_eq_nil_iff.mpr]
    · rfl
    · intro record member
      simpa [streams record member] using Ne.symm other

theorem Keeping.setGroup_other {other : StreamId} (keeping : Keeping context stream state done)
    (apart : stream ≠ other) (streams : ∀ record ∈ change.2, record.stream = other) :
    Keeping context stream (state.setGroup index other change) done := by
  refine ⟨keeping.lru, ?_⟩
  have same : ∀ place,
      (state.setGroup index other change).group place stream = state.group place stream := by
    intro place
    rw [State.setGroup_group, if_neg (fun both => apart both.2)]
  simp only [same, State.said_setGroup streams, if_neg apart, append_nil]
  exact keeping.held

/-- Lines that a parser takes or gives out, while no other one holds any. -/
theorem Keeping.setGroup_takes {lines added : List Line}
    (lru : ∀ index, state.lruParser = some index →
      index < context.parsers.length) (inside : index < context.parsers.length)
    (noKey : lines ++ added ≠ [] → (context.parser index).keyContent = none)
    (alone : ∀ other, other ≠ index → (state.group other stream).buf = [])
    (said : state.said stream ++ join newline lines =
      join newline done) (takes : Takes stream (lines ++ added) change) :
    Keeping context stream (state.setGroup index stream change) (done ++ added) := by
  obtain ⟨streams, emitted, kept, split, out, holds⟩ := takes
  refine ⟨lru, index, kept, inside, ?_, ?_, ?_, ?_⟩
  · rwa [State.setGroup_group, if_pos ⟨rfl, rfl⟩]
  · intro some
    apply noKey
    rw [split]
    simp [some]
  · intro other apart
    rw [State.setGroup_group, if_neg (fun both => apart both.1)]
    exact alone other apart
  · rw [State.said_setGroup streams, if_pos rfl, out, append_assoc, ← join_append, ← split,
      join_append, ← append_assoc, said, join_append]

section
variable (keeping : Keeping context stream state done)
include keeping

theorem Keeping.flushStream (index : Nat)
    (target : StreamId) : Keeping context stream (flushStream context index state target) done := by
  rw [Multiline.flushStream]
  by_cases apart : stream = target
  · subst apart
    obtain ⟨owner, lines, inside, holds, noKey, alone, said⟩ := keeping.held
    by_cases own : index = owner
    · subst own
      have takes : Takes stream (lines ++ [])
          (flushStreamGroup (context.parser index) stream (state.group index stream)) := by
        rw [append_nil]
        by_cases none : lines = []
        · subst none
          have empty := holds.buf_eq_nil
          refine ⟨flushStreamGroup_stream, [], [], rfl, ?_, holds_nil⟩
          rw [contents_flush_empty empty]
          rfl
        · exact takes_flush (noKey none) holds
      have kept := Keeping.setGroup_takes keeping.lru inside (by rwa [append_nil]) alone said takes
      rwa [append_nil] at kept
    · have empty := alone index own
      have records := @contents_flush_empty (context.parser index) stream
        (state.group index stream) empty
      refine ⟨keeping.lru, owner, lines, inside, ?_, noKey, ?_, ?_⟩
      · rwa [State.setGroup_group, if_neg (fun both => own both.1.symm)]
      · intro other different
        rw [State.setGroup_group]
        split
        · rfl
        · exact alone other different
      · rw [State.said_setGroup flushStreamGroup_stream, records]
        simpa using said
  · exact keeping.setGroup_other apart flushStreamGroup_stream

theorem Keeping.flushParserInstance (streamId : StreamId) (index : Nat) :
    Keeping context stream (flushParserInstance context streamId state index) done := by
  rw [Multiline.flushParserInstance]
  generalize context.streams.filter _ = targets
  induction targets generalizing state with
  | nil => exact keeping
  | cons target targets ih => exact ih (keeping.flushStream index target)

theorem Keeping.flushParsers (streamId : StreamId) (indices : List Nat) :
    Keeping context stream (indices.foldl (Multiline.flushParserInstance context streamId) state)
      done := by
  induction indices generalizing state with
  | nil => exact keeping
  | cons index indices ih => exact ih (keeping.flushParserInstance streamId index)

end

theorem flushStream_empty
    (empty : (state.group place stream).buf = [] ∨ place = index ∧ stream = target) :
    ((flushStream context index state target).group place stream).buf = [] := by
  rw [flushStream, State.setGroup_group]
  split
  · rfl
  · next other => exact empty.resolve_right other

section
variable (known : stream ∈ context.streams) (meant : streamId = 0 ∨ streamId = stream)
include known meant

theorem flushParserInstance_empty (empty : (state.group place stream).buf = [] ∨ place = index) :
    ((flushParserInstance context streamId state index).group place stream).buf = [] := by
  have listed : stream ∈ context.streams.filter fun stream =>
      streamId = 0 ∨ stream = streamId := by
    refine mem_filter.mpr ⟨known, ?_⟩
    rcases meant with zero | same
    · simp [zero]
    · simp [same]
  rw [flushParserInstance]
  replace empty : (state.group place stream).buf = [] ∨
      place = index ∧ stream ∈ context.streams.filter fun stream =>
        streamId = 0 ∨ stream = streamId :=
    empty.imp_right fun same => ⟨same, listed⟩
  clear listed
  generalize (context.streams.filter _) = targets at *
  induction targets generalizing state with
  | nil => simpa using empty
  | cons target targets ih =>
    apply ih
    rcases empty with empty | ⟨same, member⟩
    · exact .inl (flushStream_empty (.inl empty))
    · rcases mem_cons.mp member with first | later
      · exact .inl (flushStream_empty (.inr ⟨same, first⟩))
      · exact .inr ⟨same, later⟩

theorem flushParsers_empty (empty : (state.group place stream).buf = [] ∨ place ∈ indices) :
    ((indices.foldl (flushParserInstance context streamId) state).group place stream).buf = [] := by
  induction indices generalizing state with
  | nil => simpa using empty
  | cons index indices ih =>
    apply ih
    rcases empty with empty | member
    · exact .inl (flushParserInstance_empty known meant (.inl empty))
    · rcases mem_cons.mp member with first | later
      · exact .inl (flushParserInstance_empty known meant (.inr first))
      · exact .inr later

end

theorem Keeping.flushed (keeping : Keeping context stream state done)
    (known : stream ∈ context.streams) (meant : streamId = 0 ∨ streamId = stream) :
    (∀ place, ((context.indices.foldl
        (Multiline.flushParserInstance context streamId) state).group place stream).buf = []) ∧
      (context.indices.foldl
        (Multiline.flushParserInstance context streamId) state).said stream =
          join newline done := by
  have flushed := keeping.flushParsers streamId context.indices
  have empty : ∀ place, ((context.indices.foldl
      (Multiline.flushParserInstance context streamId) state).group place stream).buf = [] := by
    intro place
    apply flushParsers_empty known meant
    obtain ⟨owner, _, inside, _, _, alone, _⟩ := keeping.held
    by_cases own : place = owner
    · subst own
      exact .inr (mem_range.mpr inside)
    · exact .inl (alone place own)
  refine ⟨empty, ?_⟩
  obtain ⟨owner, lines, _, holds, _, _, said⟩ := flushed.held
  rw [empty owner] at holds
  rwa [holds.eq_nil, join_nil, append_nil] at said

theorem Keeping.of_fields {changed : State} (keeping : Keeping context stream state done)
    (group : changed.group = state.group) (records : changed.records = state.records)
    (lru : ∀ index, changed.lruParser = some index → index < context.parsers.length) :
    Keeping context stream changed done := by
  refine ⟨lru, ?_⟩
  rw [State.said, group, records]
  exact keeping.held

section
variable (keeping : Keeping context stream state done)
include keeping

section
variable (apart : stream ≠ target)
include apart

variable (line : Line)

theorem Keeping.tryParser (index : Nat) :
    Keeping context stream (tryParser context target line state index).2 done := by
  rw [Multiline.tryParser]
  split
  · exact keeping.setGroup_other apart packageContent_stream
  · exact keeping

theorem Keeping.tryParsers (inside : ∀ index ∈ indices, index < context.parsers.length) :
    Keeping context stream (tryParsers context target line indices state).2 done := by
  induction indices generalizing state with
  | nil => exact keeping
  | cons index indices ih =>
    have later : ∀ {after}, Keeping context stream after done →
        Keeping context stream (Multiline.tryParsers context target line indices after).2 done :=
      fun kept => ih kept fun other member =>
        inside other (mem_cons_of_mem _ member)
    have tried := keeping.tryParser apart line index
    rw [Multiline.tryParsers]
    split
    · exact later keeping
    · split
      · next after declined =>
        rw [declined] at tried
        exact later tried
      · next answer after _ taken =>
        rw [taken] at tried
        refine tried.of_fields ?_ ?_ ?_
        · rfl
        · rfl
        · intro used same
          cases same
          exact inside index mem_cons_self

theorem Keeping.tryLastUsed : Keeping context stream
    (tryLastUsed context target line state).2 done := by
  rw [Multiline.tryLastUsed]
  split
  · exact keeping
  · split
    · exact keeping.tryParser apart line _
    · exact keeping

theorem Keeping.appendStandalone_other :
    Keeping context stream (appendStandalone context target line state).2 done := by
  have flushed := keeping.flushParsers target context.indices
  rw [appendStandalone]
  split
  · exact flushed.setGroup_other apart flushStreamGroup_stream
  · exact flushed

theorem Keeping.appendText_other :
    Keeping context stream (appendText context state target line).2 done := by
  have shortcut := keeping.tryLastUsed apart line
  rw [appendText]
  split
  · next after declined =>
    rw [declined] at shortcut
    have loop := @Keeping.tryParsers context after stream context.indices done
      target shortcut apart line fun index member => mem_range.mp member
    split
    · next last refused =>
      rw [refused] at loop
      exact loop.appendStandalone_other apart line
    · next taken =>
      rw [taken] at loop
      exact loop
  · next taken =>
    rw [taken] at shortcut
    exact shortcut

end

end

theorem taker_inside (lru : ∀ index, state.lruParser = some index → index < context.parsers.length)
    (found : taker context state stream line = some index) : index < context.parsers.length := by
  rcases mem_append.mp (mem_of_find?_eq_some found) with used | rest
  · exact lru index (by simpa using mem_of_mem_filter used)
  · exact mem_range.mp (mem_of_mem_filter rest)

def othersEmpty (context : Context) (state : State) (stream : StreamId) (index : Nat) : Bool :=
  context.indices.all fun other =>
    other = index || (state.group other stream).buf.isEmpty

section
variable (keeping : Keeping context stream state done)
include keeping

/-- With no other parser holding lines, the one that takes a line holds all of
them. -/
theorem Keeping.held_by (others : othersEmpty context state stream index = true) :
    ∃ lines, Holds (state.group index stream).buf lines ∧
      (∀ other, other ≠ index → (state.group other stream).buf = []) ∧
      state.said stream ++ join newline lines = join newline done := by
  obtain ⟨owner, lines, inside, holds, _, alone, said⟩ := keeping.held
  have empty : ∀ other, other ≠ index →
      (state.group other stream).buf = [] := by
    intro other apart
    by_cases own : other = owner
    · subst own
      have checked := all_eq_true.mp others other (mem_range.mpr inside)
      simpa [apart] using checked
    · exact alone other own
  by_cases own : index = owner
  · subst own
    exact ⟨lines, holds, empty, said⟩
  · rw [empty owner (Ne.symm own)] at holds
    refine ⟨[], ?_, empty, ?_⟩
    · rw [alone index own]
      exact holds_nil
    · rwa [holds.eq_nil] at said

variable (known : stream ∈ context.streams) (isLine : IsLine line)
  (short : context.bufferLimit = 0 ∨ line.length ≤ context.bufferLimit)
include known isLine short

theorem Keeping.appendText_taken (found : taker context state stream line = some index)
    (stored : stores context.bufferLimit (context.parser index)
      (state.group index stream) line = true)
    (others : othersEmpty context state stream index = true) :
    Keeping context stream (appendText context state stream line).2 (done ++ [line]) := by
  obtain ⟨last, result⟩ := Multiline.appendText_taken known found
  obtain ⟨lines, holds, alone, said⟩ := keeping.held_by others
  have inside := taker_inside keeping.lru found
  have noKey : (context.parser index).keyContent = none := by
    rw [stores, Bool.and_eq_true, isNone_iff_eq_none] at stored
    exact stored.1
  have accepted : state.accepts context stream line index = true := List.find?_some found
  have takes := @takes_packageContent (context.parser index) stream (state.group index stream)
    lines context.bufferLimit line holds isLine short accepted stored
  have kept := Keeping.setGroup_takes keeping.lru inside (fun _ => noKey) alone said takes
  rw [result]
  refine kept.of_fields rfl rfl ?_
  intro used same
  cases same
  exact inside

theorem Keeping.appendText_standalone (found : taker context state stream line = none)
    (noKey : (context.parser 0).keyContent = none) :
    Keeping context stream (appendText context state stream line).2 (done ++ [line]) := by
  have flushed := keeping.flushParsers stream context.indices
  obtain ⟨empty, said⟩ := keeping.flushed known (.inr rfl)
  rw [Multiline.appendText_standalone known found, appendStandalone]
  rw [if_pos known]
  generalize context.indices.foldl (Multiline.flushParserInstance context stream) state = after at *
  have room : context.bufferLimit = 0 ∨
      (after.group 0 stream).buf.length + line.length ≤ context.bufferLimit := by
    simpa [empty 0] using short
  rw [groupCat_fits room isLine.nonempty]
  have nothing : after.said stream ++ join newline [] =
      join newline done := by
    rwa [join_nil, append_nil]
  apply Keeping.setGroup_takes flushed.lru (length_pos_iff.mpr context.nonempty) (fun _ => noKey)
    (fun other _ => empty other) nothing
  apply takes_flush noKey
  rw [empty 0]
  exact holds_nil.append isLine

end

end

def lineOf (stream : StreamId) : Event → Option Line
  | .appendText target line => if target = stream then some line else none
  | _ => none

def appended (stream : StreamId) (events : List Event) : List Line :=
  events.filterMap (lineOf stream)

theorem appended_append (stream : StreamId) (past : List Event) (event : Event) :
    appended stream (past ++ [event]) = appended stream past ++ (lineOf stream event).toList := by
  rw [appended, filterMap_append, appended]
  cases found : lineOf stream event <;> simp [found]

/-- A line of the stream is stored by the parser that takes it, and no other
parser holds lines of the stream. -/
def orderly (context : Context) (stream : StreamId) (state : State) : Event → Bool
  | .appendText target line =>
    target ≠ stream ||
      match taker context state stream line with
      | none => (context.parser 0).keyContent.isNone
      | some index =>
        stores context.bufferLimit (context.parser index) (state.group index stream) line &&
          othersEmpty context state stream index
  | _ => true

/-- The lines of a stream have bytes, but no newline, and are not longer than
the buffer may become. -/
def Admitted (context : Context) (stream : StreamId) : Event → Prop
  | .appendText target line =>
    target = stream → IsLine line ∧ (context.bufferLimit = 0 ∨ line.length ≤ context.bufferLimit)
  | _ => True

theorem keeping_initial (context : Context) (stream : StreamId) :
    Keeping context stream .initial [] :=
  { lru := nofun
    held := ⟨0, [], length_pos_iff.mpr context.nonempty, holds_nil,
      fun some => absurd rfl some, fun _ _ => rfl, rfl⟩ }

theorem Keeping.step {context : Context} {stream : StreamId} {state : State} {past : List Event}
    {event : Event} (known : stream ∈ context.streams)
    (keeping : Keeping context stream state (appended stream past))
    (order : orderly context stream state event = true) (admitted : Admitted context stream event) :
    Keeping context stream (step context state event) (appended stream (past ++ [event])) := by
  rw [appended_append]
  cases event with
  | flushPending =>
    change Keeping context stream _ (appended stream past ++ [])
    rw [append_nil]
    exact keeping.flushParsers 0 context.indices
  | flushParserInstance index streamId =>
    change Keeping context stream _ (appended stream past ++ [])
    rw [append_nil]
    exact keeping.flushParserInstance streamId index
  | appendText target line =>
    by_cases own : target = stream
    · subst own
      obtain ⟨isLine, short⟩ := admitted rfl
      rw [lineOf, if_pos rfl, toList_some]
      simp only [orderly, ne_eq, not_true_eq_false, decide_false, Bool.false_or] at order
      cases found : taker context state target line with
      | none =>
        rw [found, isNone_iff_eq_none] at order
        exact keeping.appendText_standalone known isLine short found order
      | some index =>
        rw [found, Bool.and_eq_true] at order
        exact keeping.appendText_taken known isLine short found order.1 order.2
    · rw [lineOf, if_neg own, toList_none, append_nil]
      exact keeping.appendText_other (Ne.symm own) line

/-- After a last flush, the records of a stream say exactly the lines that were
appended to it, in their order, when every line was appended in order. -/
theorem multiline_keeps_lines (context : Context) (stream : StreamId)
    (known : stream ∈ context.streams) (events : List Event)
    (admitted : ∀ event ∈ events, Admitted context stream event)
    (order : Meets (step context) (fun state event => orderly context stream state event = true)
      .initial events) :
    split newline
        ((flushPending context (events.foldl (step context) .initial)).said stream) =
      (appended stream events, []) := by
  have keeping := @Meets.history_invariant _ _ _ _ events (step context)
    (fun state past => Keeping context stream state (appended stream past))
    (fun keeping met => Keeping.step known keeping met.1 met.2) []
    (keeping_initial context stream) (order.and_forall admitted)
  have said := (keeping.flushed known (.inl rfl)).2
  have free : ∀ line ∈ appended stream events, newline ∉ line := by
    intro line member
    obtain ⟨event, listed, same⟩ := mem_filterMap.mp member
    have fine := admitted event listed
    cases event with
    | appendText target text =>
      rw [lineOf] at same
      split at same
      · next own =>
        cases same
        exact (fine own).1.free
      · cases same
    | _ => cases same
  rw [flushPending, said, nil_append]
  exact split_join free

/-- Records begin with a line that passes a test and continue with lines that
begin with a blank. -/
def regexParser (starts : Line → Bool) : Parser :=
  { type := .regex
    negate := false
    matchStr := []
    regexRules :=
      [{ fromStates := ["start_state"], toState := some "cont", regex := starts },
        { fromStates := ["cont"]
          toState := some "cont"
          regex := fun line => line.head? = some 0x20 }]
    keyContent := none }

def regexContext : Context :=
  { parsers := [regexParser (· = [0x61])]
    bufferLimit := 0
    streams := [1]
    nonempty := List.cons_ne_nil _ _ }

/-- The lines `a`, ` b` and `c`, with a flush between. -/
def regexEvents : List Event :=
  [.appendText 1 [0x61], .appendText 1 [0x20, 0x62], .flushPending, .appendText 1 [0x63]]

theorem multiline_keeps_lines_regexEvents :
    split newline
        ((flushPending regexContext (regexEvents.foldl (step regexContext) .initial)).said 1) =
      ([[0x61], [0x20, 0x62], [0x63]], []) := by
  apply multiline_keeps_lines regexContext 1 (by decide) regexEvents
  · intro event member
    have appends : ∀ line : Line, line ≠ [] → newline ∉ line → Admitted regexContext 1
      (.appendText 1 line) := fun line nonempty free _ => ⟨⟨nonempty, free⟩, .inl rfl⟩
    simp only [regexEvents, mem_cons, not_mem_nil, or_false] at member
    rcases member with rfl | rfl | rfl | rfl
    · exact appends _ (by decide) (by decide)
    · exact appends _ (by decide) (by decide)
    · trivial
    · exact appends _ (by decide) (by decide)
  · exact ⟨rfl, rfl, rfl, rfl, trivial⟩

/-- A parser that looks for a string of two bytes at the end of a line. -/
def endsWithContext : Context :=
  { parsers :=
      [{ type := .endsWith
         negate := false
         matchStr := [0x61, 0x62]
         regexRules := []
         keyContent := none }]
    bufferLimit := 0
    streams := [1]
    nonempty := List.cons_ne_nil _ _ }

def keyContext : Context :=
  { parsers :=
      [{ type := .equal
         negate := false
         matchStr := [0x61]
         regexRules := []
         keyContent := some logKey }]
    bufferLimit := 0
    streams := [1]
    nonempty := List.cons_ne_nil _ _ }

/-- A parser for records that begin with `a` and one for records that begin
with `b`. -/
def twoParsers : Context :=
  { parsers := [regexParser (· = [0x61]), regexParser (· = [0x62])]
    bufferLimit := 0
    streams := [1]
    nonempty := List.cons_ne_nil _ _ }

/-- The line `x` is lost when it is shorter than the string it should end with,
the lines `b` and `a` change places when two parsers take them, and lines under
a content key are joined. -/
theorem multiline_loses_and_reorders :
    split newline
        ((flushPending endsWithContext
          ([.appendText 1 [0x78]].foldl (step endsWithContext) .initial)).said 1) = ([], []) ∧
      split newline
        ((flushPending twoParsers
          ([.appendText 1 [0x62], .appendText 1 [0x61]].foldl (step twoParsers) .initial)).said 1) =
        ([[0x61], [0x62]], []) ∧
      split newline
        ((flushPending keyContext
          ([.appendText 1 [0x78], .appendText 1 [0x79]].foldl
            (step keyContext) .initial)).said 1) = ([], [0x78, 0x79]) :=
  ⟨rfl, rfl, rfl⟩

end FluentBit.Multiline
