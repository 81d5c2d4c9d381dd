import FluentBit.Tail

/-!
# Runs of reads

Whatever the sizes of the reads and of the buffer are, the records of a run are
those of the lines that fit into the largest buffer.  A zero byte at the head
of the buffer and, with an offset key, a line that is dropped are the two cases
in which this fails.  With a parser a line becomes a map, or its text with the
carriage return when the parser, which does not get it, fails.
-/

namespace FluentBit.Tail

open Run List Lines

variable {file : File} {base : Nat}

section
variable (config : Config)

/-- The records of a text that follows the bytes before an offset. -/
def textRecords (keep : List Byte → Bool) (offset : Nat) (text : List Byte) : List Record :=
  lineRecords config keep (offset + zeros text) (finished text)

/-- The records of a text that is read at once, into a buffer that holds it. -/
def wholeRead (streamOffset : Nat) (text : List Byte) : List Record :=
  (processContent config
    { bufData := text
      bufSize := text.length + 1
      skipNext := false
      offset := text.length
      streamOffset := streamOffset }).1.records

def World.read (world : World) (offset count : Nat) : List Byte :=
  (world.content.drop offset).take count

def World.text (world : World) (origin offset : Nat) : List Byte :=
  (world.content.take offset).drop origin

/-- A read finds a zero byte at the head of the buffer only while nothing else
was read. -/
def HeadSafe (origin : Nat) (world : World) (file : File) (count : Nat) : Prop :=
  (file.skipNext || overflows config file) = false →
    (file.bufData ++ world.read file.offset count).head? = some nul →
      ∀ byte ∈ world.text origin file.offset, byte = nul

/-- Reads that keep the records right: no zero byte is lost, and no long line
is dropped when the records have offsets. -/
def Clean (origin : Nat) (world : World) : Event → Prop
  | .grow _ => True
  | .chunk count => ∀ file ∈ world.file,
      HeadSafe config origin world file count ∧
        (config.offsetKey = true → overflows config file = false)
  | _ => False

instance (origin : Nat) (world : World) (file : File) (count : Nat) :
    Decidable (HeadSafe config origin world file count) :=
  inferInstanceAs (Decidable (_ → _ → ∀ byte ∈ _, byte = nul))

instance (origin : Nat) (world : World) :
    (event : Event) → Decidable (Clean config origin world event)
  | .grow _ => isTrue trivial
  | .chunk _ => inferInstanceAs (Decidable (∀ _ ∈ _, _ ∧ (_ → _)))
  | .append | .remove => isFalse id

/-- A file that was opened at an offset, before the first read. -/
def World.opened (content : List Byte) (origin streamOffset : Nat) : World :=
  { content := content
    stored := none
    file := some (File.fresh config origin streamOffset)
    packed := [] }

variable {config} {origin : Nat} {world : World} {made : File} {keep : List Byte → Bool}
  {offset count : Nat}

theorem text_add (start : origin ≤ offset) (inside : offset ≤ world.content.length) (count : Nat) :
    world.text origin (offset + count) = world.text origin offset ++ world.read offset count := by
  have length : origin ≤ (world.content.take offset).length := by
    rw [length_take]
    omega
  rw [World.text, World.text, World.read, take_add, drop_append_of_le_length length]

theorem text_grow (inside : offset ≤ world.content.length) (extra : List Byte) :
    { world with content := world.content ++ extra }.text origin offset =
      world.text origin offset := by
  rw [World.text, World.text, take_append_of_le_length inside]

theorem text_self (world : World) (offset : Nat) : world.text offset offset = [] := by
  apply drop_eq_nil_of_le
  rw [length_take]
  exact Nat.min_le_left _ _

theorem wholeRead_eq (plain : config.preferredInputEncoding = none ∧
      config.genericInputEncoding = none)
    (streamOffset : Nat) (text : List Byte) :
    wholeRead config streamOffset text = textRecords config (fun _ => true) streamOffset text := by
  have fresh : ({ bufData := text
                  bufSize := text.length + 1
                  skipNext := false
                  offset := text.length
                  streamOffset := streamOffset } : File).skipNext = false :=
    rfl
  exact (processContent_plain plain fresh).2.1

structure Reading (config : Config) (origin : Nat) (world : World) (file : File) : Prop where
  follows : Follows config (world.text origin file.offset) file
  start : origin ≤ file.offset
  inside : file.offset ≤ world.content.length

theorem Reading.grow (reading : Reading config origin world file) (extra : List Byte) :
    Reading config origin { world with content := world.content ++ extra }
      file := by
  constructor
  · rw [text_grow reading.inside]
    exact reading.follows
  · exact reading.start
  · rw [length_append]
    exact Nat.le_add_right_of_le reading.inside

theorem fileChunk_offset (file : File) (data : List Byte) :
    (fileChunk config file data).1.offset = file.offset + data.length := by
  by_cases empty : data = []
  · rw [empty, fileChunk_nil]
    rfl
  · rw [fileChunk_eq empty]
    rfl

theorem length_read (available : offset + count ≤ world.content.length) :
    (world.read offset count).length = count := by
  rw [World.read, length_take, length_drop]
  omega

theorem step_chunk {next : World} (taken : step config world (.chunk count) = some next) :
    ∃ file, world.file = some file ∧
      ((makeRoom config file = none ∧ next = { world with file := none }) ∨
      ∃ made, makeRoom config file = some made ∧ count ≤ made.capacity ∧
        made.offset + count ≤ world.content.length ∧
        next =
          { world with
            file := some (fileChunk config made (world.read made.offset count)).1
            stored :=
              if config.db && 0 < count then
                some (fileChunk config made (world.read made.offset count)).1.offset
              else world.stored
            packed := world.packed ++
              (fileChunk config made (world.read made.offset count)).2 }) := by
  rw [Tail.step] at taken
  split at taken
  · cases taken
  · next file here =>
    refine ⟨file, here, ?_⟩
    split at taken
    · next failed =>
      cases taken
      exact .inl ⟨failed, rfl⟩
    · next made room =>
      split at taken
      · next possible =>
        cases taken
        exact .inr ⟨made, room, possible.1, possible.2, rfl⟩
      · cases taken

/-- What `HeadSafe` says about the buffer with room for the read. -/
theorem Reading.head_safe (reading : Reading config origin world file)
    (room : makeRoom config file = some made) (safe : HeadSafe config origin world file count)
    (skip : made.skipNext = false) :
    (made.bufData ++ world.read file.offset count).head? = some nul →
      ∀ byte ∈ world.text origin file.offset, byte = nul := by
  obtain ⟨follows, _, _, flag⟩ := reading.follows.makeRoom room
  rw [skip, eq_comm] at flag
  have before : file.skipNext = false := (Bool.or_eq_false_iff.mp flag).1
  have same : made.bufData = file.bufData := by
    rw [follows.reading skip, reading.follows.reading before]
  rw [same]
  exact safe flag

section
variable (plain : config.preferredInputEncoding = none ∧ config.genericInputEncoding = none)
include plain

variable (reading : Reading config origin world file) (room : makeRoom config file = some made)
  (small : count ≤ made.capacity) (available : made.offset + count ≤ world.content.length)
  (safe : HeadSafe config origin world file count)
include reading room small available safe

/-- A read adds records for the lines it finishes, except for one that was
skipped. -/
theorem Reading.chunk_lines :
    Follows config (world.text origin (made.offset + count))
        (fileChunk config made (world.read made.offset count)).1 ∧
      ∃ dropped new offset,
        finished (world.text origin (made.offset + count)) =
          finished (world.text origin file.offset) ++ (dropped ++ new) ∧
        (∀ line ∈ dropped, fits config line = false) ∧
        (∀ line ∈ new, fits config line = true) ∧
        (fileChunk config made
          (world.read made.offset count)).2 = lineRecords config (fun _ => true) offset new := by
  obtain ⟨follows, offset, _, skip⟩ := reading.follows.makeRoom room
  have length := length_read available
  rw [offset] at length available ⊢
  rw [text_add reading.start reading.inside]
  by_cases empty : world.read file.offset count = []
  · rw [empty, append_nil, fileChunk_nil]
    exact ⟨follows, [], [], 0, (append_nil _).symm, nofun, nofun, rfl⟩
  · rw [← length] at small
    cases flag : made.skipNext with
    | true => exact follows.chunk_skipping plain flag empty small
    | false =>
      have head := reading.head_safe room safe flag
      obtain ⟨next, _, _, new, lines, _, _, fit, records, _⟩ :=
        follows.chunk_reading plain flag empty small head
      exact ⟨next, [], new, _, lines, nofun, fit, records⟩

theorem Reading.chunk_placed (skip : file.skipNext = false)
    (keeps : overflows config file = false)
    (placed : file.streamOffset = base + zeros (world.text origin file.offset) +
      (join lineFeed (finished (world.text origin file.offset))).length) :
    (fileChunk config made (world.read made.offset count)).1.skipNext = false ∧
      (fileChunk config made (world.read made.offset count)).1.streamOffset =
        base + zeros (world.text origin (made.offset + count)) +
          (join lineFeed (finished (world.text origin (made.offset + count)))).length ∧
      textRecords config (fits config) base (world.text origin (made.offset + count)) =
        textRecords config (fits config) base (world.text origin file.offset) ++
          (fileChunk config made (world.read made.offset count)).2 := by
  obtain ⟨follows, offset, stream, flag⟩ := reading.follows.makeRoom room
  have length := length_read available
  rw [skip, keeps, Bool.or_false] at flag
  rw [offset] at length available ⊢
  rw [text_add reading.start reading.inside]
  by_cases empty : world.read file.offset count = []
  · rw [empty, append_nil, fileChunk_nil, append_nil]
    exact ⟨flag, stream.trans placed, rfl⟩
  · rw [← length] at small
    have head := reading.head_safe room safe flag
    obtain ⟨_, skipped, zeroCount, new, lines, front, first, fit, records,
      moved⟩ := follows.chunk_reading plain flag empty small head
    refine ⟨skipped, ?_, ?_⟩
    · rw [moved, stream, placed, lines, front, join_append, length_append]
      omega
    · -- Zero bytes are added in front of the first line only.
      have same : lineRecords config (fits config)
          (base + (zeros (world.text origin file.offset) + zeroCount))
          (finished (world.text origin file.offset)) =
        lineRecords config (fits config) (base + zeros (world.text origin file.offset))
          (finished (world.text origin file.offset)) := by
        rcases first with none | zero
        · rw [none]
          rfl
        · rw [zero, Nat.add_zero]
      have place : base + (zeros (world.text origin file.offset) +
          zeroCount) + (join lineFeed (finished (world.text origin file.offset))).length =
          made.streamOffset + zeroCount := by
        omega
      rw [textRecords, textRecords, front, lines, lineRecords_append, same, records, place]
      congr 1
      exact lineRecords_congr fit

end

/-- The records are those of the lines that fit, with their offsets. -/
structure Faithful (config : Config) (origin base : Nat) (world : World) (file : File) : Prop where
  reading : Reading config origin world file
  records : world.packed = textRecords config (fits config) base (world.text origin file.offset)
  placed : config.offsetKey = true → file.skipNext = false ∧
    file.streamOffset = base + zeros (world.text origin file.offset) +
      (join lineFeed (finished (world.text origin file.offset))).length

theorem faithful_fresh (inside : origin ≤ world.content.length) (fresh : world.packed = []) :
    Faithful config origin base world (File.fresh config origin base) := by
  have none : world.text origin (File.fresh config origin base).offset = [] := text_self _ _
  constructor
  · constructor
    · rw [none]
      exact follows_fresh rfl origin base
    · exact Nat.le_refl _
    · exact inside
  · rw [none, fresh]
    rfl
  · intro _
    rw [none]
    exact ⟨rfl, rfl⟩

theorem lineRecords_extend {β : Type} {view : Record → β}
    (same : ∀ offset other text,
      view (packLine config offset text) = view (packLine config other text))
    (lines : List (List Byte)) {dropped new : List (List Byte)}
    (long : ∀ line ∈ dropped, fits config line = false)
    (fit : ∀ line ∈ new, fits config line = true) (start other offset : Nat) :
    (lineRecords config (fits config) start (lines ++ (dropped ++ new))).map view =
      (lineRecords config (fits config) other lines).map view ++
        (lineRecords config (fun _ => true) offset new).map view := by
  have before := @lineRecords_map config (fits config) _ view same start other lines
  rw [lineRecords_append, lineRecords_append, lineRecords_none long,
    nil_append, lineRecords_congr fit, map_append, before]
  congr 1
  exact lineRecords_map same _ offset new

theorem makeRoom_none (failed : makeRoom config file = none) :
    config.skipLongLines = false ∧ overflows config file = true := by
  rw [makeRoom] at failed
  split at failed
  · next full =>
    split at failed
    · next largest =>
      split at failed
      · cases failed
      · next off =>
        refine ⟨by simpa using off, ?_⟩
        simp [overflows, full, largest]
    · cases failed
  · cases failed

theorem Faithful.step
    (plain : config.preferredInputEncoding = none ∧ config.genericInputEncoding = none)
    (skips : config.skipLongLines = true ∨ config.offsetKey = true) {event : Event} {next : World}
    (faithful : Faithful config origin base world file) (here : world.file = some file)
    (clean : Clean config origin world event) (taken : step config world event = some next) :
    ∃ nextFile, next.file = some nextFile ∧ Faithful config origin base next nextFile := by
  obtain ⟨reading, records, placed⟩ := faithful
  cases event with
  | append | remove => exact absurd clean id
  | grow extra =>
    cases taken
    refine ⟨file, here, reading.grow extra, ?_, ?_⟩
    · rw [text_grow reading.inside]
      exact records
    · rw [text_grow reading.inside]
      exact placed
  | chunk count =>
    obtain ⟨safe, keeps⟩ := clean file here
    obtain ⟨known, same, outcome⟩ := step_chunk taken
    rw [here] at same
    cases same
    rcases outcome with ⟨failed, _⟩ | ⟨made, room, small, available, rfl⟩
    · obtain ⟨off, full⟩ := makeRoom_none failed
      rcases skips with on | key
      · rw [off] at on
        cases on
      · rw [full] at keeps
        cases keeps key
    obtain ⟨follows, dropped, new, offset, lines, long, fit, packed⟩ :=
      reading.chunk_lines plain room small available safe
    obtain ⟨_, same, _⟩ := reading.follows.makeRoom room
    have length := length_read available
    have moved : (fileChunk config made
        (world.read made.offset count)).1.offset = made.offset + count := by
      rw [fileChunk_offset, length]
    refine ⟨_, rfl, ⟨?_, ?_, ?_⟩, ?_, ?_⟩
    · rw [moved]
      exact follows
    · rw [moved, same]
      exact Nat.le_add_right_of_le reading.start
    · rw [moved]
      exact available
    · rw [moved]
      cases key : config.offsetKey with
      | true =>
        obtain ⟨skip, stream⟩ := placed key
        have exact := (reading.chunk_placed plain room small available
          safe skip (keeps key) stream).2.2
        rw [records]
        exact exact.symm
      | false =>
        have more := @lineRecords_extend config _ id
          (fun _ _ _ => by simp only [packLine, key]; rfl)
          (finished (world.text origin file.offset)) _ _ long fit
          (base + zeros (world.text origin (made.offset + count)))
          (base + zeros (world.text origin file.offset)) offset
        rw [← lines, ← packed, map_id, map_id, map_id] at more
        rw [records]
        exact more.symm
    · intro key
      rw [moved]
      obtain ⟨skip, stream⟩ := placed key
      obtain ⟨skipped, place, _⟩ := reading.chunk_placed plain room small
        available safe skip (keeps key) stream
      exact ⟨skipped, place⟩

end

/-- The records of a run of reads are those of the text that was read, and
those of a whole read of it, except for the lines that do not fit. -/
theorem read_boundaries_do_not_matter (config : Config)
    (plain : config.preferredInputEncoding = none ∧ config.genericInputEncoding = none)
    (skips : config.skipLongLines = true) (content : List Byte)
    (origin base : Nat) (inside : origin ≤ content.length) (world : World)
    (reached : Reaches (step config) (Clean config origin)
      (World.opened config content origin base) world) :
    ∃ file, world.file = some file ∧
      world.packed = textRecords config (fits config) base (world.text origin file.offset) ∧
      wholeRead config base (world.text origin file.offset) =
        textRecords config (fun _ => true) base (world.text origin file.offset) := by
  have followed : ∃ file, world.file = some file ∧
      Faithful config origin base world file := by
    apply reached.invariant ⟨_, rfl, faithful_fresh inside rfl⟩
    intro current next event known clean taken
    obtain ⟨file, here, faithful⟩ := known
    exact faithful.step plain (.inl skips) here clean taken
  obtain ⟨file, here, faithful⟩ := followed
  exact ⟨file, here, faithful.records, wholeRead_eq plain base _⟩

def smallBuffer (offsetKey : Bool) : Config :=
  { bufChunkSize := 4
    bufMaxSize := 6
    skipLongLines := true
    skipEmptyLines := false
    offsetKey := offsetKey
    db := false
    readFromHead := true
    preferredInputEncoding := none
    genericInputEncoding := none
    chunk_pos := by decide
    chunk_le := by decide }

/-- Three lines, of which the second is too long. -/
def threeLines : List Byte := [97, 98, 10, 120, 120, 120, 120, 120, 120, 120, 10, 99, 13, 10]

def threeLinesReads : List Event := [.chunk 3, .chunk 3, .chunk 2, .chunk 1, .chunk 3, .chunk 2]

theorem read_boundaries_do_not_matter_threeLines :
    ∃ world, run (step (smallBuffer false))
        (World.opened (smallBuffer false) threeLines 0 0) threeLinesReads = some world ∧
      world.packed = textRecords (smallBuffer false) (fits (smallBuffer false)) 0 threeLines ∧
      world.packed.map Record.log = [[97, 98], [99]] := by
  obtain ⟨world, taken⟩ : ∃ world, runGuarded (step (smallBuffer false)) (Clean (smallBuffer false)
      0) (World.opened (smallBuffer false) threeLines 0 0) threeLinesReads = some world := ⟨_, rfl⟩
  obtain ⟨file, here, packed, _⟩ := read_boundaries_do_not_matter (smallBuffer false) ⟨rfl, rfl⟩
    rfl threeLines 0 0 (Nat.zero_le _) world (Reaches.refl.of_runGuarded taken)
  cases taken
  cases here
  exact ⟨_, rfl, packed, rfl⟩

/-- A line that begins with a zero byte, at the head of the second read. -/
def zeroAtHead : List Byte := [97, 10, 0, 98, 10]

/-- A long line is dropped in front of the second line. -/
def longLineFirst : List Byte := [120, 120, 120, 120, 120, 120, 10, 97, 10]

theorem read_boundaries_matter :
    (run (step (smallBuffer false)) (World.opened (smallBuffer false) zeroAtHead 0 0)
        [.chunk 2, .chunk 3]).map (fun world => world.packed.map Record.log) =
      some [[97], [98]] ∧
    (wholeRead (smallBuffer false) 0 zeroAtHead).map Record.log = [[97], [0, 98]] ∧
    (run (step (smallBuffer true)) (World.opened (smallBuffer true) longLineFirst 0 0)
        [.chunk 3, .chunk 2, .chunk 3, .chunk 1]).map World.packed =
      some [{ offset := some 2, log := [97] }] ∧
    textRecords (smallBuffer true) (fits (smallBuffer true)) 0 longLineFirst =
      [{ offset := some 7, log := [97] }] :=
  ⟨rfl, rfl, rfl, rfl⟩

variable {Map : Type} (config : Config) (parser : Option (List Byte → Option Map))

inductive Packed (Map : Type) where
  | text (record : Record)
  | map (offset : Option Nat) (fields : Map)

/-- `line` and `line_len` of `process_content`. -/
def withoutReturn (line : List Byte) : List Byte :=
  let crlf := if line.length ≥ 2 && line.getLast? = some carriageReturn then 1 else 0
  line.take (line.length - crlf)

/-- The end of a round of the loop of `process_content`.  A parser that fails
leaves the line to be packed as it stands in the buffer. -/
def packParsed (offset : Nat) (line : List Byte) : Packed Map :=
  match parser with
  | none => .text (packLine config offset (withoutReturn line))
  | some parse =>
    match parse (withoutReturn line) with
    | some fields => .map (if config.offsetKey then some offset else none) fields
    | none => .text (packLine config offset line)

def packRound (offset : Nat) (line : List Byte) : List (Packed Map) :=
  if config.skipEmptyLines && line.length = 0 then []
  else if config.skipEmptyLines && line = [carriageReturn] then []
  else [packParsed config parser offset line]

def packLines : Nat → List (List Byte) → List (List (Packed Map))
  | _, [] => []
  | offset, line :: lines =>
    packRound config parser offset line :: packLines (offset + line.length + 1) lines

/-- What `process_content` packs for each line of the buffer. -/
def processParsed (file : File) : List (List (Packed Map)) :=
  let decoded := decodeGeneric config (decodePreferred config file.bufData)
  let (data, zeros) := skipLeadingZeros decoded.data
  let offset := file.streamOffset + decoded.processedBytes + zeros
  match file.skipNext, (split lineFeed data).1 with
  | true, line :: lines => [] :: packLines config parser (offset + line.length + 1) lines
  | _, lines => packLines config parser offset lines

/-- The bytes of a line without its terminator, which is a line feed that may
follow a carriage return. -/
def lineText (line : List Byte) : List Byte :=
  if line.getLast? = some carriageReturn then line.dropLast else line

/-- Nothing is packed for an empty line that is skipped; for any other line it
is a map or the text of the line. -/
def PacksText (line : List Byte) (packed : List (Packed Map)) : Prop :=
  if config.skipEmptyLines = true ∧ lineText line = [] then packed = []
  else ∃ one, packed = [one] ∧ ∀ record, one = .text record → record.log = lineText line

/-- A line that ends with a carriage return is skipped, becomes a map, or is
longer than that and meets no parser. -/
def ReturnRemoved (line : List Byte) : Prop :=
  line.getLast? = some carriageReturn →
    (config.skipEmptyLines = true ∧ line = [carriageReturn]) ∨
      (parser = none ∧ 2 ≤ line.length) ∨
      ∃ parse ∈ parser, (parse (withoutReturn line)).isSome

variable {config parser}

theorem packRound_none (offset : Nat) (line : List Byte) :
    packRound config (none : Option (List Byte → Option Map)) offset line =
      (lineRecord config offset line).map .text := by
  by_cases skipped : config.skipEmptyLines = true ∧ (line = [] ∨ line = [carriageReturn])
  · obtain ⟨on, rfl | rfl⟩ := skipped <;> simp [packRound, lineRecord, on]
  · rw [lineRecord, if_neg skipped]
    rw [and_or_left, not_or] at skipped
    split
    · next crlf => simp [packRound, skipped, packParsed, withoutReturn, crlf, dropLast_eq_take]
    · next other => simp [packRound, skipped, packParsed, withoutReturn, other]

/-- Without a parser the records are those of `processContent`. -/
theorem processParsed_none (reading : file.skipNext = false) :
    (processParsed config (none : Option (List Byte → Option Map)) file).flatten =
      (processContent config file).1.records.map .text := by
  have each : ∀ (lines : List (List Byte)) (offset : Nat),
      (packLines config (none : Option (List Byte → Option Map)) offset lines).flatten =
        (lineRecords config (fun _ => true) offset lines).map .text := by
    intro lines
    induction lines with
    | nil => exact fun _ => rfl
    | cons line lines ih =>
      intro offset
      rw [packLines, flatten_cons, packRound_none, ih, lineRecords, if_pos rfl, map_append]
  simp only [processParsed, processContent, reading, each]
  generalize decodeGeneric config (decodePreferred config file.bufData) = decoded
  obtain ⟨count, loop⟩ := @processLines_eq config file.streamOffset
    (decoded.processedBytes + (skipLeadingZeros decoded.data).2) 0 []
    (split lineFeed (skipLeadingZeros decoded.data).1).1
  rw [loop, nil_append, Nat.add_assoc]

variable {line : List Byte}

theorem lineText_eq_nil_iff : lineText line = [] ↔ line = [] ∨ line = [carriageReturn] := by
  rcases eq_nil_or_concat' line with rfl | ⟨front, byte, rfl⟩
  · simp [lineText]
  · by_cases ends : byte = carriageReturn
    · simp [lineText, ends]
    · simp [lineText, ends, append_eq_singleton_iff]

theorem lineText_ne (ends : line.getLast? = some carriageReturn) : lineText line ≠ line := by
  obtain ⟨front, rfl⟩ := getLast?_eq_some_iff.mp ends
  simp [lineText]

theorem withoutReturn_eq :
    withoutReturn line = if 2 ≤ line.length then lineText line else line := by
  by_cases ends : line.getLast? = some carriageReturn
  · by_cases long : 2 ≤ line.length
    · simp [withoutReturn, lineText, ends, long, dropLast_eq_take]
    · simp [withoutReturn, long]
  · simp [withoutReturn, lineText, ends]

theorem packParsed_text_iff (offset : Nat) :
    (∀ record, packParsed config parser offset line = .text record → record.log = lineText line) ↔
      (line.getLast? = some carriageReturn → (parser = none ∧ 2 ≤ line.length) ∨
        ∃ parse ∈ parser, (parse (withoutReturn line)).isSome) := by
  by_cases ends : line.getLast? = some carriageReturn
  · have longer := (lineText_ne ends).symm
    cases parser with
    | none => by_cases long : 2 ≤ line.length <;>
        simp [packParsed, packLine, withoutReturn_eq, ends, long, longer]
    | some parse =>
      cases parsed : parse (withoutReturn line) with
      | none => simp [packParsed, parsed, packLine, ends, longer]
      | some fields => simp [packParsed, parsed]
  · have same : lineText line = line := if_neg ends
    cases parser with
    | none => simp [packParsed, packLine, withoutReturn_eq, ends, same]
    | some parse =>
      cases parsed : parse (withoutReturn line) with
      | none => simp [packParsed, parsed, packLine, ends, same]
      | some fields => simp [packParsed, parsed, ends]

theorem packsText_packRound (offset : Nat) :
    PacksText config line (packRound config parser offset line) ↔
      ReturnRemoved config parser line := by
  by_cases skipped : config.skipEmptyLines = true ∧ (line = [] ∨ line = [carriageReturn])
  · obtain ⟨on, rfl | rfl⟩ := skipped
    · simp [PacksText, ReturnRemoved, packRound, lineText, on]
    · simp [PacksText, ReturnRemoved, packRound, lineText, on]
  · have kept : packRound config parser offset line = [packParsed config parser offset line] := by
      rw [and_or_left, not_or] at skipped
      simp [packRound, skipped]
    have never : ¬(config.skipEmptyLines = true ∧ line = [carriageReturn]) :=
      fun only => skipped ⟨only.1, .inr only.2⟩
    rw [← lineText_eq_nil_iff] at skipped
    rw [PacksText, if_neg skipped, kept, ReturnRemoved]
    simp only [never, false_or, cons.injEq, and_true, exists_eq_left']
    exact packParsed_text_iff offset

theorem packsText_packLines (offset : Nat) (lines : List (List Byte)) :
    Forall₂ (PacksText config) lines (packLines config parser offset lines) ↔
      ∀ line ∈ lines, ReturnRemoved config parser line := by
  induction lines generalizing offset with
  | nil => simp [packLines]
  | cons line lines ih => rw [packLines, forall₂_cons, packsText_packRound, ih, forall_mem_cons]

theorem lines_give_their_text {file : File} {lines : List (List Byte)}
    (complete : ∀ line ∈ lines, lineFeed ∉ line)
    (buffer : (decodeGeneric config (decodePreferred config file.bufData)).data =
      join lineFeed lines)
    (head : (join lineFeed lines).head? ≠ some nul) (reading : file.skipNext = false) :
    Forall₂ (PacksText config) lines (processParsed config parser file) ↔
      ∀ line ∈ lines, ReturnRemoved config parser line := by
  simp only [processParsed, buffer, skipLeadingZeros_of_head head, split_join complete,
    reading]
  exact packsText_packLines _ lines

/-- Without a parser a line gives its text, with a carriage return or not. -/
theorem lines_give_their_text_plain :
    Forall₂ (PacksText (smallBuffer false)) [[97, 13], [98]]
      (processParsed (smallBuffer false) (none : Option (List Byte → Option Unit))
        { File.fresh (smallBuffer false) 0 0 with bufData := [97, 13, 10, 98, 10] }) := by
  apply (lines_give_their_text (by decide) rfl (by decide) rfl).mpr
  simp [ReturnRemoved, carriageReturn]

/-- A parser that fails leaves the carriage return in the text, also of a line
that holds nothing else. -/
theorem rejected_line_keeps_return :
    processParsed (smallBuffer false) (some fun _ => (none : Option Unit))
        { File.fresh (smallBuffer false) 0 0 with bufData := [97, 13, 10, 13, 10] } =
      [[.text { offset := none, log := [97, 13] }], [.text { offset := none, log := [13] }]] ∧
    [[97, 13], [13]].map lineText = [[97], []] :=
  ⟨rfl, rfl⟩

end FluentBit.Tail
