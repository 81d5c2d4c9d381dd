import FluentBit.Tail.Runs

/-!
# Positions and restarts

The offset of a record is counted in the bytes that were processed.  It is the
position of the line in the file when the count starts where the reads start, no
long line is dropped, and the file is truncated only before anything of it was
processed and so that the next check finds it smaller.  The offset in the
database counts the bytes that were read: a run that stops with an unfinished
line in its buffer loses this part.
-/

namespace FluentBit.Tail

open Run List

variable {config : Config} {file : File} {origin : Nat}

/-- A file that is followed, with its size at the last check, `file->size`, and
whether it was truncated since then. -/
structure Watched where
  world : World
  size : Nat
  truncated : Bool
deriving DecidableEq, Repr

def World.watched (world : World) : Watched :=
  { world := world, size := world.content.length, truncated := false }

inductive Change where
  | event (event : Event)
  | truncate (content : List Byte)
  | check
deriving DecidableEq, Repr

def File.rewind (file : File) : File := { file with offset := 0, bufData := [] }

/-- `adjust_counters`: a truncation is noticed when the file has become smaller
than it was at the last check. -/
def adjustCounters (config : Config) (watched : Watched) : Watched :=
  { world :=
      if watched.world.content.length < watched.size then
        { watched.world with
          stored :=
            if config.db && watched.world.file.isSome then some 0
            else watched.world.stored
          file := watched.world.file.map File.rewind }
      else watched.world
    size := watched.world.content.length
    truncated := false }

/-- One change.  A file that is truncated may have new content when that is
seen; the records are those since the last truncation. -/
def follow (config : Config) (watched : Watched) : Change → Option Watched
  | .event event =>
    (step config watched.world event).map fun world => { watched with world := world }
  | .truncate content =>
    some
      { watched with
        world := { watched.world with content := content, packed := [] }
        truncated := true }
  | .check => some (adjustCounters config watched)

/-- The changes after which the count of the stream is still the position. -/
def KeepsPosition (config : Config) (origin : Nat) (watched : Watched) : Change → Prop
  | .event (.grow _) => True
  | .event event => watched.truncated = false ∧ Clean config origin watched.world event
  | .truncate _ => ∀ file ∈ watched.world.file, file.streamOffset = 0
  | .check => watched.truncated = true → watched.world.content.length < watched.size

instance (config : Config) (origin : Nat) (watched : Watched) :
    (change : Change) → Decidable (KeepsPosition config origin watched change)
  | .event (.grow _) => isTrue trivial
  | .event (.chunk _) | .event .append | .event .remove => inferInstanceAs (Decidable (_ ∧ _))
  | .truncate _ => inferInstanceAs (Decidable (∀ _ ∈ _, _))
  | .check => inferInstanceAs (Decidable (_ → _))

/-- The records are right, or none was packed since a truncation that is still to
be noticed. -/
inductive Watching (config : Config) (origin : Nat) (file : File) (watched : Watched) : Prop where
  | reading (seen : watched.truncated = false)
      (faithful : Faithful config origin origin watched.world file)
      (size : watched.size ≤ watched.world.content.length)
  | waiting (before : World) (truncated : watched.truncated = true)
      (faithful : Faithful config origin origin before file) (zero : file.streamOffset = 0)
      (fresh : watched.world.packed = [])

section
variable {world : World} {watched next : Watched}

theorem Faithful.rewind {next : World} (key : config.offsetKey = true)
    (faithful : Faithful config origin origin world file) (zero : file.streamOffset = 0)
    (fresh : next.packed = []) : Faithful config origin origin next file.rewind := by
  obtain ⟨reading, place⟩ := faithful.placed key
  obtain rfl : origin = 0 := by omega
  have follows := faithful.reading.follows
  refine ⟨⟨⟨fun _ => rfl, fun skips => ?_, ?_, follows.size⟩, Nat.le_refl _, Nat.zero_le _⟩,
    fresh, fun _ => ⟨reading, zero⟩⟩
  · exact absurd skips (by simp [File.rewind, reading])
  · exact Nat.zero_lt_of_lt follows.room

theorem Watching.follow (plain : config.preferredInputEncoding = none ∧
      config.genericInputEncoding = none)
    (key : config.offsetKey = true) (watching : Watching config origin file watched)
    (here : watched.world.file = some file) {change : Change}
    (keeps : KeepsPosition config origin watched change)
    (taken : follow config watched change = some next) :
    ∃ nextFile, next.world.file = some nextFile ∧ Watching config origin nextFile next := by
  cases change with
  | event event =>
    obtain ⟨world, stepped, rfl⟩ := Option.map_eq_some_iff.mp taken
    cases watching with
    | reading seen faithful size =>
      have clean : Clean config origin watched.world event := by
        cases event with
        | grow extra => trivial
        | chunk count | append | remove => exact keeps.2
      obtain ⟨nextFile, found, after⟩ := faithful.step plain (.inr key) here clean stepped
      refine ⟨nextFile, found, .reading seen after (size.trans ?_)⟩
      cases event with
      | append | remove => exact absurd clean id
      | grow extra =>
        cases stepped
        simp
      | chunk count =>
        obtain ⟨_, _, ⟨_, rfl⟩ | ⟨_, _, _, _, rfl⟩⟩ := step_chunk stepped <;> exact Nat.le_refl _
    | waiting before truncated faithful zero fresh =>
      cases event with
      | grow extra =>
        cases stepped
        exact ⟨file, here, .waiting before truncated faithful zero fresh⟩
      | chunk count | append | remove =>
        rw [keeps.1] at truncated
        cases truncated
  | truncate content =>
    cases taken
    refine ⟨file, here, ?_⟩
    have zero := keeps file here
    cases watching with
    | reading seen faithful size => exact .waiting watched.world rfl faithful zero rfl
    | waiting before truncated faithful _ _ => exact .waiting before rfl faithful zero rfl
  | check =>
    cases taken
    cases watching with
    | reading seen faithful size =>
      refine ⟨file, ?_, .reading rfl ?_ ?_⟩
      all_goals rw [adjustCounters, if_neg (Nat.not_lt.mpr size)]
      · exact here
      · exact faithful
    | waiting before truncated faithful zero fresh =>
      refine ⟨file.rewind, ?_, .reading rfl ?_ ?_⟩
      all_goals rw [adjustCounters, if_pos (keeps truncated)]
      · rw [here]
        rfl
      · exact faithful.rewind key zero fresh

/-- A file starts with an empty buffer; the stream starts at the offset, or at
zero when a database is used. -/
theorem fileAppend_fresh (config : Config) (world : World) :
    ∃ offset base, fileAppend config world =
        { world with
          file := some (File.fresh config offset base)
          stored := (fileAppend config world).stored } ∧
      (base = offset → offset ≤ world.content.length) := by
  rw [fileAppend]
  split
  · exact ⟨_, 0, rfl, fun same => same ▸ Nat.zero_le _⟩
  · split
    · exact ⟨0, 0, rfl, fun _ => Nat.zero_le _⟩
    · exact ⟨_, _, rfl, fun _ => Nat.le_refl _⟩

end

def earlyTruncation : List Change :=
  [.event (.chunk 1), .truncate [], .check, .event (.grow [98, 10, 99, 10]), .event (.chunk 3),
    .event (.chunk 1)]

def firstOffset (config : Config) (content : List Byte) : Nat :=
  if config.readFromHead then 0 else content.length

/-- Steps that a later run can go on from: a run stops between two lines, no
file is given up, no zero byte is lost, and an offset of zero in the database
is not taken for a new file. -/
def Resumable (config : Config) (origin : Nat) (world : World) : Event → Prop
  | .grow _ => True
  | .chunk count => ∀ file ∈ world.file,
      HeadSafe config origin world file count ∧
        (config.skipLongLines = true ∨ overflows config file = false)
  | .remove => ∀ file ∈ world.file, file.bufData = [] ∧ file.skipNext = false
  | .append => ∀ stored ∈ world.stored, 0 < stored ∨ config.readFromHead = true ∨ world.content = []

instance (config : Config) (origin : Nat) (world : World) :
    (event : Event) → Decidable (Resumable config origin world event)
  | .grow _ => isTrue trivial
  | .chunk _ | .remove => inferInstanceAs (Decidable (∀ _ ∈ _, _ ∧ _))
  | .append => inferInstanceAs (Decidable (∀ _ ∈ _, _ ∨ _))

structure Resumed (config : Config) (origin position : Nat) (world : World) : Prop where
  stored : world.stored = some position
  start : origin ≤ position
  inside : position ≤ world.content.length
  packed : world.packed.map Record.log =
    (textRecords config (fits config) 0 (world.text origin position)).map Record.log
  running : ∀ file ∈ world.file, file.offset = position ∧
    Follows config (world.text origin position) file
  stopped : world.file = none → unfinished (world.text origin position) = []

section
variable {position : Nat} {world next : World}

theorem resumed_initial (db : config.db = true) (content : List Byte) :
    Resumed config (firstOffset config content) (firstOffset config content)
      (fileAppend config (World.initial content)) := by
  have appended : fileAppend config (World.initial content) =
      { World.initial content with
        file := some (File.fresh config (firstOffset config content) 0)
        stored := some (firstOffset config content) } := by
    rw [fileAppend, if_pos db]
    rfl
  rw [appended]
  constructor
  · rfl
  · exact Nat.le_refl _
  · rw [firstOffset]
    split
    · exact Nat.zero_le _
    · exact Nat.le_refl _
  · rw [text_self]
    rfl
  · intro file here
    cases here
    rw [text_self]
    exact ⟨rfl, follows_fresh rfl _ _⟩
  · nofun

theorem Resumed.append (db : config.db = true) (resumed : Resumed config origin position world)
    (stopped : world.file = none)
    (start : 0 < position ∨ config.readFromHead = true ∨ world.content = []) :
    Resumed config origin position (fileAppend config world) := by
  have offset : (if position > 0 then position
      else if config.readFromHead then 0 else world.content.length) =
        position := by
    split
    · rfl
    · next zero =>
      have none : position = 0 := Nat.eq_zero_of_not_pos zero
      rcases start with positive | head | empty
      · exact absurd positive zero
      · rw [if_pos head, none]
      · rw [empty, none]
        split <;> rfl
  have appended : fileAppend config world =
      { world with file := some (File.fresh config position 0), stored := some position } := by
    rw [fileAppend, if_pos db, resumed.stored]
    dsimp only [Option.getD_some]
    rw [offset]
  rw [appended]
  constructor
  · rfl
  · exact resumed.start
  · exact resumed.inside
  · exact resumed.packed
  · intro file here
    cases here
    exact ⟨rfl, follows_fresh (resumed.stopped stopped) _ _⟩
  · nofun

theorem Resumed.grow (resumed : Resumed config origin position world) (extra : List Byte) :
    Resumed config origin position
      { world with content := world.content ++ extra } := by
  have text := @text_grow origin world position resumed.inside extra
  constructor
  · exact resumed.stored
  · exact resumed.start
  · rw [List.length_append]
    exact Nat.le_add_right_of_le resumed.inside
  · rw [text]
    exact resumed.packed
  · rw [text]
    exact resumed.running
  · rw [text]
    exact resumed.stopped

theorem Resumed.remove (resumed : Resumed config origin position world)
    (here : world.file = some file) (empty : file.bufData = []) (reading : file.skipNext = false) :
    Resumed config origin position { world with file := none } := by
  obtain ⟨_, follows⟩ := resumed.running file here
  constructor
  · exact resumed.stored
  · exact resumed.start
  · exact resumed.inside
  · exact resumed.packed
  · nofun
  · intro _
    exact (follows.reading reading).symm.trans empty

theorem Resumed.step (db : config.db = true)
    (plain : config.preferredInputEncoding = none ∧ config.genericInputEncoding = none)
    {event : Event} (resumed : Resumed config origin position world)
    (allowed : Resumable config origin world event) (taken : step config world event = some next) :
    ∃ position, Resumed config origin position next := by
  cases event with
  | append =>
    rw [Tail.step] at taken
    split at taken
    · cases taken
    · next stopped =>
      cases taken
      exact ⟨position, resumed.append db stopped (allowed position resumed.stored)⟩
  | grow extra =>
    cases taken
    exact ⟨position, resumed.grow extra⟩
  | remove =>
    rw [Tail.step] at taken
    split at taken
    · cases taken
    · next file here =>
      cases taken
      obtain ⟨empty, reading⟩ := allowed file here
      exact ⟨position, resumed.remove here empty reading⟩
  | chunk count =>
    obtain ⟨file, here, outcome⟩ := step_chunk taken
    obtain ⟨safe, room⟩ := allowed file here
    obtain ⟨rfl, follows⟩ := resumed.running file here
    rcases outcome with ⟨failed, _⟩ | ⟨made, room, small, available, rfl⟩
    · obtain ⟨off, full⟩ := makeRoom_none failed
      rw [off, full] at room
      exact absurd room (by decide)
    have reading : Reading config origin world file := ⟨follows, resumed.start, resumed.inside⟩
    obtain ⟨after, dropped, new, offset, lines, long, fit, packed⟩ :=
      reading.chunk_lines plain room small available safe
    obtain ⟨_, same, _⟩ := follows.makeRoom room
    have moved : (fileChunk config made
        (world.read made.offset count)).1.offset = made.offset + count := by
      rw [fileChunk_offset, length_read available]
    refine ⟨made.offset + count, ?_, ?_, available, ?_, ?_, ?_⟩
    · rw [moved, db, Bool.true_and]
      split
      · rfl
      · next zero =>
        have none : count = 0 := by simpa using zero
        rw [resumed.stored, none, same, Nat.add_zero]
    · rw [same]
      exact Nat.le_add_right_of_le resumed.start
    · have more := @lineRecords_extend config _ Record.log (fun _ _ _ => rfl)
        (finished (world.text origin file.offset)) _ _ long fit
        (0 + zeros (world.text origin (made.offset + count)))
        (0 + zeros (world.text origin file.offset)) offset
      rw [← lines, ← packed] at more
      rw [List.map_append, resumed.packed]
      exact more.symm
    · intro other found
      cases found
      exact ⟨moved, after⟩
    · intro stopped
      cases stopped

end

/-- When every run stops between two lines, the records of all runs are those
of the lines of the file, each once and in order. -/
theorem restart_keeps_lines (config : Config) (db : config.db = true)
    (plain : config.preferredInputEncoding = none ∧
      config.genericInputEncoding = none) (content : List Byte)
    (world : World)
    (reached : Reaches (step config) (Resumable config (firstOffset config content))
      (fileAppend config (World.initial content)) world) :
    ∃ position, world.stored = some position ∧ (∀ file ∈ world.file, file.offset = position) ∧
      world.packed.map Record.log =
        (textRecords config (fits config) 0
          (world.text (firstOffset config content) position)).map Record.log := by
  have resumed : ∃ position,
      Resumed config (firstOffset config content) position world := by
    apply reached.invariant ⟨_, resumed_initial db content⟩
    intro current next event known allowed taken
    obtain ⟨position, before⟩ := known
    exact before.step db plain allowed taken
  obtain ⟨position, final⟩ := resumed
  exact ⟨position, final.stored, fun file here => (final.running file here).1, final.packed⟩

def databaseConfig : Config :=
  { smallBuffer false with db := true }

def stopBetweenLines : List Event := [.chunk 2, .remove, .grow [99, 10], .append, .chunk 3]

theorem restart_keeps_lines_between :
    ∃ world, run (step databaseConfig) (fileAppend databaseConfig (World.initial [97, 10, 98]))
        stopBetweenLines = some world ∧
      ∃ position, world.stored = some position ∧
        world.packed.map Record.log =
          (textRecords databaseConfig (fits databaseConfig) 0
            (world.text 0 position)).map Record.log := by
  obtain ⟨world, taken⟩ : ∃ world, runGuarded (step databaseConfig) (Resumable databaseConfig 0)
      (fileAppend databaseConfig (World.initial [97, 10, 98]))
      stopBetweenLines = some world := ⟨_, rfl⟩
  obtain ⟨position, stored, _, packed⟩ := restart_keeps_lines databaseConfig
    rfl ⟨rfl, rfl⟩ [97, 10, 98] world (Reaches.refl.of_runGuarded taken)
  cases taken
  exact ⟨_, rfl, position, stored, packed⟩

def stopInLine : List Event := [.chunk 3, .remove, .grow [99, 10], .append, .chunk 2]

theorem restart_loses_part_of_line :
    (run (step databaseConfig) (fileAppend databaseConfig (World.initial [97, 10, 98]))
        stopInLine).map
        (fun world => (world.content, world.packed.map Record.log)) =
      some ([97, 10, 98, 99, 10], [[97], [99]]) ∧
    finished [97, 10, 98, 99, 10] = [[97], [98, 99]] :=
  ⟨rfl, rfl⟩

end FluentBit.Tail
