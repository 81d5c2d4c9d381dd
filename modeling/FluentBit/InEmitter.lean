import FluentBit.Lib.CString

/-!
# The emitter

Filters hand records with a new tag to a hidden input, the emitter.  It keeps
them in one chunk for every tag, or in a ring buffer when the filter runs in
another thread.  What the allocator, the ring buffer and the memory limit
answer while a record is added is given from outside.
-/

namespace FluentBit.InEmitter

abbrev Tag := List Byte

abbrev Input := Nat

structure EmChunk where
  tag : Tag
  data : List Byte
deriving DecidableEq, Repr

/-- `struct flb_emitter`.  `msgs` is there when the emitter has a ring buffer.
`pausedInputs` are the inputs it asked to pause. -/
structure Emitter where
  chunks : List EmChunk
  msgs : Option (List EmChunk)
  inputs : List Input
  pausedInputs : List Input
deriving DecidableEq, Repr

/-- What is answered while a record is added: whether the reference to the
source, the copy of the tag and a new chunk can be allocated, whether the
emitter and the source are paused, the free bytes of the ring buffer, and
whether `msgpack_sbuffer_write` gets memory for the record. -/
structure Answers where
  reference : Bool
  emitterPaused : Bool
  sourcePaused : Bool
  tagCopied : Bool
  ringFree : Nat
  chunkCreated : Bool
  written : Bool
deriving DecidableEq, Repr

def emitterBusy : Int := -2

def filterNoTouch : Int := 2

def emChunkSize : Nat := 64

/-- `flb_sds_cmp(tag, other, len) == 0`. -/
def sdsCmpEq (tag other : Tag) : Bool :=
  decide (tag.length = other.length) && strncmpEq other.length tag other

def appendToChunk (tag : Tag) (data : List Byte) : List EmChunk → Option (List EmChunk)
  | [] => none
  | chunk :: chunks =>
    if sdsCmpEq chunk.tag tag then
      some ({ chunk with data := chunk.data ++ data } :: chunks)
    else (appendToChunk tag data chunks).map (chunk :: ·)

/-- The part of `in_emitter_add_record` that remembers the source. -/
def addReference (emitter : Emitter) (answers : Answers) (source : Input) : Option Emitter :=
  if source ∈ emitter.inputs then some emitter
  else if answers.reference then
    some
      { emitter with
        inputs := emitter.inputs ++ [source]
        pausedInputs :=
          if answers.emitterPaused && !answers.sourcePaused then
            emitter.pausedInputs ++ [source]
          else emitter.pausedInputs }
  else none

/-- `flb_ring_buffer_write` of one chunk. -/
def ringBufferWrite (emitter : Emitter) (answers : Answers)
    (msgs : List EmChunk) (chunk : EmChunk) : Int × Emitter :=
  if answers.ringFree < emChunkSize then (-1, emitter)
  else (0, { emitter with msgs := some (msgs ++ [chunk]) })

/-- What `msgpack_sbuffer_write` leaves of a record; its result is ignored. -/
def stored (answers : Answers) (data : List Byte) : List Byte :=
  if answers.written then data else []

def inEmitterAddRecord (emitter : Emitter) (answers : Answers) (tag : Tag)
    (data : List Byte) (source : Input) : Int × Emitter :=
  match addReference emitter answers source with
  | none => (filterNoTouch, emitter)
  | some emitter =>
    if answers.emitterPaused then (emitterBusy, emitter)
    else
      match emitter.msgs with
      | some msgs =>
        if answers.tagCopied then
          ringBufferWrite emitter answers msgs { tag := tag, data := stored answers data }
        else (-1, emitter)
      | none =>
        match appendToChunk tag (stored answers data) emitter.chunks with
        | some chunks => (0, { emitter with chunks := chunks })
        | none =>
          if answers.chunkCreated then
            (0,
              { emitter with
                chunks := emitter.chunks ++ [{ tag := tag, data := stored answers data }] })
          else (-1, emitter)

def Linked (emitter : Emitter) (answers : Answers) (source : Input) : Prop :=
  source ∈ emitter.inputs ∨ answers.reference = true

def HasRoom (emitter : Emitter) (answers : Answers) (tag : Tag) : Prop :=
  match emitter.msgs with
  | some _ => answers.tagCopied = true ∧ emChunkSize ≤ answers.ringFree
  | none => (∃ chunk ∈ emitter.chunks, sdsCmpEq chunk.tag tag = true) ∨ answers.chunkCreated = true

def Takes (emitter : Emitter) (answers : Answers) (tag : Tag) (source : Input) : Prop :=
  Linked emitter answers source ∧ answers.emitterPaused = false ∧ HasRoom emitter answers tag ∧
    answers.written = true

def ReportsFailure (emitter : Emitter) (answers : Answers) (tag : Tag) (source : Input) : Prop :=
  Linked emitter answers source ∧ answers.emitterPaused = false ∧ ¬ HasRoom emitter answers tag

/-- A record has come into the emitter once: as the last one of the ring
buffer, at the end of the chunk of its tag, or as a chunk of its own. -/
inductive Receives (before : Emitter) (tag : Tag) (data : List Byte) (after : Emitter) : Prop where
  | ring (msgs : List EmChunk) (had : before.msgs = some msgs)
      (has : after.msgs = some (msgs ++ [{ tag := tag, data := data }]))
      (chunks : after.chunks = before.chunks)
  | known (front : List EmChunk) (chunk : EmChunk) (back : List EmChunk)
      (named : sdsCmpEq chunk.tag tag = true)
      (had : before.chunks = front ++ chunk :: back)
      (has : after.chunks = front ++ { chunk with data := chunk.data ++ data } :: back)
      (msgs : after.msgs = before.msgs)
  | new (has : after.chunks = before.chunks ++ [{ tag := tag, data := data }])
      (msgs : after.msgs = before.msgs)

structure Unchanged (before after : Emitter) : Prop where
  chunks : after.chunks = before.chunks
  msgs : after.msgs = before.msgs

def filled (chunks : List EmChunk) : List EmChunk := chunks.filter fun chunk => chunk.data ≠ []

/-- Nothing has come into the emitter, but for chunks without data. -/
structure Silent (before after : Emitter) : Prop where
  chunks : filled after.chunks = filled before.chunks
  msgs : after.msgs.map filled = before.msgs.map filled

theorem Unchanged.silent {before after : Emitter} (same : Unchanged before after) :
    Silent before after :=
  ⟨by rw [same.chunks], by rw [same.msgs]⟩

theorem Receives.silent {before after : Emitter} {tag : Tag}
    (received : Receives before tag [] after) : Silent before after := by
  cases received with
  | ring msgs had has chunks => exact ⟨by rw [chunks], by simp [had, has, filled]⟩
  | known front chunk back named had has msgs =>
    exact ⟨by rw [had, has, List.append_nil], by rw [msgs]⟩
  | new has msgs => exact ⟨by simp [has, filled], by rw [msgs]⟩

variable {data : List Byte} {tag : Tag}

theorem appendToChunk_eq_none_iff {chunks : List EmChunk} :
    appendToChunk tag data chunks = none ↔ ¬ ∃ chunk ∈ chunks, sdsCmpEq chunk.tag tag = true := by
  induction chunks with
  | nil => simp [appendToChunk]
  | cons chunk chunks ih =>
    by_cases named : sdsCmpEq chunk.tag tag = true
    · simp [appendToChunk, named]
    · simpa [appendToChunk, named] using ih

theorem appendToChunk_eq_some {chunks appended : List EmChunk}
    (found : appendToChunk tag data chunks = some appended) :
    ∃ front chunk back, sdsCmpEq chunk.tag tag = true ∧ chunks = front ++ chunk :: back ∧
      appended = front ++ { chunk with data := chunk.data ++ data } :: back := by
  induction chunks generalizing appended with
  | nil => cases found
  | cons chunk chunks ih =>
    rw [appendToChunk] at found
    split at found
    · next named =>
      cases found
      exact ⟨[], chunk, chunks, named, rfl, rfl⟩
    · obtain ⟨later, inner, rfl⟩ := Option.map_eq_some_iff.mp found
      obtain ⟨front, target, back, named, rfl, rfl⟩ := ih inner
      exact ⟨chunk :: front, target, back, named, rfl, rfl⟩

section
variable {emitter : Emitter} {answers : Answers}
  {source : Input}

theorem addReference_linked (linked : Linked emitter answers source) :
    ∃ after, addReference emitter answers source = some after ∧ Unchanged emitter after := by
  rw [addReference]
  split
  · exact ⟨emitter, rfl, rfl, rfl⟩
  · next unknown =>
    rw [if_pos (linked.resolve_left unknown)]
    exact ⟨_, rfl, rfl, rfl⟩

theorem HasRoom.congr {after : Emitter} (same : Unchanged emitter after) :
    HasRoom after answers tag ↔ HasRoom emitter answers tag := by
  rw [HasRoom, HasRoom, same.msgs, same.chunks]

theorem Receives.congr {first before after : Emitter} (same : Unchanged first before)
    (received : Receives before tag data after) : Receives first tag data after := by
  cases received with
  | ring msgs had has chunks => exact .ring msgs (same.msgs ▸ had) has (chunks.trans same.chunks)
  | known front chunk back named had has msgs =>
    exact .known front chunk back named (same.chunks ▸ had) has (msgs.trans same.msgs)
  | new has msgs => exact .new (same.chunks ▸ has) (msgs.trans same.msgs)

theorem inEmitterAddRecord_hasRoom (linked : Linked emitter answers source)
    (running : answers.emitterPaused = false) (room : HasRoom emitter answers tag)
    (data : List Byte) :
    (inEmitterAddRecord emitter answers tag data source).1 = 0 ∧
      Receives emitter tag (stored answers data)
        (inEmitterAddRecord emitter answers tag data source).2 := by
  obtain ⟨noted, added, same⟩ := addReference_linked linked
  rw [← HasRoom.congr same, HasRoom] at room
  rw [inEmitterAddRecord, added]
  dsimp only
  rw [if_neg (by simp [running])]
  cases ring : noted.msgs with
  | some msgs =>
    rw [ring] at room
    dsimp only
    rw [if_pos room.1, ringBufferWrite, if_neg (Nat.not_lt.mpr room.2)]
    exact ⟨rfl, .congr same (.ring msgs ring rfl rfl)⟩
  | none =>
    rw [ring] at room
    cases found : appendToChunk tag (stored answers data) noted.chunks with
    | some chunks =>
      obtain ⟨front, chunk, back, named, had, has⟩ := appendToChunk_eq_some found
      exact ⟨rfl, .congr same (.known front chunk back named had has ring.symm)⟩
    | none =>
      have missing := appendToChunk_eq_none_iff.mp found
      rw [if_pos (room.resolve_left missing)]
      exact ⟨rfl, .congr same (.new rfl ring.symm)⟩

theorem inEmitterAddRecord_reportsFailure (failed : ReportsFailure emitter answers tag source) :
    (inEmitterAddRecord emitter answers tag data source).1 = -1 ∧
      Unchanged emitter (inEmitterAddRecord emitter answers tag data source).2 := by
  obtain ⟨linked, running, full⟩ := failed
  obtain ⟨noted, added, same⟩ := addReference_linked linked
  rw [← HasRoom.congr same, HasRoom] at full
  rw [inEmitterAddRecord, added]
  dsimp only
  rw [if_neg (by simp [running])]
  cases ring : noted.msgs with
  | some msgs =>
    rw [ring] at full
    dsimp only
    split
    · next copied =>
      rw [ringBufferWrite, if_pos]
      · exact ⟨rfl, same⟩
      · exact Nat.lt_of_not_le fun free => full ⟨copied, free⟩
    · exact ⟨rfl, same⟩
  | none =>
    rw [ring, not_or] at full
    rw [appendToChunk_eq_none_iff.mpr full.1]
    rw [if_neg full.2]
    exact ⟨rfl, same⟩

/-- A paused emitter, and one that cannot remember the source, leaves the
record out and answers with another code. -/
theorem inEmitterAddRecord_otherwise
    (unlinked : ¬ (Linked emitter answers source ∧ answers.emitterPaused = false)) :
    (inEmitterAddRecord emitter answers tag data source).1 ≠ -1 ∧
      Unchanged emitter (inEmitterAddRecord emitter answers tag data source).2 := by
  by_cases linked : Linked emitter answers source
  · obtain ⟨noted, added, same⟩ := addReference_linked linked
    have paused : answers.emitterPaused = true := by simpa [linked] using unlinked
    rw [inEmitterAddRecord, added]
    dsimp only
    rw [if_pos paused]
    exact ⟨(by decide : emitterBusy ≠ -1), same⟩
  · rw [Linked, not_or] at linked
    rw [inEmitterAddRecord, addReference, if_neg linked.1, if_neg linked.2]
    exact ⟨(by decide : filterNoTouch ≠ -1), rfl, rfl⟩

end

end FluentBit.InEmitter
