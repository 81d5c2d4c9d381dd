import FluentBit.Lib.CString
import FluentBit.Lib.Run

/-!
# The input buffer of a decompressor

The compressed bytes wait in a block until the decompressor takes them.  The
block is moved together when the reader has passed its middle, and it may be
resized.  A pointer into the block is its offset.
-/

namespace FluentBit.Decompression

open List Run

/-- `struct flb_decompression_context`.  `inputBuffer` is the block as it is
allocated. -/
structure Context where
  inputBuffer : List Byte
  inputBufferLength : Nat
  inputBufferSize : UInt64
  readBuffer : Nat
deriving DecidableEq

def contextCreate (inputBufferSize : UInt64) : Context :=
  let inputBufferSize := if inputBufferSize = 0 then 1024 * 1000 else inputBufferSize
  { inputBuffer := replicate inputBufferSize.toNat 0
    inputBufferLength := 0
    inputBufferSize := inputBufferSize
    readBuffer := 0 }

def Context.unread (context : Context) : List Byte :=
  (context.inputBuffer.drop context.readBuffer).take context.inputBufferLength

def adjustBuffer (context : Context) : Context :=
  if context.inputBufferSize.toNat / 2 ≤ context.readBuffer then
    { context with
      inputBuffer := context.unread ++ context.inputBuffer.drop context.inputBufferLength
      readBuffer := 0 }
  else context

def getAppendBuffer (context : Context) : Nat × Context :=
  let context := adjustBuffer context
  (context.readBuffer + context.inputBufferLength, context)

def getAvailableSpace (context : Context) : UInt64 × Context :=
  let context := adjustBuffer context
  (context.inputBufferSize - .ofNat context.readBuffer - .ofNat context.inputBufferLength, context)

/-- `flb_decompression_context_resize_buffer`, with what `flb_realloc` does: it
fails, or the block moves or stays, and its new bytes hold anything. -/
def resizeBuffer (realloc : Option (Bool × (Nat → Byte))) (newSize : UInt64)
    (context : Context) : Bool × Context :=
  if context.inputBufferLength < newSize.toNat then
    match realloc with
    | none => (false, context)
    | some (moved, fresh) =>
      let context :=
        { context with
          inputBuffer := (range newSize.toNat).map fun i => context.inputBuffer.getD i (fresh i) }
      (true, if moved then { context with inputBufferSize := newSize } else context)
  else (context.inputBufferLength ≤ newSize.toNat, context)

/-- What callers do with the address that they get. -/
def append (bytes : List Byte) (context : Context) : Context :=
  let (place, context) := getAppendBuffer context
  { context with
    inputBuffer := context.inputBuffer.take place ++
      (bytes ++ context.inputBuffer.drop (place + bytes.length))
    inputBufferLength := context.inputBufferLength + bytes.length }

/-- How the headers and the body are taken. -/
def consume (count : Nat) (context : Context) : Context :=
  { context with
    readBuffer := context.readBuffer + count
    inputBufferLength := context.inputBufferLength - count }

/-- `flb_gzip_decompressor_process_footer`. -/
def processFooter (context : Context) : Context :=
  if context.inputBufferLength < 8 then context
  else
    { context with
      inputBufferLength := context.inputBufferLength - 8
      readBuffer := if 0 < context.inputBufferLength - 8 then context.readBuffer + 8 else 0 }

inductive Event where
  | append (bytes : List Byte)
  | consume (count : Nat)
  | footer
  | resize (realloc : Option (Bool × (Nat → Byte))) (newSize : UInt64)

def step (context : Context) : Event → Context
  | .append bytes => append bytes context
  | .consume count => consume count context
  | .footer => processFooter context
  | .resize realloc newSize => (resizeBuffer realloc newSize context).2

/-- Callers append what there is space for, and only unread bytes are taken. -/
def Fair (context : Context) : Event → Prop
  | .append bytes => bytes.length ≤ (getAvailableSpace context).1.toNat
  | .consume count => count ≤ context.inputBufferLength
  | .footer | .resize _ _ => True

/-- A block that is resized has room for what lies in front of the unread bytes
too, and it moves unless it keeps its size. -/
def Sized (context : Context) : Event → Prop
  | .resize (some (moved, _)) newSize =>
    context.inputBufferLength < newSize.toNat →
      (moved = false → newSize = context.inputBufferSize) ∧
        context.readBuffer + context.inputBufferLength ≤ newSize.toNat
  | .append _ | .consume _ | .footer | .resize none _ => True

/-- What an event does to the bytes that were appended and not taken. -/
def Event.queue (queue : List Byte) : Event → List Byte
  | .append bytes => queue ++ bytes
  | .consume count => queue.drop count
  | .footer => if queue.length < 8 then queue else queue.drop 8
  | .resize _ _ => queue

structure IsQueue (context : Context) (queue : List Byte) : Prop where
  unread : context.unread = queue
  inside : context.readBuffer + context.inputBufferLength ≤ context.inputBufferSize.toNat
  block : context.inputBufferSize.toNat = context.inputBuffer.length
  space : (getAvailableSpace context).1.toNat =
    context.inputBufferSize.toNat - (getAvailableSpace context).2.readBuffer -
      (getAvailableSpace context).2.inputBufferLength

def AlwaysQueue : Context → List Byte → List Event → Prop
  | context, queue, [] => IsQueue context queue
  | context, queue, event :: events =>
    IsQueue context queue ∧ AlwaysQueue (step context event) (event.queue queue) events

/-- The unread bytes lie between those that were taken and the free ones. -/
structure Split (context : Context) (queue : List Byte) : Prop where
  parts : ∃ taken free, context.inputBuffer = taken ++ queue ++ free ∧
    context.readBuffer = taken.length
  length : context.inputBufferLength = queue.length
  block : context.inputBufferSize.toNat = context.inputBuffer.length

variable {context : Context} {queue : List Byte}

theorem IsQueue.split (isQueue : IsQueue context queue) : Split context queue := by
  obtain ⟨unread, inside, block, _⟩ := isQueue
  have read : context.readBuffer ≤ context.inputBuffer.length := by omega
  refine ⟨⟨context.inputBuffer.take context.readBuffer,
    (context.inputBuffer.drop context.readBuffer).drop context.inputBufferLength, ?_, ?_⟩,
    ?_, block⟩
  · rw [← unread, Context.unread, append_assoc, take_append_drop, take_append_drop]
  · rw [length_take_of_le read]
  · rw [← unread, Context.unread, length_take, length_drop]
    omega

theorem Split.adjustBuffer (split : Split context queue) :
    Split (adjustBuffer context) queue := by
  obtain ⟨⟨taken, free, parts, read⟩, length, block⟩ := split
  have unread : context.unread = queue := by
    rw [Context.unread, parts, read, length, append_assoc, drop_left, take_left]
  rw [Decompression.adjustBuffer]
  split
  · refine ⟨⟨[], _, by rw [unread, nil_append], rfl⟩, length, ?_⟩
    rw [block, unread, length_append, length_drop, length, parts, length_append, length_append]
    omega
  · exact ⟨⟨taken, free, parts, read⟩, length, block⟩

theorem adjustBuffer_inputBufferSize (context : Context) :
    (adjustBuffer context).inputBufferSize = context.inputBufferSize := by
  rw [adjustBuffer]
  split <;> rfl

section
variable (split : Split context queue)
include split

theorem Split.isQueue : IsQueue context queue := by
  have adjusted := split.adjustBuffer
  obtain ⟨⟨taken, free, parts, read⟩, length, block⟩ := split
  obtain ⟨⟨before, after, around, place⟩, same, whole⟩ := adjusted
  have size := adjustBuffer_inputBufferSize context
  refine ⟨?_, ?_, block, ?_⟩
  · rw [Context.unread, parts, read, length, append_assoc, drop_left, take_left]
  · rw [block, parts, read, length, length_append, length_append]
    omega
  · have bound := context.inputBufferSize.toNat_lt
    rw [around, size, length_append, length_append] at whole
    simp only [getAvailableSpace, size, place, same, UInt64.toNat_sub, UInt64.toNat_ofNat']
    omega

theorem Split.append {bytes : List Byte}
    (fits : bytes.length ≤ (getAvailableSpace context).1.toNat) :
    Split (append bytes context) (queue ++ bytes) := by
  obtain ⟨⟨taken, free, parts, read⟩, length, block⟩ := split.adjustBuffer
  rw [split.isQueue.space, ← adjustBuffer_inputBufferSize, block] at fits
  change _ ≤ _ - (Decompression.adjustBuffer context).readBuffer -
    (Decompression.adjustBuffer context).inputBufferLength at fits
  rw [parts, read, length, length_append, length_append] at fits
  have written : (Decompression.append bytes context).inputBuffer =
      taken ++ (queue ++ bytes) ++ free.drop bytes.length := by
    rw [Decompression.append, getAppendBuffer]
    dsimp only
    rw [parts, read, length, ← length_append, take_left, drop_length_add_append]
    simp only [append_assoc]
  refine ⟨⟨taken, _, written, read⟩, ?_, ?_⟩
  · rw [length_append, ← length]
    rfl
  · rw [written]
    refine block.trans ?_
    rw [parts]
    simp only [length_append, length_drop]
    omega

theorem Split.consume {count : Nat} (within : count ≤ context.inputBufferLength) :
    Split (consume count context) (queue.drop count) := by
  obtain ⟨⟨taken, free, parts, read⟩, length, block⟩ := split
  rw [length] at within
  refine ⟨⟨taken ++ queue.take count, free, ?_, ?_⟩, ?_, block⟩
  · rw [append_assoc taken, take_append_drop]
    exact parts
  · rw [length_append, length_take_of_le within, ← read]
    rfl
  · rw [length_drop, ← length]
    rfl

theorem Split.processFooter : Split (processFooter context) (Event.queue queue .footer) := by
  rw [Decompression.processFooter, Event.queue, split.length]
  split
  · exact split
  · next enough =>
    split
    · have taken := @Split.consume context queue split 8 (by rw [split.length]; omega)
      rw [Decompression.consume, split.length] at taken
      exact taken
    · next last =>
      have empty : queue.drop 8 = [] := drop_eq_nil_of_le (by omega)
      rw [empty]
      exact ⟨⟨[], context.inputBuffer, rfl, rfl⟩, Nat.eq_zero_of_not_pos last, split.block⟩

end

theorem resized_split {front free : List Byte} {newSize : Nat} (fresh : Nat → Byte)
    (room : front.length ≤ newSize) :
    ∃ after, ((range newSize).map fun i => (front ++ free).getD i (fresh i)) = front ++ after := by
  obtain ⟨more, rfl⟩ := Nat.exists_eq_add_of_le room
  rw [range_add, map_append]
  refine ⟨_, congrArg (· ++ _) ?_⟩
  apply ext_getElem
  · simp
  · intro i _ inside
    simp [getElem?_append_left inside, getElem?_eq_getElem inside]

theorem Split.step_iff (split : Split context queue) {event : Event} (fair : Fair context event) :
    IsQueue (step context event) (event.queue queue) ↔ Sized context event := by
  cases event with
  | append bytes => exact iff_of_true (split.append fair).isQueue trivial
  | consume count => exact iff_of_true (split.consume fair).isQueue trivial
  | footer => exact iff_of_true split.processFooter.isQueue trivial
  | resize realloc newSize =>
    rw [step, Event.queue]
    unfold resizeBuffer
    split
    · next larger =>
      rcases realloc with _ | ⟨moved, fresh⟩
      · exact iff_of_true split.isQueue trivial
      · rw [Sized, forall_prop_of_true larger]
        constructor
        · intro isQueue
          cases moved with
          | true => exact ⟨by rintro ⟨⟩, isQueue.inside⟩
          | false =>
            have block : context.inputBufferSize.toNat = newSize.toNat := by
              simpa using isQueue.block
            have inside := isQueue.inside
            refine ⟨fun _ => (UInt64.toNat_inj.mp block).symm, ?_⟩
            rw [← block]
            exact inside
        · rintro ⟨kept, room⟩
          obtain ⟨⟨taken, free, parts, read⟩, length, block⟩ := split
          rw [read, length, ← length_append] at room
          obtain ⟨after, resized⟩ := @resized_split _ free _ fresh room
          apply Split.isQueue
          cases moved with
          | true => exact ⟨⟨taken, after, by rw [← resized, ← parts]; rfl, read⟩, length, by simp⟩
          | false =>
            obtain rfl := kept rfl
            exact ⟨⟨taken, after, by rw [← resized, ← parts]; rfl, read⟩, length, by simp⟩
    · next notLarger =>
      refine iff_of_true split.isQueue ?_
      rcases realloc with _ | ⟨moved, fresh⟩
      · trivial
      · exact fun larger => absurd larger notLarger

theorem Split.always_iff {events : List Event} (split : Split context queue)
    (fair : Meets step Fair context events) :
    AlwaysQueue context queue events ↔ Meets step Sized context events := by
  induction events generalizing context queue with
  | nil => exact iff_of_true split.isQueue trivial
  | cons event events ih =>
    rw [AlwaysQueue, and_iff_right split.isQueue, Meets, ← split.step_iff fair.1]
    constructor
    · intro always
      have here : IsQueue (step context event) (event.queue queue) := by
        cases events with
        | nil => exact always
        | cons _ _ => exact always.1
      exact ⟨here, (ih here.split fair.2).mp always⟩
    · rintro ⟨here, sized⟩
      exact (ih here.split fair.2).mpr sized

theorem split_contextCreate (size : UInt64) : Split (contextCreate size) [] :=
  ⟨⟨[], _, rfl, rfl⟩, rfl, length_replicate.symm⟩

/-- From its creation on the buffer is a queue of bytes, and its size and space
are what they are said to be, exactly as long as every block that is resized
moves or keeps its size and has room for what was read before. -/
theorem input_buffer_is_queue (size : UInt64) (events : List Event)
    (fair : Meets step Fair (contextCreate size) events) :
    AlwaysQueue (contextCreate size) [] events ↔ Meets step Sized (contextCreate size) events :=
  (split_contextCreate size).always_iff fair

/-- A block of four bytes grows for bytes that do not fit in it. -/
theorem input_buffer_is_queue_grown :
    AlwaysQueue (contextCreate 4) [] [.append [1, 2, 3], .consume 1,
      .resize (some (true, fun _ => 7)) 16, .append [4, 5, 6, 7, 8, 9], .footer] := by
  refine (input_buffer_is_queue 4 _ ?_).mpr ?_
  · have within : ∀ {few many : Nat}, few.ble many = true → few ≤ many := Nat.le_of_ble_eq_true
    exact ⟨within rfl, within rfl, trivial, within rfl, trivial, trivial⟩
  · refine ⟨trivial, trivial, fun _ => ⟨?_, by decide⟩, trivial, trivial, trivial⟩
    rintro ⟨⟩

/-- A block of eight bytes is cut to two where it is, and eight are reported as
free. -/
theorem resize_in_place_keeps_size :
    Meets step Fair (contextCreate 8) [.resize (some (false, fun _ => 0)) 2] ∧
      resizeBuffer (some (false, fun _ => 0)) 2 (contextCreate 8) =
        (true, { contextCreate 8 with inputBuffer := [0, 0] }) ∧
      (getAvailableSpace { contextCreate 8 with inputBuffer := [0, 0] }).1 = 8 ∧
      ¬AlwaysQueue (contextCreate 8) [] [.resize (some (false, fun _ => 0)) 2] := by
  refine ⟨⟨trivial, trivial⟩, by decide, by decide, ?_⟩
  intro always
  exact absurd always.2.block (by decide)

end FluentBit.Decompression
