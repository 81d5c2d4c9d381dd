import FluentBit.Lib.Handles
import FluentBit.LogEvent.Encoder

/-!
# The log event decoder

The decoder reads one object after the other from its buffer.  An object read
lives in a zone of its own that is freed before the next one is read, unless it
is the marker that opens a group: its zone is handed over to the group, and the
records that follow point into it.  Markers are told from records by the
seconds of their timestamp.

For a buffer that is a sequence of objects the decoder can read, the calls
deliver the records with the group they belong to, each with the place of its
bytes.  The invariant is that the group of the decoder points into a zone that
is still in use and holds the marker that opened the group.
-/

namespace FluentBit.LogEvent

open Msgpack Handles List Function Option

/-- `FLB_EVENT_DECODER_SUCCESS` and the errors. -/
inductive Result where
  | success
  | initializationFailure
  | invalidContext
  | invalidArgument
  | wrongRootType
  | wrongRootSize
  | wrongHeaderType
  | wrongHeaderSize
  | wrongTimestampType
  | wrongMetadataType
  | wrongBodyType
  | deserializationFailure
  | insufficientData
deriving DecidableEq, Repr

abbrev Zone := Nat

/-- `struct flb_log_event`.  What lies in the zone of the record itself is kept
by value; the group is a pointer. -/
structure Event where
  rawTimestamp : Object
  timestamp : Time
  metadata : Object
  format : Format
  body : Object
  root : Object
  group : Option Zone

/-- `struct flb_log_event_decoder`.  The two group pointers always point into
the same zone; `recordBase` is a position of the buffer. -/
structure Decoder where
  buffer : List Byte
  offset : Nat
  previousOffset : Nat
  recordBase : Option Nat
  recordLength : Nat
  lastResult : Result
  readGroups : Bool
  zones : Heap Object
  unpackedEvent : Option Zone
  unpackedGroupRecord : Option Zone
  currentGroup : Option Zone

/-- `flb_log_event_decoder_init`, followed by
`flb_log_event_decoder_read_groups`. -/
def decoderInit (buffer : List Byte) (readGroups : Bool) : Decoder :=
  { buffer := buffer
    offset := 0
    previousOffset := 0
    recordBase := none
    recordLength := 0
    lastResult := .insufficientData
    readGroups := readGroups
    zones := Heap.empty
    unpackedEvent := none
    unpackedGroupRecord := none
    currentGroup := none }

def int32 (number : Nat) : Int := (BitVec.ofNat 32 number).toInt

section

/- How the machine splits a double into seconds and nanoseconds. -/
variable (ofDouble : BitVec 64 → Time)

def decodeTimestamp (input : Object) : Except Result Time :=
  match input with
  | .positiveInteger u64 => .ok { sec := u64.toInt, nsec := 0 }
  | .float64 bits => .ok (ofDouble bits)
  | .ext type data =>
    if type ≠ 0 ∨ data.length ≠ 8 then .error .wrongTimestampType
    else
      .ok
        { sec := int32 (bigEndian (data.take 4)), nsec := int32 (bigEndian (data.drop 4)) }
  | _ => .error .wrongTimestampType

/-- The timestamp types that `flb_event_decoder_decode_object` lets pass. -/
def isTimestamp : Object → Bool
  | .positiveInteger _ => true
  | .float64 _ => true
  | .ext _ _ => true
  | _ => false

def isMap : Object → Bool
  | .map _ => true
  | _ => false

/-- The checks of `flb_event_decoder_decode_object` once the parts of a record
are found. -/
def decodeParts (root timestamp metadata body : Object) (format : Format) : Except Result Event :=
  if !isTimestamp timestamp then .error .wrongTimestampType
  else if !isMap metadata then .error .wrongMetadataType
  else if !isMap body then .error .wrongBodyType
  else
    (decodeTimestamp ofDouble timestamp).map fun time =>
      { rawTimestamp := timestamp
        timestamp := time
        metadata := metadata
        format := format
        body := body
        root := root
        group := none }

/-- `flb_event_decoder_decode_object`.  A record of the forward format has the
empty map of the context for its metadata. -/
def decodeObject (root : Object) : Except Result Event :=
  match root with
  | .array [header, body] =>
    match header with
    | .array [timestamp, metadata] => decodeParts ofDouble root timestamp metadata body .fluentBitV2
    | .array _ => .error .wrongHeaderSize
    | timestamp => decodeParts ofDouble root timestamp (.map []) body .forward
  | .array _ => .error .wrongRootSize
  | _ => .error .wrongRootType

/-- `FLB_LOG_EVENT_NORMAL`, `FLB_LOG_EVENT_GROUP_START` and
`FLB_LOG_EVENT_GROUP_END`. -/
inductive RecordType where
  | normal
  | groupStart
  | groupEnd
deriving DecidableEq, Repr

/-- `flb_log_event_decoder_get_record_type`: the seconds are cut to 32 bits
first. -/
def getRecordType (event : Event) : Option RecordType :=
  let s := (BitVec.ofInt 32 event.timestamp.sec).toInt
  if s ≥ 0 then some .normal
  else if s = -1 then some .groupStart
  else if s = -2 then some .groupEnd
  else none

/-- `msgpack_unpacked_destroy` of the zone a field holds. -/
def freeZone (zones : Heap Object) : Option Zone → Heap Object
  | none => zones
  | some zone => zones.free zone

/-- `msgpack_unpack_next` into `unpacked_event`: the zone of the event before
is freed, and a zone that holds no whole object is not kept. -/
def unpackNext (decoder : Decoder) : Option (Except Unit Object) × Decoder :=
  let zones := freeZone decoder.zones decoder.unpackedEvent
  if decoder.buffer.length ≤ decoder.offset then
    (none, { decoder with zones := zones, unpackedEvent := none })
  else
    match unpack (decoder.buffer.drop decoder.offset) with
    | .more rest =>
      (none,
        { decoder with
          zones := zones
          unpackedEvent := none
          offset := decoder.buffer.length - rest.length })
    | .malformed rest =>
      (some (.error ()),
        { decoder with
          zones := zones
          unpackedEvent := none
          offset := decoder.buffer.length - rest.length })
    | .done object rest =>
      (some (.ok object),
        { decoder with
          zones := zones.alloc object
          unpackedEvent := some zones.next
          offset := decoder.buffer.length - rest.length })

/-- A marker closes the group before it, and the opener hands its zone over. -/
def enterMarker (decoder : Decoder) (type : RecordType) : Decoder :=
  let zones := freeZone decoder.zones decoder.unpackedGroupRecord
  if type = .groupStart then
    { decoder with
      zones := zones
      unpackedGroupRecord := decoder.unpackedEvent
      currentGroup := decoder.unpackedEvent }
  else
    { decoder with zones := zones, unpackedGroupRecord := none, currentGroup := none }

/-- What `flb_log_event_decoder_next` does before it unpacks an object: a zone
that belongs to the group is left to it. -/
def prepare (decoder : Decoder) : Decoder :=
  { decoder with
    recordBase := none
    recordLength := 0
    unpackedEvent :=
      if decoder.unpackedGroupRecord = decoder.unpackedEvent then none
      else decoder.unpackedEvent }

def delimit (decoder : Decoder) : Decoder :=
  { decoder with
    recordBase := some decoder.previousOffset
    recordLength := decoder.offset - decoder.previousOffset
    lastResult := .success }

def fail (decoder : Decoder) (result : Result) : Result × Option Event × Decoder :=
  (result, none, { decoder with lastResult := result })

/-- `flb_log_event_decoder_next`, with a bound on the number of markers that
are skipped in a row. -/
def nextWithin : Nat → Decoder → Result × Option Event × Decoder
  | 0, decoder => fail decoder .insufficientData
  | markers + 1, decoder =>
    if decoder.buffer.length = 0 then fail decoder .insufficientData
    else
      let previousOffset := decoder.offset
      match unpackNext (prepare decoder) with
      | (none, decoder) => fail decoder .insufficientData
      | (some (.error _), decoder) => fail decoder .deserializationFailure
      | (some (.ok object), decoder) =>
        let decoder := { decoder with previousOffset := previousOffset }
        match decodeObject ofDouble object with
        | .error result => fail decoder result
        | .ok event =>
          let decoder := delimit decoder
          match getRecordType event with
          | none => fail { decoder with currentGroup := none } .deserializationFailure
          | some .normal => (.success, some { event with group := decoder.currentGroup }, decoder)
          | some type =>
            let decoder := enterMarker decoder type
            if decoder.readGroups then
              (.success, some event, decoder)
            else nextWithin markers decoder

/-- Every marker takes a byte of the buffer, so the bound is not reached. -/
def next (decoder : Decoder) : Result × Option Event × Decoder :=
  nextWithin ofDouble (decoder.buffer.length - decoder.offset + 1) decoder

end

def getLastResult (decoder : Decoder) : Result :=
  if decoder.lastResult = .insufficientData ∧ decoder.offset = decoder.buffer.length then .success
  else decoder.lastResult

variable (ofDouble : BitVec 64 → Time) {decoder after : Decoder} {object : Object} {event : Event}

theorem unpackNext_ok (success : unpackNext decoder = (some (.ok object), after)) :
    ∃ taken rest, decoder.buffer.drop decoder.offset = taken ++ rest ∧ Encodes taken object ∧
      after =
        { decoder with
          zones := (freeZone decoder.zones decoder.unpackedEvent).alloc object
          unpackedEvent := some (freeZone decoder.zones decoder.unpackedEvent).next
          offset := decoder.buffer.length - rest.length } := by
  rw [unpackNext] at success
  split at success
  · cases success
  · split at success
    · cases success
    · cases success
    · next read =>
      cases success
      obtain ⟨taken, split, encodes⟩ := unpack_done read
      exact ⟨taken, _, split, encodes, rfl⟩

theorem unpackNext_encodes {bytes tail : List Byte} (encodes : Encodes bytes object)
    (rest : decoder.buffer.drop decoder.offset = bytes ++ tail) :
    unpackNext decoder =
      (some (.ok object),
        { decoder with
          zones := (freeZone decoder.zones decoder.unpackedEvent).alloc object
          unpackedEvent := some (freeZone decoder.zones decoder.unpackedEvent).next
          offset := decoder.offset + bytes.length }) := by
  obtain ⟨nonempty, length⟩ := encodes.at_offset rest
  have moved : decoder.buffer.length - tail.length = decoder.offset + bytes.length := by omega
  rw [unpackNext, if_neg (by omega), rest, encodes]
  simp only [moved]

theorem unpackNext_offset_lt (success : unpackNext decoder = (some (.ok object), after)) :
    after.buffer = decoder.buffer ∧
      after.buffer.length - after.offset < decoder.buffer.length - decoder.offset := by
  obtain ⟨taken, rest, split, encodes, result⟩ := unpackNext_ok success
  obtain ⟨nonempty, length⟩ := encodes.at_offset split
  subst result
  refine ⟨rfl, ?_⟩
  dsimp only
  omega

section
variable (decoder : Decoder) (type : RecordType)

theorem enterMarker_buffer : (enterMarker decoder type).buffer = decoder.buffer := by
  rw [enterMarker]
  split <;> rfl

theorem enterMarker_offset : (enterMarker decoder type).offset = decoder.offset := by
  rw [enterMarker]
  split <;> rfl

theorem enterMarker_readGroups : (enterMarker decoder type).readGroups = decoder.readGroups := by
  rw [enterMarker]
  split <;> rfl

end

/-- The bound on the markers in a row is never reached. -/
theorem nextWithin_eq_next {markers : Nat}
    (enough : decoder.buffer.length - decoder.offset < markers) :
    nextWithin ofDouble markers decoder = next ofDouble decoder := by
  suffices agree : ∀ markers limit decoder, decoder.buffer.length - decoder.offset < markers →
      decoder.buffer.length - decoder.offset < limit →
      nextWithin ofDouble markers decoder = nextWithin ofDouble limit decoder from
    agree _ _ _ enough (Nat.lt_succ_self _)
  intro markers
  induction markers with
  | zero =>
    intro limit decoder enough
    exact absurd enough (Nat.not_lt_zero _)
  | succ markers ih =>
    intro limit decoder enough enoughLimit
    cases limit with
    | zero => exact absurd enoughLimit (Nat.not_lt_zero _)
    | succ limit =>
      rw [nextWithin, nextWithin]
      split
      · rfl
      · rcases unpacked : unpackNext (prepare decoder) with
          ⟨outcome, after⟩
        rcases outcome with _ | ⟨_ | object⟩
        · rfl
        · rfl
        · obtain ⟨_, shorter⟩ := unpackNext_offset_lt unpacked
          have start : (prepare decoder).buffer.length -
              (prepare decoder).offset = decoder.buffer.length - decoder.offset := rfl
          dsimp only
          split
          · rfl
          · split
            · rfl
            · rfl
            · split
              · rfl
              · apply ih
                all_goals
                  rw [enterMarker_buffer, enterMarker_offset]
                  simp only [delimit]
                  omega

variable {ofDouble} in
theorem decodeParts_ok {root timestamp metadata body : Object} {format : Format}
    (success : decodeParts ofDouble root timestamp metadata body format = .ok event) :
    ∃ time, decodeTimestamp ofDouble timestamp = .ok time ∧
      event =
        { rawTimestamp := timestamp
          timestamp := time
          metadata := metadata
          format := format
          body := body
          root := root
          group := none } := by
  rw [decodeParts] at success
  repeat' split at success
  · cases success
  · cases success
  · cases success
  · cases decoded : decodeTimestamp ofDouble timestamp with
    | error result =>
      rw [decoded] at success
      cases success
    | ok time =>
      rw [decoded] at success
      cases success
      exact ⟨time, rfl, rfl⟩

variable {ofDouble} in
theorem decodeObject_group {root : Object} (success : decodeObject ofDouble root = .ok event) :
    event.group = none := by
  unfold decodeObject at success
  split at success
  · split at success
    · obtain ⟨time, _, rfl⟩ := decodeParts_ok success
      rfl
    · cases success
    · obtain ⟨time, _, rfl⟩ := decodeParts_ok success
      rfl
  all_goals cases success

/-- The metadata and the attributes of a group, from the marker that opens
it. -/
def groupOf (root : Object) : Option (Object × Object) :=
  match decodeObject ofDouble root with
  | .ok event => some (event.metadata, event.body)
  | .error _ => none

/-- Follow a group pointer.  Nothing is found behind a pointer into a zone that
was freed. -/
def readGroup (zones : Heap Object) (group : Option Zone) : Option (Option (Object × Object)) :=
  group.map fun zone => (zones.get zone).bind (groupOf ofDouble)

structure Delivery where
  timestamp : Time
  metadata : Object
  body : Object
  group : Option (Option (Object × Object))
  base : Option Nat
  length : Nat

def observe (decoder : Decoder) (event : Event) : Delivery :=
  { timestamp := event.timestamp
    metadata := event.metadata
    body := event.body
    group := readGroup ofDouble decoder.zones event.group
    base := decoder.recordBase
    length := decoder.recordLength }

/-- Call `flb_log_event_decoder_next` until it does not succeed, with a bound
on the number of calls. -/
def drain : Nat → Decoder → List Delivery × Result × Decoder
  | 0, decoder => ([], decoder.lastResult, decoder)
  | calls + 1, decoder =>
    match next ofDouble decoder with
    | (.success, some event, after) =>
      let (deliveries, result, last) := drain calls after
      (observe ofDouble after event :: deliveries, result, last)
    | (result, _, after) => ([], result, after)

/-- Every record takes a byte, so the bound is not reached. -/
def decode (buffer : List Byte) (readGroups : Bool) : List Delivery × Result × Decoder :=
  drain ofDouble (buffer.length + 1) (decoderInit buffer readGroups)

/-- An object of a buffer that the decoder can take apart. -/
structure Item where
  bytes : List Byte
  root : Object
  event : Event
  encodes : Encodes bytes root
  decodes : decodeObject ofDouble root = .ok event

variable {ofDouble}

def Item.type (item : Item ofDouble) : Option RecordType := getRecordType item.event

def Item.delivery (item : Item ofDouble) (group : Option (Object × Object)) (base : Nat) :
    Delivery :=
  { timestamp := item.event.timestamp
    metadata := item.event.metadata
    body := item.event.body
    group := group.map some
    base := some base
    length := item.bytes.length }

def bytesOf (items : List (Item ofDouble)) : List Byte := (items.map Item.bytes).flatten

def Item.groupAfter (item : Item ofDouble) (group : Option (Object × Object)) : Option
    (Object × Object) :=
  match item.type with
  | some .groupStart => some (item.event.metadata, item.event.body)
  | some .groupEnd => none
  | _ => group

/-- What is delivered from a position of the buffer on: the records, and the
markers only when groups are read. -/
def deliveries (readGroups : Bool) : Option (Object × Object) → Nat →
    List (Item ofDouble) → List Delivery × Result
  | _, _, [] => ([], .insufficientData)
  | group, base, item :: items =>
    let (later, result) := deliveries readGroups (item.groupAfter group)
      (base + item.bytes.length) items
    match item.type with
    | none => ([], .deserializationFailure)
    | some .normal => (item.delivery group base :: later, result)
    | some _ =>
      if readGroups then (item.delivery none base :: later, result)
      else (later, result)

theorem bytesOf_cons (item : Item ofDouble) (items : List (Item ofDouble)) :
    bytesOf (item :: items) = item.bytes ++ bytesOf items := by
  rw [bytesOf, map_cons, flatten_cons, bytesOf]

theorem length_le_bytesOf (items : List (Item ofDouble)) :
    items.length ≤ (bytesOf items).length := by
  induction items with
  | nil => exact Nat.zero_le _
  | cons item items ih =>
    have nonempty := length_pos_iff.mpr item.encodes.ne_nil
    rw [bytesOf_cons, length_cons, length_append]
    omega

/-- The decoder stands in front of the given objects, and its group is the
given one. -/
structure At (readGroups : Bool) (decoder : Decoder) (base : Nat)
    (items : List (Item ofDouble)) (group : Option (Object × Object)) :
    Prop where
  offset : decoder.offset = base
  inside : base ≤ decoder.buffer.length
  rest : decoder.buffer.drop base = bytesOf items
  mode : decoder.readGroups = readGroups
  record : decoder.unpackedGroupRecord = decoder.currentGroup
  group : readGroup ofDouble decoder.zones decoder.currentGroup = group.map some

/-- The decoder has just read an object: it is in a zone of its own. -/
structure Holds (decoder : Decoder) (item : Item ofDouble) (base : Nat) : Prop where
  zone : ∃ zone, decoder.unpackedEvent = some zone ∧ decoder.zones.get zone = some item.root ∧
    decoder.currentGroup ≠ some zone
  recordBase : decoder.recordBase = some base
  recordLength : decoder.recordLength = item.bytes.length

variable {zone : Zone}

theorem readGroup_live {zones : Heap Object} {group : Option (Object × Object)}
    (read : readGroup ofDouble zones (some zone) = group.map some) :
    ∃ root, zones.get zone = some root := by
  cases live : zones.get zone with
  | some root => exact ⟨root, rfl⟩
  | none =>
    rw [readGroup, map_some, live] at read
    cases group with
    | none | some group => cases read

theorem readGroup_congr {zones changed : Heap Object} {group : Option Zone}
    (same : ∀ zone, group = some zone → changed.get zone = zones.get zone) :
    readGroup ofDouble changed group = readGroup ofDouble zones group := by
  cases group with
  | none => rfl
  | some zone => rw [readGroup, readGroup, map_some, map_some, same zone rfl]

theorem get_freeZone_of_ne (zones : Heap Object) {freed : Option Zone}
    (other : freed ≠ some zone) : (freeZone zones freed).get zone = zones.get zone := by
  cases freed with
  | none => rfl
  | some freed =>
    rw [freeZone, Heap.get_free, update_of_ne]
    intro same
    exact other (congrArg some same.symm)

variable {readGroups : Bool} {type : RecordType} {base : Nat}

section
variable {decoder : Decoder}
  {item : Item ofDouble} {items : List (Item ofDouble)}
  {group : Option (Object × Object)}

section
variable (place : At readGroups decoder base items group)
  (current : decoder.currentGroup = some zone)
include place current

/-- The zone of the event before is not the one of the group. -/
theorem prepare_unpackedEvent_ne : (prepare decoder).unpackedEvent ≠ some zone := by
  rw [prepare]
  split
  · simp
  · next different =>
    intro same
    apply different
    rw [place.record, current, same]

/-- The zone of the group stays in use, and is not given out again. -/
theorem group_zone_kept :
    (freeZone decoder.zones (prepare decoder).unpackedEvent).get zone = decoder.zones.get zone ∧
      zone ≠ (freeZone decoder.zones (prepare decoder).unpackedEvent).next := by
  have read := place.group
  rw [current] at read
  obtain ⟨root, live⟩ := readGroup_live read
  have kept := get_freeZone_of_ne decoder.zones (prepare_unpackedEvent_ne place current)
  refine ⟨kept, ?_⟩
  intro same
  rw [same, Heap.get_next, ← same, live] at kept
  cases kept

end

/-- What the decoder looks like once it has read the next object. -/
def afterItem (decoder : Decoder) (item : Item ofDouble) (base : Nat) : Decoder :=
  let zones := freeZone decoder.zones (prepare decoder).unpackedEvent
  delimit
    { prepare decoder with
      zones := zones.alloc item.root
      unpackedEvent := some zones.next
      offset := base + item.bytes.length
      previousOffset := base }

/-- What a call makes of the next object; `skip` goes on behind a marker. -/
def answer (readGroups : Bool) (decoder : Decoder) (item : Item ofDouble) (base : Nat)
    (skip : Decoder → Result × Option Event × Decoder) : Result × Option Event × Decoder :=
  match item.type with
  | none => fail { afterItem decoder item base with currentGroup := none } .deserializationFailure
  | some .normal =>
    (.success, some { item.event with group := decoder.currentGroup }, afterItem decoder item base)
  | some type =>
    if readGroups then
      (.success, some item.event, enterMarker (afterItem decoder item base) type)
    else skip (enterMarker (afterItem decoder item base) type)

section
variable (place : At readGroups decoder base (item :: items) group)
include place

theorem At.begins : decoder.buffer.drop base = item.bytes ++ bytesOf items := by
  rw [place.rest, bytesOf_cons]

theorem unpackNext_item :
    unpackNext (prepare decoder) =
      (some (.ok item.root),
        { prepare decoder with
          zones := (freeZone decoder.zones (prepare decoder).unpackedEvent).alloc item.root
          unpackedEvent := some (freeZone decoder.zones (prepare decoder).unpackedEvent).next
          offset := base + item.bytes.length }) := by
  have begins := place.begins
  rw [← place.offset] at begins ⊢
  exact unpackNext_encodes item.encodes begins

theorem nextWithin_item (markers : Nat) :
    nextWithin ofDouble (markers + 1) decoder =
      answer readGroups decoder item base (nextWithin ofDouble markers) := by
  have inside := item.encodes.at_offset place.begins
  rw [nextWithin, if_neg (by omega), unpackNext_item place]
  simp only [item.decodes]
  rw [← place.offset, answer, Item.type]
  rcases getRecordType item.event with _ | type
  · rfl
  · cases type with
    | normal => rfl
    | groupStart | groupEnd =>
      rw [← place.mode]
      rfl

theorem readGroup_afterItem :
    readGroup ofDouble (afterItem decoder item base).zones
        decoder.currentGroup = group.map some := by
  rw [← place.group]
  apply readGroup_congr
  intro zone current
  obtain ⟨kept, other⟩ := group_zone_kept place current
  change update _ _ _ zone = _
  rw [update_of_ne other]
  exact kept

theorem at_afterItem :
    At readGroups (afterItem decoder item base) (base + item.bytes.length) items group := by
  have inside := item.encodes.at_offset place.begins
  exact
    { offset := rfl
      inside := by
        change _ ≤ decoder.buffer.length
        omega
      rest := by
        change decoder.buffer.drop _ = _
        rw [← drop_drop, place.begins, drop_left]
      mode := place.mode
      record := place.record
      group := readGroup_afterItem place }

theorem holds_afterItem : Holds (afterItem decoder item base) item base := by
  refine
    { zone := ⟨_, rfl, update_self .., ?_⟩
      recordBase := rfl
      recordLength := Nat.add_sub_cancel_left .. }
  intro current
  exact (group_zone_kept place current).2 rfl

end

theorem at_enterMarker (place : At readGroups decoder base items group) {start : Nat}
    (holds : Holds decoder item start) (marker : item.type = some type) (special : type ≠ .normal) :
    At readGroups (enterMarker decoder type) base items (item.groupAfter group) := by
  obtain ⟨zone, unpacked, live, apart⟩ := holds.zone
  cases type with
  | normal => exact absurd rfl special
  | groupStart =>
    have kept : (freeZone decoder.zones decoder.unpackedGroupRecord).get zone = some item.root := by
      rw [place.record, get_freeZone_of_ne _ apart, live]
    refine { place with record := rfl, group := ?_ }
    change readGroup ofDouble (freeZone decoder.zones
      decoder.unpackedGroupRecord) decoder.unpackedEvent = _
    rw [unpacked, readGroup, map_some, kept, bind_some,
      groupOf, item.decodes, Item.groupAfter, marker, map_some]
  | groupEnd =>
    refine { place with record := rfl, group := ?_ }
    rw [Item.groupAfter, marker]
    rfl

theorem next_item (place : At readGroups decoder base (item :: items) group) :
    next ofDouble decoder = answer readGroups decoder item base (next ofDouble) := by
  have shorter : (afterItem decoder item base).buffer.length -
      (afterItem decoder item base).offset < decoder.buffer.length - base := by
    change decoder.buffer.length - (base + item.bytes.length) < _
    have inside := item.encodes.at_offset place.begins
    omega
  rw [next, place.offset, nextWithin_item place, answer, answer]
  cases item.type with
  | none => rfl
  | some type =>
    cases type with
    | normal => rfl
    | groupStart | groupEnd =>
      dsimp only
      rw [nextWithin_eq_next]
      exact shorter

end

/-- At the end of its buffer the decoder reports the end of the data and stays
there. -/
theorem next_stays (atEnd : decoder.offset = decoder.buffer.length) :
    ∃ after, next ofDouble decoder = (.insufficientData, none, after) ∧
      after.lastResult = .insufficientData ∧
      after.offset = decoder.offset ∧ after.buffer = decoder.buffer := by
  rw [next, nextWithin]
  split
  · exact ⟨_, rfl, rfl, rfl, rfl⟩
  · have unpacked : unpackNext (prepare decoder) =
        (none,
          { prepare decoder with
            zones := freeZone decoder.zones (prepare decoder).unpackedEvent
            unpackedEvent := none }) := by
      exact if_pos (le_of_eq atEnd.symm)
    rw [unpacked]
    exact ⟨_, rfl, rfl, rfl, rfl⟩

theorem next_atEnd (atEnd : decoder.offset = decoder.buffer.length) :
    ∃ after, next ofDouble decoder = (.insufficientData, none, after) ∧
      getLastResult after = .success := by
  obtain ⟨after, ended, result, offset, buffer⟩ := @next_stays ofDouble _ atEnd
  refine ⟨after, ended, ?_⟩
  rw [getLastResult, if_pos]
  exact ⟨result, by rw [offset, buffer, atEnd]⟩

theorem At.atEnd {group : Option (Object × Object)}
    (place : At readGroups decoder base ([] : List (Item ofDouble)) group) :
    decoder.offset = decoder.buffer.length := by
  have length := congrArg List.length place.rest
  have inside := place.inside
  rw [length_drop] at length
  rw [place.offset]
  change _ = 0 at length
  omega

/-- The calls deliver what the objects say, and end with success when there is
no object of an unknown kind. -/
def Agrees (drained : List Delivery × Result × Decoder) (expected : List Delivery × Result) :
    Prop :=
  drained.1 = expected.1 ∧ drained.2.1 = expected.2 ∧
    (expected.2 = .insufficientData → getLastResult drained.2.2 = .success)

theorem Agrees.cons {calls : Nat} {expected : List Delivery × Result}
    (stepped : next ofDouble decoder = (.success, some event, after))
    (agrees : Agrees (drain ofDouble calls after) expected) :
    Agrees (drain ofDouble (calls + 1) decoder)
      (observe ofDouble after event :: expected.1, expected.2) := by
  rw [drain, stepped]
  exact ⟨congrArg _ agrees.1, agrees.2.1, agrees.2.2⟩

section
variable {decoder : Decoder}
  {item : Item ofDouble} {items : List (Item ofDouble)}
  {group : Option (Object × Object)}

theorem deliveries_marker (marker : item.type = some type) (special : type ≠ .normal) :
    deliveries readGroups group base (item :: items) =
      let later := deliveries readGroups (item.groupAfter group) (base + item.bytes.length) items
      if readGroups then (item.delivery none base :: later.1, later.2)
      else later := by
  rw [deliveries, marker]
  cases type with
  | normal => exact absurd rfl special
  | groupStart | groupEnd => rfl

variable (place : At readGroups decoder base (item :: items) group)
include place

theorem observe_normal :
    observe ofDouble (afterItem decoder item base)
        { item.event with group := decoder.currentGroup } =
      item.delivery group base := by
  have holds := holds_afterItem place
  rw [observe, Item.delivery, holds.recordBase, holds.recordLength]
  simp only [readGroup_afterItem place]

theorem observe_marker (type : RecordType) :
    observe ofDouble (enterMarker (afterItem decoder item base) type)
        item.event = item.delivery none base := by
  have holds := holds_afterItem place
  have ungrouped := decodeObject_group item.decodes
  rw [observe, Item.delivery, ungrouped, enterMarker]
  split
  · simp only [holds.recordBase, holds.recordLength]
    rfl
  · simp only [holds.recordBase, holds.recordLength]
    rfl

theorem next_marker (marker : item.type = some type) (special : type ≠ .normal) :
    next ofDouble decoder =
      if readGroups then
        (.success, some item.event, enterMarker (afterItem decoder item base) type)
      else next ofDouble (enterMarker (afterItem decoder item base) type) := by
  rw [next_item place, answer, marker]
  cases type with
  | normal => exact absurd rfl special
  | groupStart | groupEnd => rfl

end

theorem drain_items (items : List (Item ofDouble)) :
    ∀ {calls : Nat} {decoder : Decoder} {base : Nat}
      {group : Option (Object × Object)}, items.length < calls →
      At readGroups decoder base items group →
      Agrees (drain ofDouble calls decoder) (deliveries readGroups group base items) := by
  induction items with
  | nil =>
    intro calls decoder base group enough place
    obtain ⟨after, ended, success⟩ := next_atEnd place.atEnd
    cases calls with
    | zero => exact absurd enough (Nat.not_lt_zero _)
    | succ calls =>
      rw [drain, ended]
      exact ⟨rfl, rfl, fun _ => success⟩
  | cons item items ih =>
    intro calls decoder base group enough place
    cases calls with
    | zero => exact absurd enough (Nat.not_lt_zero _)
    | succ calls =>
      rw [length_cons] at enough
      have following := at_afterItem place
      cases type : item.type with
      | none =>
        have stepped := next_item place
        rw [answer, type] at stepped
        rw [deliveries, type, drain, stepped]
        exact ⟨rfl, rfl, nofun⟩
      | some kind =>
        by_cases normal : kind = .normal
        · have stepped := next_item place
          rw [answer, type, normal] at stepped
          have sameGroup : item.groupAfter group = group := by rw [Item.groupAfter, type, normal]
          have later := Agrees.cons stepped (ih (by omega : items.length < calls) following)
          rw [observe_normal place] at later
          rw [deliveries, type, normal, sameGroup]
          exact later
        · have entered := at_enterMarker following (holds_afterItem place) type normal
          rw [deliveries_marker type normal]
          cases readGroups with
          | true =>
            have later := Agrees.cons (next_marker place type normal)
              (ih (by omega : items.length < calls) entered)
            rw [observe_marker place] at later
            exact later
          | false =>
            rw [drain, next_marker place type normal]
            exact ih (by omega : items.length < calls + 1) entered

theorem at_decoderInit (readGroups : Bool) (items : List (Item ofDouble)) :
    At readGroups (decoderInit (bytesOf items) readGroups) 0 items none :=
  { offset := rfl, inside := Nat.zero_le _, rest := rfl, mode := rfl, record := rfl, group := rfl }

theorem decode_bytesOf (readGroups : Bool) (items : List (Item ofDouble)) :
    Agrees (decode ofDouble (bytesOf items) readGroups) (deliveries readGroups none 0 items) := by
  apply drain_items items
  · have bound := length_le_bytesOf items
    omega
  · exact at_decoderInit readGroups items

end FluentBit.LogEvent
