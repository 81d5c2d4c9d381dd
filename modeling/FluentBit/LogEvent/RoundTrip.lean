import FluentBit.LogEvent.Decoder

/-!
# Round trip and validation of log events and groups

The encoder writes the seconds of a timestamp as an unsigned number of 32 bits,
the decoder reads them as a signed one.  A record comes back as it went in when
its seconds are below `2 ^ 31`; above, the decoder takes it for a marker or
refuses it.  A group is opened by a marker with the seconds `-1`, whose maps are
the metadata and the attributes of the group, and closed by a marker with the
seconds `-2`.  The other readers of timestamps have checks of their own.

The validation of a chunk finds the longest sequence of whole records at its
start.  It accepts any extension as a timestamp and any number of seconds, and
it takes bytes that begin no object for the end of the data.
-/

namespace FluentBit.LogEvent

open Msgpack List

variable (ofDouble : BitVec 64 → Time)

theorem length_forwardTimestamp (timestamp : Time) : (forwardTimestamp timestamp).length = 8 := by
  rw [forwardTimestamp, length_append, length_toBigEndian, length_toBigEndian]

theorem uint32_natCast {value : Nat} (fits : value < 2 ^ 32) : uint32 value = value := by
  rw [uint32, BitVec.ofInt_natCast, BitVec.toNat_ofNat, Nat.mod_eq_of_lt fits]

theorem decodeTimestamp_forwardTimestamp (sec nsec : Nat)
    (secFits : sec < 2 ^ 32) (nsecFits : nsec < 2 ^ 32) :
    decodeTimestamp ofDouble (.ext 0 (forwardTimestamp { sec := sec, nsec := nsec })) =
      .ok { sec := int32 sec, nsec := int32 nsec } := by
  have length := length_forwardTimestamp { sec := sec, nsec := nsec }
  have first : (forwardTimestamp { sec := sec, nsec := nsec }).take 4 =
      toBigEndian 4 sec := by
    rw [forwardTimestamp, take_left' (length_toBigEndian 4 _), uint32_natCast secFits]
  have second : (forwardTimestamp { sec := sec, nsec := nsec }).drop 4 =
      toBigEndian 4 nsec := by
    rw [forwardTimestamp, drop_left' (length_toBigEndian 4 _), uint32_natCast nsecFits]
  rw [decodeTimestamp, if_neg (by simp [length]), first, second, bigEndian_toBigEndian,
    bigEndian_toBigEndian, Nat.mod_eq_of_lt (by omega : sec < 256 ^ 4), Nat.mod_eq_of_lt
    (by omega : nsec < 256 ^ 4)]

theorem int32_of_lt {number : Nat} (small : number < 2 ^ 31) : int32 number = number := by
  rw [int32, BitVec.toInt_eq_toNat_cond, BitVec.toNat_ofNat]
  split <;> omega

theorem int32_nonneg_iff {number : Nat} (fits : number < 2 ^ 32) :
    0 ≤ int32 number ↔ number < 2 ^ 31 := by
  rw [int32, BitVec.toInt_eq_toNat_cond, BitVec.toNat_ofNat]
  split <;> omega

def Record.root (record : Record) : Object :=
  .array
    [.array [.ext 0 (forwardTimestamp record.timestamp), .map record.metadata.pairs],
      .map record.body.pairs]

theorem Record.encodes_bytes (record : Record) : Encodes record.bytes record.root := by
  have length := length_forwardTimestamp record.timestamp
  have timestamp : Encodes (timestampBytes record.timestamp)
      (.ext 0 (forwardTimestamp record.timestamp)) := by
    have encodes := @encodes_ext (forwardTimestamp record.timestamp) 0 (by omega)
    rwa [length] at encodes
  have pair : 2 < 2 ^ 32 := by omega
  have header : Encodes (arrayHeader 2 ++ [timestampBytes record.timestamp,
    record.metadata.bytes].flatten) (.array [.ext 0 (forwardTimestamp record.timestamp),
    .map record.metadata.pairs]) := .array (unpackToken_arrayHeader pair) (.cons timestamp
    (.cons record.metadata.encodes_bytes .nil))
  exact .array (unpackToken_arrayHeader pair) (.cons header (.cons record.body.encodes_bytes .nil))

def Record.event (record : Record) : Event :=
  { rawTimestamp := .ext 0 (forwardTimestamp record.timestamp)
    timestamp := { sec := int32 record.sec, nsec := record.nsec }
    metadata := .map record.metadata.pairs
    format := .fluentBitV2
    body := .map record.body.pairs
    root := record.root
    group := none }

theorem Record.decodes_root (record : Record) :
    decodeObject ofDouble record.root = .ok record.event := by
  have nsecFits := record.nsec_lt
  have timestamp := decodeTimestamp_forwardTimestamp ofDouble
    record.sec record.nsec record.sec_lt (by omega)
  rw [int32_of_lt (by omega : record.nsec < 2 ^ 31)] at timestamp
  simp only [Record.root, decodeObject, decodeParts, isTimestamp, isMap,
    Bool.not_true, Bool.false_eq_true, if_false, Record.timestamp, timestamp]
  rfl

def Record.item (record : Record) : Item ofDouble :=
  { bytes := record.bytes
    root := record.root
    event := record.event
    encodes := record.encodes_bytes
    decodes := record.decodes_root ofDouble }

theorem Record.item_type_iff (record : Record) :
    (record.item ofDouble).type = some .normal ↔ record.sec < 2 ^ 31 := by
  have seconds : (BitVec.ofInt 32 (int32 record.sec)).toInt =
      int32 record.sec := by
    rw [int32, BitVec.ofInt_toInt]
  have sign := int32_nonneg_iff record.sec_lt
  change getRecordType record.event = _ ↔ _
  rw [getRecordType, Record.event]
  simp only [seconds]
  split
  · next nonneg => simpa using sign.mp nonneg
  · next negative =>
    have large : ¬record.sec < 2 ^ 31 := fun small => negative (sign.mpr small)
    split
    · simpa using large
    · split <;> simpa using large

/-- What the round trip is about: the timestamp and the two maps. -/
def Delivery.contents (delivery : Delivery) : Time × Object × Object :=
  (delivery.timestamp, delivery.metadata, delivery.body)

def Record.contents (record : Record) : Time × Object × Object :=
  (record.timestamp, .map record.metadata.pairs, .map record.body.pairs)

theorem Record.delivery_contents {record : Record} (small : record.sec < 2 ^ 31)
    (group : Option (Object × Object)) (base : Nat) :
    ((record.item ofDouble).delivery group base).contents = record.contents := by
  have seconds := int32_of_lt small
  simp only [Item.delivery, Record.item, Record.event, Delivery.contents,
    Record.contents, Record.timestamp, seconds]

variable {ofDouble}

theorem length_deliveries_le (group : Option (Object × Object)) (base : Nat)
    (items : List (Item ofDouble)) :
    (deliveries false group base items).1.length ≤
      items.countP fun item => item.type = some .normal := by
  induction items generalizing group base with
  | nil => exact Nat.zero_le _
  | cons item items ih =>
    have later := ih (item.groupAfter group) (base + item.bytes.length)
    rw [deliveries, countP_cons]
    cases type : item.type with
    | none => exact Nat.zero_le _
    | some kind =>
      cases kind with
      | normal | groupStart | groupEnd => simpa using later

theorem deliveries_records (records : List Record) (small : ∀ record ∈ records, record.sec < 2 ^ 31)
    (group : Option (Object × Object)) (base : Nat) :
    (deliveries false group base (records.map (Record.item ofDouble))).1.map Delivery.contents =
      records.map Record.contents ∧
    (deliveries false group base (records.map (Record.item ofDouble))).2 = .insufficientData := by
  induction records generalizing group base with
  | nil => exact ⟨rfl, rfl⟩
  | cons record records ih =>
    have first := small record mem_cons_self
    have later := ih (fun other member =>
      small other (mem_cons_of_mem _ member))
      ((record.item ofDouble).groupAfter group)
      (base + (record.item ofDouble).bytes.length)
    rw [map_cons, deliveries, (record.item_type_iff ofDouble).mpr first]
    exact ⟨congrArg₂ List.cons (record.delivery_contents ofDouble first ..) later.1, later.2⟩

theorem bytesOf_records (records : List Record) :
    bytesOf (records.map (Record.item ofDouble)) = (records.map Record.bytes).flatten := by
  rw [bytesOf, map_map]
  rfl

variable (ofDouble)

/-- Encoded records are decoded to themselves, in order and up to the end of
the data, if and only if all their seconds are below `2 ^ 31`. -/
theorem log_event_round_trip (records : List Record) :
    ∃ encoder, encode records = some encoder ∧
      ((decode ofDouble encoder.buffer false).1.map Delivery.contents =
            records.map Record.contents ∧
          (decode ofDouble encoder.buffer false).2.1 = .insufficientData ∧
          getLastResult (decode ofDouble encoder.buffer false).2.2 = .success ↔
        ∀ record ∈ records, record.sec < 2 ^ 31) := by
  obtain ⟨encoder, encoded, buffer⟩ := encode_buffer records
  refine ⟨encoder, encoded, ?_⟩
  obtain ⟨delivered, result, success⟩ := decode_bytesOf false (records.map (Record.item ofDouble))
  rw [bytesOf_records, ← buffer] at delivered result success
  rw [delivered, result]
  constructor
  · rintro ⟨same, _, _⟩
    -- As many deliveries as records: every record was taken for one.
    have bound := length_deliveries_le none 0 (records.map (Record.item ofDouble))
    have length := congrArg List.length same
    rw [length_map, length_map] at length
    rw [length] at bound
    have all := countP_eq_length.mp (le_antisymm countP_le_length (by rw [length_map]; exact bound))
    intro record member
    have normal := all _ (mem_map_of_mem member)
    exact (record.item_type_iff ofDouble).mp (by simpa using normal)
  · intro small
    obtain ⟨same, ended⟩ := @deliveries_records ofDouble records small none 0
    exact ⟨same, ended, success ended⟩

/-- A record without keys, at a given second. -/
def plainRecord (sec : Nat) (fits : sec < 2 ^ 32) : Record :=
  { sec := sec
    nsec := 0
    metadata := .values [] ⟨by simp, trivial⟩
    body := .values [] ⟨by simp, trivial⟩
    sec_lt := fits
    nsec_lt := by omega }

def noDouble (_ : BitVec 64) : Time :=
  { sec := 0, nsec := 0 }

/-- A record of the year 2038 ends the decoding, and a record of the last
second of the range is taken for the opener of a group. -/
theorem late_records_are_lost :
    (∃ encoder, encode [plainRecord (2 ^ 31) (by omega)] = some encoder ∧
      (decode noDouble encoder.buffer false).1 = [] ∧
      (decode noDouble encoder.buffer false).2.1 = .deserializationFailure) ∧
    ∃ encoder, encode [plainRecord (2 ^ 32 - 1) (by omega)] = some encoder ∧
      (decode noDouble encoder.buffer false).1 = [] ∧
      getLastResult (decode noDouble encoder.buffer false).2.2 = .success :=
  ⟨⟨_, rfl, rfl, rfl⟩, ⟨_, rfl, rfl, rfl⟩⟩

def groupInit (encoder : Encoder) : Encoder :=
  setTimestamp (beginRecord encoder) { sec := -1, nsec := 0 }

def groupHeaderEnd (encoder : Encoder) : Bool × Encoder := commitRecord encoder

def groupEnd (encoder : Encoder) : Bool × Encoder :=
  commitRecord (setTimestamp (beginRecord encoder) { sec := -2, nsec := 0 })

/-- Markers are records whose seconds are negative in 32 bits. -/
def opener (metadata attributes : Contents) : Record :=
  { sec := 2 ^ 32 - 1
    nsec := 0
    metadata := metadata
    body := attributes
    sec_lt := Nat.sub_one_lt (Nat.two_pow_pos 32).ne'
    nsec_lt := Nat.pow_pos (by decide) }

def closer : Record := plainRecord (2 ^ 32 - 2) (by omega)

variable {ofDouble}

def Item.isMarker (item : Item ofDouble) : Bool :=
  item.type = some .groupStart ∨ item.type = some .groupEnd

/-- The group that is open after the given objects: the one of the last marker,
if that opens a group. -/
def openGroup (before : List (Item ofDouble)) : Option (Object × Object) :=
  match before.reverse.find? Item.isMarker with
  | none => none
  | some marker =>
    if marker.type = some .groupStart then
      some (marker.event.metadata, marker.event.body)
    else none

theorem openGroup_append (before : List (Item ofDouble)) (item : Item ofDouble) :
    openGroup (before ++ [item]) = item.groupAfter (openGroup before) := by
  rw [openGroup, reverse_append, reverse_singleton,
    singleton_append, List.find?_cons, Item.groupAfter]
  cases type : item.type with
  | none => simp [Item.isMarker, type, openGroup]
  | some kind =>
    cases kind with
    | normal => simp [Item.isMarker, type, openGroup]
    | groupStart | groupEnd => simp [Item.isMarker, type]

/-- Every record among the objects, with the group open where it stands and
the place of its bytes. -/
def grouped : List (Item ofDouble) → List (Item ofDouble) → List Delivery
  | _, [] => []
  | before, item :: items =>
    if item.type = some .normal then
      item.delivery (openGroup before) (bytesOf before).length :: grouped (before ++ [item]) items
    else grouped (before ++ [item]) items

theorem length_bytesOf_append (before : List (Item ofDouble)) (item : Item ofDouble) :
    (bytesOf (before ++ [item])).length = (bytesOf before).length + item.bytes.length := by
  simp [bytesOf]

/-- The decoder keeps the open group while it goes over the objects. -/
theorem deliveries_eq_grouped (items : List (Item ofDouble))
    (valid : ∀ item ∈ items, item.type ≠ none) (before : List (Item ofDouble)) :
    deliveries false (openGroup before) (bytesOf before).length items =
      (grouped before items, .insufficientData) := by
  induction items generalizing before with
  | nil => rfl
  | cons item items ih =>
    have later := ih (fun other member =>
      valid other (mem_cons_of_mem _ member)) (before ++ [item])
    rw [openGroup_append, length_bytesOf_append] at later
    rw [deliveries, grouped, later]
    cases type : item.type with
    | none => exact absurd type (valid item mem_cons_self)
    | some kind =>
      cases kind with
      | normal | groupStart | groupEnd => rfl

variable (ofDouble)

/-- Over any sequence of records and markers the decoder delivers the records
in order, none of the markers, each record with the group open where it stands
and with the place of its own bytes. -/
theorem groups_are_tracked (items : List (Item ofDouble))
    (valid : ∀ item ∈ items, item.type ≠ none) :
    (decode ofDouble (bytesOf items) false).1 = grouped [] items ∧
      (decode ofDouble (bytesOf items) false).2.1 = .insufficientData ∧
      getLastResult (decode ofDouble (bytesOf items) false).2.2 = .success ∧
      ∀ before item after, items = before ++ item :: after →
        ((bytesOf items).drop (bytesOf before).length).take item.bytes.length = item.bytes := by
  have expected := deliveries_eq_grouped items valid []
  obtain ⟨delivered, result, success⟩ := decode_bytesOf false items
  change deliveries false none 0 items = _ at expected
  rw [expected] at delivered result success
  refine ⟨delivered, result, success rfl, ?_⟩
  rintro before item after rfl
  have split : bytesOf (before ++ item :: after) =
      bytesOf before ++ (item.bytes ++ bytesOf after) := by
    simp [bytesOf]
  rw [split, drop_left, take_left]

def groupedItems : List (Item noDouble) :=
  [(opener closer.metadata closer.body).item _, (plainRecord 1 (by omega)).item _, closer.item _,
    (plainRecord 2 (by omega)).item _]

theorem groups_are_tracked_groupedItems :
    (grouped [] groupedItems).map (fun delivery =>
        (delivery.timestamp.sec, delivery.group.isSome)) =
      [(1, true), (2, false)] ∧
    (decode noDouble (bytesOf groupedItems) false).1 = grouped [] groupedItems :=
  ⟨rfl, (groups_are_tracked _ groupedItems (by
    intro item member
    simp only [groupedItems, mem_cons, not_mem_nil, or_false] at member
    rcases member with rfl | rfl | rfl | rfl
    all_goals exact nofun)).1⟩

/-- What the encoder writes: a record, or a marker that opens or closes a group. -/
inductive Entry where
  | groupStart (metadata attributes : Contents)
  | normal (record : Record)
  | groupEnd

def Entry.record : Entry → Record
  | .groupStart metadata attributes => opener metadata attributes
  | .normal record => record
  | .groupEnd => closer

def writeEntry (encoder : Encoder) : Entry → Bool × Encoder
  | .groupStart metadata attributes =>
    let opened := groupInit encoder
    groupHeaderEnd { opened with
      metadata := metadata.fill opened.metadata
      body := attributes.fill opened.body }
  | .normal record => encodeRecord encoder record
  | .groupEnd => groupEnd encoder

def writeEntries (entries : List Entry) : Encoder :=
  entries.foldl (fun encoder entry => (writeEntry encoder entry).2) (encoderInit .fluentBitV2)

theorem writeEntry_idle {encoder : Encoder} (idle : Idle encoder) (entry : Entry) :
    (writeEntry encoder entry).1 = true ∧
      (writeEntry encoder entry).2.buffer = encoder.buffer ++ entry.record.bytes ∧
      Idle (writeEntry encoder entry).2 := by
  cases entry with
  | groupStart metadata attributes =>
    exact writeRecord_idle idle { sec := -1, nsec := 0 } metadata attributes
  | normal record => exact writeRecord_idle idle record.timestamp record.metadata record.body
  | groupEnd => exact writeRecord_idle idle { sec := -2, nsec := 0 } closer.metadata closer.body

theorem buffer_writeEntries (entries : List Entry) :
    (writeEntries entries).buffer = ((entries.map Entry.record).map Record.bytes).flatten ∧
      Idle (writeEntries entries) := by
  induction entries using List.reverseRecOn with
  | nil => exact ⟨rfl, ⟨rfl, rfl, rfl, rfl⟩⟩
  | append_singleton entries entry ih =>
    obtain ⟨_, buffer, idle⟩ := writeEntry_idle ih.2 entry
    have last : writeEntries (entries ++ [entry]) = (writeEntry (writeEntries entries) entry).2 :=
      foldl_concat ..
    rw [last, buffer, ih.1]
    simpa using idle

/-- The two numbers of an event time, as `uint32_t`. -/
def eventTime (data : List Byte) : Time :=
  { sec := bigEndian (data.take 4), nsec := bigEndian (data.drop 4) }

/-- `mpack_tag_t`.  An integer keeps the signedness of its format; an extension
is followed by its bytes. -/
inductive MpackTag where
  | int (i64 : BitVec 64)
  | uint (u64 : BitVec 64)
  | float (bits : BitVec 32)
  | double (bits : BitVec 64)
  | ext (type : Byte) (length : Nat)
  | array (count : Nat)
  | other
deriving DecidableEq

def signedFormats : List Byte := [0xd0, 0xd1, 0xd2, 0xd3]

/-- `mpack_read_tag`.  The bytes of strings are skipped, since nothing reads
behind a tag of another type. -/
def readTag (bytes : List Byte) : Option (MpackTag × List Byte) :=
  match unpackToken bytes with
  | .done (.value (.positiveInteger u64)) rest =>
    if bytes.headD 0 ∈ signedFormats then some (.int u64, rest) else some (.uint u64, rest)
  | .done (.value (.negativeInteger i64)) rest => some (.int i64, rest)
  | .done (.value (.float32 bits)) rest => some (.float bits, rest)
  | .done (.value (.float64 bits)) rest => some (.double bits, rest)
  | .done (.value (.ext type data)) rest => some (.ext type data.length, data ++ rest)
  | .done (.array count) rest => some (.array count, rest)
  | .done _ rest => some (.other, rest)
  | _ => none

section
variable (ofDouble : BitVec 64 → Time)

def timeMsgpackToTime (object : Object) : Option Time :=
  match object with
  | .positiveInteger u64 => some { sec := u64.toInt, nsec := 0 }
  | .float64 bits => some (ofDouble bits)
  | .ext type data => if type ≠ 0 ∨ data.length ≠ 8 then none else some (eventTime data)
  | _ => none

/-- `flb_time_pop_from_msgpack`.  The first element of an empty array is read
by the source all the same. -/
def timePopFromMsgpack (root : Object) : Option Time :=
  match root with
  | .array (.array [timestamp, _] :: _) => timeMsgpackToTime ofDouble timestamp
  | .array (.array _ :: _) => none
  | .array (timestamp :: _) => timeMsgpackToTime ofDouble timestamp
  | _ => none

/-- The `switch` of `flb_time_pop_from_mpack`: the type of an extension is not
looked at, and a float falls through to the double of the union. -/
def tagTime (tag : MpackTag) (bytes : List Byte) : Option Time :=
  match tag with
  | .int i64 => if i64.toInt < 0 then none else some { sec := i64.toInt, nsec := 0 }
  | .uint u64 => some { sec := u64.toInt, nsec := 0 }
  | .float bits => some (ofDouble (bits.setWidth 64))
  | .double bits => some (ofDouble bits)
  | .ext _ length => if length ≠ 8 then none else some (eventTime (bytes.take 8))
  | _ => none

/-- `flb_time_pop_from_mpack`; what is discarded behind the timestamp has no
effect on it. -/
def timePopFromMpack (bytes : List Byte) : Option Time :=
  match readTag bytes with
  | some (.array count, bytes) =>
    if count = 0 then none
    else
      match readTag bytes with
      | some (.array count, bytes) =>
        if count ≠ 2 then none
        else (readTag bytes).bind fun found => tagTime ofDouble found.1 found.2
      | found => found.bind fun found => tagTime ofDouble found.1 found.2
  | _ => none

end

def Begins (bytes : List Byte) (token : Token) : Prop :=
  ∀ rest, unpackToken (bytes ++ rest) = .done token rest

/-- The encodings of a record with the timestamp, and what they stand for. -/
inductive EncodedRecord (timestamp : Object) : List Byte → Object → Prop where
  | forward {root time : List Byte} {body : List Byte} {content : Object}
      (pair : Begins root (.array 2)) (stamp : Begins time (.value timestamp))
      (encodes : Encodes body content) :
      EncodedRecord timestamp (root ++ [time, body].flatten) (.array [timestamp, content])
  | fluentBitV2 {root header time metadata body : List Byte} {fields content : Object}
      (pair : Begins root (.array 2)) (inner : Begins header (.array 2))
      (stamp : Begins time (.value timestamp)) (encodesFields : Encodes metadata fields)
      (encodes : Encodes body content) :
      EncodedRecord timestamp (root ++ [header ++ [time, metadata].flatten, body].flatten)
        (.array [.array [timestamp, fields], content])

/-- A timestamp that is a non-negative integer or an extension value. -/
inductive IntegerOrExtension : Object → Prop where
  | integer (u64 : BitVec 64) : IntegerOrExtension (.positiveInteger u64)
  | extension (type : Byte) (data : List Byte) : IntegerOrExtension (.ext type data)

/-- Eight bytes are an event time of type 0 whose numbers fit in 31 bits. -/
def WithinInt32 : Object → Prop
  | .ext type data =>
    data.length = 8 → type = 0 ∧ bigEndian (data.take 4) < 2 ^ 31 ∧ bigEndian (data.drop 4) < 2 ^ 31
  | _ => True

variable {data : List Byte}

section
variable {ofDouble : BitVec 64 → Time} {timestamp root : Object}
  {record time bytes rest : List Byte} {u64 : BitVec 64}

theorem EncodedRecord.encodes (encoded : EncodedRecord timestamp record root) :
    Encodes record root := by
  cases encoded with
  | forward pair stamp encodes =>
    exact Encodes.array pair (.cons (.of_token stamp) (.cons encodes .nil))
  | fluentBitV2 pair inner stamp encodesFields encodes =>
    have header : Encodes (_ ++ [_, _].flatten) (.array [timestamp, _]) :=
      Encodes.array inner (.cons (.of_token stamp) (.cons encodesFields .nil))
    exact Encodes.array pair (.cons header (.cons encodes .nil))

theorem timePopFromMsgpack_record (encoded : EncodedRecord timestamp record root)
    (kind : IntegerOrExtension timestamp) :
    timePopFromMsgpack ofDouble root = timeMsgpackToTime ofDouble timestamp := by
  cases encoded with
  | forward => cases kind with
    | integer | extension => rfl
  | fluentBitV2 => rfl

theorem readTag_array {count : Nat} (begins : Begins bytes (.array count)) (rest : List Byte) :
    readTag (bytes ++ rest) = some (.array count, rest) := by
  rw [readTag, begins rest]

/-- A format with a sign is read as a positive integer when its sign bit is not set. -/
theorem toInt_nonneg_of_signed {width : Nat} {bits : BitVec width}
    (narrow : width ≤ 64) (positive : signed width bits = .positiveInteger u64) :
    0 ≤ u64.toInt := by
  rw [signed] at positive
  split at positive
  · cases positive
  · next clear =>
    cases positive
    rw [BitVec.toInt_signExtend_of_le narrow, BitVec.toInt_eq_toNat_of_msb (by simpa using clear)]
    exact Int.natCast_nonneg _

theorem toInt_nonneg_of_readToken {bits width : Nat} (narrow : width ≤ 64)
    (read : readToken bits (fun number => .value (signed width (.ofNat width number))) bytes =
      .done (.value (.positiveInteger u64)) rest) : 0 ≤ u64.toInt := by
  rw [readToken, readNumber] at read
  split at read
  · cases read
  · injection read with token
    injection token with value
    exact toInt_nonneg_of_signed narrow value

theorem toInt_nonneg_of_unpackTrail {tag : Byte} (sign : tag ∈ signedFormats)
    (read : unpackTrail tag bytes = .done (.value (.positiveInteger u64)) rest) :
    0 ≤ u64.toInt := by
  simp only [signedFormats, mem_cons, not_mem_nil, or_false] at sign
  obtain rfl | rfl | rfl | rfl := sign
  · exact toInt_nonneg_of_readToken (by decide : 8 ≤ 64) read
  · exact toInt_nonneg_of_readToken (by decide : 16 ≤ 64) read
  · exact toInt_nonneg_of_readToken (by decide : 32 ≤ 64) read
  · exact toInt_nonneg_of_readToken (by decide : 64 ≤ 64) read

def TagReads (ofDouble : BitVec 64 → Time) (timestamp : Object) (answer : Option Time) : Prop :=
  ∀ time rest, Begins time (.value timestamp) →
    ∃ tag left, readTag (time ++ rest) = some (tag, left) ∧ (∀ count, tag ≠ .array count) ∧
      tagTime ofDouble tag left = answer

theorem tagReads_integer (u64 : BitVec 64) :
    TagReads ofDouble (.positiveInteger u64) (some { sec := u64.toInt, nsec := 0 }) := by
  intro time rest stamp
  have token := stamp rest
  rw [readTag, token]
  dsimp only
  split
  · next sign =>
    refine ⟨.int u64, rest, rfl, fun _ => MpackTag.noConfusion, if_neg (Int.not_lt.mpr ?_)⟩
    generalize time ++ rest = bytes at token sign
    cases bytes with
    | nil => cases token
    | cons tag bytes => exact toInt_nonneg_of_unpackTrail sign token
  · exact ⟨.uint u64, rest, rfl, fun _ => MpackTag.noConfusion, rfl⟩

theorem tagReads_extension (type : Byte) (data : List Byte) :
    TagReads ofDouble (.ext type data)
      (if data.length ≠ 8 then none else some (eventTime data)) := by
  intro time rest stamp
  refine ⟨.ext type data.length, data ++ rest, ?_, fun _ => MpackTag.noConfusion, ?_⟩
  · rw [readTag, stamp rest]
  · rw [tagTime]
    split
    · rfl
    · next eight => rw [take_left' (not_not.mp eight)]

theorem timePopFromMpack_record {answer : Option Time}
    (encoded : EncodedRecord timestamp record root) (reads : TagReads ofDouble timestamp answer)
    (rest : List Byte) : timePopFromMpack ofDouble (record ++ rest) = answer := by
  cases encoded with
  | @forward root time body content pair stamp encodes =>
    obtain ⟨tag, left, read, plain, same⟩ := reads time (body ++ rest) stamp
    simp only [flatten_cons, flatten_nil, append_nil, append_assoc]
    rw [timePopFromMpack, readTag_array pair]
    dsimp only
    rw [if_neg (by decide), read]
    cases tag with
    | array count => exact absurd rfl (plain count)
    | _ => exact same
  | @fluentBitV2 root header time metadata body fields content pair inner stamp =>
    obtain ⟨tag, left, read, _, same⟩ := reads time (metadata ++ (body ++ rest)) stamp
    simp only [flatten_cons, flatten_nil, append_nil, append_assoc]
    rw [timePopFromMpack, readTag_array pair]
    dsimp only
    rw [if_neg (by decide), readTag_array inner]
    dsimp only
    rw [if_neg (by decide), read]
    exact same

/-- All three readers refuse the record, or they return the same time. -/
def Agree (ofDouble : BitVec 64 → Time) (bytes : List Byte) (root timestamp : Object) : Prop :=
  timePopFromMsgpack ofDouble root = timePopFromMpack ofDouble bytes ∧
    (decodeTimestamp ofDouble timestamp).toOption = timePopFromMpack ofDouble bytes

theorem int32_eq_iff (number : Nat) : int32 number = number ↔ number < 2 ^ 31 := by
  constructor
  · intro same
    have bound := BitVec.two_mul_toInt_lt (x := BitVec.ofNat 32 number)
    rw [int32] at same
    omega
  · exact int32_of_lt

/-- The extension is read alike when it is no event time for any reader, or one whose numbers
have the same value with and without a sign. -/
theorem agree_extension_iff {type : Byte} {bytes : List Byte}
    (object : timePopFromMsgpack ofDouble root = timeMsgpackToTime ofDouble (.ext type data))
    (tags : timePopFromMpack ofDouble bytes =
      if data.length ≠ 8 then none else some (eventTime data)) :
    Agree ofDouble bytes root (.ext type data) ↔ WithinInt32 (.ext type data) := by
  rw [Agree, object, tags, timeMsgpackToTime, decodeTimestamp, WithinInt32]
  by_cases eight : data.length = 8
  · by_cases zero : type = 0
    · simp [eight, zero, Except.toOption, eventTime, int32_eq_iff]
    · simp [eight, zero, Except.toOption]
  · simp [eight, Except.toOption]

theorem timestamp_readers_agree_iff (ofDouble : BitVec 64 → Time) {timestamp root : Object}
    {record : List Byte} (encoded : EncodedRecord timestamp record root)
    (kind : IntegerOrExtension timestamp) (rest : List Byte) :
    unpack (record ++ rest) = .done root rest ∧
      (Agree ofDouble (record ++ rest) root timestamp ↔ WithinInt32 timestamp) := by
  refine ⟨encoded.encodes rest, ?_⟩
  have object : timePopFromMsgpack ofDouble root = _ := timePopFromMsgpack_record encoded kind
  cases kind with
  | integer u64 =>
    have tags : timePopFromMpack ofDouble (record ++ rest) = _ :=
      timePopFromMpack_record encoded (tagReads_integer u64) rest
    rw [Agree, object, tags]
    exact iff_of_true ⟨rfl, rfl⟩ trivial
  | extension type data =>
    exact agree_extension_iff object
      (timePopFromMpack_record encoded (tagReads_extension type data) rest)

theorem timestamp_readers_agree_iff_second :
    Agree noDouble [0x92, 1, 0x80] (.array [.positiveInteger 1, .map []]) (.positiveInteger 1) :=
  (timestamp_readers_agree_iff _
    (.forward (fun _ => rfl : Begins [0x92] _) (fun _ => rfl : Begins [1] _)
      (fun _ => rfl : Encodes [0x80] (.map [])))
    (.integer 1) []).2.mpr trivial

def extensionRecord (type : Byte) (data : List Byte) : List Byte :=
  [0x92, 0xd7, type] ++ data ++ [0x80]

def readings (type : Byte) (data : List Byte) : List (Option Time) :=
  [timePopFromMsgpack noDouble (.array [.ext type data, .map []]),
    timePopFromMpack noDouble (extensionRecord type data),
    (decodeTimestamp noDouble (.ext type data)).toOption]

/-- An extension of another type, and an event time in the year 2038. -/
theorem timestamp_readers_differ :
    readings 1 [0, 0, 0, 1, 0, 0, 0, 2] = [none, some ⟨1, 2⟩, none] ∧
      readings 0 [0x80, 0, 0, 0, 0, 0, 0, 0] =
        [some ⟨2147483648, 0⟩, some ⟨2147483648, 0⟩, some ⟨-2147483648, 0⟩] := by
  decide

end

/-- The checks of `flb_mp_validate_log_chunk` on an array: the timestamp of a
record that passes them. -/
def checkRecord (object : Object) : Option Object :=
  match object with
  | .array [header, record] =>
    match header with
    | .array [ts, metadata] =>
      if isMap metadata && isTimestamp ts && isMap record then some ts
      else none
    | .array _ => none
    | ts => if isTimestamp ts && isMap record then some ts else none
  | _ => none

/-- The test for zero bytes behind the last record: the first byte is zero, and
every byte equals the one that follows it. -/
def zeroFilled (ptr : List Byte) : Bool :=
  ptr.head? == some 0 && ptr.take (ptr.length - 1) == ptr.drop 1

/-- What `flb_mp_validate_log_chunk` returns and reports. -/
structure Validation where
  ret : Int
  outRecords : Nat
  processedBytes : Nat
deriving DecidableEq, Repr

/-- The loop of `flb_mp_validate_log_chunk` from the last good offset on, with
a bound on the number of objects. -/
def validateFrom (data : List Byte) : Nat → Nat → Nat → Validation
  | 0, count, offset =>
    { ret := 0, outRecords := count, processedBytes := offset }
  | objects + 1, count, offset =>
    match unpack (data.drop offset) with
    | .more _ =>
      { ret := 0, outRecords := count, processedBytes := offset }
    | .malformed _ =>
      { ret := 0, outRecords := count, processedBytes := offset }
    | .done (.array items) rest =>
      if (checkRecord (.array items)).isSome then
        validateFrom data objects (count + 1) (data.length - rest.length)
      else { ret := -1, outRecords := count, processedBytes := offset }
    | .done _ _ =>
      if zeroFilled (data.drop offset) then
        { ret := 0, outRecords := count, processedBytes := offset }
      else { ret := -1, outRecords := count, processedBytes := offset }

/-- `flb_mp_validate_log_chunk`.  Every object takes a byte, so the bound is
not reached.  The records are counted in a natural, for fewer than the 2^31 that
the `int` of the source holds. -/
def validateLogChunk (data : List Byte) : Validation := validateFrom data (data.length + 1) 0 0

structure Part where
  bytes : List Byte
  root : Object
  timestamp : Object
  encodes : Encodes bytes root
  checked : checkRecord root = some timestamp

def partsBytes (parts : List Part) : List Byte := (parts.map Part.bytes).flatten

theorem partsBytes_cons (part : Part) (parts : List Part) :
    partsBytes (part :: parts) = part.bytes ++ partsBytes parts := by
  rw [partsBytes, map_cons, flatten_cons, partsBytes]

def NoRecord (rest : List Byte) : Prop :=
  ∀ (part : Part) (left : List Byte), rest ≠ part.bytes ++ left

variable {rest left : List Byte}

theorem partsBytes_length_le {parts : List Part} (ended : NoRecord rest) {others : List Part}
    (same : partsBytes parts ++ rest = partsBytes others ++ left) :
    (partsBytes others).length ≤ (partsBytes parts).length := by
  induction others generalizing parts with
  | nil => exact Nat.zero_le _
  | cons other others ih =>
    rw [partsBytes_cons, append_assoc] at same
    cases parts with
    | nil => exact absurd same (ended other _)
    | cons part parts =>
      rw [partsBytes_cons, append_assoc] at same
      obtain ⟨_, bytes, following⟩ := part.encodes.unique other.encodes same
      have shorter := ih following
      rw [partsBytes_cons, partsBytes_cons, length_append, length_append, bytes]
      omega

theorem dropLast_cons_eq_iff (first : Byte) (bytes : List Byte) :
    (first :: bytes).dropLast = bytes ↔ ∀ byte ∈ bytes, byte = first := by
  induction bytes generalizing first with
  | nil => simp
  | cons second bytes ih =>
    rw [dropLast_cons_cons, List.cons.injEq, ih second, forall_mem_cons, eq_comm]
    refine and_congr_right fun same => ?_
    rw [same]

theorem zeroFilled_iff (ptr : List Byte) :
    zeroFilled ptr = true ↔ ptr ≠ [] ∧ ∀ byte ∈ ptr, byte = 0 := by
  cases ptr with
  | nil => simp [zeroFilled]
  | cons first bytes =>
    have shifted := dropLast_cons_eq_iff first bytes
    rw [dropLast_eq_take] at shifted
    rw [zeroFilled, Bool.and_eq_true, beq_iff_eq, beq_iff_eq, drop_one, tail_cons, shifted,
      List.head?_cons, Option.some.injEq, and_iff_right (cons_ne_nil _ _), forall_mem_cons]
    refine and_congr_right fun zero => ?_
    rw [zero]

/-- What the validator returns at the place where its records end. -/
def returnAt (rest : List Byte) : Int :=
  match unpack rest with
  | .more _ => 0
  | .malformed _ => 0
  | .done (.array _) _ => -1
  | .done _ _ => if zeroFilled rest then 0 else -1

theorem checkRecord_isArray {object timestamp : Object}
    (checked : checkRecord object = some timestamp) : ∃ items, object = .array items := by
  cases object with
  | array items => exact ⟨items, rfl⟩
  | _ => cases checked

theorem validateFrom_part {part : Part} {offset : Nat}
    (begins : data.drop offset = part.bytes ++ left) (objects count : Nat) :
    validateFrom data (objects + 1) count offset =
      validateFrom data objects (count + 1) (offset + part.bytes.length) := by
  obtain ⟨items, isArray⟩ := checkRecord_isArray part.checked
  obtain ⟨_, length⟩ := part.encodes.at_offset begins
  have moved : data.length - left.length = offset + part.bytes.length := by omega
  have checked := part.checked
  rw [isArray] at checked
  rw [validateFrom, begins, part.encodes left, isArray]
  simp only [checked, Option.isSome_some, if_true, moved]

theorem validateFrom_stop {offset : Nat}
    (ended : NoRecord (data.drop offset)) (objects count : Nat) :
    validateFrom data (objects + 1) count offset =
      { ret := returnAt (data.drop offset), outRecords := count, processedBytes := offset } := by
  rw [validateFrom, returnAt]
  cases read : unpack (data.drop offset) with
  | more left | malformed left => rfl
  | done object left =>
    cases object with
    | array items =>
      have unchecked : checkRecord (.array items) = none := by
        cases checked : checkRecord (.array items) with
        | none => rfl
        | some timestamp =>
          obtain ⟨bytes, split, encodes⟩ := unpack_done read
          exact absurd split (ended
            { bytes := bytes
              root := .array items
              timestamp := timestamp
              encodes := encodes
              checked := checked } left)
      simp only [unchecked, Option.isSome_none, Bool.false_eq_true, if_false]
    | _ =>
      dsimp only
      split <;> rfl

/-- The validator goes over whole records up to a place where none begins. -/
theorem validateFrom_spec (data : List Byte) (objects count offset : Nat)
    (enough : data.length - offset < objects) :
    ∃ parts rest, data.drop offset = partsBytes parts ++ rest ∧ NoRecord rest ∧
      validateFrom data objects count offset =
        { ret := returnAt rest
          outRecords := count + parts.length
          processedBytes := offset + (partsBytes parts).length } := by
  induction objects generalizing count offset with
  | zero => exact absurd enough (Nat.not_lt_zero _)
  | succ objects ih =>
    by_cases ended : NoRecord (data.drop offset)
    · exact ⟨[], data.drop offset, rfl, ended, validateFrom_stop ended objects count⟩
    · obtain ⟨part, left, begins⟩ : ∃ (part : Part) (left : List Byte),
          data.drop offset = part.bytes ++ left := by
        simpa [NoRecord] using ended
      obtain ⟨nonempty, length⟩ := part.encodes.at_offset begins
      obtain ⟨parts, rest, split, noRecord, result⟩ :=
        ih (count + 1) (offset + part.bytes.length) (by omega)
      refine ⟨part :: parts, rest, ?_, noRecord, ?_⟩
      · rw [← drop_drop, begins, drop_left] at split
        rw [begins, split, partsBytes_cons, append_assoc]
      · rw [validateFrom_part begins, result, length_cons, partsBytes_cons, length_append]
        congr 1
        all_goals omega

theorem validateLogChunk_spec (data : List Byte) :
    ∃ parts rest, data = partsBytes parts ++ rest ∧ NoRecord rest ∧
      validateLogChunk data =
        { ret := returnAt rest
          outRecords := parts.length
          processedBytes := (partsBytes parts).length } := by
  obtain ⟨parts, rest, split, ended, result⟩ :=
    validateFrom_spec data (data.length + 1) 0 0 (by omega)
  refine ⟨parts, rest, split, ended, ?_⟩
  rw [validateLogChunk, result, Nat.zero_add, Nat.zero_add]

/-- The timestamps the decoder takes: of the extensions only the one of eight
bytes and type zero, and no seconds below the two markers. -/
def TimestampReadable : Object → Prop
  | .positiveInteger u64 => -2 ≤ (BitVec.ofInt 32 u64.toInt).toInt
  | .float64 bits => -2 ≤ (BitVec.ofInt 32 (ofDouble bits).sec).toInt
  | .ext type data => type = 0 ∧ data.length = 8 ∧ -2 ≤ int32 (bigEndian (data.take 4))
  | _ => False

theorem getRecordType_eq_none_iff (event : Event) :
    getRecordType event = none ↔ ¬-2 ≤ (BitVec.ofInt 32 event.timestamp.sec).toInt := by
  rw [getRecordType]
  repeat' split
  all_goals
    simp only [reduceCtorEq, true_iff, false_iff]
    omega

theorem decodeTimestamp_cases (timestamp : Object) :
    (∃ time, decodeTimestamp ofDouble timestamp = .ok time ∧
      (TimestampReadable ofDouble timestamp ↔ -2 ≤ (BitVec.ofInt 32 time.sec).toInt)) ∨
    (decodeTimestamp ofDouble timestamp = .error .wrongTimestampType ∧
      ¬TimestampReadable ofDouble timestamp) := by
  cases timestamp with
  | positiveInteger u64 | float64 bits => exact .inl ⟨_, rfl, Iff.rfl⟩
  | ext type data =>
    rw [decodeTimestamp, TimestampReadable]
    split
    · next wrong =>
      refine .inr ⟨rfl, ?_⟩
      rintro ⟨rfl, length, _⟩
      rcases wrong with wrong | wrong
      · exact wrong rfl
      · exact wrong length
    · next right =>
      obtain ⟨zero, eight⟩ := not_or.mp right
      refine .inl ⟨_, rfl, ?_⟩
      rw [int32, BitVec.ofInt_toInt, and_iff_right (not_not.mp zero),
        and_iff_right (not_not.mp eight)]
  | _ => exact .inr ⟨rfl, id⟩

/-- On a record that passed the checks only the timestamp is left to refuse. -/
theorem decodeObject_of_checked {root timestamp : Object}
    (checked : checkRecord root = some timestamp) :
    ∃ event : Time → Event, (∀ time, (event time).timestamp = time) ∧
      decodeObject ofDouble root = (decodeTimestamp ofDouble timestamp).map event := by
  unfold checkRecord at checked
  split at checked
  · split at checked
    · split at checked
      · next accepted =>
        cases checked
        simp only [Bool.and_eq_true] at accepted
        obtain ⟨⟨metadata, time⟩, record⟩ := accepted
        rw [decodeObject, decodeParts]
        simp only [metadata, time, record]
        exact ⟨_, fun _ => rfl, rfl⟩
      · cases checked
    · cases checked
    · next body _ _ notArray =>
      split at checked
      · next accepted =>
        cases checked
        simp only [Bool.and_eq_true] at accepted
        obtain ⟨time, record⟩ := accepted
        have forward : decodeObject ofDouble (.array [timestamp, body]) =
            decodeParts ofDouble (.array [timestamp, body]) timestamp (.map []) body .forward := by
          cases timestamp with
          | array items => exact absurd rfl (notArray items)
          | _ => rfl
        rw [forward, decodeParts]
        simp only [time, record]
        exact ⟨_, fun _ => rfl, rfl⟩
      · cases checked
  · cases checked

/-- With groups read, the decoder delivers a validated record if and only if
it takes its timestamp. -/
theorem next_part {decoder : Decoder} {part : Part} (mode : decoder.readGroups = true)
    (begins : decoder.buffer.drop decoder.offset = part.bytes ++ left) :
    (TimestampReadable ofDouble part.timestamp ∧
      ∃ event after, next ofDouble decoder = (.success, some event, after) ∧
        after.buffer = decoder.buffer ∧
        after.offset = decoder.offset + part.bytes.length ∧
        after.readGroups = true) ∨
    (¬TimestampReadable ofDouble part.timestamp ∧
      ∃ result after, next ofDouble decoder = (result, none, after) ∧
        result ≠ .insufficientData) := by
  have inside := part.encodes.at_offset begins
  obtain ⟨event, same, decoded⟩ := decodeObject_of_checked ofDouble part.checked
  have read := @unpackNext_encodes (prepare decoder) _ _ _ part.encodes begins
  rw [next, nextWithin, if_neg (by omega), read]
  simp only [decoded]
  rcases decodeTimestamp_cases ofDouble part.timestamp with
    ⟨time, taken, readable⟩ | ⟨refused, unreadable⟩
  · rw [taken, readable]
    simp only [Except.map]
    cases type : getRecordType (event time) with
    | none =>
      have low := (getRecordType_eq_none_iff _).mp type
      rw [same] at low
      exact .inr ⟨low, _, _, rfl, by simp⟩
    | some kind =>
      have high : -2 ≤ (BitVec.ofInt 32 time.sec).toInt := by
        by_contra low
        rw [← same time, ← getRecordType_eq_none_iff, type] at low
        cases low
      refine .inl ⟨high, ?_⟩
      cases kind with
      | normal => exact ⟨_, _, rfl, rfl, rfl, mode⟩
      | groupStart | groupEnd =>
        exact ⟨_, _, if_pos mode, enterMarker_buffer .., enterMarker_offset ..,
          (enterMarker_readGroups ..).trans mode⟩
  · rw [refused]
    exact .inr ⟨unreadable, _, _, rfl, by simp⟩

/-- The calls delivered a number of records and came to the end of the data
without an error. -/
def DeliversAll (drained : List Delivery × Result × Decoder) (records : Nat) : Prop :=
  drained.1.length = records ∧ drained.2.1 = .insufficientData ∧
    getLastResult drained.2.2 = .success

theorem drain_parts (parts : List Part) {decoder : Decoder} {calls : Nat}
    (mode : decoder.readGroups = true) (inside : decoder.offset ≤ decoder.buffer.length)
    (rest : decoder.buffer.drop decoder.offset = partsBytes parts) (enough : parts.length < calls) :
    DeliversAll (drain ofDouble calls decoder) parts.length ↔
      ∀ part ∈ parts, TimestampReadable ofDouble part.timestamp := by
  induction parts generalizing decoder calls with
  | nil =>
    have atEnd : decoder.offset = decoder.buffer.length :=
      le_antisymm inside (drop_eq_nil_iff.mp rest)
    obtain ⟨after, ended, success⟩ := next_atEnd atEnd
    obtain ⟨calls, rfl⟩ := Nat.exists_eq_add_one.mpr enough
    rw [drain, ended]
    simp [DeliversAll, success]
  | cons part parts ih =>
    obtain ⟨calls, rfl⟩ := Nat.exists_eq_add_one.mpr (Nat.zero_lt_of_lt enough)
    rw [partsBytes_cons] at rest
    rw [drain, forall_mem_cons]
    rcases next_part ofDouble mode rest with
      ⟨readable, event, after, stepped, buffer, offset, kept⟩ |
      ⟨unreadable, result, after, failed, error⟩
    · obtain ⟨_, length⟩ := part.encodes.at_offset rest
      have later := @ih after calls kept (by rw [buffer, offset]; omega) (by rw [buffer, offset,
        ← drop_drop, rest, drop_left]) (Nat.lt_of_succ_lt_succ enough)
      rw [stepped, and_iff_right readable, ← later]
      simp [DeliversAll]
    · rw [failed]
      simp [DeliversAll, error, unreadable]

theorem length_le_partsBytes (parts : List Part) : parts.length ≤ (partsBytes parts).length := by
  induction parts with
  | nil => exact Nat.zero_le _
  | cons part parts ih =>
    have nonempty := length_pos_iff.mpr part.encodes.ne_nil
    rw [partsBytes_cons, length_cons, length_append]
    omega

theorem decode_partsBytes (parts : List Part) :
    DeliversAll (decode ofDouble (partsBytes parts) true) parts.length ↔
      ∀ part ∈ parts, TimestampReadable ofDouble part.timestamp :=
  drain_parts ofDouble parts rfl (Nat.zero_le _) rfl
    (Nat.lt_succ_of_le (length_le_partsBytes parts))

/-- The bytes are the beginning of a record, but not all of it. -/
def IncompleteRecord (rest : List Byte) : Prop :=
  rest ≠ [] ∧ ∃ (part : Part) (missing : List Byte), missing ≠ [] ∧ part.bytes = rest ++ missing

def BeginsObject (rest : List Byte) : Prop :=
  ∃ bytes object left, Encodes bytes object ∧ rest = bytes ++ left

theorem beginsObject_of_zero (nonempty : rest ≠ []) (zero : ∀ byte ∈ rest, byte = 0) :
    BeginsObject rest := by
  cases rest with
  | nil => exact absurd rfl nonempty
  | cons first left =>
    rw [zero first mem_cons_self]
    exact ⟨[0], .positiveInteger 0, left, fun _ => rfl, rfl⟩

theorem returnAt_of_beginsObject (begins : BeginsObject rest) (success : returnAt rest = 0) :
    ∀ byte ∈ rest, byte = 0 := by
  obtain ⟨bytes, object, left, encodes, split⟩ := begins
  have read := encodes left
  rw [← split] at read
  rw [returnAt, read] at success
  have filled : zeroFilled rest = true := by
    cases object with
    | array items => cases success
    | _ =>
      by_contra other
      simp [other] at success
  exact ((zeroFilled_iff rest).mp filled).2

theorem returnAt_of_not_beginsObject (none : ¬BeginsObject rest) : returnAt rest = 0 := by
  rw [returnAt]
  cases read : unpack rest with
  | more left | malformed left => rfl
  | done object left =>
    obtain ⟨bytes, split, encodes⟩ := unpack_done read
    exact absurd ⟨bytes, object, left, encodes, split⟩ none

theorem returnAt_success_iff (rest : List Byte) :
    (returnAt rest = 0 → rest = [] ∨ IncompleteRecord rest ∨ ∀ byte ∈ rest, byte = 0) ↔
      rest = [] ∨ IncompleteRecord rest ∨ BeginsObject rest := by
  constructor
  · intro accepted
    by_cases begins : BeginsObject rest
    · exact .inr (.inr begins)
    · rcases accepted (returnAt_of_not_beginsObject begins) with
        empty | incomplete | zero
      · exact .inl empty
      · exact .inr (.inl incomplete)
      · by_contra other
        exact begins (beginsObject_of_zero (fun empty => other (.inl empty)) zero)
  · rintro (empty | incomplete | begins) success
    · exact .inl empty
    · exact .inr (.inl incomplete)
    · exact .inr (.inr (returnAt_of_beginsObject begins success))

/-- The validator finds the longest sequence of whole records.  What it accepts
is readable, and followed by nothing but an incomplete record or zero bytes, if
and only if the decoder takes the timestamps of the records and what follows
them is an incomplete record or begins with a whole object. -/
theorem validated_chunks_are_readable (data : List Byte) :
    ∃ parts rest, data = partsBytes parts ++ rest ∧
      (∀ others left, data = partsBytes others ++ left →
        (partsBytes others).length ≤ (partsBytes parts).length) ∧
      (validateLogChunk data).processedBytes = (partsBytes parts).length ∧
      (validateLogChunk data).outRecords = parts.length ∧
      (((validateLogChunk data).ret = 0 →
            rest = [] ∨ IncompleteRecord rest ∨ ∀ byte ∈ rest, byte = 0) ∧
          DeliversAll (decode ofDouble (data.take (validateLogChunk data).processedBytes) true)
            (validateLogChunk data).outRecords ↔
        (rest = [] ∨ IncompleteRecord rest ∨ BeginsObject rest) ∧
          ∀ part ∈ parts, TimestampReadable ofDouble part.timestamp) := by
  obtain ⟨parts, rest, split, ended, result⟩ := validateLogChunk_spec data
  refine ⟨parts, rest, split, ?_, ?_, ?_, ?_⟩
  · intro others left same
    rw [split] at same
    exact partsBytes_length_le ended same
  · rw [result]
  · rw [result]
  · rw [result, ← decode_partsBytes ofDouble parts, ← returnAt_success_iff rest]
    have accepted : data.take (partsBytes parts).length = partsBytes parts := by
      rw [split, take_left]
    rw [accepted]

/-- A record whose timestamp is an extension of type one is validated and then
refused by the decoder, and a byte that begins no object is taken for the end
of the data. -/
theorem validated_but_not_readable :
    validateLogChunk [0x92, 0xd7, 1, 0, 0, 0, 0, 0, 0, 0, 0, 0x80] =
        { ret := 0, outRecords := 1, processedBytes := 12 } ∧
      (decode noDouble [0x92, 0xd7, 1, 0, 0, 0, 0, 0, 0, 0, 0, 0x80] true).1 = [] ∧
      (decode noDouble [0x92, 0xd7, 1, 0, 0, 0, 0, 0, 0, 0, 0, 0x80]
        true).2.1 = .wrongTimestampType ∧
      validateLogChunk [0xc1] =
        { ret := 0, outRecords := 0, processedBytes := 0 } ∧
      ¬IncompleteRecord [0xc1] := by
  refine ⟨rfl, rfl, rfl, rfl, ?_⟩
  rintro ⟨_, part, missing, _, split⟩
  have read := part.encodes []
  rw [split] at read
  cases read

end FluentBit.LogEvent
