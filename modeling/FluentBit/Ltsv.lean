import FluentBit.Lib.Msgpack

/-!
# The LTSV parser

A record is a line of fields with tabs between them, and a field is a label, a
colon and a value.  The line is scanned twice: the fields are counted first and
packed into a map then.  Two tables say which bytes labels and values have.
-/

namespace FluentBit.Ltsv

open List Msgpack

variable {Time : Type}

def ltvsLabel : List Bool :=
  replicate 45 false ++ [true, true, false] ++ replicate 10 true ++ replicate 7 false ++
    replicate 26 true ++ [false, false, false, false, true, false] ++ replicate 26 true ++
    replicate 133 false

def ltvsField : List Bool :=
  [false] ++ replicate 8 true ++ [false, false, true, true, false, false] ++ replicate 241 true

def isLabel (byte : Byte) : Bool := ltvsLabel.getD byte.toNat false

def isField (byte : Byte) : Bool := ltvsField.getD byte.toNat false

/-- `struct flb_parser`.  The format is the time that `flb_parser_time_lookup`
finds in a value, the types are what `flb_parser_typecast` packs for a label and
a value, and the decoders are the answer of `flb_parser_decoder_do`. -/
structure Parser (Time : Type) where
  timeFmt : Option (List Byte → Option Time)
  timeKey : Option (List Byte)
  timeKeep : Bool
  types : Option (List Byte → List Byte → List Byte)
  decoders : Option (List Byte → Option (List Byte))

/-- The variables of `ltsv_parser`, with the bytes from `c` on. -/
structure Scan (Time : Type) where
  mapSize : Nat
  packed : List Byte
  timeLookup : Option Time
  rest : List Byte

section
variable (parser : Parser Time)

def packField (label field : List Byte) : List Byte :=
  match parser.types with
  | some typecast => typecast label field
  | none => pack (.str label) ++ pack (.str field)

/-- A field with a label is counted or packed, unless it is the time. -/
def storeField (timeKey : List Byte) (doPack : Bool) (label field : List Byte)
    (scan : Scan Time) : Option (Scan Time) :=
  if label = [] then some scan
  else
    let timeFound := parser.timeFmt.isSome && label.length == timeKey.length && field != [] &&
      strncmpEq label.length label timeKey
    let stored :=
      if timeFound && !parser.timeKeep then scan
      else if doPack then { scan with packed := scan.packed ++ packField parser label field }
      else { scan with mapSize := scan.mapSize + 1 }
    if timeFound && doPack then
      (parser.timeFmt.bind (· field)).map fun time => { stored with timeLookup := some time }
    else some stored

/-- What follows a value: whether the loop goes on, and where. -/
def behindField (rest : List Byte) : Bool × List Byte :=
  match if rest.head? = some 9 then rest.tail else rest with
  | [] => (false, [])
  | byte :: rest =>
    if byte = 13 then (false, if rest.head? = some 10 then rest.tail else rest)
    else if byte = 10 then (false, rest)
    else (true, byte :: rest)

/-- The loop of `ltsv_parser`, with a bound on its rounds. -/
def ltsvLoop (timeKey : List Byte) (doPack : Bool) : Nat → Scan Time → Option (Scan Time)
  | 0, scan => some scan
  | rounds + 1, scan =>
    match scan.rest.dropWhile isLabel with
    | [] => some { scan with rest := [] }
    | byte :: rest =>
      if byte ≠ 58 then some { scan with rest := byte :: rest }
      else
        match storeField parser timeKey doPack (scan.rest.takeWhile isLabel)
          (rest.takeWhile isField) scan with
        | none => none
        | some scan =>
          match behindField (rest.dropWhile isField) with
          | (true, rest) => ltsvLoop timeKey doPack rounds { scan with rest := rest }
          | (false, rest) => some { scan with rest := rest }

/-- `ltsv_parser`: every round takes a colon.  Without a size it counts. -/
def ltsvParser (timeKey : List Byte) (mapSize : Nat) (inBuf : List Byte) : Option (Scan Time) :=
  ltsvLoop parser timeKey (mapSize != 0) (inBuf.length + 1)
    { mapSize := mapSize, packed := [], timeLookup := none, rest := inBuf }

def timeName : List Byte := [116, 105, 109, 101]

/-- The map stays as it is when no decoder answers. -/
def decode (decoders : Option (List Byte → Option (List Byte))) (outBuf : List Byte) : List Byte :=
  (decoders.bind (· outBuf)).getD outBuf

/-- `flb_parser_ltsv_do`; nothing when it returns a negative number. -/
def parserLtsvDo (inBuf : List Byte) : Option (Int × List Byte × Option Time) :=
  let timeKey := parser.timeKey.getD timeName
  let mapSize := (ltsvParser parser timeKey 0 inBuf).elim 0 Scan.mapSize
  if mapSize = 0 then none
  else
    match ltsvParser parser timeKey mapSize inBuf with
    | none => none
    | some scan =>
      let lastByte := (BitVec.ofNat 32 (inBuf.length - scan.rest.length)).toInt
      let outBuf := packMap mapSize ++ scan.packed
      if lastByte < 0 then none
      else some (lastByte, decode parser.decoders outBuf, scan.timeLookup)

end

def lbyte (byte : Byte) : Bool :=
  48 ≤ byte && byte ≤ 57 || 65 ≤ byte && byte ≤ 90 || 97 ≤ byte && byte ≤ 122 || byte == 95 ||
    byte == 46 || byte == 45

def fbyte (byte : Byte) : Bool :=
  1 ≤ byte && byte ≤ 8 || byte == 11 || byte == 12 || 14 ≤ byte

structure Field where
  label : List Byte
  value : List Byte
  labelled : label ≠ []
  lbytes : ∀ byte ∈ label, lbyte byte = true
  fbytes : ∀ byte ∈ value, fbyte byte = true

def Field.text (field : Field) : List Byte := field.label ++ 58 :: field.value

def Field.pair (field : Field) : Object × Object := (.str field.label, .str field.value)

inductive LineEnd where
  | none
  | lf
  | crlf

def LineEnd.bytes : LineEnd → List Byte
  | .none => []
  | .lf => [10]
  | .crlf => [13, 10]

def record (first : Field) (others : List Field) (lineEnd : LineEnd) : List Byte :=
  first.text ++ ((others.flatMap fun field => 9 :: field.text) ++ lineEnd.bytes)

theorem isLabel_of_lbyte (byte : Byte) : lbyte byte = true → isLabel byte = true :=
  forall_byte byte (by decide +kernel)

theorem isField_of_fbyte (byte : Byte) : fbyte byte = true → byte ≠ 14 → isField byte = true :=
  forall_byte byte (by decide +kernel)

theorem Field.isLabel_of_mem (field : Field) : ∀ byte ∈ field.label, isLabel byte = true :=
  fun byte member => isLabel_of_lbyte byte (field.lbytes byte member)

theorem Field.isField_of_mem (field : Field) (clean : 14 ∉ field.value) :
    ∀ byte ∈ field.value, isField byte = true :=
  fun byte member =>
    isField_of_fbyte byte (field.fbytes byte member) (ne_of_mem_of_not_mem member clean)

@[simps timeKey decoders]
def plain (timeKey : Option (List Byte)) (timeKeep : Bool)
    (decoders : Option (List Byte → Option (List Byte))) : Parser Time :=
  { timeFmt := none, timeKey := timeKey, timeKeep := timeKeep, types := none, decoders := decoders }

def stored (doPack : Bool) (fields : List Field) (scan : Scan Time) : Scan Time :=
  if doPack then { scan with packed := scan.packed ++ packPairs (fields.map Field.pair) }
  else { scan with mapSize := scan.mapSize + fields.length }

section
variable {key : Option (List Byte)} {keep : Bool}
  {decoders : Option (List Byte → Option (List Byte))} {timeKey : List Byte} {doPack : Bool}
  {rounds : Nat} {first : Field} {others : List Field} {lineEnd : LineEnd} {scan : Scan Time}

theorem storeField_plain :
    storeField (plain key keep decoders) timeKey doPack first.label first.value scan =
      some (stored doPack [first] scan) := by
  rw [storeField, if_neg first.labelled]
  cases doPack with
  | false => rfl
  | true => simp [plain, packField, stored, packPairs, Field.pair]

theorem ltsvLoop_field (clean : 14 ∉ first.value) {behind : List Byte}
    (stops : ∀ byte ∈ behind.head?, isField byte = false) :
    ltsvLoop (plain key keep decoders) timeKey doPack (rounds + 1)
        { scan with rest := first.text ++ behind } =
      match behindField behind with
      | (true, rest) => ltsvLoop (plain key keep decoders) timeKey doPack rounds
          { stored doPack [first] scan with rest := rest }
      | (false, rest) => some { stored doPack [first] scan with rest := rest } := by
  have labels := first.isLabel_of_mem
  have fields := first.isField_of_mem clean
  have colon : ¬isLabel 58 = true := by decide
  have value : (first.value ++ behind).takeWhile isField = first.value ∧
      (first.value ++ behind).dropWhile isField = behind := by
    rw [takeWhile_append_of_pos fields, dropWhile_append_of_pos fields]
    cases behind with
    | nil => exact ⟨append_nil _, rfl⟩
    | cons byte behind =>
      have stop : ¬isField byte = true := by simp [stops byte rfl]
      rw [takeWhile_cons_of_neg stop, dropWhile_cons_of_neg stop, append_nil]
      exact ⟨rfl, rfl⟩
  rw [ltsvLoop]
  rw [Field.text, append_assoc, cons_append, dropWhile_append_of_pos labels,
    dropWhile_cons_of_neg colon, takeWhile_append_of_pos labels, takeWhile_cons_of_neg colon,
    append_nil]
  dsimp only
  rw [if_neg (not_not.mpr rfl), value.1, value.2, storeField_plain]
  cases doPack <;> rfl

theorem behindField_tab (field : Field) (behind : List Byte) :
    behindField (9 :: (field.text ++ behind)) = (true, field.text ++ behind) := by
  obtain ⟨byte, label, same⟩ := exists_cons_of_ne_nil field.labelled
  have labels := field.isLabel_of_mem byte (by rw [same]; exact mem_cons_self)
  have back : byte ≠ 13 := by
    rintro rfl
    cases labels
  have feed : byte ≠ 10 := by
    rintro rfl
    cases labels
  rw [behindField, Field.text, same]
  simp [back, feed]

theorem ltsvLoop_record (clean : ∀ field ∈ first :: others, 14 ∉ field.value)
    (enough : others.length < rounds) :
    ltsvLoop (plain key keep decoders) timeKey doPack rounds
        { scan with rest := record first others lineEnd } =
      some { stored doPack (first :: others) scan with rest := [] } := by
  obtain ⟨rounds, rfl⟩ := Nat.exists_eq_succ_of_ne_zero (Nat.ne_zero_of_lt enough)
  have here := clean first mem_cons_self
  induction others generalizing first scan rounds with
  | nil =>
    rw [record, flatMap_nil, nil_append, ltsvLoop_field here]
    · cases lineEnd <;> rfl
    · cases lineEnd <;> rintro _ ⟨⟩ <;> rfl
  | cons next others ih =>
    obtain ⟨rounds, rfl⟩ := Nat.exists_eq_succ_of_ne_zero (show rounds ≠ 0 by simp at enough; omega)
    rw [record, flatMap_cons, cons_append, cons_append, append_assoc, ltsvLoop_field here,
      behindField_tab]
    · refine (ih (fun field member => clean field (mem_cons_of_mem _ member)) rounds
        (Nat.lt_of_succ_lt_succ enough) (clean next (by simp))).trans ?_
      cases doPack with
      | false => simp [stored, Nat.add_comm, Nat.add_left_comm]
      | true => simp [stored, packPairs]
    · rintro _ ⟨⟩
      rfl

end

theorem mem_record {first field : Field} {others : List Field} {lineEnd : LineEnd} {byte : Byte}
    (member : field ∈ first :: others) (value : byte ∈ field.value) :
    byte ∈ record first others lineEnd := by
  have text : byte ∈ field.text := mem_append_right _ (mem_cons_of_mem _ value)
  rcases mem_cons.mp member with rfl | other
  · exact mem_append_left _ text
  · exact mem_append_right _ (mem_append_left _
      (mem_flatMap.mpr ⟨field, other, mem_cons_of_mem _ text⟩))

theorem length_lt_length_record {first : Field} {others : List Field} {lineEnd : LineEnd} :
    others.length < (record first others lineEnd).length := by
  induction others generalizing first with
  | nil => simp [record, Field.text]
  | cons next others ih =>
    have later := @ih next
    simp only [record, flatMap_cons, length_append, length_cons] at later ⊢
    omega

section
variable {rest : List Byte}

theorem mem_dropWhile_of_neg {accepts : Byte → Bool} (refused : accepts 14 = false)
    (member : 14 ∈ rest) : 14 ∈ rest.dropWhile accepts := by
  induction rest with
  | nil => cases member
  | cons first rest ih =>
    rw [dropWhile_cons]
    split
    · next taken =>
      exact ih ((mem_cons.mp member).resolve_left fun same => by simp [← same, refused] at taken)
    · exact member

theorem mem_skip {byte : Byte} (other : byte ≠ 14) (member : 14 ∈ rest) :
    14 ∈ if rest.head? = some byte then rest.tail else rest := by
  cases rest with
  | nil => cases member
  | cons first rest =>
    split
    · next found =>
      cases found
      exact (mem_cons.mp member).resolve_left other.symm
    · exact member

theorem mem_behindField (member : 14 ∈ rest) : 14 ∈ (behindField rest).2 := by
  have behind := mem_skip (show (9 : Byte) ≠ 14 by decide) member
  rw [behindField]
  split
  · next empty =>
    rw [empty] at behind
    cases behind
  · next byte rest found =>
    rw [found] at behind
    split
    · next back =>
      subst back
      exact mem_skip (by decide) ((mem_cons.mp behind).resolve_left (by decide))
    · split
      · next feed =>
        subst feed
        exact (mem_cons.mp behind).resolve_left (by decide)
      · exact behind

/-- No part of the loop takes the byte `0x0E`. -/
theorem ltsvLoop_keeps {parser : Parser Time} {timeKey : List Byte} {doPack : Bool} {rounds : Nat}
    {scan final : Scan Time} (member : 14 ∈ scan.rest)
    (ended : ltsvLoop parser timeKey doPack rounds scan = some final) : 14 ∈ final.rest := by
  induction rounds generalizing scan with
  | zero =>
    cases ended
    exact member
  | succ rounds ih =>
    have labelled := mem_dropWhile_of_neg (show isLabel 14 = false by decide) member
    rw [ltsvLoop] at ended
    split at ended
    · next empty =>
      rw [empty] at labelled
      cases labelled
    · next byte rest found =>
      rw [found] at labelled
      split at ended
      · cases ended
        exact labelled
      · next colon =>
        have value : 14 ∈ rest :=
          (mem_cons.mp labelled).resolve_left fun same => by simp [← same] at colon
        have behind := mem_behindField
          (mem_dropWhile_of_neg (show isField 14 = false by decide) value)
        split at ended
        · cases ended
        · split at ended
          · next more =>
            rw [more] at behind
            exact ih behind ended
          · next last =>
            rw [last] at behind
            cases ended
            exact behind

end

/-- A record is parsed up to its end into the map of its fields, which goes to the
decoders, exactly when no value has the byte `0x0E` and its length fits in an
`int`. -/
theorem ltsv_record_is_parsed (timeKey : Option (List Byte)) (timeKeep : Bool)
    (decoders : Option (List Byte → Option (List Byte))) (first : Field) (others : List Field)
    (lineEnd : LineEnd) :
    parserLtsvDo (plain timeKey timeKeep decoders : Parser Time) (record first others lineEnd) =
        some (((record first others lineEnd).length : Int),
          decode decoders (pack (.map ((first :: others).map Field.pair))), none) ↔
      (∀ field ∈ first :: others, 14 ∉ field.value) ∧
        (record first others lineEnd).length < 2 ^ 31 := by
  have longer := @length_lt_length_record first others lineEnd
  constructor
  · intro parsed
    simp only [parserLtsvDo] at parsed
    split at parsed
    · cases parsed
    · split at parsed
      · cases parsed
      · next scan packed =>
        split at parsed
        · cases parsed
        · have count := congrArg Prod.fst (Option.some.inj parsed)
          dsimp only at count
          have small := (BitVec.ofNat 32
            ((record first others lineEnd).length - scan.rest.length)).toInt_lt
          have fits := BitVec.toInt_eq_toNat_cond (BitVec.ofNat 32
            ((record first others lineEnd).length - scan.rest.length))
          rw [BitVec.toNat_ofNat] at fits
          have consumed : scan.rest = [] := by
            apply length_eq_zero_iff.mp
            split at fits <;> omega
          refine ⟨fun field member dirty => ?_, by omega⟩
          have kept := ltsvLoop_keeps (mem_record member dirty) packed
          rw [consumed] at kept
          cases kept
  · rintro ⟨clean, short⟩
    have loop : ∀ key doPack (scan : Scan Time), ltsvLoop (plain timeKey timeKeep decoders) key
        doPack ((record first others lineEnd).length + 1)
        { scan with rest := record first others lineEnd } =
          some { stored doPack (first :: others) scan with rest := [] } :=
      fun _ _ _ => ltsvLoop_record clean (by omega)
    have fits : (BitVec.ofNat 32 (record first others lineEnd).length).toInt =
        (record first others lineEnd).length := by
      rw [BitVec.toInt_eq_toNat_cond, BitVec.toNat_ofNat]
      split <;> omega
    have counted := loop (timeKey.getD timeName) false ⟨0, [], none, []⟩
    have packed := loop (timeKey.getD timeName) true ⟨others.length + 1, [], none, []⟩
    simp [parserLtsvDo, ltsvParser, plain_timeKey, plain_decoders, counted, packed, stored, fits,
      pack]

/-- The label `a` with one byte. -/
def oneByte (byte : Byte) (allowed : fbyte byte = true) : Field :=
  { label := [97], value := [byte], labelled := cons_ne_nil _ _
    lbytes := forall_mem_singleton.mpr rfl, fbytes := forall_mem_singleton.mpr allowed }

/-- The value is cut at its byte, and the rest of the line is lost. -/
theorem ltsv_value_is_cut :
    parserLtsvDo (plain none false none : Parser Unit)
        (record (oneByte 14 (by decide)) [oneByte 99 (by decide)] .crlf) =
      some (2, [0x81, 0xa1, 97, 0xa0], none) := by decide

end FluentBit.Ltsv
