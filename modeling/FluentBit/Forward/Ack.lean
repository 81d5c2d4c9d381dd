import FluentBit.Forward

/-!
# Acknowledgements

A sender that asks for an acknowledgement forgets a message once it gets it.
So an acknowledgement should be sent for a message only when all its records
were handed to the input.  In packed mode an error keeps it back; in the other
modes the results are not looked at, and a decompressor that gives nothing is
taken for one that has given everything.
-/

namespace FluentBit.Forward

open Msgpack LogEvent List

def acks (effects : List Effect) : List Object :=
  effects.filterMap fun effect =>
    match effect with
    | .ack chunk => some chunk
    | .append _ _ _ _ => none

def handed (effects : List Effect) : List Byte :=
  (effects.filterMap fun effect =>
    match effect with
    | .append _ _ data true => some data
    | _ => none).flatten

@[simp]
theorem acks_append (first second : List Effect) :
    acks (first ++ second) = acks first ++ acks second :=
  filterMap_append

@[simp]
theorem handed_append (first second : List Effect) :
    handed (first ++ second) = handed first ++ handed second := by
  simp [handed]

@[simp]
theorem acks_sendAck (chunk : Option Object) : acks (sendAck chunk) = chunk.toList := by
  cases chunk with
  | none | some chunk => rfl

@[simp]
theorem handed_sendAck (chunk : Option Object) : handed (sendAck chunk) = [] := by
  cases chunk with
  | none | some chunk => rfl

theorem handed_cons_append (type : EventType) (tag : Tag) (data : List Byte)
    (taken : Bool) (effects : List Effect) :
    handed (.append type tag data taken :: effects) =
      (if taken then data else []) ++ handed effects := by
  cases taken with
  | true | false => simp [handed]

section
variable (ofDouble : BitVec 64 → Time)

def entryRecord (entry : Object) : Option (List Byte) :=
  match decodeObject ofDouble entry with
  | .error _ => none
  | .ok event => some (eventBytes event.timestamp (some event.metadata) event.body)

/-- The records of a message; nothing when one of them cannot be decoded.
`plain` is what the payload of a compressed message stands for. -/
def Message.records (message : Message) (plain : List Byte) : Option (List (List Byte)) :=
  match message.body with
  | .message time record =>
    match decodeTimestamp ofDouble time with
    | .error _ => none
    | .ok timestamp => some [eventBytes timestamp message.metadata (.map record)]
  | .forward entries => entries.mapM (entryRecord ofDouble)
  | .packed data _ =>
    if message.compressed data then some [plain] else some [data]

def AllHanded (message : Message) (plain : List Byte) (effects : List Effect) : Prop :=
  ∃ records, message.records ofDouble plain = some records ∧ handed effects = records.flatten

def outputs : List Inflated → List Byte
  | [] => []
  | call :: calls =>
    if call.ret = -1 then []
    else if call.output.isEmpty then []
    else call.output ++ outputs calls

/-- The input takes everything, and no call of the decompressor fails with
output left. -/
def Delivers (appended : Nat → Bool) : Nat → List Inflated → Prop
  | _, [] => True
  | number, call :: calls =>
    if call.ret = -1 then call.output = []
    else call.output = [] ∨ (appended number = true ∧ Delivers appended (number + 1) calls)

/-- What must hold for an acknowledgement to be deserved, by the mode of the
message. -/
def Message.Ingests (message : Message) (replies : Replies) (plain : List Byte) : Prop :=
  match message.body with
  | .message time _ =>
    (∃ timestamp, decodeTimestamp ofDouble time = .ok timestamp) ∧ replies.appended 0 = true
  | .forward entries =>
    (∀ entry ∈ entries, ∃ event, decodeObject ofDouble entry = .ok event) ∧
      ∀ number < entries.length, replies.appended number = true
  | .packed data _ =>
    message.compressed data = true → replies.prepared = true →
      Delivers replies.appended 0 replies.inflated →
      outputs replies.inflated = plain

end

theorem eventBytes_ne_nil (timestamp : Time) (metadata : Option Object) (body : Object) :
    eventBytes timestamp metadata body ≠ [] := by
  rw [eventBytes, recordBytes, arrayHeader]
  simp

section
variable {ofDouble : BitVec 64 → Time} {replies : Replies} {outTag : Tag}

theorem acks_entryEffects (number : Nat) (entries : List Object) :
    acks (entryEffects ofDouble replies outTag number entries) = [] := by
  induction entries generalizing number with
  | nil => rfl
  | cons entry entries ih =>
    rw [entryEffects]
    cases decodeObject ofDouble entry with
    | error result => rfl
    | ok event => exact ih (number + 1)

variable {entry : Object} {entries : List Object}

theorem handed_entryEffects_cons {number : Nat} {record : List Byte}
    (decodes : entryRecord ofDouble entry = some record) :
    handed (entryEffects ofDouble replies outTag number (entry :: entries)) =
      (if replies.appended number then record else []) ++
        handed (entryEffects ofDouble replies outTag (number + 1) entries) := by
  rw [entryEffects]
  rw [entryRecord] at decodes
  cases event : decodeObject ofDouble entry with
  | error result =>
    rw [event] at decodes
    cases decodes
  | ok event' =>
    rw [event] at decodes
    cases decodes
    exact handed_cons_append _ _ _ _ _

theorem entryRecord_ne_nil {record : List Byte}
    (decodes : entryRecord ofDouble entry = some record) : record ≠ [] := by
  rw [entryRecord] at decodes
  split at decodes
  · cases decodes
  · cases decodes
    exact eventBytes_ne_nil _ _ _

theorem mapM_entryRecord_cons {records : List (List Byte)}
    (decode : (entry :: entries).mapM (entryRecord ofDouble) = some records) :
    ∃ record later, entryRecord ofDouble entry = some record ∧
      entries.mapM (entryRecord ofDouble) = some later ∧
      records = record :: later := by
  rw [mapM_cons] at decode
  cases first : entryRecord ofDouble entry with
  | none =>
    rw [first] at decode
    cases decode
  | some record =>
    cases rest : entries.mapM (entryRecord ofDouble) with
    | none =>
      rw [first, rest] at decode
      cases decode
    | some later =>
      rw [first, rest] at decode
      cases decode
      exact ⟨record, later, rfl, rfl, rfl⟩

theorem handed_entryEffects :
    ∀ {number : Nat} {records : List (List Byte)},
      entries.mapM (entryRecord ofDouble) = some records →
      (handed (entryEffects ofDouble replies outTag number entries)).length ≤
          records.flatten.length ∧
        (handed (entryEffects ofDouble replies outTag number entries) = records.flatten ↔
          ∀ position < entries.length, replies.appended (number + position) = true) := by
  induction entries with
  | nil =>
    intro number records decode
    cases decode
    exact ⟨Nat.le_refl _, ⟨fun _ position inside => absurd inside (by simp), fun _ => rfl⟩⟩
  | cons entry entries ih =>
    intro number records decode
    obtain ⟨record, later, first, rest, rfl⟩ := mapM_entryRecord_cons decode
    obtain ⟨bound, exactly⟩ := @ih (number + 1) later rest
    have nonempty := length_pos_iff.mpr (entryRecord_ne_nil first)
    have shifted : (∀ position < (entry :: entries).length,
        replies.appended (number + position) = true) ↔
          replies.appended number = true ∧
            ∀ position < entries.length, replies.appended (number + 1 + position) = true := by
      simp only [length_cons, Nat.forall_lt_succ_left, Nat.add_zero, Nat.add_assoc, Nat.add_comm 1]
    rw [shifted, ← exactly, handed_entryEffects_cons first, flatten_cons, length_append,
      length_append]
    cases taken : replies.appended number with
    | true => simpa using bound
    | false =>
      rw [if_neg Bool.false_ne_true, nil_append, length_nil]
      refine ⟨by omega, iff_of_false ?_ (by simp)⟩
      intro same
      have lengths := congrArg List.length same
      rw [length_append] at lengths
      omega

theorem mapM_entryRecord_isSome (entries : List Object) :
    (∃ records, entries.mapM (entryRecord ofDouble) = some records) ↔
      ∀ entry ∈ entries, ∃ event, decodeObject ofDouble entry = .ok event := by
  induction entries with
  | nil => simp
  | cons entry entries ih =>
    rw [forall_mem_cons, ← ih]
    constructor
    · intro decoded
      obtain ⟨records, decode⟩ := decoded
      obtain ⟨record, later, first, rest, _⟩ := mapM_entryRecord_cons decode
      refine ⟨?_, later, rest⟩
      rw [entryRecord] at first
      split at first
      · cases first
      · next event decodes => exact ⟨event, decodes⟩
    · intro both
      obtain ⟨⟨event, decodes⟩, later, rest⟩ := both
      rw [mapM_cons, entryRecord, decodes, rest]
      exact ⟨_, rfl⟩

end

/-- The loop of the decompressor ends without an error exactly when the input
takes everything, and then the outputs were handed over. -/
theorem inflate_spec (replies : Replies) (type : EventType) (outTag : Tag)
    (calls : List Inflated) (number : Nat) :
    acks (inflate replies type outTag number calls).2 = [] ∧
      ((inflate replies type outTag number calls).1 = true ↔
        Delivers replies.appended number calls) ∧
      ((inflate replies type outTag number calls).1 = true →
        handed (inflate replies type outTag number calls).2 = outputs calls) := by
  induction calls generalizing number with
  | nil => exact ⟨rfl, ⟨fun _ => trivial, fun _ => rfl⟩, fun _ => rfl⟩
  | cons call calls ih =>
    rw [inflate, Delivers, outputs]
    by_cases failure : call.ret = -1
    · rw [if_pos failure, if_pos failure, if_pos failure]
      exact ⟨rfl, List.isEmpty_iff, fun _ => rfl⟩
    · rw [if_neg failure, if_neg failure, if_neg failure]
      by_cases empty : call.output.isEmpty = true
      · rw [if_pos empty, if_pos empty]
        have nothing := List.isEmpty_iff.mp empty
        exact ⟨rfl, ⟨fun _ => .inl nothing, fun _ => rfl⟩, fun _ => rfl⟩
      · rw [if_neg empty, if_neg empty]
        have something : ¬ call.output = [] := by rwa [← List.isEmpty_iff]
        obtain ⟨noAck, ends, all⟩ := ih (number + 1)
        cases taken : replies.appended number with
        | true =>
          rw [if_pos rfl]
          refine ⟨noAck, ?_, ?_⟩
          · simp [something, ends]
          · intro ended
            rw [handed_cons_append, if_pos rfl, all ended]
        | false =>
          refine ⟨rfl, ?_, ?_⟩
          · simp [something]
          · intro ended
            cases ended

theorem payload_spec {message : Message} {data : List Byte} {binary : Bool}
    (wellFormed : message.WellFormed) (form : message.body = .packed data binary)
    (replies : Replies) (outTag : Tag) :
    acks (message.payload replies outTag data).2 = [] ∧
      ((message.payload replies outTag data).1 = true →
        if message.compressed data then
          replies.prepared = true ∧ Delivers replies.appended 0 replies.inflated ∧
            handed (message.payload replies outTag data).2 = outputs replies.inflated
        else handed (message.payload replies outTag data).2 = data) ∧
      (message.compressed data = true → replies.prepared = true →
        Delivers replies.appended 0 replies.inflated →
        (message.payload replies outTag data).1 = true) := by
  obtain ⟨type, same⟩ := Message.payload_eq wellFormed form replies outTag
  rw [same]
  cases message.compressed data with
  | true =>
    obtain ⟨noAck, ends, all⟩ := inflate_spec replies type outTag replies.inflated 0
    cases prepared : replies.prepared with
    | false =>
      refine ⟨rfl, ?_, ?_⟩
      · intro failed
        cases failed
      · intro _ failed
        cases failed
    | true =>
      exact ⟨noAck, fun ended => ⟨rfl, ends.mp ended, all ended⟩, fun _ _ taken => ends.mpr taken⟩
  | false =>
    rw [if_neg Bool.false_ne_true, if_neg Bool.false_ne_true]
    refine ⟨rfl, ?_, fun never => absurd never Bool.false_ne_true⟩
    intro taken
    rw [handed_cons_append, if_pos taken]
    exact append_nil data

/-- A message with a chunk option is acknowledged at most once, and only when
all its records were handed over, if and only if nothing it holds is left
behind in a way the code does not look at. -/
theorem acknowledged_means_ingested (ofDouble : BitVec 64 → Time) (config : Config)
    (message : Message) (wellFormed : message.WellFormed) (chunk : Object)
    (option : message.chunk = some chunk) (replies : Replies) (containOptions : Bool)
    (encoder : Encoder) (rested : Rested encoder) (plain : List Byte) :
    let effects := (handleRoot ofDouble config replies containOptions encoder message.root).effects
    ((acks effects = [] ∨ acks effects = [chunk]) ∧
        (acks effects ≠ [] → AllHanded ofDouble message plain effects)) ↔
      message.Ingests ofDouble replies plain := by
  intro effects
  have full : message.bare = false := by
    rw [Message.bare]
    split
    · next bare =>
      rw [Message.chunk, Message.optionsObject, bare] at option
      cases option
    · rfl
  obtain ⟨after, _, handled⟩ := @handleRoot_message ofDouble config replies
    encoder message wellFormed rested containOptions (fun _ => full)
  have same : effects = (message.outcome ofDouble config replies).2 :=
    congrArg Handled.effects handled
  rw [same, Message.outcome, Message.Ingests, AllHanded, Message.records, option]
  cases form : message.body with
  | message time record =>
    dsimp only
    rw [Message.recordEffects]
    cases decodeTimestamp ofDouble time with
    | error result => simp [acks, sendAck]
    | ok timestamp =>
      have nonempty := eventBytes_ne_nil timestamp message.metadata (.map record)
      cases taken : replies.appended 0 with
      | true => simp [acks, handed, sendAck]
      | false => simp [acks, handed, sendAck, nonempty]
  | forward entries =>
    dsimp only
    rw [acks_append, acks_entryEffects, handed_append, handed_sendAck,
      acks_sendAck, append_nil, ← mapM_entryRecord_isSome]
    constructor
    · intro sound
      obtain ⟨records, decode, all⟩ := sound.2 (cons_ne_nil chunk [])
      have appended := (handed_entryEffects decode).2.mp all
      exact ⟨⟨records, decode⟩, fun number inside => by simpa using appended number inside⟩
    · intro ingests
      obtain ⟨⟨records, decode⟩, appended⟩ := ingests
      refine ⟨.inr rfl, fun _ => ⟨records, decode, ?_⟩⟩
      apply (handed_entryEffects decode).2.mpr
      intro position inside
      rw [Nat.zero_add]
      exact appended position inside
  | packed data binary =>
    dsimp only
    obtain ⟨noAck, ended, delivers⟩ := payload_spec wellFormed form replies
      (composeTag config message.tag)
    generalize message.payload replies (composeTag config message.tag) data = payload at *
    obtain ⟨success, sent⟩ := payload
    cases success with
    | false =>
      rw [if_neg Bool.false_ne_true, noAck]
      constructor
      · intro _ compressed prepared taken
        cases delivers compressed prepared taken
      · intro _
        exact ⟨.inl rfl, fun some => absurd rfl some⟩
    | true =>
      have result := ended rfl
      rw [if_pos rfl, acks_append, handed_append, noAck, handed_sendAck, acks_sendAck, append_nil]
      cases compressed : message.compressed data with
      | false =>
        rw [compressed, if_neg Bool.false_ne_true] at result
        rw [if_neg Bool.false_ne_true, result]
        constructor
        · intro _ never
          cases never
        · intro _
          exact ⟨.inr rfl, fun _ => ⟨[data], rfl, by simp⟩⟩
      | true =>
        rw [compressed, if_pos rfl] at result
        obtain ⟨prepared, taken, all⟩ := result
        rw [if_pos rfl, all]
        constructor
        · intro sound _ _ _
          obtain ⟨records, whole, same⟩ := sound.2 (cons_ne_nil chunk [])
          cases whole
          simpa using same
        · intro ingests
          refine ⟨.inr rfl, fun _ => ⟨[plain], rfl, ?_⟩⟩
          rw [ingests rfl prepared taken]
          simp

def askingAck (body : Body) (more : List (Object × Object)) : Message :=
  { tag := [116], body := body, options := some ((.str chunkKey, .str [97]) :: more) }

def oneEntry : Message := askingAck (.forward [.array [.positiveInteger 1, .map []]]) []

def answering (taken : Bool) : Replies :=
  { appended := fun _ => taken
    prepared := true
    inflated := [{ ret := -2, output := [] }]
    behind := .nil }

theorem oneEntry_wellFormed : oneEntry.WellFormed where
  chunk := Option.some_ne_none _
  time := by
    intro time record form
    cases form
  signal := by
    intro data binary options form
    cases form

theorem acknowledged_means_ingested_oneEntry :
    let effects :=
      (handleRoot noDouble plainConfig (answering true) false
        (encoderInit .fluentBitV2) oneEntry.root).effects
    acks effects = [.str [97]] ∧ AllHanded noDouble oneEntry [] effects := by
  have sound := (acknowledged_means_ingested noDouble plainConfig oneEntry
    oneEntry_wellFormed (.str [97]) rfl (answering true) false
    (encoderInit .fluentBitV2) rested_encoderInit []).mpr
    ⟨by
      intro entry member
      cases mem_singleton.mp member
      exact ⟨_, rfl⟩, fun _ _ => rfl⟩
  exact ⟨rfl, sound.2 (cons_ne_nil _ _)⟩

/-- The message is acknowledged when the input refuses everything, and nothing was
handed over. -/
def FalselyAcknowledged (message : Message) : Prop :=
  let effects :=
    (handleRoot noDouble plainConfig (answering false) false
      (encoderInit .fluentBitV2) message.root).effects
  acks effects = [.str [97]] ∧ handed effects = [] ∧ ¬ AllHanded noDouble message [1] effects

/-- The input refuses the record of a message in forward mode; the time of a
message is an extension of another type; the header of a compressed payload is
corrupt. -/
theorem acknowledged_but_not_ingested :
    FalselyAcknowledged oneEntry ∧ FalselyAcknowledged (askingAck (.message (.ext 1 []) []) []) ∧
      FalselyAcknowledged (askingAck (.packed [0] true)
        [(.str compressedKey, .str [103, 122, 105, 112])]) := by
  refine ⟨⟨rfl, rfl, ?_⟩, ⟨rfl, rfl, ?_⟩, rfl, rfl, ?_⟩
  · intro all
    obtain ⟨records, given, same⟩ := all
    cases given
    cases same
  · intro all
    obtain ⟨records, given, same⟩ := all
    cases given
  · intro all
    obtain ⟨records, given, same⟩ := all
    cases given
    cases same

end FluentBit.Forward
