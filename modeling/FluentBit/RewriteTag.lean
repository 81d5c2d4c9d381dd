import FluentBit.InEmitter
import FluentBit.LogEvent.RoundTrip

/-!
# Rewriting tags

The filter decodes a buffer record by record.  A record that matches a rule is
sent on under a new tag, straight into the input when the filter runs inside
of one and through the emitter otherwise; the records that stay are written to
a new buffer.  Matching a rule and composing a tag are parameters, as is what
is answered while a record is sent.  A visit is one call of `process_record`
with the state it finds.

The filter leaves out of the new buffer what its rule does not keep, whether or
not it was sent, and it takes a record for sent unless the answer of the emitter
is the one failure it looks for.
-/

namespace FluentBit.RewriteTag

open Msgpack InEmitter LogEvent List

variable {Captures : Type*}

/-- `struct rewrite_rule`. -/
structure Rule (Captures : Type*) where
  regexMatch : Object → Option Captures
  translate : Tag → Object → Captures → Tag
  keepRecord : Bool

/-- `struct flb_rewrite_tag`.  `inInput` says that the filter is a processor of
an input. -/
structure Context (Captures : Type*) where
  rules : List (Rule Captures)
  inInput : Bool

/-- What is answered while a record is processed: whether the tag could be
composed, whether the input took the record, and what the emitter is told. -/
structure Replies where
  composed : Bool
  appended : Bool
  emitter : Answers
deriving DecidableEq, Repr

/-- Where records go: the emitter, and the input of which the filter is a
processor. -/
structure Store where
  emitter : Emitter
  ingested : List EmChunk
deriving DecidableEq, Repr

/-- The search for a rule.  `keep` is written for every rule that is looked
at. -/
def findRule (map : Object) : List (Rule Captures) → Bool → Option (Rule Captures × Captures) × Bool
  | [], keep => (none, keep)
  | rule :: rules, _ =>
    match rule.regexMatch map with
    | none => findRule map rules rule.keepRecord
    | some captures => (some (rule, captures), rule.keepRecord)

def ingestInline (ctx : Context Captures) (store : Store) (replies : Replies)
    (outTag : Tag) (buf : List Byte) : Bool × Store :=
  if ctx.inInput && replies.appended then
    (true,
      { store with ingested := store.ingested ++ [{ tag := outTag, data := buf }] })
  else (false, store)

/-- What `process_record` returns and writes. -/
structure Processed where
  emitted : Bool
  matched : Bool
  keep : Bool
  store : Store

/-- The part of `process_record` that sends a record under its new tag. -/
def send (ctx : Context Captures) (store : Store) (replies : Replies)
    (outTag : Tag) (buf : List Byte) (source : Input) : Int × Store :=
  match ingestInline ctx store replies outTag buf with
  | (true, store) => (0, store)
  | (false, store) =>
    let (ret, emitter) := inEmitterAddRecord store.emitter replies.emitter outTag buf source
    (ret, { store with emitter := emitter })

def processRecord (ctx : Context Captures) (store : Store) (replies : Replies) (tag : Tag)
    (map : Object) (buf : List Byte) (keep : Bool) (source : Input) : Processed :=
  match findRule map ctx.rules keep with
  | (none, keep) =>
    { emitted := false, matched := false, keep := keep, store := store }
  | (some (rule, captures), keep) =>
    if replies.composed then
      let outTag := rule.translate tag map captures
      let (ret, store) := send ctx store replies outTag buf source
      { emitted := ret ≠ -1, matched := true, keep := keep, store := store }
    else
      { emitted := false, matched := true, keep := keep, store := store }

/-- The variables of the loop of `cb_rewrite_tag_filter`. -/
structure Loop where
  decoder : LogEvent.Decoder
  encoder : LogEvent.Encoder
  pre : Nat
  keep : Bool
  emittedNum : Nat
  store : Store

/-- The arguments of `cb_rewrite_tag_filter` that stay the same. -/
structure Call (Captures : Type*) where
  ctx : Context Captures
  data : List Byte
  tag : Tag
  source : Input

/-- The bytes from one position of a buffer to another. -/
def slice (data : List Byte) (start stop : Nat) : List Byte := (data.drop start).take (stop - start)

/-- The body of the loop, once a record has been decoded. -/
def filterRecord (call : Call Captures) (replies : Replies) (event : LogEvent.Event) (loop : Loop) :
    Loop :=
  let off := loop.decoder.offset
  let processed :=
    processRecord call.ctx loop.store replies call.tag event.body
      (slice call.data loop.pre off) loop.keep call.source
  { loop with
    pre := off
    keep := processed.keep
    store := processed.store
    emittedNum := if processed.emitted then loop.emittedNum + 1 else loop.emittedNum
    encoder :=
      if processed.keep || !processed.matched then
        -- the record base is there after every success
        LogEvent.emitRawRecord loop.encoder
          (slice call.data (loop.decoder.recordBase.getD 0)
            (loop.decoder.recordBase.getD 0 + loop.decoder.recordLength))
      else loop.encoder }

variable (ofDouble : BitVec 64 → LogEvent.Time)

/-- The loop of `cb_rewrite_tag_filter`, with a bound on the number of
records.  There is one entry of `replies` for every record. -/
def filterLoop (call : Call Captures) : Nat → (Nat → Replies) → Loop → LogEvent.Result × Loop
  | 0, _, loop => (loop.decoder.lastResult, loop)
  | records + 1, replies, loop =>
    match LogEvent.next ofDouble loop.decoder with
    | (.success, some event, decoder) =>
      filterLoop call records (fun number => replies (number + 1))
        (filterRecord call (replies 0) event
          { loop with decoder := decoder })
    | (result, _, decoder) => (result, { loop with decoder := decoder })

/-- `cb_rewrite_tag_filter`.  The result is the new buffer when the filter
answers `FLB_FILTER_MODIFIED`, and nothing for `FLB_FILTER_NOTOUCH`.  `keep` is
what the variable holds before it is written; every record takes a byte, so
the bound of the loop is not reached. -/
def cbRewriteTagFilter (call : Call Captures) (replies : Nat → Replies)
    (keep : Bool) (store : Store) : Option (List Byte) × Store :=
  let (ret, loop) :=
    filterLoop ofDouble call (call.data.length + 1) replies
      { decoder := LogEvent.decoderInit call.data false
        encoder := LogEvent.encoderInit .fluentBitV2
        pre := 0
        keep := keep
        emittedNum := 0
        store := store }
  if loop.emittedNum = 0 then (none, loop.store)
  else if ret = .insufficientData ∧
      loop.decoder.offset = call.data.length then
    (some loop.encoder.buffer, loop.store)
  else (none, loop.store)

/-- The buffer that goes on down the pipeline. -/
def continued (call : Call Captures) (result : Option (List Byte) × Store) : List Byte :=
  result.1.getD call.data

variable {ofDouble} {items : List (Item ofDouble)}

/-- A record of a buffer.  `bytes` is what is sent for it: its own bytes behind
those of the group markers that stand before it. -/
structure Record (ofDouble : BitVec 64 → Time) where
  item : Item ofDouble
  bytes : List Byte

def isRecord (item : Item ofDouble) : Bool :=
  decide (item.type = some .normal)

/-- The records of a sequence of objects, behind markers already passed. -/
def records : List Byte → List (Item ofDouble) → List (Record ofDouble)
  | _, [] => []
  | passed, item :: items =>
    if isRecord item then
      { item := item, bytes := passed ++ item.bytes } :: records [] items
    else records (passed ++ item.bytes) items

theorem map_item_records (passed : List Byte) (items : List (Item ofDouble)) :
    (records passed items).map Record.item = items.filter isRecord := by
  induction items generalizing passed with
  | nil => rfl
  | cons item items ih =>
    by_cases normal : isRecord item = true
    all_goals simp [records, normal, ih]

theorem bytes_ne_nil {passed : List Byte} {record : Record ofDouble}
    (member : record ∈ records passed items) : record.bytes ≠ [] := by
  induction items generalizing passed with
  | nil => cases member
  | cons item items ih =>
    rw [records] at member
    split at member
    · rcases mem_cons.mp member with rfl | later
      · simp [item.encodes.ne_nil]
      · exact ih later
    · exact ih member

/-- A call of `process_record` and what it finds. -/
structure Visit (ofDouble : BitVec 64 → Time) where
  record : Record ofDouble
  replies : Replies
  keep : Bool
  store : Store

namespace Visit

variable (call : Call Captures) (visit : Visit ofDouble)

def body : Object := visit.record.item.event.body

def processed : Processed :=
  processRecord call.ctx visit.store visit.replies call.tag visit.body
    visit.record.bytes visit.keep call.source

/-- The record is written to the new buffer. -/
def stays : Bool := (visit.processed call).keep || !(visit.processed call).matched

def rule : Option (Rule Captures × Captures) :=
  call.ctx.rules.findSome? fun rule =>
    (rule.regexMatch visit.body).map fun captures => (rule, captures)

def TakenUnder (outTag : Tag) : Prop :=
  (call.ctx.inInput && visit.replies.appended) = true ∨
    Takes visit.store.emitter visit.replies.emitter outTag call.source

/-- The record is refused in the one way the filter recognises. -/
def RefusedUnder (outTag : Tag) : Prop :=
  (call.ctx.inInput && visit.replies.appended) = false ∧
    ReportsFailure visit.store.emitter visit.replies.emitter outTag call.source

/-- The record matches a rule, its tag is composed, and it is taken. -/
def Accepted : Prop :=
  ∃ rule captures, visit.rule call = some (rule, captures) ∧ visit.replies.composed = true ∧
    visit.TakenUnder call (rule.translate call.tag visit.body captures)

/-- The record matches a rule, its tag is composed, and it is not refused in a
way the filter recognises. -/
def Counted : Prop :=
  ∃ rule captures, visit.rule call = some (rule, captures) ∧ visit.replies.composed = true ∧
    ¬ visit.RefusedUnder call (rule.translate call.tag visit.body captures)

/-- The first rule that matches wants the record kept or not. -/
def RuleKeeps (keeps : Bool) : Prop :=
  ∃ rule captures, visit.rule call = some (rule, captures) ∧ rule.keepRecord = keeps

end Visit

/-- A record has come in once under a tag. -/
inductive Arrives (before : Store) (tag : Tag) (data : List Byte) (after : Store) : Prop where
  | inline (has : after.ingested = before.ingested ++ [{ tag := tag, data := data }])
      (emitter : after.emitter = before.emitter)
  | emitter (received : Receives before.emitter tag data after.emitter)
      (ingested : after.ingested = before.ingested)

structure Untouched (before after : Store) : Prop where
  emitter : Silent before.emitter after.emitter
  ingested : after.ingested = before.ingested

theorem Arrives.not_untouched {before after : Store} {tag : Tag} {data : List Byte}
    (arrives : Arrives before tag data after) (nonempty : data ≠ []) :
    ¬ Untouched before after := by
  intro untouched
  cases arrives with
  | inline has emitter =>
    rw [untouched.ingested] at has
    simp at has
  | emitter received ingested =>
    cases received with
    | ring msgs had has chunks =>
      have same := untouched.emitter.msgs
      simp [had, has, filled, nonempty] at same
    | known front chunk back named had has msgs =>
      have same := untouched.emitter.chunks
      have total := congrArg (fun chunks => (chunks.map (·.data.length)).sum) same
      by_cases empty : chunk.data = [] <;> simp [had, has, filled, nonempty, empty] at total
    | new has msgs =>
      have same := untouched.emitter.chunks
      simp [has, filled, nonempty] at same

theorem findRule_fst (map : Object) (rules : List (Rule Captures)) (keep : Bool) :
    (findRule map rules keep).1 =
      rules.findSome? fun rule =>
        (rule.regexMatch map).map fun captures => (rule, captures) := by
  induction rules generalizing keep with
  | nil => rfl
  | cons rule rules ih =>
    cases found : rule.regexMatch map with
    | none => simp [findRule, found, ih]
    | some captures => simp [findRule, found]

variable {rule : Rule Captures}

theorem findRule_keep {map : Object} {rules : List (Rule Captures)} {keep : Bool}
    {captures : Captures} (found : (findRule map rules keep).1 = some (rule, captures)) :
    (findRule map rules keep).2 = rule.keepRecord := by
  induction rules generalizing keep with
  | nil => cases found
  | cons head rules ih =>
    rw [findRule] at found ⊢
    split
    · next missing =>
      rw [missing] at found
      exact ih found
    · next hit =>
      rw [hit] at found
      cases found
      rfl

section
variable {ctx : Context Captures} {store : Store} {replies : Replies}
  {outTag : Tag} {buf : List Byte} {source : Input}

theorem send_inline (inline : (ctx.inInput && replies.appended) = true) :
    (send ctx store replies outTag buf source).1 = 0 ∧
      Arrives store outTag buf (send ctx store replies outTag buf source).2 := by
  rw [send, ingestInline, if_pos inline]
  exact ⟨rfl, .inline rfl rfl⟩

theorem send_emitter (outside : (ctx.inInput && replies.appended) = false) :
    send ctx store replies outTag buf source =
      ((inEmitterAddRecord store.emitter replies.emitter outTag buf source).1,
        { store with
          emitter := (inEmitterAddRecord store.emitter replies.emitter outTag buf source).2 }) := by
  rw [send, ingestInline, if_neg (by simp [outside])]

end

namespace Visit

variable {call : Call Captures}

variable {visit : Visit ofDouble}

theorem processed_unmatched (unmatched : visit.rule call = none) :
    (visit.processed call).emitted = false ∧ (visit.processed call).matched = false ∧
      (visit.processed call).store = visit.store := by
  have found := findRule_fst visit.body call.ctx.rules visit.keep
  rw [← rule, unmatched] at found
  rw [processed, processRecord]
  split
  · exact ⟨rfl, rfl, rfl⟩
  · next result =>
    rw [result] at found
    cases found

theorem processed_matched {captures : Captures}
    (matched : visit.rule call = some (rule, captures)) :
    visit.processed call =
      if visit.replies.composed then
        let sent :=
          send call.ctx visit.store visit.replies
            (rule.translate call.tag visit.body captures) visit.record.bytes
            call.source
        { emitted := sent.1 ≠ -1, matched := true, keep := rule.keepRecord, store := sent.2 }
      else
        { emitted := false, matched := true, keep := rule.keepRecord, store := visit.store } := by
  have found := findRule_fst visit.body call.ctx.rules visit.keep
  rw [← Visit.rule, matched] at found
  have kept := findRule_keep found
  rw [processed, processRecord]
  split
  · next result =>
    rw [result] at found
    cases found
  · next result =>
    rw [result] at found kept
    cases found
    cases kept
    rfl

theorem processed_accepted {captures : Captures}
    (matched : visit.rule call = some (rule, captures)) (composed : visit.replies.composed = true)
    (taken : visit.TakenUnder call (rule.translate call.tag visit.body captures)) :
    Arrives visit.store (rule.translate call.tag visit.body captures)
      visit.record.bytes (visit.processed call).store := by
  rw [processed_matched matched, if_pos composed]
  cases inline : call.ctx.inInput && visit.replies.appended with
  | true => exact (send_inline inline).2
  | false =>
    rw [send_emitter inline]
    obtain ⟨linked, running, room, written⟩ := taken.resolve_left (by simp [inline])
    have received := (inEmitterAddRecord_hasRoom linked running room visit.record.bytes).2
    rw [stored, if_pos written] at received
    exact .emitter received rfl

theorem processed_not_accepted (refused : ¬ visit.Accepted call) :
    Untouched visit.store (visit.processed call).store := by
  cases matched : visit.rule call with
  | none =>
    rw [(processed_unmatched matched).2.2]
    exact ⟨⟨rfl, rfl⟩, rfl⟩
  | some found =>
    obtain ⟨rule, captures⟩ := found
    rw [processed_matched matched]
    split
    · next composed =>
      have free : ¬ visit.TakenUnder call (rule.translate call.tag visit.body captures) := by
        intro taken
        exact refused ⟨rule, captures, matched, composed, taken⟩
      rw [TakenUnder, not_or, Bool.not_eq_true] at free
      rw [send_emitter free.1]
      refine ⟨?_, rfl⟩
      by_cases linked : Linked visit.store.emitter visit.replies.emitter
          call.source ∧ visit.replies.emitter.emitterPaused = false
      · by_cases room : HasRoom visit.store.emitter visit.replies.emitter
            (rule.translate call.tag visit.body captures)
        · have received :=
            (inEmitterAddRecord_hasRoom linked.1 linked.2 room visit.record.bytes).2
          rw [stored, if_neg fun written => free.2 ⟨linked.1, linked.2, room, written⟩] at received
          exact received.silent
        · exact (inEmitterAddRecord_reportsFailure ⟨linked.1, linked.2, room⟩).2.silent
      · exact (inEmitterAddRecord_otherwise linked).2.silent
    · exact ⟨⟨rfl, rfl⟩, rfl⟩

theorem send_eq_failed_iff {outTag : Tag} {buf : List Byte} :
    (send call.ctx visit.store visit.replies outTag buf call.source).1 = -1 ↔
      visit.RefusedUnder call outTag := by
  cases inline : call.ctx.inInput && visit.replies.appended with
  | true =>
    rw [(send_inline inline).1, RefusedUnder, inline]
    simp
  | false =>
    rw [send_emitter inline, RefusedUnder, inline]
    simp only [true_and]
    by_cases linked : Linked visit.store.emitter visit.replies.emitter
        call.source ∧ visit.replies.emitter.emitterPaused = false
    · by_cases room : HasRoom visit.store.emitter visit.replies.emitter outTag
      · rw [(inEmitterAddRecord_hasRoom linked.1 linked.2 room buf).1]
        simp [ReportsFailure, room]
      · have full : ReportsFailure visit.store.emitter visit.replies.emitter outTag call.source :=
          ⟨linked.1, linked.2, room⟩
        simp [(inEmitterAddRecord_reportsFailure full).1, full]
    · have other : (inEmitterAddRecord visit.store.emitter
          visit.replies.emitter outTag buf call.source).1 ≠ -1 :=
        (inEmitterAddRecord_otherwise linked).1
      simp only [other, false_iff]
      intro full
      exact linked ⟨full.1, full.2.1⟩

theorem emitted_iff_counted : (visit.processed call).emitted = true ↔ visit.Counted call := by
  cases matched : visit.rule call with
  | none =>
    rw [(processed_unmatched matched).1]
    constructor
    · nofun
    · intro ⟨rule, captures, found, _⟩
      rw [matched] at found
      cases found
  | some found =>
    obtain ⟨rule, captures⟩ := found
    have counted : visit.Counted call ↔ visit.replies.composed = true ∧
        ¬ visit.RefusedUnder call (rule.translate call.tag visit.body captures) := by
      simp [Counted, matched]
    rw [counted, processed_matched matched]
    split
    · next composed =>
      simp only [composed, true_and, decide_eq_true_eq]
      exact not_congr send_eq_failed_iff
    · next failed => simp [failed]

theorem Accepted.counted (accepted : visit.Accepted call) : visit.Counted call := by
  obtain ⟨rule, captures, matched, composed, taken⟩ := accepted
  refine ⟨rule, captures, matched, composed, ?_⟩
  intro refused
  rcases taken with inline | takes
  · rw [refused.1] at inline
    cases inline
  · exact refused.2.2.2 takes.2.2.1

theorem stays_iff : visit.stays call = true ↔ ¬ visit.RuleKeeps call false := by
  cases matched : visit.rule call with
  | none => simp [stays, RuleKeeps, matched, (processed_unmatched matched).2.1]
  | some found =>
    obtain ⟨rule, captures⟩ := found
    rw [stays, processed_matched matched]
    split <;> simp [RuleKeeps, matched]

end Visit

section
variable (call : Call Captures)

def visits : (Nat → Replies) → Bool → Store → List (Record ofDouble) → List (Visit ofDouble)
  | _, _, _, [] => []
  | replies, keep, store, record :: records =>
    let visit : Visit ofDouble :=
      { record := record, replies := replies 0, keep := keep, store := store }
    visit :: visits (fun number => replies (number + 1))
      (visit.processed call).keep (visit.processed call).store records

def storeAfter (store : Store) : List (Visit ofDouble) → Store
  | [] => store
  | visit :: later => storeAfter (visit.processed call).store later

/-- How many records the filter takes for sent. -/
def emittedCount : List (Visit ofDouble) → Nat
  | [] => 0
  | visit :: later => (if (visit.processed call).emitted then 1 else 0) + emittedCount later

def written : List (Visit ofDouble) → List Byte
  | [] => []
  | visit :: later => (if visit.stays call then visit.record.item.bytes else []) ++ written later

/-- The loop ends behind the last record and has made the visits. -/
structure Follows (loop : Loop) (all : List (Visit ofDouble))
    (ended : LogEvent.Result × Loop) : Prop where
  result : ended.1 = .insufficientData
  offset : ended.2.decoder.offset = call.data.length
  store : ended.2.store = storeAfter call loop.store all
  emitted : ended.2.emittedNum = loop.emittedNum + emittedCount call all
  buffer : ended.2.encoder.buffer = loop.encoder.buffer ++ written call all

variable {call}

theorem slice_item {data : List Byte} {base : Nat} {item : Item ofDouble}
    (rest : data.drop base = bytesOf (item :: items)) :
    slice data base (base + item.bytes.length) = item.bytes := by
  rw [slice, rest, bytesOf_cons, Nat.add_sub_cancel_left, take_left]

theorem slice_append (data : List Byte) {start middle stop : Nat}
    (first : start ≤ middle) (second : middle ≤ stop) :
    slice data start stop = slice data start middle ++ slice data middle stop := by
  have split : stop - start = (middle - start) + (stop - middle) := by omega
  rw [slice, slice, slice, split, take_add, drop_drop, Nat.add_sub_cancel' first]

/-- The state of the loop in front of some objects: the bytes since the last
record are those of markers. -/
structure Ready (call : Call Captures) (loop : Loop) (base : Nat)
    (items : List (Item ofDouble)) (group : Option (Object × Object))
    (passed : List Byte) : Prop where
  place : At false loop.decoder base items group
  data : loop.decoder.buffer = call.data
  behind : loop.pre ≤ base
  passed : slice call.data loop.pre base = passed

section
variable {loop : Loop} {base : Nat} {item : Item ofDouble} {group : Option (Object × Object)}
  {passed : List Byte} (ready : Ready call loop base (item :: items) group passed)
include ready

theorem Ready.sent :
    slice call.data loop.pre (base + item.bytes.length) = passed ++ item.bytes := by
  have rest := ready.place.rest
  rw [ready.data] at rest
  rw [slice_append call.data ready.behind (Nat.le_add_right _ _), slice_item rest, ready.passed]

theorem Ready.marker {type : RecordType}
    (marker : item.type = some type) (special : type ≠ .normal) :
    ∃ decoder, LogEvent.next ofDouble loop.decoder = LogEvent.next ofDouble decoder ∧
      Ready call { loop with decoder := decoder } (base + item.bytes.length)
        items (item.groupAfter group) (passed ++ item.bytes) := by
  have following := at_afterItem ready.place
  refine ⟨enterMarker (afterItem loop.decoder item base) type, ?_, ?_⟩
  · rw [next_marker ready.place marker special]
    rfl
  · exact
      { place := at_enterMarker following (holds_afterItem ready.place) marker special
        data := by
          rw [enterMarker_buffer]
          exact ready.data
        behind := Nat.le_add_right_of_le ready.behind
        passed := ready.sent }

theorem Ready.record (normal : item.type = some .normal) (replies : Replies) :
    ∃ event decoder, LogEvent.next ofDouble loop.decoder = (.success, some event, decoder) ∧
      let visit : Visit ofDouble :=
        { record := { item := item, bytes := passed ++ item.bytes }
          replies := replies
          keep := loop.keep
          store := loop.store }
      let after := filterRecord call replies event { loop with decoder := decoder }
      Ready call after (base + item.bytes.length) items group [] ∧
        after.keep = (visit.processed call).keep ∧
        after.store = storeAfter call loop.store [visit] ∧
        after.emittedNum = loop.emittedNum + emittedCount call [visit] ∧
        after.encoder.buffer = loop.encoder.buffer ++ written call [visit] := by
  have stepped := next_item ready.place
  rw [answer, normal] at stepped
  have holds := holds_afterItem ready.place
  have following := at_afterItem ready.place
  have offset : (afterItem loop.decoder item base).offset =
      base + item.bytes.length := following.offset
  have rest := ready.place.rest
  rw [ready.data] at rest
  have own : slice call.data ((afterItem loop.decoder item base).recordBase.getD 0)
      ((afterItem loop.decoder item base).recordBase.getD 0 +
        (afterItem loop.decoder item base).recordLength) = item.bytes := by
    rw [holds.recordBase, holds.recordLength]
    exact slice_item rest
  have processed : processRecord call.ctx loop.store replies call.tag item.event.body
      (slice call.data loop.pre (afterItem loop.decoder item base).offset)
      loop.keep call.source =
        Visit.processed call
          { record := { item := item, bytes := passed ++ item.bytes }
            replies := replies
            keep := loop.keep
            store := loop.store } := by
    rw [offset, ready.sent]
    rfl
  refine ⟨_, _, stepped, ?_⟩
  dsimp only [filterRecord]
  rw [processed, own]
  refine ⟨⟨following, ready.data, ?_, ?_⟩, rfl, rfl, ?_, ?_⟩
  · exact offset.le
  · rw [offset, slice, Nat.sub_self, take_zero]
  · rw [emittedCount, emittedCount]
    split <;> rfl
  · rw [written, written, append_nil, Visit.stays]
    split
    · rfl
    · rw [append_nil]

end

theorem Follows.cons {loop after : Loop} {visit : Visit ofDouble} {replies : Nat → Replies}
    {later : List (Record ofDouble)} {ended : LogEvent.Result × Loop}
    (follows : Follows call after (visits call replies after.keep after.store later) ended)
    (keep : after.keep = (visit.processed call).keep)
    (store : after.store = storeAfter call loop.store [visit])
    (emitted : after.emittedNum = loop.emittedNum + emittedCount call [visit])
    (buffer : after.encoder.buffer = loop.encoder.buffer ++ written call [visit]) :
    Follows call loop
      (visit :: visits call replies (visit.processed call).keep
        (visit.processed call).store later) ended := by
  rw [keep, store, storeAfter, storeAfter] at follows
  exact
    { result := follows.result
      offset := follows.offset
      store := by
        rw [follows.store, store]
        rfl
      emitted := by
        rw [follows.emitted, emitted, Nat.add_assoc]
        rfl
      buffer := by
        rw [follows.buffer, buffer, append_assoc, written, written, append_nil]
        rfl }

/-- The loop over the bytes of a sequence of objects makes the visits of its
records. -/
theorem filterLoop_follows (items : List (Item ofDouble)) :
    ∀ {bound : Nat} {replies : Nat → Replies} {loop : Loop} {base : Nat}
      {group : Option (Object × Object)} {passed : List Byte},
      (∀ item ∈ items, item.type ≠ none) → items.length < bound →
      Ready call loop base items group passed →
      Follows call loop (visits call replies loop.keep loop.store (records passed items))
        (filterLoop ofDouble call bound replies loop) := by
  induction items with
  | nil =>
    intro bound replies loop base group passed known enough ready
    obtain ⟨after, ended, result, offset, buffer⟩ := @next_stays ofDouble _ ready.place.atEnd
    cases bound with
    | zero => exact absurd enough (Nat.not_lt_zero _)
    | succ bound =>
      rw [filterLoop, ended]
      refine ⟨rfl, ?_, rfl, rfl, (append_nil _).symm⟩
      rw [offset, ready.place.atEnd, ready.data]
  | cons item items ih =>
    intro bound replies loop base group passed known enough ready
    have later : ∀ item ∈ items, item.type ≠ none := fun item member =>
      known item (mem_cons_of_mem _ member)
    rw [length_cons] at enough
    cases bound with
    | zero => exact absurd enough (Nat.not_lt_zero _)
    | succ bound =>
      cases type : item.type with
      | none => exact absurd type (known item mem_cons_self)
      | some kind =>
        by_cases normal : kind = .normal
        · rw [normal] at type
          obtain ⟨event, decoder, stepped, following, keep, store,
            emitted, buffer⟩ := ready.record type (replies 0)
          have rest := @ih _ (fun number => replies (number + 1)) _ _ _ _
            later (by omega : items.length < bound) following
          rw [filterLoop, stepped, records, if_pos (by simp [isRecord, type])]
          exact rest.cons keep store emitted buffer
        · obtain ⟨decoder, same, following⟩ := ready.marker type normal
          have rest := @ih _ replies _ _ _ _ later (by omega : items.length < bound + 1) following
          rw [records, if_neg (by simp [isRecord, type, normal]), filterLoop, same]
          exact ⟨rest.result, rest.offset, rest.store, rest.emitted, rest.buffer⟩

end

open Function

/-- The record was sent once, under the tag that its rule composes. -/
def Visit.Sent (call : Call Captures) (visit : Visit ofDouble) : Prop :=
  ∃ rule captures, visit.rule call = some (rule, captures) ∧
    Arrives visit.store (rule.translate call.tag visit.body captures)
      visit.record.bytes (visit.processed call).store

/-- What became of the records, each with whether it remains: the buffer that
goes on has those that remain, in their order; every record was sent once or
not at all; none is at neither place, and at both places are those that a rule
sent and keeps. -/
structure Preserved (call : Call Captures) (result : Option (List Byte) × Store)
    (fates : List (Visit ofDouble × Bool)) : Prop where
  remaining : ∃ left : List (Item ofDouble),
    continued call result = bytesOf left ∧
      left.filter isRecord = (fates.filter Prod.snd).map fun fate => fate.1.record.item
  once : ∀ fate ∈ fates, fate.1.Sent call ∨ Untouched fate.1.store (fate.1.processed call).store
  somewhere : ∀ fate ∈ fates, fate.1.Sent call ∨ fate.2 = true
  both : ∀ fate ∈ fates, fate.1.Sent call ∧ fate.2 = true ↔
    fate.1.Sent call ∧ fate.1.RuleKeeps call true

section
variable {visit : Visit ofDouble}

theorem Visit.Accepted.sent (accepted : visit.Accepted call) : visit.Sent call := by
  obtain ⟨rule, captures, matched, composed, taken⟩ := accepted
  exact ⟨rule, captures, matched, Visit.processed_accepted matched composed taken⟩

theorem Visit.Sent.accepted (sent : visit.Sent call) (nonempty : visit.record.bytes ≠ []) :
    visit.Accepted call := by
  by_contra refused
  obtain ⟨rule, captures, _, arrives⟩ := sent
  exact arrives.not_untouched nonempty (Visit.processed_not_accepted refused)

theorem Visit.sent_or_untouched (call : Call Captures) (visit : Visit ofDouble) :
    visit.Sent call ∨ Untouched visit.store (visit.processed call).store := by
  by_cases accepted : visit.Accepted call
  · exact .inl accepted.sent
  · exact .inr (Visit.processed_not_accepted accepted)

/-- A record that was sent has a rule, so it stays exactly when this rule keeps
it. -/
theorem Visit.Sent.stays_iff (sent : visit.Sent call) :
    visit.stays call = true ↔ visit.RuleKeeps call true := by
  obtain ⟨rule, captures, matched, _⟩ := sent
  rw [Visit.stays_iff, Visit.RuleKeeps, Visit.RuleKeeps, matched]
  simp

theorem emittedCount_eq_zero_iff {all : List (Visit ofDouble)} :
    emittedCount call all = 0 ↔ ∀ visit ∈ all, ¬ visit.Counted call := by
  induction all with
  | nil => simp [emittedCount]
  | cons visit all ih =>
    rw [emittedCount, Nat.add_eq_zero_iff, ih, forall_mem_cons, ← Visit.emitted_iff_counted]
    simp

theorem written_eq_bytesOf (all : List (Visit ofDouble)) :
    written call all =
      bytesOf ((all.filter (Visit.stays call)).map fun visit =>
        visit.record.item) := by
  induction all with
  | nil => rfl
  | cons visit all ih =>
    rw [written, ih]
    by_cases stays : visit.stays call = true
    · rw [if_pos stays, filter_cons_of_pos stays, map_cons, bytesOf_cons]
    · rw [if_neg stays, filter_cons_of_neg stays, nil_append]

theorem map_record_visits (call : Call Captures) (replies : Nat → Replies)
    (keep : Bool) (store : Store) (all : List (Record ofDouble)) :
    (visits call replies keep store all).map Visit.record = all := by
  induction all generalizing replies keep store with
  | nil => rfl
  | cons record all ih => rw [visits, map_cons, ih]

end

theorem cbRewriteTagFilter_eq
    (whole : call.data = bytesOf items) (known : ∀ item ∈ items, item.type ≠ none)
    (replies : Nat → Replies) (keep : Bool) (store : Store) :
    let all := visits call replies keep store (records [] items)
    cbRewriteTagFilter ofDouble call replies keep store =
      (if emittedCount call all = 0 then none else some (written call all),
        storeAfter call store all) := by
  intro all
  have enough : items.length < call.data.length + 1 := by
    rw [whole]
    exact Nat.lt_succ_of_le (length_le_bytesOf items)
  have place := at_decoderInit false items
  rw [← whole] at place
  have follows := @filterLoop_follows _ ofDouble call items (call.data.length + 1) replies
    { decoder := decoderInit call.data false
      encoder := encoderInit .fluentBitV2
      pre := 0
      keep := keep
      emittedNum := 0
      store := store } 0 none [] known enough
    ⟨place, rfl, Nat.le_refl 0, rfl⟩
  rw [cbRewriteTagFilter]
  dsimp only
  rw [follows.emitted, Nat.zero_add]
  split
  · rw [follows.store]
  · rw [if_pos ⟨follows.result, follows.offset⟩, follows.buffer, follows.store]
    rfl

section
variable {result : Option (List Byte) × Store}

theorem preserved_untouched {all : List (Visit ofDouble)}
    (whole : call.data = bytesOf items) (same : all.map Visit.record = records [] items)
    (untouched : result.1 = none) (uncounted : ∀ visit ∈ all, ¬ visit.Counted call) :
    Preserved call result (all.map fun visit => (visit, true)) := by
  have nonempty : ∀ visit ∈ all, visit.record.bytes ≠ [] := by
    intro visit member
    apply @bytes_ne_nil _ items []
    rw [← same]
    exact mem_map_of_mem member
  have unsent : ∀ visit ∈ all, ¬ visit.Sent call := by
    intro visit member sent
    exact uncounted visit member (sent.accepted (nonempty visit member)).counted
  exact
    { remaining := by
        refine ⟨items, ?_, ?_⟩
        · rw [continued, untouched, Option.getD_none, whole]
        · rw [← map_item_records [] items, ← same]
          simp [filter_map, comp_def]
      once := by
        intro fate _
        exact fate.1.sent_or_untouched call
      somewhere := by
        intro fate member
        obtain ⟨visit, _, rfl⟩ := mem_map.mp member
        exact .inr rfl
      both := by
        intro fate member
        obtain ⟨visit, inside, rfl⟩ := mem_map.mp member
        simp [unsent visit inside] }

theorem preserved_modified {all : List (Visit ofDouble)}
    (same : all.map Visit.record = records [] items) (modified : result.1 = some (written call all))
    (accepted : ∀ visit ∈ all, visit.RuleKeeps call false → visit.Accepted call) :
    Preserved call result (all.map fun visit => (visit, visit.stays call)) := by
  have normal : ∀ visit ∈ all, isRecord visit.record.item = true := by
    intro visit member
    have inside : visit.record.item ∈ items.filter isRecord := by
      rw [← map_item_records [] items, ← same, map_map]
      exact mem_map_of_mem member
    exact (mem_filter.mp inside).2
  exact
    { remaining := by
        refine ⟨(all.filter (Visit.stays call)).map fun visit =>
          visit.record.item, ?_, ?_⟩
        · rw [continued, modified, Option.getD_some, written_eq_bytesOf]
        · rw [filter_eq_self.mpr]
          · simp [filter_map, comp_def]
          · intro item member
            obtain ⟨visit, inside, rfl⟩ := mem_map.mp member
            exact normal visit (mem_filter.mp inside).1
      once := by
        intro fate _
        exact fate.1.sent_or_untouched call
      somewhere := by
        intro fate member
        obtain ⟨visit, inside, rfl⟩ := mem_map.mp member
        by_cases dropped : visit.RuleKeeps call false
        · exact .inl (accepted visit inside dropped).sent
        · exact .inr (Visit.stays_iff.mpr dropped)
      both := by
        intro fate member
        obtain ⟨visit, inside, rfl⟩ := mem_map.mp member
        exact and_congr_right fun sent => sent.stays_iff }

/-- What has to remain is never less than what is written, and more as soon as
a record is lost. -/
theorem written_length_le {fates : List (Visit ofDouble × Bool)}
    (stay : ∀ fate ∈ fates, fate.1.stays call = true → fate.2 = true) :
    (written call (fates.map Prod.fst)).length ≤
        (bytesOf ((fates.filter Prod.snd).map fun fate =>
          fate.1.record.item)).length ∧
      ((∃ fate ∈ fates, fate.2 = true ∧ fate.1.stays call = false) →
        (written call (fates.map Prod.fst)).length <
          (bytesOf ((fates.filter Prod.snd).map fun fate =>
            fate.1.record.item)).length) := by
  induction fates with
  | nil => exact ⟨Nat.le_refl _, by simp⟩
  | cons fate fates ih =>
    obtain ⟨visit, remains⟩ := fate
    rw [forall_mem_cons] at stay
    obtain ⟨least, more⟩ := ih stay.2
    have bytes := length_pos_iff.mpr visit.record.item.encodes.ne_nil
    rw [map_cons, written, length_append]
    cases stays : visit.stays call with
    | true =>
      have kept : remains = true := stay.1 stays
      subst kept
      rw [filter_cons_of_pos rfl, map_cons, bytesOf_cons, length_append, if_pos rfl]
      refine ⟨Nat.add_le_add_left least _, ?_⟩
      intro found
      obtain ⟨fate, member, kept, lost⟩ := found
      rcases mem_cons.mp member with rfl | later
      · rw [stays] at lost
        cases lost
      · exact Nat.add_lt_add_left (more ⟨fate, later, kept, lost⟩) _
    | false =>
      rw [if_neg Bool.false_ne_true, length_nil, Nat.zero_add]
      cases remains with
      | true =>
        rw [filter_cons_of_pos rfl, map_cons, bytesOf_cons, length_append]
        dsimp only
        exact ⟨by omega, fun _ => by omega⟩
      | false =>
        refine ⟨least, ?_⟩
        intro found
        obtain ⟨fate, member, kept, lost⟩ := found
        rcases mem_cons.mp member with rfl | later
        · cases kept
        · exact more ⟨fate, later, kept, lost⟩

theorem length_bytesOf_filter_le (keeps : Item ofDouble → Bool) (items : List (Item ofDouble)) :
    (bytesOf (items.filter keeps)).length ≤ (bytesOf items).length := by
  induction items with
  | nil => exact Nat.le_refl _
  | cons item items ih =>
    rw [bytesOf_cons, length_append]
    by_cases kept : keeps item = true
    · rw [filter_cons_of_pos kept, bytesOf_cons, length_append]
      omega
    · rw [filter_cons_of_neg kept]
      omega

theorem Preserved.accepted {fates : List (Visit ofDouble × Bool)}
    (preserved : Preserved call result fates) (nonempty : ∀ fate ∈ fates, fate.1.record.bytes ≠ [])
    (modified : result.1 = some (written call (fates.map Prod.fst))) :
    ∀ fate ∈ fates, fate.1.RuleKeeps call false → fate.1.Accepted call := by
  intro fate member dropped
  by_contra refused
  have stay : ∀ fate ∈ fates, fate.1.stays call = true → fate.2 = true := by
    intro fate member stays
    rcases preserved.somewhere fate member with sent | remains
    · exact ((preserved.both fate member).mpr ⟨sent, sent.stays_iff.mp stays⟩).2
    · exact remains
  have lost : fate.1.stays call = false := by
    rw [← Bool.not_eq_true, Visit.stays_iff, not_not]
    exact dropped
  have remains : fate.2 = true := by
    apply (preserved.somewhere fate member).resolve_left
    intro sent
    exact refused (sent.accepted (nonempty fate member))
  obtain ⟨left, whole, selected⟩ := preserved.remaining
  have less := (written_length_le stay).2 ⟨fate, member, remains, lost⟩
  have bound := length_bytesOf_filter_le isRecord left
  rw [continued, modified, Option.getD_some] at whole
  rw [whole, ← selected] at less
  omega

end

/-- Over any sequence of objects the filter visits the records in order, and
each is afterwards sent or still there as it should be, if and only if no
record is taken for sent, or every record whose rule does not keep it is
accepted. -/
theorem rewritten_records_are_preserved (call : Call Captures) (items : List (Item ofDouble))
    (whole : call.data = bytesOf items) (known : ∀ item ∈ items, item.type ≠ none)
    (replies : Nat → Replies) (keep : Bool) (store : Store) :
    let all := visits call replies keep store (records [] items)
    let result := cbRewriteTagFilter ofDouble call replies keep store
    (all.map (fun visit => visit.record.item) = items.filter isRecord ∧
        result.2 = storeAfter call store all ∧
        ∃ fates, fates.map Prod.fst = all ∧ Preserved call result fates) ↔
      (∀ visit ∈ all, ¬ visit.Counted call) ∨
        ∀ visit ∈ all, visit.RuleKeeps call false → visit.Accepted call := by
  intro all result
  have same : all.map Visit.record = records [] items := map_record_visits call replies keep store _
  have run : result = (if emittedCount call all = 0 then none else some (written call all),
    storeAfter call store all) := cbRewriteTagFilter_eq whole known replies keep store
  constructor
  · intro ⟨_, _, fates, visited, preserved⟩
    by_cases uncounted : emittedCount call all = 0
    · exact .inl (emittedCount_eq_zero_iff.mp uncounted)
    · right
      have nonempty : ∀ fate ∈ fates, fate.1.record.bytes ≠ [] := by
        intro fate member
        apply @bytes_ne_nil _ items []
        rw [← same, ← visited, map_map]
        exact mem_map_of_mem member
      have modified : result.1 = some (written call (fates.map Prod.fst)) := by
        rw [run, visited, if_neg uncounted]
      rw [← visited, forall_mem_map]
      exact preserved.accepted nonempty modified
  · intro safe
    refine ⟨?_, by rw [run], ?_⟩
    · rw [← map_item_records [] items, ← same, map_map]
      rfl
    · by_cases uncounted : emittedCount call all = 0
      · refine ⟨all.map fun visit => (visit, true), by simp [comp_def], ?_⟩
        apply preserved_untouched whole same
        · rw [run, if_pos uncounted]
        · exact emittedCount_eq_zero_iff.mp uncounted
      · refine ⟨all.map fun visit => (visit, visit.stays call), by simp [comp_def], ?_⟩
        apply preserved_modified same
        · rw [run, if_neg uncounted]
        · rw [← emittedCount_eq_zero_iff] at safe
          exact safe.resolve_left uncounted

theorem replies_of_mem {replies : Nat → Replies} {keep : Bool}
    {store : Store} {all : List (Record ofDouble)} {visit : Visit ofDouble}
    (member : visit ∈ visits call replies keep store all) :
    ∃ number, visit.replies = replies number := by
  induction all generalizing replies keep store with
  | nil => cases member
  | cons record all ih =>
    rcases mem_cons.mp member with rfl | later
    · exact ⟨0, rfl⟩
    · obtain ⟨number, same⟩ := ih later
      exact ⟨number + 1, same⟩

def plainItems : List (Fin 8) → List (Item noDouble)
  | [] => []
  | sec :: later => (plainRecord sec (by omega)).item _ :: plainItems later

def moveAll (items : List (Item noDouble)) : Call Unit :=
  { ctx :=
      { rules :=
          [{ regexMatch := fun _ => some ()
             translate := fun _ _ _ => [110]
             keepRecord := false }]
        inInput := false }
    data := bytesOf items
    tag := [111]
    source := 0 }

def granted : Replies :=
  { composed := true
    appended := false
    emitter :=
      { reference := true
        emitterPaused := false
        sourcePaused := false
        tagCopied := true
        ringFree := 64
        chunkCreated := true
        written := true } }

def emptyStore : Store :=
  { emitter := { chunks := [], msgs := none, inputs := [], pausedInputs := [] }
    ingested := [] }

theorem granted_accepted {items : List (Item noDouble)} {visit : Visit noDouble}
    (same : visit.replies = granted) : visit.Accepted (moveAll items) := by
  refine ⟨_, (), rfl, ?_, .inr ⟨.inr ?_, ?_, ?_, ?_⟩⟩
  any_goals
    rw [same]
    rfl
  rw [HasRoom, same]
  cases visit.store.emitter.msgs with
  | some msgs => exact ⟨rfl, Nat.le_refl 64⟩
  | none => exact .inr rfl

theorem rewritten_records_are_preserved_twoRecords :
    let items := plainItems [1, 2]
    let result := cbRewriteTagFilter noDouble (moveAll items) (fun _ => granted) true emptyStore
    result.1 = some [] ∧ result.2.emitter.chunks = [{ tag := [110], data := bytesOf items }] ∧
      ∃ fates : List (Visit noDouble × Bool), fates.length = 2 ∧
        Preserved (moveAll items) result fates := by
  intro items result
  refine ⟨rfl, rfl, ?_⟩
  obtain ⟨_, _, fates, visited, preserved⟩ :=
    (rewritten_records_are_preserved (moveAll items) items rfl (by
      intro item member
      simp only [items, plainItems, mem_cons, not_mem_nil, or_false] at member
      rcases member with rfl | rfl
      all_goals exact nofun) (fun _ => granted) true emptyStore).mpr
      (.inr fun visit member _ => by
        obtain ⟨number, same⟩ := replies_of_mem member
        exact granted_accepted same)
  refine ⟨fates, ?_, preserved⟩
  have count := congrArg List.length visited
  rw [length_map] at count
  exact count

def paused : Replies :=
  { granted with emitter := { granted.emitter with emitterPaused := true } }

def composedOnce (number : Nat) : Replies :=
  { granted with composed := decide (number = 0) }

/-- With a paused emitter a record is neither there nor in the buffer.  The
same happens to a record whose tag cannot be composed behind one that was
sent. -/
theorem paused_emitter_loses_record :
    (let call := moveAll (plainItems [1])
      let result := cbRewriteTagFilter noDouble call (fun _ => paused) true emptyStore
      result.1 = some [] ∧ result.2.emitter.chunks = [] ∧
        result.2.emitter.msgs = none ∧ result.2.ingested = [] ∧
        ¬ ∃ fates : List (Visit noDouble × Bool),
          fates.map Prod.fst =
              visits call (fun _ => paused) true emptyStore (records [] (plainItems [1])) ∧
            Preserved call result fates) ∧
      let result := cbRewriteTagFilter noDouble (moveAll (plainItems [1, 2]))
        composedOnce true emptyStore
      result.1 = some [] ∧
        result.2.emitter.chunks = [{ tag := [110], data := bytesOf (plainItems [1]) }] := by
  refine ⟨⟨rfl, rfl, rfl, rfl, ?_⟩, rfl, rfl⟩
  intro ⟨fates, visited, preserved⟩
  have nonempty : ∀ fate ∈ fates, fate.1.record.bytes ≠ [] := by
    intro fate member
    apply @bytes_ne_nil _ (plainItems [1]) []
    rw [← map_record_visits _ _ _ _ (records _ _), ← visited, map_map]
    exact mem_map_of_mem member
  have accepted := preserved.accepted nonempty (by rw [visited]; rfl)
  have first : ∀ visit ∈ fates.map Prod.fst, visit.RuleKeeps _ false → visit.Accepted _ :=
    forall_mem_map.mpr accepted
  rw [visited] at first
  obtain ⟨_, _, _, _, taken⟩ := first _ mem_cons_self ⟨_, (), rfl, rfl⟩
  rcases taken with inline | ⟨_, running, _⟩
  · cases inline
  · cases running

end FluentBit.RewriteTag
