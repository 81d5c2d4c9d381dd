import FluentBit.HashTable.Map
import FluentBit.InputChunk.Accounting

/-!
# The tag tables over whole runs

An entry of a tag table should refer to a live chunk with the event type and
the tag of the entry.  A chunk is freed in all cases, but its entry is only
removed when the caller asked for deletion and the tag could be read back; and
the tables compare tags up to a NUL byte.  A run whose steps avoid both leaves
no entry behind.
-/

namespace FluentBit.InputChunk

open List Function Keyed Option

variable {setup : Setup}

/-- Every entry of the tag tables refers to a live chunk of the input, with
the event type and the tag, as far as a header has room for it, of the
entry. -/
def State.NoDangling (state : State setup) : Prop :=
  ∀ input eventType, eventType.indexed = true →
    ∀ entry ∈ (state.tagTables input eventType).entries,
      ∃ chunk ∈ state.chunks, chunk.ref = ((state.tagTables input eventType).heap entry).value.val ∧
        chunk.input = input ∧ chunk.eventType = eventType ∧
        chunk.tag = ((state.tagTables input eventType).heap entry).key.take tagMax

/-- No entry of another tag is taken for the tag. -/
def State.TagClear (state : State setup) (input : Input) (eventType : EventType) (tag : List Byte) :
    Prop :=
  HashTable.AcceptsOnly (state.tagTables input eventType)
    (HashTable.keyId setup.hash64 (state.tagTables input eventType) tag)
    (HashTable.sameKey (state.tagTables input eventType) tag) tag

def State.Names (state : State setup) (chunk : Chunk setup) : Prop :=
  ((state.tagTables chunk.input chunk.eventType).view chunk.tag).map
    HashTable.Value.val = some chunk.ref

/-- The tags of all chunks that are named can be read. -/
def State.Readable (state : State setup) : Prop :=
  ∀ chunk ∈ state.chunks, state.Names chunk → chunk.report.tagReadable = true

/-- The report on a chunk that is destroyed after the write: it is empty, or
its input has no routes. -/
def WriteOutcome.dropped (routable : Bool) : WriteOutcome → Option Report
  | .failed _ => none
  | .written report =>
    if report.contentSize = 0 ∨ routable = false then some report else none

/-- What an append has to meet: all tags it may have to read are readable, no
other tag compares equal to its own, and a corrupted chunk that leaves its
entry behind is replaced. -/
structure AppendTidy (state : State setup) (input : Input)
    (eventType : EventType) (tag : List Byte) (script : AppendScript) :
    Prop where
  clear : state.TagClear input eventType tag
  readable : state.Readable
  replaced : script.load = .corrupted →
    setup.storageDelBadChunks = true ∨ script.created.isSome = true
  created : ∀ report ∈ script.created, report.tagReadable = true
  written : ∀ report ∈ script.outcome.dropped input.routable, report.tagReadable = true

def Tidy (state : State setup) : Event → Prop
  | .create input eventType tag _ => tag.length ≤ tagMax ∧ state.TagClear input eventType tag
  | .append input eventType tag _ script =>
    AppendTidy state input eventType ((tag.getD input.defaultTag).take tagMax) script
  | .release _ _ _ _ _ => state.Readable
  | .destroy ref del =>
    ∀ chunk ∈ state.chunk ref, state.Names chunk → del = true ∧ chunk.report.tagReadable = true
  | _ => True

section
variable (state : State setup) (input : Input) (eventType : EventType) (tag : List Byte)

instance : Decidable (state.TagClear input eventType tag) :=
  inferInstanceAs (Decidable (HashTable.AcceptsOnly _ _ _ tag))

instance (chunk : Chunk setup) : Decidable (state.Names chunk) :=
  inferInstanceAs (Decidable (Option.map HashTable.Value.val _ = _))

instance : Decidable state.Readable := inferInstanceAs (Decidable (∀ chunk ∈ state.chunks, _ → _))

instance (script : AppendScript) : Decidable (AppendTidy state input eventType tag script) :=
  decidable_of_iff (_ ∧ _ ∧ _ ∧ _ ∧ _)
    ⟨fun tidy => ⟨tidy.1, tidy.2.1, tidy.2.2.1, tidy.2.2.2.1, tidy.2.2.2.2⟩,
      fun tidy => ⟨tidy.1, tidy.2, tidy.3, tidy.4, tidy.5⟩⟩

instance : (event : Event) → Decidable (Tidy state event)
  | .create _ _ _ _ => inferInstanceAs (Decidable (_ ∧ _))
  | .append _ _ _ _ _ => inferInstanceAs (Decidable (AppendTidy ..))
  | .release _ _ _ _ _ => inferInstanceAs (Decidable state.Readable)
  | .destroy _ _ => inferInstanceAs (Decidable (∀ _ ∈ _, _ → _ ∧ _))
  | .map _ _ _ _ | .flush _ _ | .releaseLock _ | .setTask _ _ => isTrue trivial

end

/-- A live chunk stands behind an entry. -/
def State.Backs (state : State setup) (input : Input)
    (eventType : EventType) (tag : List Byte) (ref : ChunkRef) : Prop :=
  eventType.indexed = true ∧ tag ≠ [] ∧ tag.length ≤ tagMax ∧
    ∃ chunk ∈ state.chunks, chunk.ref = ref ∧ chunk.input = input ∧
      chunk.eventType = eventType ∧ chunk.tag = tag

abbrev TableFormed (setup : Setup) (table : HashTable.Table) : Prop :=
  HashTable.Represents setup.hash64 512 true table table.view

/-- All entries but those exempted are backed. -/
structure State.TracksBut (state : State setup)
    (exempted : Input → EventType → List Byte → Prop) : Prop where
  refs_nodup : (state.chunks.map Chunk.ref).Nodup
  refs_lt : ∀ chunk ∈ state.chunks, chunk.ref < state.next
  tables : ∀ input eventType, TableFormed setup (state.tagTables input eventType)
  backed : ∀ input eventType tag value,
    (state.tagTables input eventType).view tag = some value →
      ¬exempted input eventType tag → state.Backs input eventType tag value.val

abbrev State.Tracks (state : State setup) : Prop := state.TracksBut fun _ _ _ => False

variable {state : State setup} {exempted : Input → EventType → List Byte → Prop}
  {input : Input} {eventType : EventType} {tag : List Byte}

theorem State.Tracks.noDangling (tracks : state.Tracks) : state.NoDangling := by
  intro input eventType _ entry member
  have represents := tracks.tables input eventType
  have stored := HashTable.view_keyOf represents.formed member
  have key : (state.tagTables input eventType).keyOf entry =
      ((state.tagTables input eventType).heap entry).key := by
    simp [HashTable.Table.keyOf, HashTable.normalize, represents.sensitivity_eq]
  rw [key] at stored
  obtain ⟨_, _, short, chunk, live, ref, sameInput, sameType, tag⟩ :=
    tracks.backed input eventType _ _ stored id
  refine ⟨chunk, live, ref, sameInput, sameType, ?_⟩
  rw [tag, take_of_length_le short]

theorem State.TracksBut.eq_of_ref (tracks : state.TracksBut exempted)
    {left right : Chunk setup} (leftLive : left ∈ state.chunks) (rightLive : right ∈ state.chunks)
    (same : left.ref = right.ref) : left = right :=
  inj_on_of_nodup_map tracks.refs_nodup leftLive rightLive same

variable {chunk : Chunk setup} {next : State setup} {del : Bool}
  {new : ChunkRef} {script : AppendScript} {shift : IntShift}

theorem State.Tracks.names_of_view (tracks : state.Tracks) {value : HashTable.Value}
    (live : chunk ∈ state.chunks) (stored : (state.tagTables input eventType).view tag = some value)
    (same : value.val = chunk.ref) :
    chunk.input = input ∧ chunk.eventType = eventType ∧ chunk.tag = tag ∧
      eventType.indexed = true ∧ tag ≠ [] ∧ state.Names chunk := by
  obtain ⟨indexed, positive, _, other, otherLive, ref, rfl, rfl, rfl⟩ :=
    tracks.backed input eventType tag value stored id
  obtain rfl := tracks.eq_of_ref otherLive live (ref.trans same)
  refine ⟨rfl, rfl, rfl, indexed, positive, ?_⟩
  rw [State.Names, stored, map_some, same]

section
variable {table : HashTable.Table}

theorem tableFormed_add (formed : TableFormed setup table)
    {tag : List Byte} (positive : tag ≠ []) (env : HashTable.Env)
    (value : HashTable.Value)
    (clear : HashTable.AcceptsOnly table (HashTable.keyId setup.hash64 table tag)
      (HashTable.sameKey table tag) tag) :
    TableFormed setup (HashTable.add setup.hash64 env table tag value).1 ∧
      (HashTable.add setup.hash64 env table tag value).1.view =
        update table.view tag (some value) := by
  have simulated : HashTable.Simulated setup.hash64 512 true table table.view
      (.add env tag positive value) := HashTable.simulated_add formed clear
  obtain ⟨next, ⟨_, rfl⟩, represents⟩ := simulated
  exact ⟨represents.self, represents.view_eq⟩

/-- When only the given key can lead to a pointer, `flb_hash_table_del_ptr`
removes it. -/
theorem tableFormed_delPtr (formed : TableFormed setup table)
    {tag : List Byte} {ptr : HashTable.Address}
    (only : ∀ key value, table.view key = some value → value.val = ptr → key = tag ∧ tag ≠ []) :
    TableFormed setup (HashTable.delPtr setup.hash64 table tag ptr).1 ∧
      ∀ key value,
        (HashTable.delPtr setup.hash64 table tag ptr).1.view key = some value →
          table.view key = some value ∧ value.val ≠ ptr := by
  have keyOf : ∀ ref, table.keyOf ref = (table.heap ref).key := by
    intro ref
    simp [HashTable.Table.keyOf, HashTable.normalize, formed.sensitivity_eq]
  have leads : ∀ id ref, ref ∈ (table.table id).chains →
      (table.heap ref).value.val = ptr → (table.heap ref).key = tag ∧ tag ≠ [] := by
    intro id ref linked same
    have member := ((formed.formed.chained id ref).mp linked).1
    have stored := HashTable.view_keyOf formed.formed member
    rw [keyOf] at stored
    exact only _ _ stored same
  by_cases positive : tag = []
  · -- the search accepts every entry with the pointer, and there is none
    have missing : (table.table (HashTable.keyId setup.hash64 table tag)
        ).chains.find? (HashTable.sameKeyPtr table tag ptr) = none := by
      apply List.find?_eq_none.mpr
      intro ref linked accepted
      simp only [HashTable.sameKeyPtr, Bool.and_eq_true, beq_iff_eq] at accepted
      exact (leads _ ref linked accepted.2).2 positive
    simp only [HashTable.delPtr, missing]
    refine ⟨formed, fun key value stored => ⟨stored, ?_⟩⟩
    intro same
    exact (only key value stored same).2 positive
  · have clear : HashTable.Unambiguous setup.hash64 table
        (.delPtr tag positive ptr) := by
      constructor
      · intro ref linked accepted
        simp only [HashTable.sameKeyPtr, Bool.and_eq_true, beq_iff_eq] at accepted
        rw [keyOf, (leads _ ref linked accepted.2).1]
        simp [HashTable.normalize, formed.sensitivity_eq]
      · intro ref _ same
        rw [keyOf] at same
        simp only [HashTable.normalize, formed.sensitivity_eq, if_true] at same
        simp [same, strncmpEq, strncmpEqBy_of_map_eq]
    have simulated : HashTable.Simulated setup.hash64 512 true table table.view
      (.delPtr tag positive ptr) := HashTable.simulated_delPtr formed clear
    obtain ⟨next, spec, represents⟩ := simulated
    have view := represents.view_eq
    refine ⟨represents.self, fun key value stored => ?_⟩
    have after : next key = some value := by
      rw [← view]
      exact stored
    simp only [HashTable.Spec, HashTable.normalize, if_true] at spec
    split at spec
    · rw [spec.1] at after
      by_cases same : key = tag
      · subst key
        simp at after
      · rw [update_of_ne same] at after
        exact ⟨after, fun address => same (only key value after address).1⟩
    · next unheld =>
      rw [spec.1] at after
      refine ⟨after, fun address => unheld ?_⟩
      rw [(only key value after address).1] at after
      rw [after, map_some, address]

end

structure Chunk.Alike (left right : Chunk setup) : Prop where
  ref : left.ref = right.ref
  input : left.input = right.input
  eventType : left.eventType = right.eventType
  tag : left.tag = right.tag

section
variable (tracks : state.Tracks)
include tracks

theorem State.Tracks.congr (chunks : next.chunks = state.chunks)
    (issued : next.next = state.next) (tagTables : next.tagTables = state.tagTables) :
    next.Tracks := by
  obtain ⟨nodup, fresh, tables, backed⟩ := tracks
  constructor
  · rwa [chunks]
  · rwa [chunks, issued]
  · rwa [tagTables]
  · rw [tagTables]
    simpa only [State.Backs, chunks] using backed

theorem State.Tracks.modifyChunk {old changed : Chunk setup}
    (found : state.chunk old.ref = some old) (alike : changed.Alike old) :
    (state.modifyChunk old.ref fun _ => changed).Tracks := by
  constructor
  · rw [State.modifyChunk, map_key_modify]
    · exact tracks.refs_nodup
    · exact fun _ _ => alike.ref
  · intro chunk member
    rcases mem_modify member with ⟨live, _⟩ | ⟨item, live, ref, rfl⟩
    · exact tracks.refs_lt chunk live
    · rw [alike.ref, ← ref]
      exact tracks.refs_lt item live
  · exact tracks.tables
  · intro input eventType tag value stored _
    obtain ⟨indexed, positive, short, chunk, live, ref, rfl, rfl, rfl⟩ :=
      tracks.backed input eventType tag value stored id
    have stays : _ ∈ (state.modifyChunk old.ref fun _ => changed).chunks :=
      mem_map_of_mem live
    refine ⟨indexed, positive, short, _, stays, ?_⟩
    split
    · next same =>
      obtain rfl := tracks.eq_of_ref live (mem_of_chunk found).1 same
      exact ⟨alike.ref.trans ref, alike.input, alike.eventType, alike.tag⟩
    · exact ⟨ref, rfl, rfl, rfl⟩

variable (live : chunk ∈ state.chunks)
include live

theorem forgetTag_view (del : Bool) {tag : Option (List Byte)}
    (known : ∀ read ∈ tag, read = chunk.tag) (input : Input) (eventType : EventType) :
    TableFormed setup (forgetTag state.tagTables chunk del tag input eventType) ∧
      ∀ key value,
        (forgetTag state.tagTables chunk del tag input eventType).view key = some value →
          (state.tagTables input eventType).view key = some value ∧
            (del = true → tag = some chunk.tag → value.val ≠ chunk.ref) := by
  have formed := tracks.tables input eventType
  cases tag with
  | none =>
    refine ⟨formed, fun key value stored => ⟨stored, ?_⟩⟩
    intro _ impossible
    cases impossible
  | some read =>
    obtain rfl := known read rfl
    cases del with
    | false =>
      refine ⟨formed, fun key value stored => ⟨stored, ?_⟩⟩
      intro impossible
      cases impossible
    | true =>
      simp only [forgetTag, if_true, tagTableDelPtr, TagTables.modify_apply]
      split
      · next own =>
        obtain ⟨_, rfl, rfl⟩ := own
        have only : ∀ key value,
            (state.tagTables chunk.input chunk.eventType).view key =
              some value → value.val = chunk.ref → key = chunk.tag ∧ chunk.tag ≠ [] := by
          intro key value stored same
          obtain ⟨_, _, rfl, _, positive, _⟩ := tracks.names_of_view live stored same
          exact ⟨rfl, positive⟩
        have cleaned := tableFormed_delPtr formed only
        refine ⟨cleaned.1, fun key value stored => ?_⟩
        obtain ⟨before, other⟩ := cleaned.2 key value stored
        exact ⟨before, fun _ _ => other⟩
      · next apart =>
        refine ⟨formed, fun key value stored => ⟨stored, ?_⟩⟩
        intro _ _ same
        obtain ⟨sameInput, sameType, _, indexed, _⟩ := tracks.names_of_view live stored same
        apply apart
        rw [sameType]
        exact ⟨indexed, sameInput.symm, rfl⟩

theorem State.Tracks.destroyWith_but
    (del : Bool) {tag : Option (List Byte)} (known : ∀ read ∈ tag, read = chunk.tag) :
    (destroyWith state chunk del tag).TracksBut fun input eventType key =>
      (input = chunk.input ∧ eventType = chunk.eventType ∧ key = chunk.tag) ∧ state.Names chunk ∧
        ¬(del = true ∧ tag = some chunk.tag) := by
  have left := forgetTag_view tracks live del known
  constructor
  · exact nodup_erase tracks.refs_nodup
  · intro other stays
    exact tracks.refs_lt other (mem_erase.mp stays).1
  · intro input eventType
    exact (left input eventType).1
  · intro input eventType key value stored kept
    obtain ⟨before, cleaned⟩ := (left input eventType).2 key value stored
    have apart : value.val ≠ chunk.ref := by
      intro same
      obtain ⟨sameInput, sameType, sameTag, _, _, named⟩ := tracks.names_of_view live before same
      by_cases complete : del = true ∧ tag = some chunk.tag
      · exact cleaned complete.1 complete.2 same
      · exact kept ⟨⟨sameInput.symm, sameType.symm, sameTag.symm⟩, named, complete⟩
    obtain ⟨indexed, positive, short, other, otherLive, ref, same⟩ :=
      tracks.backed input eventType key value before id
    have stays : other ∈ (destroyWith state chunk del tag).chunks :=
      mem_erase.mpr ⟨otherLive, ref ▸ apart⟩
    exact ⟨indexed, positive, short, other, stays, ref, same⟩

/-- Destroying a chunk is complete when it is not named, or is asked to delete
and knows the tag. -/
theorem State.Tracks.destroyWith {tag : Option (List Byte)} (known : ∀ read ∈ tag, read = chunk.tag)
    (complete : state.Names chunk → del = true ∧ tag = some chunk.tag) :
    (destroyWith state chunk del tag).Tracks := by
  have left := tracks.destroyWith_but live del known
  refine ⟨left.refs_nodup, left.refs_lt, left.tables, ?_⟩
  intro input eventType key value stored _
  apply left.backed input eventType key value stored
  rintro ⟨_, named, incomplete⟩
  exact incomplete (complete named)

end

theorem Chunk.readTag_known (chunk : Chunk setup) : ∀ read ∈ chunk.readTag, read = chunk.tag := by
  intro read known
  simp only [Chunk.readTag] at known
  split at known
  · exact (some.inj known).symm
  · cases known

theorem State.Tracks.destroy (tracks : state.Tracks) (live : chunk ∈ state.chunks)
    (complete : state.Names chunk → del = true ∧ chunk.report.tagReadable = true) :
    (destroy state chunk del).Tracks := by
  apply tracks.destroyWith live chunk.readTag_known
  intro named
  obtain ⟨deletes, readable⟩ := complete named
  exact ⟨deletes, by rw [Chunk.readTag, if_pos readable]⟩

theorem State.Tracks.names_of_destroyWith (tracks : state.Tracks) {other : Chunk setup}
    (live : chunk ∈ state.chunks) {tag : Option (List Byte)}
    (known : ∀ read ∈ tag, read = chunk.tag)
    (named : (InputChunk.destroyWith state chunk del tag).Names other) : state.Names other := by
  obtain ⟨value, stored, same⟩ := map_eq_some_iff.mp named
  have left := forgetTag_view tracks live del known other.input other.eventType
  rw [State.Names, (left.2 _ _ stored).1, map_some, same]

section
variable (readable : state.Readable) (tracks : state.Tracks) (live : chunk ∈ state.chunks)
include readable tracks live

theorem State.Readable.destroyWith {tag : Option (List Byte)}
    (known : ∀ read ∈ tag, read = chunk.tag) : (destroyWith state chunk del tag).Readable := by
  intro left stays named
  apply readable left (mem_erase.mp stays).1
  exact tracks.names_of_destroyWith live known named

theorem State.Readable.destroyed : (InputChunk.destroy state chunk true).Tracks := by
  apply tracks.destroy live
  intro named
  exact ⟨rfl, readable chunk live named⟩

end

private theorem State.TracksBut.addChunk (tracks : state.TracksBut exempted)
    (new : chunk.ref = state.next) : (state.addChunk chunk).TracksBut exempted := by
  constructor
  · simp only [State.addChunk, map_append, map_cons, map_nil]
    apply nodup_append.mpr
    refine ⟨tracks.refs_nodup, nodup_singleton _, ?_⟩
    intro ref member other same equal
    obtain ⟨old, live, rfl⟩ := mem_map.mp member
    have fresh := tracks.refs_lt old live
    rw [equal, mem_singleton.mp same, new] at fresh
    exact Nat.lt_irrefl _ fresh
  · intro other member
    rcases mem_append.mp member with old | same
    · exact Nat.lt_succ_of_lt (tracks.refs_lt other old)
    · rw [mem_singleton.mp same, new]
      exact Nat.lt_succ_self _
  · exact tracks.tables
  · intro input eventType tag value stored kept
    obtain ⟨indexed, positive, short, other, live, same⟩ :=
      tracks.backed input eventType tag value stored kept
    exact ⟨indexed, positive, short, other, mem_append_left _ live, same⟩

/-- A new chunk takes over the entry of its tag, whatever that refers to. -/
theorem State.TracksBut.create (tracks : state.TracksBut exempted)
    (own : ∀ otherInput otherType key, exempted otherInput otherType key →
      otherInput = input ∧ otherType = eventType ∧ key = tag ∧ eventType.indexed = true ∧ tag ≠ [])
    (clear : state.TagClear input eventType tag) (short : tag.length ≤ tagMax)
    (report : Report) :
    (create state input eventType tag (some report)).1.Tracks := by
  have new : (state.newChunk input eventType tag report).ref = state.next := rfl
  have added := tracks.addChunk new
  by_cases enters : eventType.indexed = true ∧ tag ≠ []
  · have formed := tableFormed_add (tracks.tables input eventType) enters.2
      { time := 0, random := 0 } { val := state.next, copy := none } clear
    refine ⟨added.refs_nodup, added.refs_lt, ?_, ?_⟩
    · intro otherInput otherType
      simp only [InputChunk.create, tagTableAdd, TagTables.modify_apply]
      split
      · exact formed.1
      · exact tracks.tables otherInput otherType
    · intro otherInput otherType key value stored _
      simp only [InputChunk.create, tagTableAdd, TagTables.modify_apply] at stored
      split at stored
      · next same =>
        obtain ⟨_, rfl, rfl⟩ := same
        have view := formed.2
        simp only [State.newChunk] at stored
        rw [view] at stored
        by_cases sameKey : key = tag
        · subst key
          rw [update_self] at stored
          cases stored
          refine ⟨enters.1, enters.2, short, _, mem_append_right _ (mem_singleton_self _), rfl, rfl,
            rfl, ?_⟩
          exact take_of_length_le short
        · rw [update_of_ne sameKey] at stored
          apply added.backed _ _ key value stored
          intro exempt
          exact sameKey (own _ _ _ exempt).2.2.1
      · next apart =>
        apply added.backed otherInput otherType key value stored
        intro exempt
        obtain ⟨rfl, rfl, _⟩ := own _ _ _ exempt
        exact apart ⟨enters.1, rfl, rfl⟩
  · have unchanged : tagTableAdd state.tagTables
        (state.newChunk input eventType tag report) tag = state.tagTables := by
      funext otherInput otherType
      rw [tagTableAdd, TagTables.modify_apply]
      split
      · next same =>
        obtain ⟨indexed, rfl, rfl⟩ := same
        have empty : tag = [] := by
          by_contra positive
          exact enters ⟨indexed, positive⟩
        simp only [HashTable.add, empty, length_nil, if_true]
        rfl
      · rfl
    refine ⟨added.refs_nodup, added.refs_lt, ?_, ?_⟩
    · simp only [InputChunk.create, unchanged]
      exact tracks.tables
    · simp only [InputChunk.create, unchanged]
      intro otherInput otherType key value stored _
      apply added.backed otherInput otherType key value stored
      intro exempt
      obtain ⟨_, _, _, entered⟩ := own _ _ _ exempt
      exact enters entered

theorem State.Tracks.create (tracks : state.Tracks) (clear : state.TagClear input eventType tag)
    (short : tag.length ≤ tagMax) (report : Option Report) :
    (create state input eventType tag report).1.Tracks := by
  cases report with
  | none => exact tracks
  | some report =>
    apply TracksBut.create tracks _ clear short report
    intro _ _ _ impossible
    exact impossible.elim

/-- What making room around a new chunk does to the tag tables and to the
chunks they name. -/
structure Trims (new : ChunkRef) (state next : State setup) : Prop where
  tracks : next.Tracks
  readable : next.Readable
  kept : next.chunk new = state.chunk new

theorem Trims.refl (tracks : state.Tracks) (readable : state.Readable) : Trims new state state :=
  ⟨tracks, readable, rfl⟩

theorem Trims.trans {middle : State setup} (first : Trims new state middle)
    (second : Trims new middle next) : Trims new state next :=
  ⟨second.tracks, second.readable, second.kept.trans first.kept⟩

theorem Trims.congr {other : State setup} (trims : Trims new state next)
    (chunks : other.chunks = next.chunks) (issued : other.next = next.next)
    (tagTables : other.tagTables = next.tagTables) : Trims new state other := by
  constructor
  · exact trims.tracks.congr chunks issued tagTables
  · have readable := trims.readable
    simpa only [State.Readable, State.Names, chunks, tagTables] using readable
  · rw [← trims.kept, State.chunk, State.chunk, chunks]

section
variable {new : ChunkRef} {state : State setup} {output : Output}

theorem trims_modifyChunk (tracks : state.Tracks) (readable : state.Readable) {old : Chunk setup}
    (found : state.chunk old.ref = some old) (other : old.ref ≠ new) (changed : Chunk setup)
    (alike : changed.Alike old) (report : changed.report = old.report) :
    Trims new state (state.modifyChunk old.ref fun _ => changed) := by
  constructor
  · exact tracks.modifyChunk found alike
  · intro chunk member named
    rcases mem_modify member with ⟨live, _⟩ | ⟨item, live, ref, rfl⟩
    · exact readable chunk live named
    · rw [report]
      apply readable old (mem_of_chunk found).1
      rw [State.Names, ← alike.input, ← alike.eventType, ← alike.tag, ← alike.ref]
      exact named
  · exact lookup_modify_other (fun _ _ => alike.ref) other.symm

theorem trims_destroy (tracks : state.Tracks) (readable : state.Readable) {chunk : Chunk setup}
    (found : state.chunk chunk.ref = some chunk) (other : chunk.ref ≠ new) :
    Trims new state (destroy state chunk true) := by
  have live := (mem_of_chunk found).1
  constructor
  · exact readable.destroyed tracks live
  · exact readable.destroyWith tracks live chunk.readTag_known
  · exact lookup_erase_other other.symm

theorem Releasing.trims {takes : Output → Prop} {start : State setup}
    (releasing : Releasing new takes start state) (tracks : start.Tracks)
    (readable : start.Readable) : Trims new start state := by
  induction releasing with
  | refl => exact .refl tracks readable
  | @setTask state old _ found other task ih =>
    have tasked := trims_modifyChunk ih.tracks ih.readable found other
      (old.withTask task) ⟨rfl, rfl, rfl, rfl⟩ rfl
    exact ih.trans tasked
  | @takeRoute state chunk output _ found other _ _ ih =>
    have cleared := trims_modifyChunk ih.tracks ih.readable found other
      (chunk.cleared output) ⟨rfl, rfl, rfl, rfl⟩ rfl
    exact (ih.trans cleared).congr rfl rfl rfl
  | destroy _ found other ih => exact ih.trans (trims_destroy ih.tracks ih.readable found other)
  | removeFile _ _ ih => exact ih.congr rfl rfl rfl

end

theorem State.TagClear.destroyWith {key : List Byte} (clear : state.TagClear input eventType key)
    (chunk : Chunk setup) (del : Bool) (tag : Option (List Byte)) :
    (destroyWith state chunk del tag).TagClear input eventType key := by
  simp only [State.TagClear, InputChunk.destroyWith, forgetTag]
  split
  · exact clear
  · split
    · simp only [tagTableDelPtr, TagTables.modify_apply]
      split
      · next own =>
        obtain ⟨_, rfl, rfl⟩ := own
        exact HashTable.acceptsOnly_delPtr clear
      · exact clear
    · exact clear

theorem State.Tracks.tag_of_indexed (tracks : state.Tracks)
    (clear : state.TagClear input eventType tag) (live : chunk ∈ state.chunks)
    (named : state.indexed input eventType tag = some chunk.ref) :
    chunk.input = input ∧ chunk.eventType = eventType ∧ chunk.tag = tag ∧
      eventType.indexed = true ∧ tag ≠ [] ∧ state.Names chunk := by
  unfold State.indexed at named
  split at named
  · obtain ⟨⟨id, entry⟩, found, same⟩ := map_eq_some_iff.mp named
    have formed := tracks.tables input eventType
    obtain ⟨linked, accepted⟩ := HashTable.hashGetEntry_eq_some found
    have member := ((formed.formed.chained _ _).mp linked).1
    have stored := HashTable.view_keyOf formed.formed member
    rw [clear entry linked accepted, formed.sensitivity_eq] at stored
    exact tracks.names_of_view live stored same
  · cases named

theorem reuse_cases {entry : Option ChunkRef} {load : Load} {result : Option (Chunk setup)}
    (reused : reuse state tag entry load = some (next, result)) :
    (next = state ∧ ∀ chunk ∈ result, state.chunk chunk.ref = some chunk) ∨
      result = none ∧ load = .corrupted ∧ ∃ chunk,
        entry = some chunk.ref ∧ state.chunk chunk.ref = some chunk ∧
          next = destroyCorrupted state chunk tag setup.storageDelBadChunks := by
  unfold reuse at reused
  split at reused
  · cases reused
    exact .inl ⟨rfl, by simp⟩
  · split at reused
    · cases reused
    · next chunk found =>
      obtain ⟨_, rfl⟩ := mem_of_chunk found
      split at reused
      · cases reused
        exact .inl ⟨rfl, by simp⟩
      · cases load with
        | up =>
          cases reused
          refine .inl ⟨rfl, fun other same => ?_⟩
          cases same
          exact found
        | corrupted =>
          cases reused
          exact .inr ⟨rfl, rfl, chunk, rfl, found, rfl⟩
        | failed =>
          cases reused
          exact .inl ⟨rfl, by simp⟩

theorem readable_create (readable : state.Readable)
    (fresh : ∀ chunk ∈ state.chunks, chunk.ref < state.next)
    (formed : TableFormed setup (state.tagTables input eventType))
    (clear : state.TagClear input eventType tag) {report : Report}
    (new : report.tagReadable = true) :
    (create state input eventType tag (some report)).1.Readable := by
  intro chunk member named
  rcases mem_append.mp member with old | same
  · apply readable chunk old
    simp only [State.Names, create, tagTableAdd, TagTables.modify_apply] at named
    split at named
    · next own =>
      obtain ⟨_, sameInput, sameType⟩ := own
      by_cases positive : tag = []
      · simp only [HashTable.add, positive, length_nil, if_true] at named
        rw [State.Names, sameInput, sameType]
        exact named
      · have view := (tableFormed_add formed positive
          { time := 0, random := 0 } { val := state.next, copy := none }
          clear).2
        simp only [State.newChunk] at named
        rw [view] at named
        by_cases sameTag : chunk.tag = tag
        · rw [sameTag, update_self] at named
          have impossible := fresh chunk old
          rw [← some.inj named] at impossible
          exact absurd impossible (Nat.lt_irrefl _)
        · rw [update_of_ne sameTag] at named
          rw [State.Names, sameInput, sameType]
          exact named
    · exact named
  · rw [mem_singleton.mp same]
    exact new

theorem tracks_placeOrDestroy (shift : IntShift) (newChunk : Bool)
    (chunkSize : SizeT) (tracks : state.Tracks) (readable : state.Readable)
    (found : state.chunk chunk.ref = some chunk) :
    (placeOrDestroy shift state chunk newChunk chunkSize).1.Tracks ∧
      ∀ result ∈ (placeOrDestroy shift state chunk newChunk chunkSize).2,
        (placeOrDestroy shift state chunk newChunk chunkSize).1.chunk result.ref = some result := by
  have releasing : Releasing chunk.ref (· ∈ setup.outputs) state
    (placeNewChunk shift state chunk chunkSize).1 := releasing_placeNewChunk shift chunk chunkSize
  have placed := releasing.trims tracks readable
  have kept := placed.kept.trans found
  unfold placeOrDestroy
  split
  · refine ⟨tracks, fun result same => ?_⟩
    cases same
    exact found
  · dsimp only
    split
    · refine ⟨placed.tracks, fun result same => ?_⟩
      cases same
      exact kept
    · split
      · refine ⟨?_, by simp⟩
        exact placed.readable.destroyed placed.tracks (mem_of_chunk kept).1
      · exact ⟨placed.tracks, by simp⟩

section
variable (tracks : state.Tracks)
include tracks

/-- A chunk that was given up leaves at most the entry of the tag behind, and
only when a new chunk takes its place. -/
theorem tracks_reuse_none {pruned : State setup}
    (tidy : AppendTidy state input eventType tag script)
    (reused : reuse state tag (state.indexed input eventType tag)
      script.load = some (pruned, none)) :
    pruned.Readable ∧ pruned.TagClear input eventType tag ∧
      (script.created = none → pruned.Tracks) ∧
      ∃ exempted, pruned.TracksBut exempted ∧
        ∀ otherInput otherType key, exempted otherInput otherType key →
          otherInput = input ∧ otherType = eventType ∧ key = tag ∧
            eventType.indexed = true ∧ tag ≠ [] := by
  rcases reuse_cases reused with
    ⟨rfl, _⟩ | ⟨_, corrupted, chunk, named, found, rfl⟩
  · exact ⟨tidy.readable, tidy.clear, fun _ => tracks, _, tracks,
      fun _ _ _ impossible => impossible.elim⟩
  · have live := (mem_of_chunk found).1
    obtain ⟨sameInput, sameType, rfl, indexed, positive, isNamed⟩ :=
      tracks.tag_of_indexed tidy.clear live named
    have known : ∀ read ∈ some chunk.tag, read = chunk.tag :=
      fun read same => (some.inj same).symm
    refine ⟨tidy.readable.destroyWith tracks live known, tidy.clear.destroyWith chunk _ _, ?_, _,
      tracks.destroyWith_but live _ known, ?_⟩
    · intro failed
      apply tracks.destroyWith live known
      intro _
      rcases tidy.replaced corrupted with deletes | replaced
      · exact ⟨deletes, rfl⟩
      · rw [failed] at replaced
        cases replaced
    · rintro _ _ _ ⟨⟨rfl, rfl, rfl⟩, _⟩
      exact ⟨sameInput, sameType, rfl, indexed, positive⟩

theorem tracks_inputChunkGet {chunkSize : SizeT} {result : Option (Chunk setup)}
    (tidy : AppendTidy state input eventType (tag.take tagMax) script)
    (got : inputChunkGet shift state input eventType tag chunkSize script = some (next, result)) :
    next.Tracks ∧ ∀ chunk ∈ result, next.chunk chunk.ref = some chunk := by
  have short : (tag.take tagMax).length ≤ tagMax := by
    rw [length_take]
    exact Nat.min_le_left _ _
  unfold inputChunkGet at got
  dsimp only at got
  generalize tag.take tagMax = tag at got tidy short
  split at got
  · cases got
  · next pruned chunk reused =>
    rcases reuse_cases reused with ⟨rfl, live⟩ | ⟨impossible, _⟩
    · have placed := tracks_placeOrDestroy shift false chunkSize tracks
        tidy.readable (live chunk rfl)
      rw [some.inj got] at placed
      exact placed
    · cases impossible
  · next pruned reused =>
    obtain ⟨readable, clear, complete, exempted, left, own⟩ := tracks_reuse_none tracks tidy reused
    cases reported : script.created with
    | none =>
      rw [reported] at got
      cases got
      exact ⟨complete reported, by simp⟩
    | some report =>
      rw [reported] at got
      have made := left.create own clear short report
      have kept := readable_create readable left.refs_lt (left.tables input eventType) clear
        (tidy.created report reported)
      have live : pruned.newChunk input eventType tag report ∈ (create pruned input eventType tag
        (some report)).1.chunks := mem_append_right _ (mem_singleton_self _)
      have placed := tracks_placeOrDestroy shift true chunkSize made kept
        (lookup_of_mem made.refs_nodup live)
      have same : placeOrDestroy shift (create pruned input eventType tag (some report)).1
          (pruned.newChunk input eventType tag report) true chunkSize =
            (next, result) := some.inj got
      rw [same] at placed
      exact placed

theorem State.Tracks.updateOutputInstances
    (found : state.chunk chunk.ref = some chunk) (size : SizeT) (realSize : Int) :
    (updateOutputInstances state chunk size realSize).Tracks := by
  have accounted := tracks.modifyChunk found (show (chunk.account realSize).Alike chunk from
    ⟨rfl, rfl, rfl, rfl⟩)
  exact accounted.congr rfl rfl rfl

theorem tracks_appendTo (found : state.chunk chunk.ref = some chunk)
    (written : ∀ report ∈ script.outcome.dropped input.routable, report.tagReadable = true) :
    (appendTo state input chunk script).1.Tracks := by
  unfold appendTo
  split
  · exact tracks
  · split
    · exact tracks.modifyChunk found ⟨rfl, rfl, rfl, rfl⟩
    · next report outcome =>
      rw [outcome] at written
      have changed : (state.modifyChunk chunk.ref fun _ =>
          chunk.written report).Tracks :=
        tracks.modifyChunk found ⟨rfl, rfl, rfl, rfl⟩
      have still : (state.modifyChunk chunk.ref fun _ =>
          chunk.written report).chunk (chunk.written report).ref = some (chunk.written report) :=
        chunk_modifyChunk_self found rfl
      have live := (mem_of_chunk still).1
      have dropped : report.contentSize = 0 ∨ input.routable = false →
          (destroy (state.modifyChunk chunk.ref fun _ =>
            chunk.written report) (chunk.written report) true).Tracks := by
        intro drops
        apply changed.destroy live
        intro _
        refine ⟨rfl, written report ?_⟩
        rw [WriteOutcome.dropped, if_pos drops]
        rfl
      simp only [afterWrite]
      split
      · next empty => exact dropped (.inl empty)
      · split
        · next unroutable => exact dropped (.inr (by simpa using unroutable))
        · split
          · exact changed.updateOutputInstances still _ _
          · exact changed

end

theorem tracks_memrbReleaseLoop {required : SizeT} (refs : List ChunkRef)
    (released : Int) (tracks : state.Tracks) (readable : state.Readable)
    (clear : state.TagClear input eventType tag) :
    (memrbReleaseLoop required refs state released).1.Tracks ∧
      (memrbReleaseLoop required refs state released).1.Readable ∧
      (memrbReleaseLoop required refs state released).1.TagClear input eventType tag := by
  induction refs generalizing state released with
  | nil => exact ⟨tracks, readable, clear⟩
  | cons ref refs ih =>
    simp only [memrbReleaseLoop]
    split
    · exact ih released tracks readable clear
    · next chunk found =>
      have live := (mem_of_chunk found).1
      split
      · have destroyed := readable.destroyed tracks live
        have kept : (destroy state chunk true).Readable :=
          readable.destroyWith tracks live chunk.readTag_known
        have apart : (destroy state chunk true).TagClear input eventType
            tag := clear.destroyWith chunk _ _
        split
        · exact ⟨destroyed, kept, apart⟩
        · exact ih _ destroyed kept apart
      · exact ih released tracks readable clear

section
variable (tracks : state.Tracks)
include tracks

theorem tracks_inputChunkAppendRaw {tag : Option (List Byte)} {bufSize : SizeT}
    {result : State setup × Int}
    (tidy : AppendTidy state input eventType ((tag.getD input.defaultTag).take tagMax) script)
    (appended : inputChunkAppendRaw shift state input eventType tag bufSize script = some result) :
    result.1.Tracks := by
  unfold inputChunkAppendRaw at appended
  dsimp only at appended
  generalize freedEq :
    (if input.storageType = .memrb ∧ script.memOverlimit = true then
      memrbReleaseSpace state input bufSize
    else (state, true)) = freed at appended
  have ready : freed.1.Tracks ∧ AppendTidy freed.1 input eventType
      ((tag.getD input.defaultTag).take tagMax) script := by
    rw [← freedEq]
    split
    · obtain ⟨pruned, readable, clear⟩ := tracks_memrbReleaseLoop ((state.chunks.filter (·.input =
        input)).map Chunk.ref) 0 tracks tidy.readable tidy.clear
      exact ⟨pruned, clear, readable, tidy.replaced, tidy.created, tidy.written⟩
    · exact ⟨tracks, tidy⟩
  split at appended
  · cases appended
    exact ready.1
  · split at appended
    · cases appended
      exact ready.1
    · split at appended
      · cases appended
        exact ready.1
      · split at appended
        · cases appended
        · next got =>
          cases appended
          exact (tracks_inputChunkGet ready.1 ready.2 got).1
        · next next chunk got =>
          cases appended
          obtain ⟨placed, handed⟩ := tracks_inputChunkGet ready.1 ready.2 got
          exact tracks_appendTo placed (handed chunk rfl) tidy.written

theorem tracks_flush (found : state.chunk chunk.ref = some chunk)
    (outcome : FlushOutcome) : (flush state chunk outcome).Tracks := by
  cases outcome with
  | upFailed report => exact tracks.modifyChunk found ⟨rfl, rfl, rfl, rfl⟩
  | contentFailed report | empty report => exact tracks.modifyChunk found ⟨rfl, rfl, rfl, rfl⟩
  | loaded report =>
    have changed : (state.modifyChunk chunk.ref fun _ =>
        chunk.loaded report).Tracks :=
      tracks.modifyChunk found ⟨rfl, rfl, rfl, rfl⟩
    have still : (state.modifyChunk chunk.ref fun _ =>
        chunk.loaded report).chunk (chunk.loaded report).ref = some (chunk.loaded report) :=
      chunk_modifyChunk_self found rfl
    simp only [flush]
    split
    · exact changed.updateOutputInstances still _ _
    · exact changed

theorem tracks_map (input : Input) (eventType : EventType) (tag : List Byte)
    (report : Option Report) : (map state input eventType tag report).Tracks := by
  unfold map
  split
  · exact tracks
  · next report =>
    dsimp only
    split
    · exact tracks
    · have new : (state.mappedChunk input eventType tag report).ref = state.next := rfl
      have added : (state.addChunk (state.mappedChunk input eventType tag report)).Tracks :=
        State.TracksBut.addChunk tracks new
      have found := lookup_of_mem added.refs_nodup
        (mem_append_right state.chunks (mem_singleton_self _))
      exact added.updateOutputInstances found _ _

theorem State.Tracks.step {event : Event} (tidy : Tidy state event)
    (taken : step shift state event = some next) : next.Tracks := by
  cases event with
  | create input eventType tag report =>
    cases taken
    exact tracks.create tidy.2 tidy.1 report
  | append input eventType tag bufSize script =>
    obtain ⟨result, appended, rfl⟩ := map_eq_some_iff.mp taken
    exact tracks_inputChunkAppendRaw tracks tidy appended
  | map file eventType tag report =>
    cases taken
    exact (tracks_map tracks setup.storageBacklog eventType tag report).congr rfl rfl rfl
  | flush ref outcome =>
    obtain ⟨chunk, found, rfl⟩ := map_eq_some_iff.mp taken
    obtain ⟨_, rfl⟩ := mem_of_chunk found
    exact tracks_flush tracks found outcome
  | release new input output required scope =>
    obtain ⟨target, found, rfl⟩ := map_eq_some_iff.mp taken
    have releasing : Releasing new (fun _ => True) state
        (releaseSpace state new input target required scope).1 :=
      releasing_releaseSpace .refl input required scope fun _ => trivial
    exact (releasing.trims tracks tidy).tracks
  | destroy ref del =>
    obtain ⟨chunk, found, rfl⟩ := map_eq_some_iff.mp taken
    exact tracks.destroy (mem_of_chunk found).1 (tidy chunk found)
  | releaseLock ref | setTask ref task =>
    obtain ⟨chunk, found, rfl⟩ := map_eq_some_iff.mp taken
    obtain ⟨_, rfl⟩ := mem_of_chunk found
    exact tracks.modifyChunk found ⟨rfl, rfl, rfl, rfl⟩

end

theorem tracks_initial (setup : Setup) (fileRealSize : FileRef → Int) :
    (State.initial setup fileRealSize).Tracks := by
  have created : HashTable.create 0 .none 512 0 true = some newTagTable := (some_get _).symm
  have represents : HashTable.Represents setup.hash64 512 true newTagTable
      fun _ => none := HashTable.represents_create created
  constructor
  · exact nodup_nil
  · intro chunk impossible
    cases impossible
  · exact fun _ _ => represents.self
  · intro input eventType tag value stored _
    have empty : newTagTable.view tag = some value := stored
    cases empty

/-- In every state reached by steps that leave no entry behind, no entry
dangles. -/
theorem noDangling_of_tidy {shift : IntShift} {fileRealSize : FileRef → Int} {state : State setup}
    (reached : Run.Reaches (step shift) Tidy (State.initial setup fileRealSize) state) :
    state.NoDangling := by
  have tracks : state.Tracks := by
    apply reached.invariant (tracks_initial setup fileRealSize)
    intro current next event tracks tidy taken
    exact tracks.step tidy taken
  exact tracks.noDangling

def appendCorrupted (tag : Byte) (created : Option Report) : Event :=
  .append tailInput .logs (some [tag]) 100#64
    { memOverlimit := false
      paused := false
      load := .corrupted
      created := created
      raised := true
      outcome := .written filledFile }

/-- A corrupted chunk that is replaced leaves no entry behind. -/
theorem noDangling_of_tidy_replaced :
    ∃ state, Run.Reaches (step maskingShift) Tidy emptyStorage state ∧
      state.chunks.map Chunk.ref = [1] ∧
      (state.tagTables tailInput .logs).entries = [0] ∧
      state.NoDangling := by
  obtain ⟨state, taken, refs, entries⟩ : ∃ state, Run.runGuarded (step maskingShift)
    Tidy emptyStorage [appendBlock 97 8000#64 (.written filledFile), appendCorrupted 97
    (some emptyFile)] = some state ∧ state.chunks.map Chunk.ref = [1] ∧
    (state.tagTables tailInput .logs).entries = [0] := ⟨_, rfl, rfl, rfl⟩
  have reached := Run.Reaches.refl.of_runGuarded taken
  exact ⟨state, reached, refs, entries, noDangling_of_tidy reached⟩

/-- Without `storage.delete_irrecoverable_chunks` a corrupted chunk is freed,
its entry stays, and no new chunk can be created. -/
theorem corrupted_chunk_dangles :
    ∃ state, Run.run (step maskingShift) emptyStorage
        [appendBlock 97 8000#64 (.written filledFile), appendCorrupted 97 none] = some state ∧
      state.chunks.map Chunk.ref = [] ∧
      (state.tagTables tailInput .logs).entries = [0] ∧
      ¬state.NoDangling := by
  obtain ⟨state, taken, refs, entries⟩ : ∃ state, Run.run (step maskingShift) emptyStorage
    [appendBlock 97 8000#64 (.written filledFile), appendCorrupted 97 none] =
    some state ∧ state.chunks.map Chunk.ref = [] ∧ (state.tagTables tailInput .logs).entries = [0]
    := ⟨_, rfl, rfl, rfl⟩
  refine ⟨state, taken, refs, entries, fun sound => ?_⟩
  obtain ⟨chunk, live, _⟩ := sound tailInput .logs rfl 0 (entries ▸ mem_singleton_self 0)
  rw [map_eq_nil_iff.mp refs] at live
  cases live

end FluentBit.InputChunk
