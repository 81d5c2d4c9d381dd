import FluentBit.InputChunk.Overlimit
import FluentBit.InputChunk.Room

/-!
# Filesystem accounting over whole runs

Every output with a limit should count exactly the accounted sizes of its live
chunks.  A step keeps this unless it releases a route of a chunk that was never
counted, or changes the size of a chunk without accounting the change.
-/

namespace FluentBit.InputChunk

open Option

variable {setup : Setup}

def Chunk.charged (chunk : Chunk setup) : Bool := setup.outputs.any chunk.charges

def SameSize (chunk : Chunk setup) (report : Report) : Prop :=
  chunk.fsCounted = true → getRealSize report = getRealSize chunk.report

/-- The new size of a chunk is known, and the chunk is counted if and only if
it had content. -/
def AccountSafe (chunk : Chunk setup) (report : Report) : Prop :=
  0 ≤ getRealSize report ∧ (chunk.report.contentSize = 0 → chunk.fsCounted = false) ∧
    (chunk.report.contentSize ≠ 0 → chunk.charged = true → chunk.fsCounted = true)

/-- A write that ends without accounting leaves the size of a counted chunk
alone. -/
def WriteSafe (chunk : Chunk setup) (routable : Bool) : WriteOutcome → Prop
  | .failed report => SameSize chunk report
  | .written report =>
    if report.contentSize = 0 ∨ routable = false then
      SameSize chunk report
    else AccountSafe chunk report

def FlushSafe (chunk : Chunk setup) : FlushOutcome → Prop
  | .upFailed report => SameSize chunk report
  | .contentFailed report => SameSize chunk report
  | .empty report => SameSize chunk report
  | .loaded report =>
    getRealSize report ≠ getRealSize chunk.report →
      0 ≤ getRealSize report ∧ (chunk.charged = true → chunk.fsCounted = true)

/-- An entry of the tag tables that a lookup of the tag can find refers to the
chunk. -/
def State.Indexes (state : State setup) (input : Input)
    (eventType : EventType) (tag : List Byte) (ref : ChunkRef) : Prop :=
  (state.tagTables input eventType).Offers setup.hash64 tag ref

/-- The append finds this chunk ready to take more data. -/
def State.Takes (state : State setup) (input : Input) (eventType : EventType) (tag : List Byte)
    (load : Load) (chunk : Chunk setup) : Prop :=
  state.indexed input eventType tag = some chunk.ref ∧
    chunk.busy = false ∧ chunk.locked = false ∧ load = .up

/-- An append has no space to release, because neither its input nor a chunk
it may take has filesystem storage. -/
def NoFilesystem (state : State setup) (input : Input) (eventType : EventType) (tag : List Byte) :
    Prop :=
  input.storageType ≠ .fs ∧
    ∀ chunk ∈ state.chunks, state.Indexes input eventType tag chunk.ref →
      chunk.input.storageType ≠ .fs

/-- An append has no space to release, because no output with a limit is over
it. -/
def WithinLimits (state : State setup) (bufSize : SizeT) (load : Load) : Prop :=
  load ≠ .corrupted ∧ ∀ output ∈ setup.outputs, output.limited = true →
    state.overlimit output bufSize = false

/-- Every charged chunk but the one the append takes is counted. -/
def AllCounted (state : State setup) (input : Input)
    (eventType : EventType) (tag : List Byte) (load : Load) : Prop :=
  ∀ chunk ∈ state.chunks, chunk.charged = true →
    chunk.fsCounted = true ∨ state.Takes input eventType tag load chunk

structure AppendSafe (state : State setup) (input : Input)
    (eventType : EventType) (tag : List Byte) (bufSize : SizeT)
    (script : AppendScript) : Prop where
  release : NoFilesystem state input eventType tag ∨
    input.storageType ≠ .memrb ∧
      (WithinLimits state bufSize script.load ∨ AllCounted state input eventType tag script.load)
  write : ∀ chunk ∈ state.chunks,
    state.Indexes input eventType tag chunk.ref → WriteSafe chunk input.routable script.outcome
  created : ∀ report ∈ script.created,
    WriteSafe (state.newChunk input eventType tag report) input.routable script.outcome

def Accountable (state : State setup) : Event → Prop
  | .append input eventType tag bufSize script =>
    AppendSafe state input eventType ((tag.getD input.defaultTag).take tagMax) bufSize script
  | .flush ref outcome =>
    ∀ chunk ∈ state.chunk ref, FlushSafe chunk outcome
  | .release new _ output _ scope =>
    scope = .scopeLocal →
      ∀ target ∈ Keyed.lookup Output.id setup.outputs output, CountedFor state new target
  | _ => True

section
variable (state : State setup) (input : Input) (eventType : EventType)
  (tag : List Byte) (chunk : Chunk setup)

instance (report : Report) : Decidable (SameSize chunk report) :=
  inferInstanceAs (Decidable (_ → _))

instance (report : Report) : Decidable (AccountSafe chunk report) :=
  inferInstanceAs (Decidable (_ ∧ (_ → _) ∧ (_ → _ → _)))

instance (routable : Bool) : (outcome : WriteOutcome) → Decidable (WriteSafe chunk routable outcome)
  | .failed report => inferInstanceAs (Decidable (SameSize chunk report))
  | .written report =>
    inferInstanceAs (Decidable
      (if report.contentSize = 0 ∨ routable = false then
        SameSize chunk report
      else AccountSafe chunk report))

instance : (outcome : FlushOutcome) → Decidable (FlushSafe chunk outcome)
  | .upFailed report | .contentFailed report | .empty report =>
    inferInstanceAs (Decidable (SameSize chunk report))
  | .loaded _ => inferInstanceAs (Decidable (_ → _ ∧ (_ → _)))

instance (ref : ChunkRef) : Decidable (state.Indexes input eventType tag ref) :=
  inferInstanceAs (Decidable ((state.tagTables input eventType).Offers setup.hash64 tag ref))

instance (load : Load) : Decidable (state.Takes input eventType tag load chunk) :=
  inferInstanceAs (Decidable (_ ∧ _ ∧ _ ∧ _))

instance : Decidable (NoFilesystem state input eventType tag) :=
  inferInstanceAs (Decidable (_ ∧ ∀ chunk ∈ state.chunks, _ → _))

instance (bufSize : SizeT) (load : Load) : Decidable (WithinLimits state bufSize load) :=
  inferInstanceAs (Decidable (_ ∧ ∀ output ∈ setup.outputs, _ → _))

instance (load : Load) : Decidable (AllCounted state input eventType tag load) :=
  inferInstanceAs (Decidable (∀ chunk ∈ state.chunks, _ → _ ∨ _))

instance (new : ChunkRef) (output : Output) : Decidable (CountedFor state new output) :=
  inferInstanceAs (Decidable (∀ chunk ∈ state.chunks, _ → _ → _))

instance (bufSize : SizeT) (script : AppendScript) :
    Decidable (AppendSafe state input eventType tag bufSize script) :=
  decidable_of_iff (_ ∧ _ ∧ _)
    ⟨fun safe => ⟨safe.1, safe.2.1, safe.2.2⟩, fun safe => ⟨safe.release, safe.write, safe.created⟩⟩

instance : (event : Event) → Decidable (Accountable state event)
  | .append _ _ _ _ _ => inferInstanceAs (Decidable (AppendSafe ..))
  | .flush ref _ => inferInstanceAs (Decidable (∀ chunk ∈ state.chunk ref, _))
  | .release _ _ output _ _ =>
    inferInstanceAs (Decidable (_ → ∀ target ∈ Keyed.lookup Output.id setup.outputs output, _))
  | .create _ _ _ _ | .map _ _ _ _ | .destroy _ _ | .releaseLock _ | .setTask _ _ => isTrue trivial

end

variable {state : State setup} {before chunk : Chunk setup} {input : Input}
  {script : AppendScript}

section
variable (sound : state.Sound)
include sound

section
variable (found : state.chunk before.ref = some before)
include found

theorem settles_report {after : Chunk setup} (ref : after.ref = before.ref)
    (mask : after.routesMask = before.routesMask) (counted : after.fsCounted = before.fsCounted)
    (accounted : after.accounted = before.accounted) (same : SameSize before after.report) :
    Settles state (state.modifyChunk before.ref fun _ => after) := by
  refine settles_modifyChunk sound found ref ?_ ?_
  · intro isCounted
    rw [counted] at isCounted
    rw [accounted, same isCounted]
    exact sound.current before (mem_of_chunk found).1 isCounted
  · intro output
    rw [Chunk.share, Chunk.share, Chunk.routed, Chunk.routed, mask, counted, accounted]

theorem settles_account {after : Chunk setup} {chunkSize : SizeT}
    (ref : after.ref = before.ref) (mask : after.routesMask = before.routesMask)
    (nonneg : 0 ≤ getRealSize after.report) (fits : after.charged = true →
      chunkSize = SizeT.ofInt (getRealSize after.report) -
        SizeT.ofInt (if before.fsCounted then before.accounted else 0)) :
    Settles state
      (updateOutputInstances (state.modifyChunk before.ref fun _ => after)
        after chunkSize (getRealSize after.report)) := by
  have replaced : Replaces state (state.modifyChunk before.ref fun _ => after) before after :=
    .modifyChunk found ref
  have again : (state.modifyChunk before.ref fun _ => after).chunk after.ref =
      some after := by
    rw [ref]
    exact replaced.chunk_eq
  exact settles_updateOutputInstances sound (replaced.trans (.updateOutputInstances again _ _))
    rfl mask rfl nonneg fits

theorem settles_afterWrite {report : Report}
    (safe : WriteSafe before input.routable (.written report)) :
    Settles state (afterWrite state input before report) := by
  have quiet (same : SameSize before report) :
      Settles state (state.modifyChunk before.ref fun _ =>
        before.written report) :=
    settles_report sound found rfl rfl rfl rfl same
  have dropped (same : SameSize before report) :
      Settles state (destroy (state.modifyChunk before.ref fun _ =>
        before.written report) (before.written report) true) := by
    have again : (state.modifyChunk before.ref fun _ =>
        before.written report).chunk before.ref = some (before.written report) :=
      chunk_modifyChunk_self found rfl
    exact (quiet same).trans (settles_destroyWith (quiet same).sound (mem_of_chunk again).1 _ _)
  unfold afterWrite
  dsimp only
  split
  · next empty => exact dropped (by simpa [WriteSafe, empty] using safe)
  · next content =>
    split
    · next unroutable =>
      have notRoutable : input.routable = false := by simpa using unroutable
      exact dropped (by simpa [WriteSafe, notRoutable] using safe)
    · next routable =>
      have isRoutable : input.routable = true := by simpa using routable
      obtain ⟨nonneg, fresh, grown⟩ : AccountSafe before report := by
        simpa [WriteSafe, content, isRoutable] using safe
      split
      · have written : Settles state (updateOutputInstances
            (state.modifyChunk before.ref fun _ => before.written report)
            (before.written report)
            (SizeT.ofInt (getRealSize report) -
              SizeT.ofInt before.preRealSize) (getRealSize report)) := by
          refine settles_account sound found rfl rfl nonneg ?_
          intro charged
          by_cases new : before.report.contentSize = 0
          · simp [new, fresh new, Chunk.written, Chunk.preRealSize]
          · have counted := grown new charged
            have current := sound.current before (mem_of_chunk found).1
            simp [new, counted, (current counted).1, Chunk.written, Chunk.preRealSize]
        exact written
      · next unchanged =>
        refine quiet fun counted => ?_
        have old : before.report.contentSize ≠ 0 := by
          intro new
          simp [fresh new] at counted
        simpa [old, Chunk.preRealSize] using unchanged

end

theorem settles_appendTo (found : state.chunk chunk.ref = some chunk)
    (safe : WriteSafe chunk input.routable script.outcome) :
    Settles state (appendTo state input chunk script).1 := by
  unfold appendTo
  split
  · exact .refl sound
  · split
    · next report failed =>
      rw [failed] at safe
      exact settles_report sound found rfl rfl rfl rfl safe
    · next report written =>
      rw [written] at safe
      exact settles_afterWrite sound found safe

theorem settles_flush {outcome : FlushOutcome}
    (found : state.chunk chunk.ref = some chunk) (safe : FlushSafe chunk outcome) :
    Settles state (flush state chunk outcome) := by
  cases outcome with
  | upFailed report => exact settles_report sound found rfl rfl rfl rfl safe
  | contentFailed report | empty report => exact settles_report sound found rfl rfl rfl rfl safe
  | loaded report =>
    unfold flush
    dsimp only
    split
    · next changed =>
      obtain ⟨nonneg, counted⟩ := safe changed
      refine settles_account sound found rfl rfl nonneg ?_
      intro charged
      have isCounted := counted charged
      have current := sound.current chunk (mem_of_chunk found).1
      simp [isCounted, (current isCounted).1, Chunk.loaded]
    · next unchanged =>
      refine settles_report sound found rfl rfl rfl rfl ?_
      intro _
      simpa [Chunk.loaded] using unchanged

end

/-- Chunks and index entries may have gone, but none were added or changed. -/
structure Prunes (state next : State setup) : Prop where
  settles : Settles state next
  chunks : next.chunks ⊆ state.chunks
  indexes : ∀ input eventType tag ref,
    next.Indexes input eventType tag ref → state.Indexes input eventType tag ref

theorem Prunes.refl (sound : state.Sound) : Prunes state state :=
  ⟨.refl sound, fun _ member => member, fun _ _ _ _ named => named⟩

variable {next : State setup} {eventType : EventType} {tag : List Byte}
  {shift : IntShift} {bufSize : SizeT}

theorem Prunes.trans {middle : State setup} (first : Prunes state middle)
    (second : Prunes middle next) : Prunes state next :=
  ⟨first.settles.trans second.settles, fun _ member => first.chunks (second.chunks member),
    fun input eventType tag ref named =>
      first.indexes input eventType tag ref (second.indexes input eventType tag ref named)⟩

theorem offers_of_forgetTag {tagTables : TagTables} {del : Bool}
    {tag : Option (List Byte)} {key : List Byte} {ref : ChunkRef}
    (offers : (forgetTag tagTables chunk del tag input eventType).Offers setup.hash64 key ref) :
    (tagTables input eventType).Offers setup.hash64 key ref := by
  simp only [forgetTag] at offers
  split at offers
  · exact offers
  · split at offers
    · rw [tagTableDelPtr, TagTables.modify_apply] at offers
      split at offers
      · next own =>
        rw [own.2.1, own.2.2]
        exact HashTable.offers_of_delPtr offers
      · exact offers
    · exact offers

theorem prunes_destroyWith (sound : state.Sound) (live : chunk ∈ state.chunks) (del : Bool)
    (tag : Option (List Byte)) : Prunes state (destroyWith state chunk del tag) := by
  refine ⟨settles_destroyWith sound live del tag, List.filter_sublist.subset, ?_⟩
  intro input eventType other ref named
  exact offers_of_forgetTag named

theorem prunes_memrbReleaseLoop {required : SizeT} {refs : List ChunkRef} {released : Int}
    (sound : state.Sound) : Prunes state (memrbReleaseLoop required refs state released).1 := by
  induction refs generalizing state released with
  | nil => exact .refl sound
  | cons ref refs ih =>
    simp only [memrbReleaseLoop]
    split
    · exact ih sound
    · next chunk found =>
      split
      · have destroyed : Prunes state (destroy state chunk true) :=
          prunes_destroyWith sound (mem_of_chunk found).1 _ _
        split
        · exact destroyed
        · exact destroyed.trans (ih destroyed.settles.sound)
      · exact ih sound

/-- What reusing a chunk can end in: the chunk the index names, which the
append takes, or no chunk. -/
theorem reuse_eq_some {load : Load} {result : Option (Chunk setup)} (sound : state.Sound)
    (reused : reuse state tag (state.indexed input eventType tag) load = some (next, result)) :
    Prunes state next ∧ (load ≠ .corrupted → next = state) ∧
      (∀ chunk ∈ result, next = state ∧
        state.chunk chunk.ref = some chunk ∧ state.Takes input eventType tag load chunk) ∧
      (result = none → ∀ chunk ∈ state.chunks, ¬state.Takes input eventType tag load chunk) := by
  unfold reuse at reused
  split at reused
  · next missing =>
    cases reused
    refine ⟨.refl sound, fun _ => rfl, by simp, fun _ chunk _ takes => ?_⟩
    simp [State.Takes, missing] at takes
  · next ref named =>
    split at reused
    · cases reused
    · next chunk found =>
      obtain ⟨live, rfl⟩ := mem_of_chunk found
      have only : ∀ other ∈ state.chunks,
          state.Takes input eventType tag load other → other = chunk := by
        intro other otherLive takes
        have same : chunk.ref = other.ref := some.inj (named.symm.trans takes.1)
        have looked := sound.chunk_of_mem otherLive
        rw [← same, found] at looked
        exact (some.inj looked).symm
      split at reused
      · next unavailable =>
        cases reused
        refine ⟨.refl sound, fun _ => rfl, by simp, fun _ other otherLive takes => ?_⟩
        obtain rfl := only other otherLive takes
        simp [takes.2.1, takes.2.2.1] at unavailable
      · next available =>
        simp only [Bool.or_eq_true, not_or, Bool.not_eq_true] at available
        cases load with
        | up =>
          cases reused
          refine ⟨.refl sound, fun _ => rfl, ?_, by simp⟩
          intro taken same
          cases same
          exact ⟨rfl, found, named, available.1, available.2, rfl⟩
        | corrupted =>
          cases reused
          refine ⟨prunes_destroyWith sound live _ _, fun sane => absurd rfl sane, by simp, ?_⟩
          intro _ other _ takes
          exact absurd takes.2.2.2 (by simp)
        | failed =>
          cases reused
          refine ⟨.refl sound, fun _ => rfl, by simp, ?_⟩
          intro _ other _ takes
          exact absurd takes.2.2.2 (by simp)

theorem indexes_of_indexed {ref : ChunkRef} (named : state.indexed input eventType tag = some ref) :
    state.Indexes input eventType tag ref := by
  unfold State.indexed at named
  split at named
  · obtain ⟨⟨id, entry⟩, found, rfl⟩ := map_eq_some_iff.mp named
    obtain ⟨linked, accepted⟩ := HashTable.hashGetEntry_eq_some found
    exact ⟨entry, linked, accepted, rfl⟩
  · cases named

theorem settles_placeOrDestroy {newChunk : Bool} {chunkSize : SizeT}
    (sound : state.Sound) (found : state.chunk chunk.ref = some chunk)
    (counted : chunk.input.storageType = .fs →
      hasOverlimitRoutes shift state chunk chunkSize ≠ 0#32 → OthersCounted state chunk.ref) :
    Settles state (placeOrDestroy shift state chunk newChunk chunkSize).1 ∧
      ∀ result ∈ (placeOrDestroy shift state chunk newChunk chunkSize).2,
        result = chunk ∧
          (placeOrDestroy shift state chunk newChunk chunkSize).1.chunk chunk.ref = some chunk := by
  have placed : Releases chunk.ref state (placeNewChunk shift state chunk chunkSize).1 :=
    releases_placeNewChunk sound counted
  have kept : (placeNewChunk shift state chunk chunkSize).1.chunk chunk.ref =
      some chunk := placed.kept.trans found
  unfold placeOrDestroy
  split
  · refine ⟨.refl sound, fun result same => ?_⟩
    cases same
    exact ⟨rfl, found⟩
  · dsimp only
    split
    · refine ⟨placed.settles, fun result same => ?_⟩
      cases same
      exact ⟨rfl, kept⟩
    · split
      · exact ⟨placed.settles.trans (settles_destroyWith placed.sound
          (mem_of_chunk kept).1 _ _), by simp⟩
      · exact ⟨placed.settles, by simp⟩

theorem hasOverlimitRoutes_of_withinLimits
    (within : ∀ output ∈ setup.outputs, output.limited = true →
      state.overlimit output bufSize = false) :
    hasOverlimitRoutes shift state chunk bufSize = 0#32 := by
  apply hasOverlimitRoutes_eq_zero
  intro output configured charged
  exact within output configured (Bool.and_eq_true_iff.mp charged).1

theorem Chunk.charged_of_charges {output : Output} (configured : output ∈ setup.outputs)
    (charges : chunk.charges output = true) : chunk.charged = true :=
  List.any_eq_true.mpr ⟨output, configured, charges⟩

section
variable (safe : AppendSafe state input eventType tag bufSize script)
include safe

/-- An append that takes the chunk of the index finds the others counted. -/
theorem AppendSafe.othersCounted_taken
    (live : chunk ∈ state.chunks) (takes : state.Takes input eventType tag script.load chunk)
    (isFs : chunk.input.storageType = .fs)
    (overlimit : hasOverlimitRoutes shift state chunk bufSize ≠ 0#32) :
    OthersCounted state chunk.ref := by
  rcases safe.release with ⟨_, none⟩ | ⟨_, within | counted⟩
  · exact absurd isFs (none chunk live (indexes_of_indexed takes.1))
  · exact absurd (hasOverlimitRoutes_of_withinLimits within.2) overlimit
  · intro output configured other otherLive different charges
    rcases counted other otherLive
      (Chunk.charged_of_charges configured charges) with isCounted | taken
    · exact isCounted
    · exact absurd (some.inj (taken.1.symm.trans takes.1)) different

/-- An append that takes no chunk finds all of them counted. -/
theorem AppendSafe.othersCounted_created {pruned created : State setup}
    (prunes : Prunes state pruned) (sane : script.load ≠ .corrupted → pruned = state)
    (untaken : ∀ other ∈ state.chunks, ¬state.Takes input eventType tag script.load other)
    (chunks : created.chunks = pruned.chunks ++ [chunk])
    (counters : ∀ output, created.overlimit output bufSize = pruned.overlimit output bufSize)
    (isFs : input.storageType = .fs)
    (overlimit : hasOverlimitRoutes shift created chunk bufSize ≠ 0#32) :
    OthersCounted created chunk.ref := by
  rcases safe.release with ⟨noFs, _⟩ | ⟨_, within | counted⟩
  · exact absurd isFs noFs
  · refine absurd (hasOverlimitRoutes_of_withinLimits ?_) overlimit
    intro output configured limited
    rw [counters, sane within.1]
    exact within.2 output configured limited
  · intro output configured other live different charges
    have old : other ∈ pruned.chunks := by
      rw [chunks] at live
      rcases List.mem_append.mp live with old | new
      · exact old
      · exact absurd (congrArg Chunk.ref (List.mem_singleton.mp new)) different
    have before := prunes.chunks old
    rcases counted other before (Chunk.charged_of_charges configured charges) with isCounted | taken
    · exact isCounted
    · exact absurd taken (untaken other before)

end

theorem settles_create (sound : state.Sound) (input : Input)
    (eventType : EventType) (tag : List Byte) (report : Option Report) :
    Settles state (create state input eventType tag report).1 := by
  cases report with
  | none => exact .refl sound
  | some report => exact (settles_addChunk sound rfl rfl).congr rfl rfl rfl

theorem create_eq_some {report : Option Report}
    (made : create state input eventType tag report = (next, some chunk)) :
    (∃ found, report = some found ∧ chunk = state.newChunk input eventType tag found) ∧
      next.chunks = state.chunks ++ [chunk] ∧
      ∀ output bufSize, next.overlimit output bufSize = state.overlimit output bufSize := by
  cases report with
  | none => cases made
  | some found =>
    cases made
    exact ⟨⟨found, rfl, rfl⟩, rfl, fun _ _ => rfl⟩

theorem writeSafe_newChunk {other : State setup} {report : Report}
    {routable : Bool} {outcome : WriteOutcome}
    (safe : WriteSafe (state.newChunk input eventType tag report) routable outcome) :
    WriteSafe (other.newChunk input eventType tag report) routable outcome := by
  cases outcome with
  | failed _ | written _ => exact safe

theorem settles_inputChunkGet {result : Option (Chunk setup)} (sound : state.Sound)
    (safe : AppendSafe state input eventType (tag.take tagMax) bufSize script)
    (got : inputChunkGet shift state input eventType tag bufSize script = some (next, result)) :
    Settles state next ∧ ∀ chunk ∈ result,
      next.chunk chunk.ref = some chunk ∧ WriteSafe chunk input.routable script.outcome := by
  unfold inputChunkGet at got
  dsimp only at got
  split at got
  · cases got
  · next pruned chunk reused =>
    obtain ⟨_, _, taken, _⟩ := reuse_eq_some sound reused
    obtain ⟨rfl, found, takes⟩ := taken chunk rfl
    have live := (mem_of_chunk found).1
    obtain ⟨settles, handed⟩ := settles_placeOrDestroy sound found
      (safe.othersCounted_taken live takes)
    rw [some.inj got] at settles handed
    refine ⟨settles, fun other same => ?_⟩
    obtain ⟨rfl, kept⟩ := handed other same
    exact ⟨kept, safe.write other live (indexes_of_indexed takes.1)⟩
  · next pruned reused =>
    obtain ⟨prunes, sane, _, untaken⟩ := reuse_eq_some sound reused
    split at got
    · next failed =>
      cases got
      have created := settles_create prunes.settles.sound input eventType
        (tag.take tagMax) script.created
      rw [failed] at created
      exact ⟨prunes.settles.trans created, by simp⟩
    · next created chunk made =>
      have added := settles_create prunes.settles.sound input eventType
        (tag.take tagMax) script.created
      rw [made] at added
      obtain ⟨⟨report, reported, isNew⟩, chunks, counters⟩ := create_eq_some made
      have live : chunk ∈ created.chunks := by simp [chunks]
      have input_eq : chunk.input = input := by rw [isNew]; rfl
      obtain ⟨settles, handed⟩ := settles_placeOrDestroy added.sound
        (added.sound.chunk_of_mem live) fun isFs =>
          safe.othersCounted_created prunes sane
            (untaken rfl) chunks (fun output => counters output bufSize)
            (input_eq ▸ isFs)
      rw [some.inj got] at settles handed
      refine ⟨(prunes.settles.trans added).trans settles, fun other same => ?_⟩
      obtain ⟨rfl, kept⟩ := handed other same
      refine ⟨kept, ?_⟩
      rw [isNew]
      exact writeSafe_newChunk (safe.created report reported)

theorem AppendSafe.prune {pruned : State setup}
    (safe : AppendSafe state input eventType tag bufSize script)
    (isMemrb : input.storageType = .memrb) (prunes : Prunes state pruned) :
    AppendSafe pruned input eventType tag bufSize script := by
  have indexes := prunes.indexes input eventType tag
  refine ⟨.inl ?_, fun chunk live named => ?_, fun report reported => ?_⟩
  · rcases safe.release with ⟨noFs, none⟩ | ⟨notMemrb, _⟩
    · exact ⟨noFs, fun chunk live named =>
        none chunk (prunes.chunks live) (indexes chunk.ref named)⟩
    · exact absurd isMemrb notMemrb
  · exact safe.write chunk (prunes.chunks live) (indexes chunk.ref named)
  · exact writeSafe_newChunk (safe.created report reported)

theorem settles_inputChunkAppendRaw {tag : Option (List Byte)}
    {result : State setup × Int} (sound : state.Sound)
    (safe : AppendSafe state input eventType
      ((tag.getD input.defaultTag).take tagMax) bufSize script)
    (appended : inputChunkAppendRaw shift state input eventType tag bufSize script = some result) :
    Settles state result.1 := by
  unfold inputChunkAppendRaw at appended
  dsimp only at appended
  generalize freedEq :
    (if input.storageType = .memrb ∧ script.memOverlimit = true then
      memrbReleaseSpace state input bufSize
    else (state, true)) = freed at appended
  have prepared : Settles state freed.1 ∧
      AppendSafe freed.1 input eventType
        ((tag.getD input.defaultTag).take tagMax) bufSize script := by
    split at freedEq
    · next memrb =>
      have prunes : Prunes state (memrbReleaseSpace state input bufSize).1 :=
        prunes_memrbReleaseLoop sound
      rw [freedEq] at prunes
      exact ⟨prunes.settles, safe.prune memrb.1 prunes⟩
    · rw [← freedEq]
      exact ⟨.refl sound, safe⟩
  obtain ⟨settles, ready⟩ := prepared
  split at appended
  · cases appended
    exact settles
  · split at appended
    · cases appended
      exact settles
    · split at appended
      · cases appended
        exact settles
      · split at appended
        · cases appended
        · next next got =>
          cases appended
          exact settles.trans (settles_inputChunkGet settles.sound ready got).1
        · next next chunk got =>
          cases appended
          obtain ⟨placed, handed⟩ := settles_inputChunkGet settles.sound ready got
          obtain ⟨live, writable⟩ := handed chunk rfl
          exact (settles.trans placed).trans (settles_appendTo placed.sound live writable)

theorem settles_map (sound : state.Sound) (input : Input) (eventType : EventType) (tag : List Byte)
    (report : Option Report) : Settles state (map state input eventType tag report) := by
  unfold map
  split
  · exact .refl sound
  · next report =>
    dsimp only
    split
    · exact .refl sound
    · next known =>
      have added : Settles state (state.addChunk (state.mappedChunk input eventType tag report)) :=
        settles_addChunk sound rfl rfl
      have found := added.sound.chunk_of_mem
        (List.mem_append_right state.chunks (List.mem_singleton_self _))
      refine added.trans (settles_updateOutputInstances added.sound
        (.updateOutputInstances found _ _) rfl rfl rfl (by omega) ?_)
      intro _
      simp [State.mappedChunk, State.newChunk]

theorem settles_step {event : Event} (sound : state.Sound) (safe : Accountable state event)
    (taken : step shift state event = some next) : Settles state next := by
  cases event with
  | create input eventType tag report =>
    cases taken
    exact settles_create sound input eventType tag report
  | append input eventType tag bufSize script =>
    obtain ⟨result, appended, rfl⟩ := map_eq_some_iff.mp taken
    exact settles_inputChunkAppendRaw sound safe appended
  | map file eventType tag report =>
    cases taken
    exact (settles_map sound setup.storageBacklog eventType tag report).congr rfl rfl rfl
  | flush ref outcome =>
    obtain ⟨chunk, found, rfl⟩ := map_eq_some_iff.mp taken
    obtain ⟨_, rfl⟩ := mem_of_chunk found
    exact settles_flush sound found (safe chunk found)
  | release new input output required scope =>
    obtain ⟨target, found, rfl⟩ := map_eq_some_iff.mp taken
    exact (releases_releaseSpace sound (Keyed.lookup_eq_some found).1
      fun isLocal => safe isLocal target found).settles
  | destroy ref del =>
    obtain ⟨chunk, found, rfl⟩ := map_eq_some_iff.mp taken
    exact settles_destroyWith sound (mem_of_chunk found).1 _ _
  | releaseLock ref | setTask ref task =>
    obtain ⟨chunk, found, rfl⟩ := map_eq_some_iff.mp taken
    obtain ⟨_, rfl⟩ := mem_of_chunk found
    exact settles_report sound found rfl rfl rfl rfl fun _ => rfl

/-- The counter of an output is the sum of the accounted sizes of its counted
chunks, which is not negative. -/
structure State.Accounts (state : State setup) (output : Output) : Prop where
  nonneg : 0 ≤ state.total output
  size : state.fsChunksSize output.id = SizeT.ofInt (state.total output)
  value : state.total output < 2 ^ 64 →
    ((state.fsChunksSize output.id).toNat : Int) = state.total output

/-- No chunk, and nothing counted. -/
structure State.Fresh (state : State setup) : Prop where
  chunks : state.chunks = []
  sizes : ∀ id, state.fsChunksSize id = 0#64

structure State.Settled (state : State setup) : Prop where
  sound : state.Sound
  gap : ∀ output ∈ setup.outputs, output.limited = true → state.gap output = 0#64

theorem State.Fresh.settled (fresh : state.Fresh) : state.Settled := by
  refine ⟨⟨?_, ?_, ?_⟩, fun output _ _ => ?_⟩
  · simp [fresh.chunks]
  · simp [fresh.chunks]
  · simp [fresh.chunks]
  · simp [State.gap, State.total, fresh.chunks, fresh.sizes]

theorem State.Settled.step {event : Event} (settled : state.Settled)
    (safe : Accountable state event) (taken : InputChunk.step shift state event = some next) :
    next.Settled := by
  have settles := settles_step settled.sound safe taken
  refine ⟨settles.sound, fun output configured limited => ?_⟩
  rw [settles.gap output configured limited]
  exact settled.gap output configured limited

theorem State.Settled.accounts (settled : state.Settled) {output : Output}
    (configured : output ∈ setup.outputs) (limited : output.limited = true) :
    state.Accounts output := by
  have nonneg := settled.sound.total_nonneg output
  have size : state.fsChunksSize output.id =
      SizeT.ofInt (state.total output) := by
    have gap := settled.gap output configured limited
    rw [State.gap] at gap
    grind
  refine ⟨nonneg, size, fun bounded => ?_⟩
  rw [size, SizeT.ofInt, BitVec.toNat_ofInt]
  omega

/-- In every state reached from a fresh one by steps that keep the books,
every output with a limit counts exactly its chunks. -/
theorem fsChunksSize_accounts {shift : IntShift} {start state : State setup} (fresh : start.Fresh)
    (reached : Run.Reaches (step shift) Accountable start state) :
    ∀ output ∈ setup.outputs, output.limited = true → state.Accounts output := by
  have settled : state.Settled :=
    reached.invariant fresh.settled fun settled safe taken =>
      settled.step safe taken
  intro output configured limited
  exact settled.accounts configured limited

/-- One output that may hold 10000 bytes and takes every tag. -/
def smallOutput : Output :=
  { id := 0, totalLimitSize := 10000#64, matchRule := none, matchRegex := some fun _ => true }

def tailInput : Input :=
  { id := 1, storageType := .fs, routable := true, defaultTag := [] }

def oneSmallOutput : Setup :=
  { hash64 := fun _ => 0
    outputs := [smallOutput]
    inputs := [tailInput]
    storageBacklog := { tailInput with id := 0 }
    storageDelBadChunks := false
    ids_nodup := by decide }

/-- A new chunk file: one page, with the tag and no content. -/
def emptyFile : Report :=
  { realSize := 4096, contentSize := 0, metaSize := 5, tagReadable := true }

/-- Its file after 8000 bytes were written to it. -/
def filledFile : Report :=
  { emptyFile with realSize := 8192, contentSize := 8000 }

def appendBlock (tag : Byte) (bufSize : SizeT) (outcome : WriteOutcome) : Event :=
  .append tailInput .logs (some [tag]) bufSize
    { memOverlimit := false
      paused := false
      load := .up
      created := some emptyFile
      raised := true
      outcome := outcome }

def emptyStorage : State oneSmallOutput := State.initial oneSmallOutput fun _ => 0

/-- A second block takes the place of the first one. -/
theorem fsChunksSize_accounts_second_block :
    ∃ state, Run.Reaches (step maskingShift) Accountable emptyStorage state ∧
      state.chunks.map Chunk.ref = [1] ∧ state.total smallOutput = 8192 ∧
      state.Accounts smallOutput := by
  obtain ⟨state, taken, refs, total⟩ : ∃ state, Run.runGuarded (step maskingShift)
    Accountable emptyStorage [appendBlock 97 8000#64 (.written filledFile), appendBlock 98 8000#64
    (.written filledFile)] = some state ∧ state.chunks.map Chunk.ref = [1]
    ∧ state.total smallOutput = 8192 := ⟨_, rfl, rfl, rfl⟩
  have reached := Run.Reaches.refl.of_runGuarded taken
  exact ⟨state, reached, refs, total,
    fsChunksSize_accounts ⟨rfl, fun _ => rfl⟩ reached smallOutput (.head _) (by decide)⟩

/-- After a failed append leaves its empty chunk behind, making room for the
next block subtracts the size of that chunk from a counter it was never added
to. -/
theorem releaseSpace_wraps_counter :
    ∃ state, Run.run (step maskingShift) emptyStorage
        [appendBlock 97 8000#64 (.failed emptyFile),
          appendBlock 98 12000#64 (.failed emptyFile)] = some state ∧
      state.total smallOutput = 0 ∧
      (state.fsChunksSize smallOutput.id).toNat = 2 ^ 64 - 4096 ∧
      ¬state.Accounts smallOutput := by
  obtain ⟨state, taken, total, counter⟩ : ∃ state, Run.run (step maskingShift) emptyStorage
    [appendBlock 97 8000#64 (.failed emptyFile), appendBlock 98 12000#64 (.failed emptyFile)] =
    some state ∧ state.total smallOutput = 0 ∧ (state.fsChunksSize smallOutput.id).toNat =
    2 ^ 64 - 4096 := ⟨_, rfl, rfl, rfl⟩
  refine ⟨state, taken, total, counter, fun accounts => ?_⟩
  have value := accounts.value (by rw [total]; decide)
  rw [counter, total] at value
  exact absurd value (by decide)

end FluentBit.InputChunk
