import FluentBit.InputChunk.Append

/-!
# The ledger and making room

What an output should count is the sum of the accounted sizes of its chunks.
The gap is the difference between the counter and that sum.  Every function
that makes room around a new chunk changes the task of another chunk, takes a
route from it, destroys it, or lets the backlog forget a file.  Releasing space
settles as long as the chunks it takes the route from are counted:
`flb_input_chunk_release_space` subtracts the size of a chunk from the counter
without asking whether it was ever added.
-/

namespace FluentBit.InputChunk

open List Keyed

variable {setup : Setup}

@[simp] theorem SizeT.ofInt_zero : SizeT.ofInt 0 = 0#64 := rfl

theorem SizeT.ofInt_add (left right : Int) :
    SizeT.ofInt (left + right) = SizeT.ofInt left + SizeT.ofInt right :=
  BitVec.ofInt_add left right

theorem SizeT.ofInt_sub (left right : Int) :
    SizeT.ofInt (left - right) = SizeT.ofInt left - SizeT.ofInt right := by
  have sum : SizeT.ofInt (left - right) + SizeT.ofInt right =
      SizeT.ofInt left := by
    rw [← SizeT.ofInt_add, Int.sub_add_cancel]
  grind

def Chunk.share (chunk : Chunk setup) (output : Output) : Int :=
  if chunk.routed output && chunk.fsCounted then chunk.accounted else 0

/-- The sum of the accounted sizes of the live chunks that have the bit of the
output set and are counted. -/
def State.total (state : State setup) (output : Output) : Int :=
  (state.chunks.map fun chunk => chunk.share output).sum

/-- The counter of an output less what it should count. -/
def State.gap (state : State setup) (output : Output) : SizeT :=
  state.fsChunksSize output.id - SizeT.ofInt (state.total output)

def Chunk.Current (chunk : Chunk setup) : Prop :=
  chunk.fsCounted = true → chunk.accounted = getRealSize chunk.report ∧ 0 ≤ chunk.accounted

/-- Live chunks have distinct, issued references and are current. -/
structure State.Sound (state : State setup) : Prop where
  refs_nodup : (state.chunks.map Chunk.ref).Nodup
  refs_lt : ∀ chunk ∈ state.chunks, chunk.ref < state.next
  current : ∀ chunk ∈ state.chunks, chunk.Current

/-- The counters of the limited outputs moved with what they should count. -/
structure Settles (state next : State setup) : Prop where
  sound : next.Sound
  gap : ∀ output ∈ setup.outputs, output.limited = true → next.gap output = state.gap output

variable {state middle next : State setup} {chunk before after : Chunk setup}
  {ref : ChunkRef}

theorem Settles.refl (sound : state.Sound) : Settles state state := ⟨sound, fun _ _ _ => rfl⟩

theorem Settles.trans (first : Settles state middle) (second : Settles middle next) :
    Settles state next :=
  ⟨second.sound, fun output configured limited =>
    (second.gap output configured limited).trans (first.gap output configured limited)⟩

theorem Chunk.Current.share_nonneg (current : chunk.Current) (output : Output) :
    0 ≤ chunk.share output := by
  unfold Chunk.share
  split
  · next counted => exact (current (Bool.and_eq_true_iff.mp counted).2).2
  · exact Int.le_refl 0

theorem State.Sound.total_nonneg (sound : state.Sound) (output : Output) :
    0 ≤ state.total output := by
  apply sum_nonneg
  intro share member
  obtain ⟨chunk, live, rfl⟩ := mem_map.mp member
  exact (sound.current chunk live).share_nonneg output

theorem mem_of_chunk (found : state.chunk ref = some chunk) :
    chunk ∈ state.chunks ∧ chunk.ref = ref :=
  lookup_eq_some found

theorem State.Sound.chunk_of_mem (sound : state.Sound) (live : chunk ∈ state.chunks) :
    state.chunk chunk.ref = some chunk :=
  lookup_of_mem sound.refs_nodup live

theorem chunk_modifyChunk_self {changed : Chunk setup}
    (found : state.chunk ref = some chunk) (same : changed.ref = ref) :
    (state.modifyChunk ref fun _ => changed).chunk ref = some changed := by
  have looked : (state.modifyChunk ref fun _ => changed).chunk ref = (state.chunk ref).map
    fun _ => changed := lookup_modify_self fun _ _ => same
  rw [looked, found]
  rfl

structure Replaces (state next : State setup) (before after : Chunk setup) : Prop where
  found : state.chunk before.ref = some before
  ref : after.ref = before.ref
  chunks : next.chunks = modify Chunk.ref state.chunks before.ref fun _ => after
  next : next.next = state.next

theorem Replaces.modifyChunk (found : state.chunk before.ref = some before)
    (ref : after.ref = before.ref) :
    Replaces state (state.modifyChunk before.ref fun _ => after) before
      after :=
  ⟨found, ref, rfl, rfl⟩

theorem Replaces.trans {between : Chunk setup} (first : Replaces state middle before between)
    (second : Replaces middle next between after) : Replaces state next before after :=
  { found := first.found
    ref := second.ref.trans first.ref
    chunks := by
      rw [second.chunks, first.chunks, first.ref]
      exact modify_modify first.ref
    next := second.next.trans first.next }

section
variable (replaces : Replaces state next before after)
include replaces

theorem Replaces.chunk_eq : next.chunk before.ref = some after := by
  have looked : next.chunk before.ref =
      (state.modifyChunk before.ref fun _ => after).chunk before.ref := by
    rw [State.chunk, replaces.chunks]
    rfl
  rw [looked]
  exact chunk_modifyChunk_self replaces.found replaces.ref

theorem Replaces.total (sound : state.Sound) (output : Output) :
    next.total output = state.total output + (after.share output - before.share output) := by
  rw [State.total, replaces.chunks]
  exact sum_modify sound.refs_nodup (mem_of_chunk replaces.found).1

theorem Replaces.sound (sound : state.Sound) (current : after.Current) : next.Sound := by
  have lt : after.ref < next.next := by
    rw [replaces.ref, replaces.next]
    exact sound.refs_lt before (mem_of_chunk replaces.found).1
  have cases : ∀ chunk ∈ next.chunks, chunk ∈ state.chunks ∨ chunk = after := by
    intro chunk live
    rw [replaces.chunks] at live
    rcases mem_modify live with ⟨old, _⟩ | ⟨_, _, _, rfl⟩
    · exact .inl old
    · exact .inr rfl
  refine ⟨?_, fun chunk live => ?_, fun chunk live => ?_⟩
  · rw [replaces.chunks, map_key_modify fun _ _ => replaces.ref]
    exact sound.refs_nodup
  · rcases cases chunk live with old | rfl
    · rw [replaces.next]
      exact sound.refs_lt chunk old
    · exact lt
  · rcases cases chunk live with old | rfl
    · exact sound.current chunk old
    · exact current

theorem Replaces.settles (sound : state.Sound) (current : after.Current)
    (counters : ∀ output ∈ setup.outputs, output.limited = true →
      next.fsChunksSize output.id =
        state.fsChunksSize output.id + SizeT.ofInt (after.share output - before.share output)) :
    Settles state next := by
  refine ⟨replaces.sound sound current, fun output configured limited => ?_⟩
  rw [State.gap, State.gap, counters output configured limited,
    replaces.total sound, SizeT.ofInt_add]
  grind

end

theorem settles_modifyChunk (sound : state.Sound) (found : state.chunk before.ref = some before)
    (ref : after.ref = before.ref) (current : after.Current)
    (shares : ∀ output, after.share output = before.share output) :
    Settles state (state.modifyChunk before.ref fun _ => after) := by
  apply (Replaces.modifyChunk found ref).settles sound current
  intro output _ _
  simp [shares, State.modifyChunk]

theorem total_destroyWith (sound : state.Sound) (live : chunk ∈ state.chunks)
    (del : Bool) (tag : Option (List Byte)) (output : Output) :
    (destroyWith state chunk del tag).total output = state.total output - chunk.share output :=
  sum_erase sound.refs_nodup live

variable {output : Output}

theorem discountOutputInstances_apply (current : chunk.Current) (sizes : OutId → SizeT)
    (configured : output ∈ setup.outputs) (limited : output.limited = true) :
    discountOutputInstances chunk sizes output.id =
      sizes output.id - SizeT.ofInt (chunk.share output) := by
  rw [discountOutputInstances, updateEach_apply sizes setup.ids_nodup configured]
  by_cases counted : chunk.fsCounted = true
  · obtain ⟨same, nonneg⟩ := current counted
    have known : getRealSize chunk.report ≠ -1 := by omega
    by_cases routed : chunk.routed output = true
    · simp [Chunk.share, limited, routed, counted, known, same]
    · simp [Chunk.share, routed]
  · simp [Chunk.share, counted]

theorem settles_destroyWith (sound : state.Sound) (live : chunk ∈ state.chunks) (del : Bool)
    (tag : Option (List Byte)) : Settles state (destroyWith state chunk del tag) := by
  refine ⟨⟨nodup_erase sound.refs_nodup, ?_, ?_⟩, ?_⟩
  · intro other left
    exact sound.refs_lt other (mem_erase.mp left).1
  · intro other left
    exact sound.current other (mem_erase.mp left).1
  · intro output configured limited
    rw [State.gap, State.gap, total_destroyWith sound live, SizeT.ofInt_sub]
    simp only [destroyWith]
    rw [discountOutputInstances_apply (sound.current chunk live) _ configured limited]
    grind

theorem Settles.congr {other : State setup} (settles : Settles state next)
    (chunks : other.chunks = next.chunks) (issued : other.next = next.next)
    (sizes : other.fsChunksSize = next.fsChunksSize) : Settles state other := by
  obtain ⟨nodup, lt, current⟩ := settles.sound
  refine ⟨⟨?_, ?_, ?_⟩, fun output configured limited => ?_⟩
  · rwa [chunks]
  · rwa [chunks, issued]
  · rwa [chunks]
  · rw [← settles.gap output configured limited, State.gap, State.gap,
      State.total, State.total, chunks, sizes]

theorem settles_addChunk (sound : state.Sound) (ref : chunk.ref = state.next)
    (uncounted : chunk.fsCounted = false) : Settles state (state.addChunk chunk) := by
  have members : ∀ other ∈ (state.addChunk chunk).chunks,
      other ∈ state.chunks ∨ other = chunk := by
    simp [State.addChunk]
  refine ⟨⟨?_, fun other live => ?_, fun other live => ?_⟩, fun output _ _ => ?_⟩
  · simp only [State.addChunk, map_append, map_cons, map_nil]
    refine nodup_append.mpr ⟨sound.refs_nodup, by simp, ?_⟩
    intro old member new single
    obtain ⟨other, live, rfl⟩ := mem_map.mp member
    have before := sound.refs_lt other live
    rw [mem_singleton.mp single, ref]
    exact Nat.ne_of_lt before
  · rcases members other live with old | rfl
    · exact (sound.refs_lt other old).trans (Nat.lt_succ_self _)
    · rw [ref]
      exact Nat.lt_succ_self _
  · rcases members other live with old | rfl
    · exact sound.current other old
    · intro counted
      simp [uncounted] at counted
  · simp [State.gap, State.total, State.addChunk, Chunk.share, uncounted]

theorem Replaces.updateOutputInstances (found : state.chunk chunk.ref = some chunk)
    (chunkSize : SizeT) (accounted : Int) :
    Replaces state (updateOutputInstances state chunk chunkSize accounted)
      chunk (chunk.account accounted) :=
  ⟨found, rfl, rfl, rfl⟩

/-- Accounting settles when what is added is the new size of the chunk less
what was counted for it before. -/
theorem settles_updateOutputInstances {chunkSize : SizeT} {accounted : Int}
    (sound : state.Sound) (replaces : Replaces state
      (updateOutputInstances middle chunk chunkSize accounted) before
      (chunk.account accounted))
    (sizes : middle.fsChunksSize = state.fsChunksSize)
    (mask : chunk.routesMask = before.routesMask)
    (real : accounted = getRealSize chunk.report) (nonneg : 0 ≤ accounted)
    (fits : setup.outputs.any chunk.charges = true →
      chunkSize = SizeT.ofInt accounted -
        SizeT.ofInt (if before.fsCounted then before.accounted else 0)) :
    Settles state (updateOutputInstances middle chunk chunkSize accounted) := by
  apply replaces.settles sound fun _ => ⟨real, nonneg⟩
  intro output configured limited
  have moved : (updateOutputInstances middle chunk chunkSize
      accounted).fsChunksSize output.id =
        if chunk.charges output then
          state.fsChunksSize output.id + chunkSize
        else state.fsChunksSize output.id := by
    rw [← sizes, InputChunk.updateOutputInstances]
    dsimp only
    rw [updateEach_apply _ setup.ids_nodup configured]
  have same : before.routed output = chunk.routed output := by rw [Chunk.routed, Chunk.routed, mask]
  have kept : (chunk.account accounted).routed output = chunk.routed output := rfl
  have sized : (chunk.account accounted).accounted = accounted := rfl
  rw [moved, Chunk.charges, limited, Bool.true_and]
  by_cases routed : chunk.routed output = true
  · have charged : setup.outputs.any chunk.charges = true :=
      any_eq_true.mpr ⟨output, configured, by simp [Chunk.charges, limited, routed]⟩
    have counted : (chunk.account accounted).fsCounted = true := by simp [Chunk.account, charged]
    simp only [Chunk.share, kept, same, routed, counted, sized,
      Bool.true_and, if_true, fits charged, SizeT.ofInt_sub]
  · simp [Chunk.share, kept, same, routed]

variable {setup : Setup}

/-- The states the release code can lead to around a new chunk, when it may
take routes to the given outputs. -/
inductive Releasing (new : ChunkRef) (takes : Output → Prop)
    (start : State setup) : State setup → Prop where
  | refl : Releasing new takes start start
  | setTask {state : State setup} {old : Chunk setup} (before : Releasing new takes start state)
      (found : state.chunk old.ref = some old) (other : old.ref ≠ new)
      (task : Option (Engine.Task OutId)) :
      Releasing new takes start (state.modifyChunk old.ref fun _ => old.withTask task)
  | takeRoute {state : State setup} {chunk : Chunk setup} {output : Output}
      (before : Releasing new takes start state)
      (found : state.chunk chunk.ref = some chunk) (other : chunk.ref ≠ new)
      (routed : chunk.routed output = true) (allowed : takes output) :
      Releasing new takes start (takeRoute state chunk output)
  | destroy {state : State setup} {chunk : Chunk setup} (before : Releasing new takes start state)
      (found : state.chunk chunk.ref = some chunk)
      (other : chunk.ref ≠ new) :
      Releasing new takes start (destroy state chunk true)
  | removeFile {state : State setup} (before : Releasing new takes start state) (file : FileRef) :
      Releasing new takes start (sbRemoveChunkFromSegregatedBacklogs state file)

variable {scope : ReleaseScope}

variable {new : ChunkRef} {takes : Output → Prop} {start state : State setup}
  {chunk : Chunk setup}

theorem releasing_dropChunk (before : Releasing new takes start state)
    (found : state.chunk chunk.ref = some chunk) (other : chunk.ref ≠ new) :
    Releasing new takes start (dropChunk state chunk).1 := by
  unfold dropChunk
  split
  · exact before.destroy found other
  · exact before

theorem releasing_releaseLocal (before : Releasing new takes start state)
    (found : state.chunk chunk.ref = some chunk) (other : chunk.ref ≠ new)
    (routed : chunk.routed output = true) (allowed : takes output) :
    Releasing new takes start (releaseLocal state chunk output).1 := by
  have taken := before.takeRoute found other routed allowed
  have still : (takeRoute state chunk output).chunk (chunk.cleared output).ref = some
    (chunk.cleared output) := chunk_modifyChunk_self found rfl
  simp only [releaseLocal]
  split
  · exact releasing_dropChunk taken still other
  · exact taken

theorem releaseChunk_eq_some {old : Chunk setup} {result : State setup × Int}
    (released : releaseChunk state new output scope old = some result) :
    old.routed output = true ∧ old.ref ≠ new ∧
      ∃ task, result =
        releaseFor (state.modifyChunk old.ref fun _ => old.withTask task)
          (old.withTask task) output scope := by
  unfold releaseChunk at released
  split at released
  · cases released
  · next routed =>
    split at released
    · cases released
    · next other =>
      refine ⟨by simpa using routed, other, ?_⟩
      split at released
      · cases released
      · next task _ => exact ⟨task, (Option.some.inj released).symm⟩

theorem releasing_releaseChunk (before : Releasing new takes start state) {old : Chunk setup}
    {result : State setup × Int} (found : state.chunk old.ref = some old)
    (allowed : scope = .scopeLocal → takes output)
    (released : releaseChunk state new output scope old = some result) :
    Releasing new takes start result.1 := by
  obtain ⟨routed, other, task, rfl⟩ := releaseChunk_eq_some released
  have tasked := before.setTask found other task
  have still : (state.modifyChunk old.ref fun _ =>
      old.withTask task).chunk (old.withTask task).ref = some (old.withTask task) :=
    chunk_modifyChunk_self found rfl
  cases scope with
  | scopeLocal => exact releasing_releaseLocal tasked still other routed (allowed rfl)
  | scopeGlobal => exact releasing_dropChunk tasked still other

variable {required : Int}

theorem releasing_releaseLoop (refs : List ChunkRef) (released : Int)
    (before : Releasing new takes start state) (allowed : scope = .scopeLocal → takes output) :
    Releasing new takes start (releaseLoop new output scope required refs state released).1 := by
  induction refs generalizing state released with
  | nil => exact before
  | cons ref refs ih =>
    simp only [releaseLoop]
    split
    · exact ih released before
    · next old found =>
      obtain ⟨_, rfl⟩ := mem_of_chunk found
      split
      · exact ih released before
      · next next size done =>
        have one := releasing_releaseChunk before found allowed done
        split
        · exact one
        · exact ih (released + size) one

theorem releasing_releaseSpace (before : Releasing new takes start state) (input : Input)
    (required : Int) (scope : ReleaseScope) (allowed : scope = .scopeLocal → takes output) :
    Releasing new takes start (releaseSpace state new input output required scope).1 :=
  releasing_releaseLoop _ 0 before allowed

theorem releasing_sbReleaseLoop (entries : List SbOutChunk)
    (released : Nat) (before : Releasing new takes start state) :
    Releasing new takes start (sbReleaseLoop required entries state released).1 := by
  induction entries generalizing state released with
  | nil => exact before
  | cons entry entries ih =>
    have removed := before.removeFile entry.chunk
    simp only [sbReleaseLoop]
    split
    · exact removed
    · exact ih _ removed

theorem releasing_releaseOthers (inputs : List Input) (remainder : Int)
    (before : Releasing chunk.ref takes start state) (allowed : takes output) :
    Releasing chunk.ref takes start (releaseOthers chunk output inputs state remainder).1 := by
  induction inputs generalizing state remainder with
  | nil => exact before
  | cons input inputs ih =>
    have one : Releasing chunk.ref takes start
        (releaseOther chunk output input state remainder).1 := by
      unfold releaseOther
      split
      · exact releasing_releaseSpace before input remainder _ fun _ => allowed
      · exact before
    simp only [releaseOthers]
    split
    · exact one
    · exact ih _ one

theorem releasing_stage {run : State setup → Int → State setup × Int}
    {current : State setup × Int}
    (before : Releasing new takes start current.1)
    (runs : ∀ (state : State setup) (remainder : Int),
      Releasing new takes start state → Releasing new takes start (run state remainder).1) :
    Releasing new takes start (stage run current).1 := by
  unfold stage
  split
  · exact runs current.1 current.2 before
  · exact before

theorem releasing_releaseSpaceCompound (before : Releasing chunk.ref takes start state)
    (releaseLocalSpace : Bool) (allowed : takes output) :
    Releasing chunk.ref takes start
      (releaseSpaceCompound state chunk output releaseLocalSpace).1 := by
  apply releasing_stage
  · have files : Releasing chunk.ref takes start
        (stage (fun state remainder =>
          sbReleaseOutputQueueSpace state output remainder)
          (stage (fun state remainder =>
            releaseSpace state chunk.ref setup.storageBacklog output remainder
              .scopeGlobal) (state, getRealSize chunk.report))).1 := by
      apply releasing_stage
      · apply releasing_stage before
        intro current remainder reached
        apply releasing_releaseSpace reached
        intro impossible
        cases impossible
      · intro current remainder reached
        exact releasing_sbReleaseLoop _ 0 reached
    split
    · apply releasing_stage files
      intro current remainder reached
      apply releasing_releaseSpace reached
      exact fun _ => allowed
    · exact files
  · intro current remainder reached
    exact releasing_releaseOthers _ _ reached allowed

theorem releasing_findSpaceNewData (shift : IntShift) (chunk : Chunk setup)
    (overlimit : BitVec 32) :
    Releasing chunk.ref (· ∈ setup.outputs) state
      (findSpaceNewData shift state chunk overlimit).state := by
  have rounds : ∀ (outputs : List Output) (search : Search setup),
      (∀ output ∈ outputs, output ∈ setup.outputs) →
      Releasing chunk.ref (· ∈ setup.outputs) state search.state →
        Releasing chunk.ref (· ∈ setup.outputs) state
          (outputs.foldl (findSpaceRound shift chunk overlimit) search).state := by
    intro outputs
    induction outputs with
    | nil => exact fun _ _ before => before
    | cons output outputs ih =>
      intro search configured before
      apply ih
      · exact fun other member => configured other (.tail _ member)
      · unfold findSpaceRound
        split
        · exact before
        · exact releasing_releaseSpaceCompound before true (configured output (.head _))
  exact rounds setup.outputs _ (fun _ member => member) .refl

theorem releasing_placeNewChunk (shift : IntShift) (chunk : Chunk setup) (chunkSize : SizeT) :
    Releasing chunk.ref (· ∈ setup.outputs) state
        (placeNewChunk shift state chunk chunkSize).1 := by
  unfold placeNewChunk
  split
  · dsimp only
    split
    · split <;> apply releasing_findSpaceNewData
    · exact .refl
  · exact .refl

variable {setup : Setup}

def CountedFor (state : State setup) (new : ChunkRef) (output : Output) : Prop :=
  ∀ chunk ∈ state.chunks, chunk.ref ≠ new → chunk.charges output = true → chunk.fsCounted = true

structure Releases (new : ChunkRef) (state next : State setup) : Prop where
  settles : Settles state next
  kept : next.chunk new = state.chunk new
  counted : ∀ output, CountedFor state new output → CountedFor next new output

variable {new : ChunkRef} {state next : State setup} {chunk : Chunk setup}

theorem Releases.refl (sound : state.Sound) : Releases new state state :=
  ⟨.refl sound, rfl, fun _ counted => counted⟩

theorem Releases.trans {middle : State setup} (first : Releases new state middle)
    (second : Releases new middle next) : Releases new state next :=
  ⟨first.settles.trans second.settles, second.kept.trans first.kept,
    fun output counted => second.counted output (first.counted output counted)⟩

theorem Releases.sound (releases : Releases new state next) : next.Sound := releases.settles.sound

theorem Releases.congr {other : State setup} (releases : Releases new state next)
    (chunks : other.chunks = next.chunks) (issued : other.next = next.next)
    (sizes : other.fsChunksSize = next.fsChunksSize) : Releases new state other := by
  refine ⟨releases.settles.congr chunks issued sizes, ?_, ?_⟩
  · rw [← releases.kept, State.chunk, State.chunk, chunks]
  · intro output counted
    rw [CountedFor, chunks]
    exact releases.counted output counted

theorem releases_destroyWith (sound : state.Sound) (live : chunk ∈ state.chunks)
    (other : chunk.ref ≠ new) (del : Bool) (tag : Option (List Byte)) :
    Releases new state (destroyWith state chunk del tag) := by
  refine ⟨settles_destroyWith sound live del tag, Keyed.lookup_erase_other other.symm, ?_⟩
  intro output counted left stays
  exact counted left (Keyed.mem_erase.mp stays).1

theorem Replaces.releases {before after : Chunk setup} (replaces : Replaces state next before after)
    (settles : Settles state next) (other : before.ref ≠ new)
    (fewer : ∀ output, after.charges output = true → before.charges output = true)
    (counts : after.fsCounted = before.fsCounted) :
    Releases new state next := by
  refine ⟨settles, ?_, ?_⟩
  · rw [State.chunk, replaces.chunks]
    exact Keyed.lookup_modify_other (fun _ _ => replaces.ref) other.symm
  · intro output counted chunk live different charged
    rw [replaces.chunks] at live
    rcases Keyed.mem_modify live with ⟨old, _⟩ | ⟨_, _, _, rfl⟩
    · exact counted chunk old different charged
    · rw [counts]
      exact counted before (mem_of_chunk replaces.found).1 other (fewer output charged)

theorem Chunk.routed_cleared (chunk : Chunk setup) (output other : Output) :
    (chunk.cleared output).routed other = (!decide (other.id = output.id) && chunk.routed other) :=
  RoutesMask.getBit_clearBit ..

theorem Replaces.takeRoute (found : state.chunk chunk.ref = some chunk) (output : Output) :
    Replaces state (takeRoute state chunk output) chunk (chunk.cleared output) :=
  ⟨found, rfl, rfl, rfl⟩

/-- Taking a route settles for a counted chunk: its size leaves the counter of
the output together with its share. -/
theorem settles_takeRoute (sound : state.Sound) (found : state.chunk chunk.ref = some chunk)
    (configured : output ∈ setup.outputs) (routed : chunk.routed output = true)
    (counted : output.limited = true → chunk.fsCounted = true) :
    Settles state (takeRoute state chunk output) := by
  have current := sound.current chunk (mem_of_chunk found).1
  apply (Replaces.takeRoute found output).settles sound current
  intro other otherConfigured limited
  simp only [takeRoute, Chunk.share, Chunk.routed_cleared]
  by_cases same : other.id = output.id
  · have equal := List.inj_on_of_nodup_map setup.ids_nodup otherConfigured configured same
    subst other
    have isCounted := counted limited
    simp only [Function.update_self, decide_true, Bool.not_true, Bool.false_and, Bool.false_eq_true,
      if_false, routed, isCounted, Bool.true_and, if_true, (current isCounted).1, SizeT.ofInt_sub,
      SizeT.ofInt_zero]
    grind
  · simp [same, Chunk.cleared]

theorem releases_takeRoute (sound : state.Sound) (found : state.chunk chunk.ref = some chunk)
    (configured : output ∈ setup.outputs) (other : chunk.ref ≠ new)
    (routed : chunk.routed output = true) (counted : CountedFor state new output) :
    Releases new state (takeRoute state chunk output) := by
  apply (Replaces.takeRoute found output).releases _ other
  · intro _ charged
    simp only [Chunk.charges, Chunk.routed_cleared, Bool.and_eq_true] at charged ⊢
    exact ⟨charged.1, charged.2.2⟩
  · rfl
  · apply settles_takeRoute sound found configured routed
    intro limited
    exact counted chunk (mem_of_chunk found).1 other (Bool.and_eq_true_iff.mpr ⟨limited, routed⟩)

theorem releases_setTask {old : Chunk setup} (sound : state.Sound)
    (found : state.chunk old.ref = some old) (other : old.ref ≠ new)
    (task : Option (Engine.Task OutId)) :
    Releases new state (state.modifyChunk old.ref fun _ => old.withTask task) := by
  have current : (old.withTask task).Current := sound.current old (mem_of_chunk found).1
  have replaces : Replaces state (state.modifyChunk old.ref fun _ => old.withTask task) old
      (old.withTask task) := .modifyChunk found rfl
  exact replaces.releases (settles_modifyChunk sound found rfl current fun _ => rfl) other
    (fun _ charged => charged) rfl

theorem Releasing.releases {takes : Output → Prop} {start : State setup}
    (releasing : Releasing new takes start state) (sound : start.Sound)
    (counted : ∀ output, takes output → output ∈ setup.outputs ∧ CountedFor start new output) :
    Releases new start state := by
  induction releasing with
  | refl => exact .refl sound
  | setTask _ found other task ih => exact ih.trans (releases_setTask ih.sound found other task)
  | takeRoute _ found other routed allowed ih =>
    obtain ⟨configured, before⟩ := counted _ allowed
    exact ih.trans (releases_takeRoute ih.sound found configured other routed (ih.counted _ before))
  | destroy _ found other ih =>
    exact ih.trans (releases_destroyWith ih.sound (mem_of_chunk found).1 other _ _)
  | removeFile _ file ih => exact ih.congr rfl rfl rfl

theorem releases_releaseChunk {old : Chunk setup} {result : State setup × Int} (sound : state.Sound)
    (found : state.chunk old.ref = some old) (configured : output ∈ setup.outputs)
    (counted : scope = .scopeLocal → CountedFor state new output)
    (released : releaseChunk state new output scope old = some result) :
    Releases new state result.1 := by
  have releasing : Releasing new (fun target => target = output ∧ scope = .scopeLocal)
    state result.1 := releasing_releaseChunk .refl found (fun isLocal => ⟨rfl, isLocal⟩) released
  apply releasing.releases sound
  rintro _ ⟨rfl, isLocal⟩
  exact ⟨configured, counted isLocal⟩

theorem releases_releaseSpace {input : Input}
    (sound : state.Sound) (configured : output ∈ setup.outputs)
    (counted : scope = .scopeLocal → CountedFor state new output) :
    Releases new state (releaseSpace state new input output required scope).1 := by
  have releasing : Releasing new (fun target => target = output ∧ scope = .scopeLocal) state
      (releaseSpace state new input output required scope).1 :=
    releasing_releaseSpace .refl input required scope fun isLocal => ⟨rfl, isLocal⟩
  apply releasing.releases sound
  rintro _ ⟨rfl, isLocal⟩
  exact ⟨configured, counted isLocal⟩

def OthersCounted (state : State setup) (new : ChunkRef) : Prop :=
  ∀ output ∈ setup.outputs, CountedFor state new output

theorem releases_placeNewChunk {shift : IntShift} {new : Chunk setup}
    {chunkSize : SizeT} (sound : state.Sound)
    (counted : new.input.storageType = .fs →
      hasOverlimitRoutes shift state new chunkSize ≠ 0#32 → OthersCounted state new.ref) :
    Releases new.ref state (placeNewChunk shift state new chunkSize).1 := by
  unfold placeNewChunk
  split
  · next isFs =>
    dsimp only
    split
    · next overlimit =>
      have found : Releases new.ref state
          (findSpaceNewData shift state new
            (hasOverlimitRoutes shift state new chunkSize)).state := by
        apply (releasing_findSpaceNewData shift new _).releases sound
        intro output configured
        exact ⟨configured, counted isFs overlimit output configured⟩
      split <;> exact found
    · exact .refl sound
  · exact .refl sound

end FluentBit.InputChunk
