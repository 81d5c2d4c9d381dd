import FluentBit.InputChunk.Accounting

/-!
# Limit enforcement

How much the release of space takes from the counters of an output, through
all its stages, and when that is enough for the data it was made for.  What is
asked for is the size of the chunk that will take the data, not the number of
bytes the output is over its limit.
-/

namespace FluentBit.InputChunk

open List

variable {setup : Setup}

def State.waiting (state : State setup) (id : OutId) : Int :=
  ((state.backlogs id).map fun entry => (entry.size.toNat : Int)).sum

/-- The queues of the storage backlog hold a file once, with the size it has,
and are counted. -/
structure State.BacklogSound (state : State setup) : Prop where
  files_nodup : ∀ id, ((state.backlogs id).map SbOutChunk.chunk).Nodup
  sizes : ∀ id, ∀ entry ∈ state.backlogs id, state.fileRealSize entry.chunk = entry.size.toNat
  counters : ∀ id, state.fsBacklogChunksSize id = SizeT.ofInt (state.waiting id)

/-- What an output holds and waits for. -/
def State.used (state : State setup) (output : Output) : Int :=
  state.total output + state.waiting output.id

theorem State.waiting_nonneg (state : State setup) (id : OutId) : 0 ≤ state.waiting id := by
  apply sum_nonneg
  intro size member
  obtain ⟨entry, _, rfl⟩ := mem_map.mp member
  exact Int.natCast_nonneg _

structure SameBacklog (state next : State setup) : Prop where
  backlogs : next.backlogs = state.backlogs
  counters : next.fsBacklogChunksSize = state.fsBacklogChunksSize
  files : next.fileRealSize = state.fileRealSize

/-- The sum of an output went down by what was freed, and no sum went up. -/
structure Drops (output : Output) (state next : State setup) (freed : Int) : Prop where
  total : next.total output = state.total output - freed
  shrinks : ∀ other, next.total other ≤ state.total other
  backlog : SameBacklog state next

theorem Drops.refl (output : Output) (state : State setup) : Drops output state state 0 :=
  ⟨by omega, fun _ => Int.le_refl _, ⟨rfl, rfl, rfl⟩⟩

variable {output : Output} {state next : State setup} {chunk : Chunk setup}
  {new : ChunkRef} {shift : IntShift}

theorem Drops.trans {middle : State setup} {first second : Int}
    (before : Drops output state middle first) (after : Drops output middle next second) :
    Drops output state next (first + second) := by
  refine ⟨?_, fun other => (after.shrinks other).trans (before.shrinks other),
    ⟨after.backlog.backlogs.trans before.backlog.backlogs,
      after.backlog.counters.trans before.backlog.counters,
      after.backlog.files.trans before.backlog.files⟩⟩
  rw [after.total, before.total]
  omega

theorem drops_dropChunk (sound : state.Sound)
    (found : state.chunk chunk.ref = some chunk) (output : Output) :
    Drops output state (dropChunk state chunk).1
      (if (dropChunk state chunk).2 then chunk.share output else 0) := by
  have live := (mem_of_chunk found).1
  unfold dropChunk
  split
  · refine ⟨?_, fun other => ?_, ⟨rfl, rfl, rfl⟩⟩
    · exact total_destroyWith sound live _ _ output
    · have share := (sound.current chunk live).share_nonneg other
      have total : (destroy state chunk true).total other = state.total other - chunk.share other :=
        total_destroyWith sound live _ _ other
      rw [total]
      omega
  · exact .refl output state

theorem Chunk.share_cleared_self (chunk : Chunk setup) (output : Output) :
    (chunk.cleared output).share output = 0 := by
  simp [Chunk.share, Chunk.routed_cleared]

theorem Chunk.share_cleared_le (current : chunk.Current) (output other : Output) :
    (chunk.cleared output).share other ≤ chunk.share other := by
  by_cases same : other.id = output.id
  · have zero : (chunk.cleared output).share other = 0 := by
      simp [Chunk.share, Chunk.routed_cleared, same]
    rw [zero]
    exact current.share_nonneg other
  · have equal : (chunk.cleared output).share other = chunk.share other := by
      rw [Chunk.share, Chunk.share, Chunk.routed_cleared]
      simp [same, Chunk.cleared]
    rw [equal]

theorem Chunk.share_eq_size (current : chunk.Current) (routed : chunk.routed output = true)
    (counted : chunk.fsCounted = true) : chunk.share output = getRealSize chunk.report := by
  simp [Chunk.share, routed, counted, (current counted).1]

section
variable (sound : state.Sound)
include sound

section
variable (found : state.chunk chunk.ref = some chunk)
include found

theorem drops_takeRoute (routed : chunk.routed output = true) (counted : chunk.fsCounted = true) :
    Drops output state (takeRoute state chunk output) (getRealSize chunk.report) := by
  have replaces := Replaces.takeRoute found output
  have current := sound.current chunk (mem_of_chunk found).1
  refine ⟨?_, fun other => ?_, ⟨rfl, rfl, rfl⟩⟩
  · rw [replaces.total sound, Chunk.share_cleared_self, Chunk.share_eq_size current routed counted]
    omega
  · rw [replaces.total sound]
    have less := Chunk.share_cleared_le current output other
    omega

theorem drops_releaseLocal (configured : output ∈ setup.outputs)
    (routed : chunk.routed output = true) (counted : chunk.fsCounted = true) :
    Drops output state (releaseLocal state chunk output).1 (releaseLocal state chunk output).2 := by
  have taken := drops_takeRoute sound found routed counted
  have settled := settles_takeRoute sound found configured routed fun _ => counted
  unfold releaseLocal
  dsimp only
  split
  · have again : (takeRoute state chunk output).chunk (chunk.cleared output).ref = some
      (chunk.cleared output) := (Replaces.takeRoute found output).chunk_eq
    have dropped := drops_dropChunk settled.sound again output
    rw [Chunk.share_cleared_self, ite_self] at dropped
    simpa using taken.trans dropped
  · exact taken

theorem drops_releaseGlobal
    (routed : chunk.routed output = true) (counted : chunk.fsCounted = true) :
    Drops output state (releaseGlobal state chunk).1 (releaseGlobal state chunk).2 := by
  have current := sound.current chunk (mem_of_chunk found).1
  have dropped := drops_dropChunk sound found output
  rw [Chunk.share_eq_size current routed counted] at dropped
  exact dropped

end

theorem drops_releaseChunk {scope : ReleaseScope} {old : Chunk setup} {result : State setup × Int}
    (found : state.chunk old.ref = some old) (configured : output ∈ setup.outputs)
    (limited : output.limited = true) (counted : CountedFor state new output)
    (released : releaseChunk state new output scope old = some result) :
    Drops output state result.1 result.2 := by
  obtain ⟨routed, other, task, rfl⟩ := releaseChunk_eq_some released
  have isCounted : (old.withTask task).fsCounted = true :=
    counted old (mem_of_chunk found).1 other (Bool.and_eq_true_iff.mpr ⟨limited, routed⟩)
  have touched := (releases_setTask sound found other task).sound
  have again : (state.modifyChunk old.ref fun _ =>
      old.withTask task).chunk (old.withTask task).ref = some (old.withTask task) :=
    chunk_modifyChunk_self found rfl
  have same : Drops output state
      (state.modifyChunk old.ref fun _ => old.withTask task) 0 := by
    have replaces : Replaces state (state.modifyChunk old.ref fun _ => old.withTask task) old
        (old.withTask task) := .modifyChunk found rfl
    have totals : ∀ other, (state.modifyChunk old.ref fun _ =>
        old.withTask task).total other = state.total other := by
      intro other
      rw [replaces.total sound, show (old.withTask task).share other = old.share other from rfl]
      omega
    exact ⟨by rw [totals]; omega, fun other => (totals other).le, ⟨rfl, rfl, rfl⟩⟩
  cases scope with
  | scopeLocal =>
    simpa [releaseFor] using same.trans
      (drops_releaseLocal touched again configured routed isCounted)
  | scopeGlobal =>
    simpa [releaseFor] using same.trans (drops_releaseGlobal touched again routed isCounted)

theorem drops_releaseLoop {scope : ReleaseScope} {required : Int} {refs : List ChunkRef}
    (configured : output ∈ setup.outputs) (limited : output.limited = true)
    (counted : CountedFor state new output) (already : Int) :
    Drops output state (releaseLoop new output scope required refs state already).1
      ((releaseLoop new output scope required refs state already).2 - already) := by
  induction refs generalizing state already with
  | nil => simpa [releaseLoop] using Drops.refl output state
  | cons ref refs ih =>
    simp only [releaseLoop]
    split
    · exact ih sound counted already
    · next old found =>
      obtain ⟨_, rfl⟩ := mem_of_chunk found
      split
      · exact ih sound counted already
      · next next size released =>
        have one := drops_releaseChunk sound found configured limited counted released
        have kept := releases_releaseChunk sound found configured (fun _ => counted) released
        split
        · simpa using one
        · have rest := ih kept.sound (kept.counted output counted) (already + size)
          have sum (final : Int) : size + (final - (already + size)) = final - already := by omega
          rw [← sum]
          exact one.trans rest

end

/-- What an output uses went down by what was freed, and no output uses
more. -/
structure Frees (new : ChunkRef) (output : Output) (state next : State setup)
    (freed : Int) : Prop where
  releases : Releases new state next
  backlog : next.BacklogSound
  used : next.used output = state.used output - freed
  shrinks : ∀ other, next.used other ≤ state.used other

theorem Frees.refl (output : Output) (sound : state.Sound) (backlog : state.BacklogSound) :
    Frees new output state state 0 :=
  ⟨.refl sound, backlog, by omega, fun _ => Int.le_refl _⟩

theorem Frees.trans {middle : State setup} {first second : Int}
    (before : Frees new output state middle first) (after : Frees new output middle next second) :
    Frees new output state next (first + second) := by
  refine ⟨before.releases.trans after.releases, after.backlog, ?_,
    fun other => (after.shrinks other).trans (before.shrinks other)⟩
  rw [after.used, before.used]
  omega

theorem SameBacklog.waiting (same : SameBacklog state next) (id : OutId) :
    next.waiting id = state.waiting id := by
  rw [State.waiting, State.waiting, same.backlogs]

theorem SameBacklog.sound (same : SameBacklog state next) (backlog : state.BacklogSound) :
    next.BacklogSound := by
  refine ⟨fun id => ?_, fun id => ?_, fun id => ?_⟩
  · rw [same.backlogs]
    exact backlog.files_nodup id
  · rw [same.backlogs, same.files]
    exact backlog.sizes id
  · rw [same.counters, same.waiting]
    exact backlog.counters id

theorem Drops.frees {freed : Int} (drops : Drops output state next freed)
    (releases : Releases new state next) (backlog : state.BacklogSound) :
    Frees new output state next freed := by
  refine ⟨releases, drops.backlog.sound backlog, ?_, fun other => ?_⟩
  · rw [State.used, State.used, drops.total, drops.backlog.waiting]
    omega
  · rw [State.used, State.used, drops.backlog.waiting]
    have less := drops.shrinks other
    omega

theorem frees_releaseSpace (sound : state.Sound) (backlog : state.BacklogSound)
    (configured : output ∈ setup.outputs) (limited : output.limited = true)
    (counted : CountedFor state new output) (input : Input) (required : Int)
    (scope : ReleaseScope) :
    Frees new output state (releaseSpace state new input output required scope).1
      (required - (releaseSpace state new input output required scope).2) := by
  have drops : Drops output state (releaseSpace state new input output required scope).1 _ :=
    drops_releaseLoop sound configured limited counted 0
  have releases : Releases new state (releaseSpace state new input output required scope).1 :=
    releases_releaseSpace sound configured fun _ => counted
  have freed := drops.frees releases backlog
  simpa [releaseSpace] using freed

theorem sum_eraseP {entries : List SbOutChunk} {target : FileRef} {size : Int}
    (sizes : ∀ entry ∈ entries, entry.chunk = target → (entry.size.toNat : Int) = size) :
    ((entries.eraseP fun entry => decide (entry.chunk = target)).map
        fun entry => (entry.size.toNat : Int)).sum =
      (entries.map fun entry => (entry.size.toNat : Int)).sum -
        if entries.any fun entry => decide (entry.chunk = target) then size
        else 0 := by
  induction entries with
  | nil => simp
  | cons head rest ih =>
    by_cases here : head.chunk = target
    · have known := sizes head (.head _) here
      simp [here, known]
    · have moved := ih fun entry member => sizes entry (.tail _ member)
      rw [eraseP_cons_of_neg (by simpa using here), map_cons, sum_cons, moved]
      simp only [map_cons, sum_cons, any_cons, here, decide_false, Bool.false_or]
      omega

section
variable (backlog : state.BacklogSound)
include backlog

theorem waiting_sbRemove (target : FileRef) (id : OutId) :
    (sbRemoveChunkFromSegregatedBacklogs state target).waiting id =
      state.waiting id - if (state.backlogs id).any fun entry => decide (entry.chunk = target)
        then state.fileRealSize target else 0 := by
  apply sum_eraseP
  rintro entry member rfl
  exact (backlog.sizes id entry member).symm

theorem backlogSound_sbRemove (target : FileRef) :
    (sbRemoveChunkFromSegregatedBacklogs state target).BacklogSound := by
  refine ⟨fun id => ?_, fun id entry member => ?_, fun id => ?_⟩
  · exact (backlog.files_nodup id).sublist (eraseP_sublist.map _)
  · exact backlog.sizes id entry (mem_of_mem_eraseP member)
  · rw [waiting_sbRemove backlog, SizeT.ofInt_sub, ← backlog.counters]
    simp only [sbRemoveChunkFromSegregatedBacklogs]
    split
    · rfl
    · simp

/-- A waiting file has a size, so no queue grows by losing it. -/
theorem waiting_sbRemove_le (target : FileRef) (id : OutId) :
    (sbRemoveChunkFromSegregatedBacklogs state target).waiting id ≤ state.waiting id := by
  rw [waiting_sbRemove backlog]
  split
  · next queued =>
    obtain ⟨entry, member, same⟩ := any_eq_true.mp queued
    have known := backlog.sizes id entry member
    simp only [decide_eq_true_eq] at same
    rw [← same]
    omega
  · omega

end

section
variable (sound : state.Sound)
include sound

variable (backlog : state.BacklogSound)
include backlog

theorem frees_sbRemove {entry : SbOutChunk} {rest : List SbOutChunk}
    (queue : state.backlogs output.id = entry :: rest) :
    Frees new output state (sbRemoveChunkFromSegregatedBacklogs state entry.chunk)
      entry.size.toNat := by
  have totals : ∀ other, (sbRemoveChunkFromSegregatedBacklogs state entry.chunk).total other =
      state.total other := fun _ => rfl
  refine ⟨(Releases.refl sound).congr rfl rfl rfl,
    backlogSound_sbRemove backlog _, ?_, fun other => ?_⟩
  · have size := backlog.sizes output.id entry (by simp [queue])
    rw [State.used, State.used, totals, waiting_sbRemove backlog, queue, size]
    simp only [any_cons, decide_true, Bool.true_or, if_true]
    omega
  · rw [State.used, State.used, totals]
    have less := waiting_sbRemove_le backlog entry.chunk other.id
    omega

theorem frees_sbReleaseLoop {required : Int} {entries : List SbOutChunk}
    (queue : state.backlogs output.id = entries) (already : Nat) :
    Frees new output state (sbReleaseLoop required entries state already).1
      ((sbReleaseLoop required entries state already).2 - already) := by
  induction entries generalizing state already with
  | nil => simpa [sbReleaseLoop] using Frees.refl output sound backlog
  | cons entry entries ih =>
    have one : Frees new output state _ _ := frees_sbRemove sound backlog queue
    simp only [sbReleaseLoop]
    split
    · simpa using one
    · have left : (sbRemoveChunkFromSegregatedBacklogs state
          entry.chunk).backlogs output.id = entries := by
        simp [sbRemoveChunkFromSegregatedBacklogs, queue]
      have rest := ih one.releases.sound one.backlog left (already + entry.size.toNat)
      have sum (final : Int) :
          (entry.size.toNat : Int) +
            (final - (already + entry.size.toNat : Nat)) = final - already := by
        omega
      rw [← sum]
      exact one.trans rest

theorem frees_sbReleaseOutputQueueSpace (output : Output) (required : Int) :
    Frees new output state (sbReleaseOutputQueueSpace state output required).1
      (required - (sbReleaseOutputQueueSpace state output required).2) := by
  have freed : Frees new output state (sbReleaseOutputQueueSpace state output required).1 _ :=
    frees_sbReleaseLoop sound backlog rfl 0
  simpa [sbReleaseOutputQueueSpace] using freed

theorem frees_releaseOthers {new : Chunk setup} {inputs : List Input}
    (configured : output ∈ setup.outputs) (limited : output.limited = true)
    (counted : CountedFor state new.ref output) (remainder : Int) :
    Frees new.ref output state (releaseOthers new output inputs state remainder).1
      (remainder - (releaseOthers new output inputs state remainder).2) := by
  induction inputs generalizing state remainder with
  | nil => simpa [releaseOthers] using Frees.refl output sound backlog
  | cons input inputs ih =>
    simp only [releaseOthers]
    have one : Frees new.ref output state (releaseOther new output input state remainder).1
        (remainder - (releaseOther new output input state remainder).2) := by
      unfold releaseOther
      split
      · exact frees_releaseSpace sound backlog configured limited counted _ _ _
      · simpa using Frees.refl output sound backlog
    split
    · exact one
    · have rest := ih one.releases.sound one.backlog (one.releases.counted output counted)
        (releaseOther new output input state remainder).2
      have sum (middle final : Int) :
          remainder - middle + (middle - final) = remainder - final := by
        omega
      rw [← sum (releaseOther new output input state remainder).2]
      exact one.trans rest

end

theorem Frees.stage {start : Int} {run : State setup → Int → State setup × Int}
    {current : State setup × Int} (counted : CountedFor state new output)
    (runs : ∀ (state : State setup) (remainder : Int), state.Sound →
      state.BacklogSound → CountedFor state new output →
        Frees new output state (run state remainder).1 (remainder - (run state remainder).2))
    (before : Frees new output state current.1 (start - current.2)) :
    Frees new output state (stage run current).1 (start - (InputChunk.stage run current).2) := by
  unfold InputChunk.stage
  split
  · have after := runs current.1 current.2 before.releases.sound
      before.backlog (before.releases.counted output counted)
    have sum (final : Int) : start - current.2 + (current.2 - final) = start - final := by omega
    rw [← sum]
    exact before.trans after
  · exact before

/-- The release frees the size of the new chunk less the requirement it
leaves. -/
theorem frees_releaseSpaceCompound {new : Chunk setup} (sound : state.Sound)
    (backlog : state.BacklogSound) (configured : output ∈ setup.outputs)
    (limited : output.limited = true) (counted : CountedFor state new.ref output) :
    ∃ remainder,
      (releaseSpaceCompound state new output true).2 =
          SizeT.ofInt (if remainder < 0 then 0 else remainder) ∧
        Frees new.ref output state (releaseSpaceCompound state new output true).1
          (getRealSize new.report - remainder) := by
  refine ⟨_, rfl, ?_⟩
  apply Frees.stage counted
  · intro current remainder currentSound currentBacklog currentCounted
    exact frees_releaseOthers currentSound currentBacklog configured limited
      currentCounted remainder
  rw [if_pos rfl]
  apply Frees.stage counted
  · intro current remainder currentSound currentBacklog currentCounted
    exact frees_releaseSpace currentSound currentBacklog configured limited currentCounted _ _ _
  apply Frees.stage counted
  · intro current remainder currentSound currentBacklog _
    exact frees_sbReleaseOutputQueueSpace currentSound currentBacklog _ _
  apply Frees.stage counted
  · intro current remainder currentSound currentBacklog currentCounted
    exact frees_releaseSpace currentSound currentBacklog configured limited currentCounted _ _ _
  simpa using Frees.refl output sound backlog

theorem SizeT.ofInt_ne_zero {size : Int} (positive : 0 < size) (bounded : size < 2 ^ 64) :
    SizeT.ofInt size ≠ 0#64 := by
  intro zero
  have value := congrArg BitVec.toNat zero
  rw [SizeT.ofInt, BitVec.toNat_ofInt] at value
  simp only [BitVec.toNat_zero] at value
  omega

theorem frees_of_no_requirement {new : Chunk setup} (sound : state.Sound)
    (backlog : state.BacklogSound) (configured : output ∈ setup.outputs)
    (limited : output.limited = true) (counted : CountedFor state new.ref output)
    (bounded : getRealSize new.report < 2 ^ 63)
    (done : (releaseSpaceCompound state new output true).2 = 0#64) :
    ∃ freed, getRealSize new.report ≤ freed ∧
      Frees new.ref output state (releaseSpaceCompound state new output true).1 freed := by
  obtain ⟨remainder, left, frees⟩ :=
    frees_releaseSpaceCompound sound backlog configured limited counted
  refine ⟨_, ?_, frees⟩
  have less : remainder ≤ getRealSize new.report := by
    have shrinks := frees.shrinks output
    rw [frees.used] at shrinks
    omega
  by_contra short
  have positive : 0 < remainder := by omega
  rw [left, if_neg (by omega)] at done
  exact SizeT.ofInt_ne_zero positive (by omega) done

/-- What the rounds for some outputs free when none of them fails. -/
structure RoundsFree (shift : IntShift) (new : Chunk setup)
    (overlimit : BitVec 32) (outputs : List Output)
    (search final : Search setup) : Prop where
  count : search.count = 0
  releases : Releases new.ref search.state final.state
  backlog : final.state.BacklogSound
  shrinks : ∀ other, final.state.used other ≤ search.state.used other
  frees : ∀ output ∈ outputs, new.charges output = true →
    (shift.shiftOne output.id &&& overlimit != 0#32) = true →
      final.state.used output ≤ search.state.used output - getRealSize new.report

/-- One round: the outputs that are not tried stay, the others get room. -/
theorem roundFrees {new : Chunk setup} {overlimit : BitVec 32} {search : Search setup}
    (sound : search.state.Sound) (backlog : search.state.BacklogSound)
    (configured : output ∈ setup.outputs) (counted : OthersCounted search.state new.ref)
    (bounded : getRealSize new.report < 2 ^ 63)
    (done : (findSpaceRound shift new overlimit search output).count = 0) :
    RoundsFree shift new overlimit [output] search
      (findSpaceRound shift new overlimit search output) := by
  unfold findSpaceRound at done ⊢
  split at done
  · next skipped =>
    rw [if_pos skipped]
    refine ⟨done, .refl sound, backlog, fun _ => Int.le_refl _, ?_⟩
    intro other member charged shared
    obtain rfl := mem_singleton.mp member
    simp only [Chunk.charges, Bool.and_eq_true] at charged
    have nonzero : (shift.shiftOne other.id &&& overlimit == 0#32) =
        false := by simpa using shared
    simp [charged.1, charged.2, nonzero] at skipped
  · next tried =>
    rw [if_neg tried]
    have limited : output.limited = true := by
      by_contra unlimited
      simp [unlimited] at tried
    dsimp only at done ⊢
    split at done
    · omega
    · next left =>
      obtain ⟨freed, enough, frees⟩ := frees_of_no_requirement sound backlog configured limited
        (counted output configured) bounded (by simpa using left)
      refine ⟨done, frees.releases, frees.backlog, frees.shrinks, ?_⟩
      intro other member _ _
      obtain rfl := mem_singleton.mp member
      rw [frees.used]
      omega

theorem count_le_foldl (shift : IntShift) (new : Chunk setup)
    (overlimit : BitVec 32) (outputs : List Output) (search : Search setup) :
    search.count ≤ (outputs.foldl (findSpaceRound shift new overlimit) search).count := by
  induction outputs generalizing search with
  | nil => exact Nat.le_refl _
  | cons output outputs ih =>
    refine Nat.le_trans ?_ (ih _)
    unfold findSpaceRound
    split
    · exact Nat.le_refl _
    · dsimp only
      split <;> omega

theorem roundsFree_foldl {new : Chunk setup} {overlimit : BitVec 32} {outputs : List Output}
    {search : Search setup} (sound : search.state.Sound) (backlog : search.state.BacklogSound)
    (configured : ∀ output ∈ outputs, output ∈ setup.outputs)
    (counted : OthersCounted search.state new.ref) (bounded : getRealSize new.report < 2 ^ 63)
    (done : (outputs.foldl (findSpaceRound shift new overlimit) search).count = 0) :
    RoundsFree shift new overlimit outputs search
      (outputs.foldl (findSpaceRound shift new overlimit) search) := by
  induction outputs generalizing search with
  | nil => exact ⟨done, .refl sound, backlog, fun _ => Int.le_refl _, by simp⟩
  | cons output outputs ih =>
    rw [foldl_cons] at done ⊢
    have clean := count_le_foldl shift new overlimit outputs
      (findSpaceRound shift new overlimit search output)
    have cleanRound : (findSpaceRound shift new overlimit search output).count = 0 := by omega
    have first := roundFrees sound backlog (configured output (.head _)) counted bounded cleanRound
    have rest := ih first.releases.sound first.backlog (fun other member => configured other
      (.tail _ member)) (fun other otherConfigured => first.releases.counted other
      (counted other otherConfigured)) done
    refine ⟨first.count, first.releases.trans rest.releases, rest.backlog,
      fun other => (rest.shrinks other).trans (first.shrinks other), ?_⟩
    intro other member charged shared
    rcases mem_cons.mp member with rfl | later
    · exact (rest.shrinks other).trans (first.frees other (.head _) charged shared)
    · have freed := rest.frees other later charged shared
      have before := first.shrinks other
      omega

/-- When the chunk that takes the data is as large as what every output it is
routed to would exceed its limit by, in a state whose books are in order and
whose outputs all have a bit in an `int`. -/
structure RoomCovers (state : State setup) (chunk : Chunk setup) (chunkSize : SizeT) : Prop where
  settled : state.Settled
  backlog : state.BacklogSound
  counted : OthersCounted state chunk.ref
  bounded : getRealSize chunk.report < 2 ^ 63
  small : ∀ output ∈ setup.outputs, chunk.charges output = true → output.id < 32
  fits : ∀ output ∈ setup.outputs, chunk.charges output = true →
    state.used output + chunkSize.toNat < 2 ^ 64
  covers : ∀ output ∈ setup.outputs, chunk.charges output = true →
    state.used output + chunkSize.toNat ≤
      output.totalLimitSize.toNat + max 0 (getRealSize chunk.report)

theorem demand_eq (settled : state.Settled) (backlog : state.BacklogSound)
    (configured : output ∈ setup.outputs) (limited : output.limited = true)
    {chunkSize : SizeT} (bounded : state.used output < 2 ^ 64) :
    (state.demand output chunkSize : Int) = state.used output + chunkSize.toNat := by
  have accounts := settled.accounts configured limited
  have held := accounts.nonneg
  have waits := state.waiting_nonneg output.id
  rw [State.used] at bounded ⊢
  have chunks := accounts.value (by omega)
  have files : ((state.fsBacklogChunksSize output.id).toNat : Int) =
      state.waiting output.id := by
    rw [backlog.counters, SizeT.ofInt, BitVec.toNat_ofInt]
    omega
  rw [State.demand]
  omega

theorem Settles.settled (settles : Settles state next) (settled : state.Settled) :
    next.Settled := by
  refine ⟨settles.sound, fun output configured limited => ?_⟩
  rw [settles.gap output configured limited]
  exact settled.gap output configured limited

theorem within_of_rounds {chunkSize : SizeT} (room : RoomCovers state chunk chunkSize)
    (configured : output ∈ setup.outputs)
    (charged : chunk.charges output = true)
    (before : (state.demand output chunkSize : Int) = state.used output + chunkSize.toNat)
    (exactly : OverlimitExact shift state chunk chunkSize)
    (done : (findSpaceNewData shift state chunk
      (hasOverlimitRoutes shift state chunk chunkSize)).count = 0) :
    (findSpaceNewData shift state chunk
        (hasOverlimitRoutes shift state chunk chunkSize)).state.demand output
          chunkSize ≤ output.totalLimitSize.toNat := by
  have tried := exactly.tried
  generalize isFinal : findSpaceNewData shift state chunk
    (hasOverlimitRoutes shift state chunk chunkSize) = final at done tried ⊢
  have rounds : RoundsFree shift chunk
      (hasOverlimitRoutes shift state chunk chunkSize) setup.outputs
      { state := state, count := 0, tried := [] } final := by
    rw [← isFinal] at done ⊢
    exact roundsFree_foldl room.settled.sound room.backlog
      (fun _ member => member) room.counted room.bounded done
  have fits := room.fits output configured charged
  have covers := room.covers output configured charged
  have shrinks : final.state.used output ≤ state.used output := rounds.shrinks output
  have after : (final.state.demand output chunkSize : Int) =
      final.state.used output + chunkSize.toNat :=
    demand_eq (rounds.releases.settles.settled room.settled) rounds.backlog
      configured (Bool.and_eq_true_iff.mp charged).1 (by omega)
  by_cases above : state.exceeds output chunkSize = true
  · have member : output ∈ final.tried := by
      rw [tried]
      exact mem_overlimitSet.mpr ⟨configured, charged, above⟩
    rw [← isFinal] at member
    have freed : final.state.used output ≤ state.used output - getRealSize chunk.report :=
      rounds.frees output configured charged (mem_tried.mp member).2.2
    omega
  · simp only [State.exceeds, decide_eq_true_eq] at above
    omega

theorem demand_le_of_overlimitSet {chunkSize : SizeT}
    (within : overlimitSet state chunk chunkSize = []) (configured : output ∈ setup.outputs)
    (charged : chunk.charges output = true) :
    state.demand output chunkSize ≤ output.totalLimitSize.toNat := by
  by_contra above
  have member : output ∈ overlimitSet state chunk chunkSize :=
    mem_overlimitSet.mpr ⟨configured, charged, decide_eq_true (Nat.lt_of_not_le above)⟩
  simp [within] at member

/-- A chunk placed in filesystem storage keeps every output it is routed to
within its limit, when none of them is over it or its own size covers what they
are over. -/
theorem placeNewChunk_within_limits (shift : IntShift) {state : State setup} {chunk : Chunk setup}
    {chunkSize : SizeT}
    (room : overlimitSet state chunk chunkSize = [] ∨ RoomCovers state chunk chunkSize)
    (isFs : chunk.input.storageType = .fs)
    (placed : (placeNewChunk shift state chunk chunkSize).2 = true) :
    ∀ output ∈ setup.outputs, chunk.charges output = true →
      (placeNewChunk shift state chunk chunkSize).1.demand output chunkSize ≤
        output.totalLimitSize.toNat := by
  unfold placeNewChunk at placed ⊢
  rw [if_pos isFs] at placed ⊢
  dsimp only at placed ⊢
  rcases room with within | room
  · have zero : hasOverlimitRoutes shift state chunk chunkSize = 0#32 := by
      refine hasOverlimitRoutes_eq_zero shift fun output configured charged => ?_
      have inside := demand_le_of_overlimitSet within configured charged
      rw [Bool.eq_false_iff, ne_eq, overlimit_iff]
      exact Nat.not_lt.mpr ((Nat.mod_le _ _).trans inside)
    rw [if_neg (by simp [zero])]
    exact fun output => demand_le_of_overlimitSet within
  · have before : ∀ output ∈ setup.outputs, chunk.charges output = true →
        (state.demand output chunkSize : Int) = state.used output + chunkSize.toNat := by
      intro output configured charged
      have fits := room.fits output configured charged
      exact demand_eq room.settled room.backlog configured (Bool.and_eq_true_iff.mp charged).1
        (by omega)
    have exactly : OverlimitExact shift state chunk chunkSize := by
      refine exact_of_small (fun output configured charged => .inl ?_) room.small shift
      have fits := room.fits output configured charged
      have same := before output configured charged
      omega
    split
    · next overlimit =>
      rw [if_pos overlimit] at placed
      split at placed
      · cases placed
      · next done =>
        rw [if_neg done]
        intro output configured charged
        exact within_of_rounds room configured charged
          (before output configured charged) exactly (by simpa using done)
    · next zero =>
      exact fun output => demand_le_of_overlimitSet (exactly.zero.mp (by simpa using zero))

/-- A chunk that was just created under a tag of one byte. -/
def createdChunk (ref : ChunkRef) (tag : Byte) : Chunk oneSmallOutput :=
  { emptyStorage.newChunk tailInput .logs [tag] emptyFile with ref := ref }

/-- A chunk of two pages makes way for 5000 bytes. -/
theorem placeNewChunk_within_limits_two_pages :
    ∃ state : State oneSmallOutput, RoomCovers state (createdChunk 1 98) 5000#64 ∧
      state.demand smallOutput 5000#64 = 13192 ∧
      (placeNewChunk maskingShift state (createdChunk 1 98) 5000#64).2 = true ∧
      (placeNewChunk maskingShift state (createdChunk 1 98)
        5000#64).1.demand smallOutput 5000#64 ≤ 10000 := by
  obtain ⟨state, taken, placed, demand, counted, used, queues, files⟩ : ∃ state, Run.runGuarded
    (step maskingShift) Accountable emptyStorage [appendBlock 97 8000#64 (.written filledFile),
    .create tailInput .logs [98] (some emptyFile)] = some state ∧ (placeNewChunk maskingShift state
    (createdChunk 1 98) 5000#64).2 = true ∧ state.demand smallOutput 5000#64 =
    13192 ∧ CountedFor state 1 smallOutput ∧ state.used smallOutput = 8192 ∧ (∀ id,
    state.backlogs id = []) ∧ ∀ id, state.fsBacklogChunksSize id = 0#64 := ⟨_, rfl, rfl, rfl,
    by decide, rfl, fun _ => rfl, fun _ => rfl⟩
  have fresh : emptyStorage.Fresh := ⟨rfl, fun _ => rfl⟩
  have settled : state.Settled := (Run.Reaches.refl.of_runGuarded taken).invariant fresh.settled
    fun settled safe taken => settled.step safe taken
  have room : RoomCovers state (createdChunk 1 98) 5000#64 := by
    refine ⟨settled, ⟨?_, ?_, ?_⟩, ?_, by decide, ?_, ?_, ?_⟩
    · simp [queues]
    · simp [queues]
    · simp [queues, files, State.waiting]
    all_goals
      intro output configured
      obtain rfl : output = smallOutput := mem_singleton.mp configured
    · exact counted
    · exact fun _ => by decide
    all_goals exact fun _ => by rw [used]; decide
  exact ⟨state, room, demand, placed,
    placeNewChunk_within_limits maskingShift (.inr room) rfl placed smallOutput (.head _)
      (by decide)⟩

/-- With two chunks of one page each, only the first makes way for 8000 bytes:
its size is that of the new chunk.  The data is placed although it exceeds the
limit. -/
theorem placeNewChunk_exceeds_limit :
    ∃ state : State oneSmallOutput,
      Run.run (step maskingShift) emptyStorage
        [appendBlock 97 3000#64 (.written { emptyFile with
            contentSize := 3000 }),
          appendBlock 98 3000#64 (.written { emptyFile with
            contentSize := 3000 }),
          .create tailInput .logs [99] (some emptyFile)] = some state ∧
      state.chunk 2 = some (createdChunk 2 99) ∧
      (placeNewChunk maskingShift state (createdChunk 2 99) 8000#64).2 = true ∧
      (createdChunk 2 99).charges smallOutput = true ∧
      smallOutput.totalLimitSize.toNat = 10000 ∧
      (placeNewChunk maskingShift state (createdChunk 2 99)
        8000#64).1.demand smallOutput 8000#64 = 12096 :=
  ⟨_, rfl, rfl, rfl, rfl, rfl, rfl⟩

end FluentBit.InputChunk
