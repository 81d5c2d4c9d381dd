import FluentBit.InputChunk.Append

/-!
# Making room in the memory ring buffer

`memrb_input_chunk_release_space` with the counters it sets.  It should destroy
the oldest chunks that no output uses until they make up the required space.
The size of an empty chunk is -1 here, and the signed sum is compared with an
unsigned number: an empty chunk is destroyed as if it were larger than any
requirement.
-/

namespace FluentBit.InputChunk

open List

variable {setup : Setup}

structure RingRelease (setup : Setup) where
  state : State setup
  releasedSpace : Int
  removedChunks : Nat

def RingRelease.drop (release : RingRelease setup) (chunk : Chunk setup) : RingRelease setup :=
  { state := destroy release.state chunk true
    releasedSpace := release.releasedSpace + getRealSize chunk.report
    removedChunks := release.removedChunks + 1 }

/-- `released_space >= required_space`: both are unsigned. -/
def RingRelease.enough (release : RingRelease setup) (required : SizeT) : Bool :=
  decide (required ≤ SizeT.ofInt release.releasedSpace)

def ringReleaseLoop (required : SizeT) : List ChunkRef → RingRelease setup → RingRelease setup
  | [], release => release
  | ref :: rest, release =>
    match release.state.chunk ref with
    | none => ringReleaseLoop required rest release
    | some chunk =>
      if taskIsSafeDelete chunk.task then
        if (release.drop chunk).enough required then release.drop chunk
        else ringReleaseLoop required rest (release.drop chunk)
      else ringReleaseLoop required rest release

structure RingResult (setup : Setup) where
  state : State setup
  droppedBytes : SizeT
  droppedChunks : Nat
  ret : Int

/-- `memrb_input_chunk_release_space`, with its counters. -/
def memrbInputChunkReleaseSpace (state : State setup) (input : Input) (required : SizeT) :
    RingResult setup :=
  let refs := (state.chunks.filter (·.input = input)).map Chunk.ref
  let release :=
    ringReleaseLoop required refs
      { state := state, releasedSpace := 0, removedChunks := 0 }
  { state := release.state
    droppedBytes := SizeT.ofInt release.releasedSpace
    droppedChunks := release.removedChunks
    ret := if release.enough required then 0 else -1 }

theorem memrbReleaseLoop_eq (required : SizeT) (refs : List ChunkRef)
    (release : RingRelease setup) :
    memrbReleaseLoop required refs release.state release.releasedSpace =
      ((ringReleaseLoop required refs release).state,
        (ringReleaseLoop required refs release).releasedSpace) := by
  induction refs generalizing release with
  | nil => rfl
  | cons ref refs ih =>
    rw [memrbReleaseLoop, ringReleaseLoop]
    cases release.state.chunk ref with
    | none => exact ih release
    | some chunk =>
      dsimp only
      split
      · by_cases enough : (release.drop chunk).enough required = true
        · rw [if_pos enough]
          exact if_pos (of_decide_eq_true enough)
        · rw [if_neg enough, ← ih (release.drop chunk)]
          exact if_neg fun reached => enough (decide_eq_true reached)
      · exact ih release

theorem answer_iff (release : RingRelease setup) (required : SizeT) :
    (if release.enough required then (0 : Int) else -1) = 0 ↔
      required ≤ SizeT.ofInt release.releasedSpace := by
  rw [RingRelease.enough]
  by_cases reached : required ≤ SizeT.ofInt release.releasedSpace
  all_goals simp [reached]

theorem memrbReleaseSpace_eq (state : State setup) (input : Input) (required : SizeT) :
    memrbReleaseSpace state input required =
      ((memrbInputChunkReleaseSpace state input required).state,
        decide ((memrbInputChunkReleaseSpace state input required).ret = 0)) := by
  rw [memrbReleaseSpace]
  have same := memrbReleaseLoop_eq required ((state.chunks.filter (·.input = input)).map Chunk.ref)
    ({ state := state, releasedSpace := 0, removedChunks := 0 } : RingRelease setup)
  rw [same, memrbInputChunkReleaseSpace]
  congr 1
  exact decide_eq_decide.mpr (answer_iff _ _).symm

def Chunk.isVoid (chunk : Chunk setup) : Bool :=
  decide (chunk.report.realSize = 0 ∧ chunk.report.contentSize = 0)

structure Report.Sized (report : Report) : Prop where
  real : 0 ≤ report.realSize
  content : 0 ≤ report.contentSize
  metadata : 0 ≤ report.metaSize

def Chunk.size (chunk : Chunk setup) : Nat := (getRealSize chunk.report).toNat

def totalSize (chunks : List (Chunk setup)) : Nat := (chunks.map Chunk.size).sum

def State.idle (state : State setup) (input : Input) : List (Chunk setup) :=
  (state.chunks.filter (·.input = input)).filter (taskIsSafeDelete ·.task)

/-- The oldest chunks are destroyed, and no more than are needed. -/
def ReleasesOldest (state : State setup) (input : Input) (required : SizeT)
    (result : RingResult setup) : Prop :=
  ∃ destroyed left, state.idle input = destroyed ++ left ∧
    result.state = destroyed.foldl (fun state chunk => destroy state chunk true) state ∧
    (∀ before chunk after, destroyed = before ++ chunk :: after →
      totalSize before < required.toNat) ∧
    (left ≠ [] → required.toNat ≤ totalSize destroyed) ∧
    result.droppedBytes.toNat = totalSize destroyed ∧
    result.droppedChunks = destroyed.length ∧
    (result.ret = 0 ↔ required.toNat ≤ totalSize destroyed)

section
variable {required : SizeT} {release : RingRelease setup}

/-- The loop destroys a first part of the chunks it may destroy.  It tests the
sum behind every chunk, and not in front of the first. -/
theorem ringReleaseLoop_spec (chunks : List (Chunk setup)) (distinct : (chunks.map Chunk.ref).Nodup)
    (found : ∀ chunk ∈ chunks, release.state.chunk chunk.ref = some chunk) :
    ∃ destroyed left, chunks.filter (taskIsSafeDelete ·.task) = destroyed ++ left ∧
      ringReleaseLoop required (chunks.map Chunk.ref) release =
        destroyed.foldl RingRelease.drop release ∧
      (∀ before chunk after, destroyed = before ++ chunk :: after →
        before ≠ [] → (before.foldl RingRelease.drop release).enough required = false) ∧
      (left ≠ [] → destroyed ≠ [] ∧
        (destroyed.foldl RingRelease.drop release).enough required = true) := by
  induction chunks generalizing release with
  | nil => exact ⟨[], [], rfl, rfl, by simp, by simp⟩
  | cons chunk chunks ih =>
    rw [map_cons, nodup_cons] at distinct
    rw [forall_mem_cons] at found
    rw [map_cons, ringReleaseLoop, found.1]
    dsimp only
    by_cases safe : taskIsSafeDelete chunk.task = true
    · rw [filter_cons, if_pos safe, if_pos safe]
      by_cases enough : (release.drop chunk).enough required = true
      · rw [if_pos enough]
        refine ⟨[chunk], _, rfl, rfl, ?_, fun _ => ⟨by simp, enough⟩⟩
        intro before last after split some
        cases before with
        | nil => exact absurd rfl some
        | cons first before =>
          rw [cons_append, List.cons.injEq] at split
          exact absurd split.2.symm (by simp)
      · rw [if_neg enough]
        have kept : ∀ other ∈ chunks, (release.drop chunk).state.chunk other.ref = some other := by
          intro other member
          have different : other.ref ≠ chunk.ref := by
            intro same
            apply distinct.1
            rw [← same]
            exact mem_map_of_mem member
          exact (Keyed.lookup_erase_other different).trans (found.2 other member)
        obtain ⟨destroyed, left, split, result, tested, stopped⟩ := ih distinct.2 kept
        refine ⟨chunk :: destroyed, left, by rw [split]; rfl, result, ?_, ?_⟩
        · intro before last after cut some
          cases before with
          | nil => exact absurd rfl some
          | cons first before =>
            rw [cons_append, List.cons.injEq] at cut
            obtain ⟨rfl, rest⟩ := cut
            cases before with
            | nil => exact Bool.eq_false_iff.mpr enough
            | cons second before => exact tested _ last after rest (cons_ne_nil _ _)
        · intro some
          exact ⟨cons_ne_nil _ _, (stopped some).2⟩
    · rw [filter_cons, if_neg safe, if_neg safe]
      exact ih distinct.2 found.2

theorem foldl_drop (chunks : List (Chunk setup)) :
    chunks.foldl RingRelease.drop release =
      { state := chunks.foldl (fun state chunk => destroy state chunk true) release.state
        releasedSpace := release.releasedSpace +
          (chunks.map fun chunk => getRealSize chunk.report).sum
        removedChunks := release.removedChunks + chunks.length } := by
  induction chunks generalizing release with
  | nil => simp
  | cons chunk chunks ih =>
    rw [foldl_cons, ih]
    simp only [RingRelease.drop, foldl_cons, map_cons,
      sum_cons, length_cons, RingRelease.mk.injEq, true_and]
    constructor <;> omega

end

variable {chunk : Chunk setup} {chunks : List (Chunk setup)}
  {state : State setup}

theorem getRealSize_of_isVoid (isVoid : chunk.isVoid = true) : getRealSize chunk.report = -1 := by
  rw [Chunk.isVoid, decide_eq_true_eq] at isVoid
  rw [getRealSize, if_neg (not_not.mpr isVoid.1), if_pos isVoid.2]

theorem getRealSize_of_not_isVoid (sized : chunk.report.Sized) (filled : ¬ chunk.isVoid = true) :
    getRealSize chunk.report = chunk.size := by
  obtain ⟨real, content, metadata⟩ := sized
  rw [Chunk.isVoid, decide_eq_true_eq] at filled
  rw [Chunk.size, Int.toNat_of_nonneg]
  rw [getRealSize]
  split
  · exact real
  · split <;> omega

theorem size_of_isVoid (isVoid : chunk.isVoid = true) : chunk.size = 0 := by
  rw [Chunk.size, getRealSize_of_isVoid isVoid]
  rfl

theorem sum_getRealSize (sized : ∀ chunk ∈ chunks, chunk.report.Sized) :
    (chunks.map fun chunk => getRealSize chunk.report).sum =
      (totalSize chunks : Int) - (chunks.filter Chunk.isVoid).length := by
  induction chunks with
  | nil => rfl
  | cons chunk chunks ih =>
    rw [forall_mem_cons] at sized
    have cons : totalSize (chunk :: chunks) = chunk.size + totalSize chunks := rfl
    rw [map_cons, sum_cons, ih sized.2, cons, filter_cons]
    by_cases isVoid : chunk.isVoid = true
    · rw [if_pos isVoid, length_cons, getRealSize_of_isVoid isVoid, size_of_isVoid isVoid]
      omega
    · rw [if_neg isVoid, getRealSize_of_not_isVoid sized.1 isVoid]
      omega

theorem toNat_ofInt_natCast {total : Nat} (fits : total < 2 ^ 64) :
    (SizeT.ofInt (total : Int)).toNat = total := by
  rw [SizeT.ofInt, BitVec.toNat_ofInt]
  omega

theorem totalSize_append (first second : List (Chunk setup)) :
    totalSize (first ++ second) = totalSize first + totalSize second := by
  rw [totalSize, map_append, sum_append, totalSize, totalSize]

theorem enough_foldl_drop {required : SizeT} (sized : ∀ chunk ∈ chunks, chunk.report.Sized)
    (filled : ∀ chunk ∈ chunks, ¬ chunk.isVoid = true) (fits : totalSize chunks < 2 ^ 64) :
    let release := chunks.foldl RingRelease.drop
      { state := state, releasedSpace := 0, removedChunks := 0 }
    (SizeT.ofInt release.releasedSpace).toNat = totalSize chunks ∧
      (release.enough required = true ↔ required.toNat ≤ totalSize chunks) := by
  intro release
  have none : (chunks.filter Chunk.isVoid).length = 0 := by
    rw [length_eq_zero_iff, filter_eq_nil_iff]
    exact filled
  have sum : release.releasedSpace = (totalSize chunks : Int) := by
    have dropped := congrArg RingRelease.releasedSpace
      (@foldl_drop setup
        { state := state, releasedSpace := 0, removedChunks := 0 } chunks)
    dsimp only at dropped
    rw [sum_getRealSize sized, none] at dropped
    change release.releasedSpace = _ at dropped
    omega
  rw [RingRelease.enough, sum, decide_eq_true_eq, BitVec.le_def, toNat_ofInt_natCast fits]
  exact ⟨rfl, Iff.rfl⟩

/-- The counter for the bytes gives chunks without data away. -/
theorem filled_of_droppedBytes (sized : ∀ chunk ∈ chunks, chunk.report.Sized)
    (fits : totalSize chunks + chunks.length < 2 ^ 64)
    (counted : BitVec.toNat (SizeT.ofInt (chunks.foldl RingRelease.drop
      { state := state
        releasedSpace := 0
        removedChunks := 0 }).releasedSpace) = totalSize chunks) :
    ∀ chunk ∈ chunks, ¬ chunk.isVoid = true := by
  have few : (chunks.filter Chunk.isVoid).length ≤ chunks.length := length_filter_le _ _
  rw [foldl_drop] at counted
  dsimp only at counted
  rw [sum_getRealSize sized, SizeT.ofInt, BitVec.toNat_ofInt] at counted
  have none : (chunks.filter Chunk.isVoid).length = 0 := by omega
  rwa [length_eq_zero_iff, filter_eq_nil_iff] at none

/-- Every chunk that has less than the required space in front of it has data,
and if no space is required there is no chunk that may be destroyed. -/
structure Releasable (state : State setup) (input : Input) (required : SizeT) : Prop where
  needed : required = 0#64 → state.idle input = []
  filled : ∀ before chunk after,
    state.idle input = before ++ chunk :: after →
      totalSize before < required.toNat → ¬ chunk.isVoid = true

theorem Releasable.filled_destroyed {input : Input} {required : SizeT}
    (releasable : Releasable state input required)
    (sized : ∀ chunk ∈ state.idle input, chunk.report.Sized)
    {destroyed left : List (Chunk setup)}
    (split : state.idle input = destroyed ++ left)
    (fits : totalSize destroyed + destroyed.length < 2 ^ 64)
    (tested : ∀ before chunk after, destroyed = before ++ chunk :: after →
      before ≠ [] → (before.foldl RingRelease.drop
        { state := state
          releasedSpace := 0
          removedChunks := 0 }).enough required = false) :
    ∀ length before chunk after, before.length = length →
      destroyed = before ++ chunk :: after →
        totalSize before < required.toNat ∧ ¬ chunk.isVoid = true := by
  intro length
  induction length using Nat.strongRecOn with
  | ind length ih =>
    intro before chunk after measured cut
    have small : totalSize before < required.toNat := by
      cases before with
      | nil =>
        have needed : required ≠ 0#64 := by
          intro zero
          rw [releasable.needed zero, cut] at split
          cases split
        have positive : required.toNat ≠ 0 := by
          intro zero
          exact needed (BitVec.eq_of_toNat_eq zero)
        exact Nat.pos_of_ne_zero positive
      | cons first before =>
        -- The chunks in front were destroyed without reaching the sum.
        have filled : ∀ other ∈ first :: before, ¬ other.isVoid = true := by
          intro other member
          obtain ⟨front, back, parts⟩ := append_of_mem member
          have shorter : (first :: before).length = front.length + (back.length + 1) := by
            rw [parts, length_append, length_cons]
          refine (ih front.length (by omega) front other (back ++ chunk :: after) rfl ?_).2
          rw [cut, parts, append_assoc, cons_append]
        have sizedBefore : ∀ other ∈ first :: before, other.report.Sized := by
          intro other member
          apply sized
          rw [split, cut]
          exact mem_append_left _ (mem_append_left _ member)
        have total := congrArg totalSize cut
        rw [totalSize_append] at total
        have exact := (@enough_foldl_drop setup (first :: before) state
          required sizedBefore filled (by omega)).2
        rw [tested _ chunk after cut (cons_ne_nil _ _)] at exact
        by_contra reached
        exact Bool.false_ne_true (exact.mpr (Nat.not_lt.mp reached))
    refine ⟨small, releasable.filled before chunk (after ++ left) ?_ small⟩
    rw [split, cut, append_assoc, cons_append]

/-- The function destroys the oldest chunks that no output uses, and only as
many as are needed, and reports them, exactly under the condition. -/
theorem ring_buffer_releases_oldest (state : State setup) (input : Input)
    (required : SizeT) (distinct : (state.chunks.map Chunk.ref).Nodup)
    (sized : ∀ chunk ∈ state.idle input, chunk.report.Sized)
    (fits : totalSize (state.idle input) + (state.idle input).length < 2 ^ 64) :
    ReleasesOldest state input required (memrbInputChunkReleaseSpace state input required) ↔
      Releasable state input required := by
  have refs : ((state.chunks.filter (·.input = input)).map Chunk.ref).Nodup :=
    distinct.sublist (filter_sublist.map Chunk.ref)
  have found : ∀ chunk ∈ state.chunks.filter (·.input = input),
      state.chunk chunk.ref = some chunk := by
    intro chunk member
    exact Keyed.lookup_of_mem distinct (mem_of_mem_filter member)
  obtain ⟨destroyed, left, split, result, tested, stopped⟩ :=
    @ringReleaseLoop_spec setup required
      { state := state, releasedSpace := 0, removedChunks := 0 } _ refs found
  change state.idle input = destroyed ++ left at split
  have sizedDestroyed : ∀ chunk ∈ destroyed, chunk.report.Sized := by
    intro chunk member
    apply sized
    rw [split]
    exact mem_append_left _ member
  have fitsDestroyed : totalSize destroyed + destroyed.length < 2 ^ 64 := by
    rw [split, totalSize_append, length_append] at fits
    omega
  rw [memrbInputChunkReleaseSpace, result]
  constructor
  · intro releases
    obtain ⟨taken, rest, taken_split, _, minimal, reached, bytes, number, _⟩ := releases
    -- The counter of chunks says which first part was taken.
    rw [foldl_drop] at number
    dsimp only at number
    have same : taken = destroyed := by
      have parts := taken_split.symm.trans split
      exact (append_inj parts (by omega)).1
    subst same
    have filled := filled_of_droppedBytes sizedDestroyed fitsDestroyed bytes
    refine ⟨?_, ?_⟩
    · intro zero
      cases taken with
      | nil =>
        cases left with
        | nil => exact split
        | cons chunk left => exact absurd rfl (stopped (cons_ne_nil _ _)).1
      | cons chunk taken =>
        have none := minimal [] chunk taken rfl
        rw [zero] at none
        exact absurd none (Nat.not_lt_zero _)
    · intro before chunk after cut small isVoid
      rw [taken_split] at cut
      rcases append_eq_append_iff.mp cut with
        ⟨middle, rfl, restParts⟩ | ⟨middle, rfl, afterParts⟩
      · have far := reached (by rw [restParts]; simp)
        rw [totalSize_append] at small
        omega
      · cases middle with
        | nil =>
          have far := reached (by
            rw [nil_append] at afterParts
            rw [← afterParts]
            exact cons_ne_nil _ _)
          rw [append_nil] at far
          omega
        | cons first middle =>
          rw [cons_append, List.cons.injEq] at afterParts
          exact filled chunk (by simp [afterParts.1]) isVoid
  · intro releasable
    have all := releasable.filled_destroyed sized split fitsDestroyed tested
    have filled : ∀ chunk ∈ destroyed, ¬ chunk.isVoid = true := by
      intro chunk member
      obtain ⟨before, after, cut⟩ := append_of_mem member
      exact (all _ before chunk after rfl cut).2
    obtain ⟨bytes, enough⟩ := @enough_foldl_drop setup destroyed state required
      sizedDestroyed filled (by omega)
    refine ⟨destroyed, left, split, ?_, ?_, ?_, bytes, ?_, ?_⟩
    · rw [foldl_drop]
    · intro before chunk after cut
      exact (all _ before chunk after rfl cut).1
    · intro some
      exact enough.mp (stopped some).2
    · rw [foldl_drop]
      exact Nat.zero_add _
    · rw [answer_iff, ← enough, RingRelease.enough, decide_eq_true_eq]

def ringInput : Input :=
  { id := 1, storageType := .memrb, routable := true, defaultTag := [] }

def ringSetup : Setup :=
  { hash64 := fun _ => 0
    outputs := []
    inputs := [ringInput]
    storageBacklog := { ringInput with id := 0 }
    storageDelBadChunks := false
    ids_nodup := List.nodup_nil }

def ringChunk (ref size : Nat) (task : Option (Engine.Task OutId)) : Chunk ringSetup :=
  { ref := ref
    input := ringInput
    eventType := .logs
    tag := [97]
    routesMask := RoutesMask.zeroed _
    fsCounted := false
    busy := false
    locked := false
    task := task
    report :=
      { realSize := size, contentSize := size, metaSize := 0, tagReadable := true }
    accounted := 0 }

def ringState (chunks : List (Chunk ringSetup)) : State ringSetup :=
  { State.initial ringSetup (fun _ => 0) with
    next := 10
    chunks := chunks }

def usedTask : Engine.Task OutId :=
  { iIns := 1, status := .running, users := 1, routes := [], retries := [] }

/-- The chunk in use stays, and the next one is large enough. -/
theorem ring_buffer_releases_oldest_threeChunks :
    let state := ringState
      [ringChunk 0 50 (some usedTask), ringChunk 1 100 none,
        ringChunk 2 30 none]
    let result := memrbInputChunkReleaseSpace state ringInput 60#64
    result.state.chunks.map Chunk.ref = [0, 2] ∧ result.ret = 0 ∧
      ReleasesOldest state ringInput 60#64 result := by
  intro state result
  refine ⟨rfl, rfl, (ring_buffer_releases_oldest state ringInput 60#64
    (by decide) ?_ (by decide)).mpr ⟨?_, ?_⟩⟩
  · intro chunk member
    change chunk ∈ [ringChunk 1 100 none, ringChunk 2 30 none] at member
    simp only [mem_cons, not_mem_nil, or_false] at member
    rcases member with rfl | rfl
    all_goals exact ⟨by decide, by decide, by decide⟩
  · intro zero
    exact absurd zero (by decide)
  · intro before chunk after cut _
    have member : chunk ∈ state.idle ringInput := by
      rw [cut]
      exact mem_append_right _ mem_cons_self
    change chunk ∈ [ringChunk 1 100 none, ringChunk 2 30 none] at member
    simp only [mem_cons, not_mem_nil, or_false] at member
    rcases member with rfl | rfl
    all_goals decide

/-- A chunk without data is destroyed and taken for all the space that is
needed: 2^64 - 1 bytes are reported, and the next chunk stays.  And without
anything required a chunk is destroyed all the same. -/
theorem ring_buffer_counts_minus_one :
    (let state := ringState [ringChunk 0 0 none, ringChunk 1 100 none]
      let result := memrbInputChunkReleaseSpace state ringInput 60#64
      result.state.chunks.map Chunk.ref = [1] ∧ result.ret = 0 ∧
        result.droppedBytes.toNat = 2 ^ 64 - 1 ∧
        ¬ ReleasesOldest state ringInput 60#64 result) ∧
    (let state := ringState [ringChunk 1 100 none]
      let result := memrbInputChunkReleaseSpace state ringInput 0#64
      result.state.chunks.map Chunk.ref = [] ∧ ¬ ReleasesOldest state ringInput 0#64 result) := by
  constructor
  · intro state result
    refine ⟨rfl, rfl, rfl, ?_⟩
    rintro ⟨destroyed, left, split, _, _, _, bytes, number, _⟩
    cases destroyed with
    | nil => cases number
    | cons first destroyed =>
      cases destroyed with
      | nil =>
        cases split
        exact absurd bytes (by decide)
      | cons second destroyed => cases number
  · intro state result
    refine ⟨rfl, ?_⟩
    rintro ⟨destroyed, left, split, _, minimal, _, _, number, _⟩
    cases destroyed with
    | nil => cases number
    | cons first destroyed => exact absurd (minimal [] first destroyed rfl) (Nat.not_lt_zero _)

end FluentBit.InputChunk
