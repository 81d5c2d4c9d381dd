import FluentBit.InputChunk.Append

/-!
# The over-limit set

The limit check hands the outputs that need room to the release as bits of an
`int`.  This module says which outputs the release tries, and for which
configurations that is the set of outputs whose limit the new data exceeds.
-/

namespace FluentBit.InputChunk

open List

variable {setup : Setup}

theorem tried_foldl (shift : IntShift) (chunk : Chunk setup)
    (overlimit : BitVec 32) (outputs : List Output) (search : Search setup) :
    (outputs.foldl (findSpaceRound shift chunk overlimit) search).tried =
      search.tried ++ outputs.filter fun output =>
        chunk.charges output && shift.shiftOne output.id &&& overlimit != 0#32 := by
  induction outputs generalizing search with
  | nil => simp
  | cons output outputs ih =>
    rw [foldl_cons, ih, filter_cons]
    simp only [findSpaceRound, Chunk.charges]
    by_cases limited : output.limited = true
    · by_cases routed : chunk.routed output = true
      · by_cases clear : shift.shiftOne output.id &&& overlimit = 0#32
        all_goals simp [limited, routed, clear]
      · simp [limited, routed]
    · simp [limited]

section
variable (shift : IntShift) (state : State setup) (chunk : Chunk setup)

/-- The release tries the charged outputs that share a bit with the result of
the limit check, whatever it releases on the way. -/
theorem tried_eq (overlimit : BitVec 32) :
    (findSpaceNewData shift state chunk overlimit).tried =
      setup.outputs.filter fun output =>
        chunk.charges output && shift.shiftOne output.id &&& overlimit != 0#32 := by
  simp [findSpaceNewData, tried_foldl]

theorem getLsbD_overlimit_foldl (chunkSize : SizeT) (position : Nat) (outputs : List Output)
    (start : BitVec 32) :
    (outputs.foldl (fun overlimit output =>
        if !output.limited || !chunk.routed output then overlimit
        else if state.overlimit output chunkSize then
          overlimit ||| shift.shiftOne output.id
        else overlimit) start).getLsbD position =
      (start.getLsbD position || outputs.any fun output =>
        chunk.charges output && state.overlimit output chunkSize &&
          (shift.shiftOne output.id).getLsbD position) := by
  induction outputs generalizing start with
  | nil => simp
  | cons output outputs ih =>
    rw [foldl_cons, ih, any_cons]
    simp only [Chunk.charges]
    by_cases limited : output.limited = true
    · by_cases routed : chunk.routed output = true
      · by_cases found : state.overlimit output chunkSize = true
        · simp [limited, routed, found, Bool.or_assoc]
        · simp [limited, routed, found]
      · simp [limited, routed]
    · simp [limited]

theorem getLsbD_hasOverlimitRoutes (chunkSize : SizeT) (position : Nat) :
    (hasOverlimitRoutes shift state chunk chunkSize).getLsbD position = true ↔
      ∃ output ∈ setup.outputs, chunk.charges output = true ∧
        state.overlimit output chunkSize = true ∧
          (shift.shiftOne output.id).getLsbD position = true := by
  rw [hasOverlimitRoutes, getLsbD_overlimit_foldl]
  simp [and_assoc]

end

variable {state : State setup} {chunk : Chunk setup} {chunkSize : SizeT}
  {shift : IntShift} {output : Output}

theorem hasOverlimitRoutes_eq_zero (shift : IntShift)
    (within : ∀ output ∈ setup.outputs, chunk.charges output = true →
      state.overlimit output chunkSize = false) :
    hasOverlimitRoutes shift state chunk chunkSize = 0#32 := by
  rw [BitVec.zero_iff_eq_false]
  intro position
  rw [← Bool.not_eq_true, getLsbD_hasOverlimitRoutes]
  rintro ⟨output, configured, charged, found, -⟩
  simp [within output configured charged] at found

theorem getLsbD_shiftOne {id position : Nat} (small : id < 32) :
    (shift.shiftOne id).getLsbD position = decide (position = id) := by
  rw [shift.defined id small, ← BitVec.twoPow_eq, BitVec.getLsbD_twoPow]
  simp [small, eq_comm]

theorem shiftOne_and_ne_zero {id : Nat} (small : id < 32) (word : BitVec 32) :
    (shift.shiftOne id &&& word != 0#32) = word.getLsbD id := by
  rw [shift.defined id small, BitVec.and_comm, ← BitVec.twoPow_eq]
  exact RoutesMask.and_twoPow_ne_zero small word

/-- The bytes an output has to hold with the new data. -/
def State.demand (state : State setup) (output : Output) (chunkSize : SizeT) : Nat :=
  (state.fsChunksSize output.id).toNat +
    (state.fsBacklogChunksSize output.id).toNat + chunkSize.toNat

def State.exceeds (state : State setup) (output : Output) (chunkSize : SizeT) : Bool :=
  decide (output.totalLimitSize.toNat < state.demand output chunkSize)

/-- The outputs with a limit, routed by the chunk, that the new data would
exceed. -/
def overlimitSet (state : State setup) (chunk : Chunk setup) (chunkSize : SizeT) : List Output :=
  setup.outputs.filter fun output =>
    chunk.charges output && state.exceeds output chunkSize

/-- The release tries exactly the outputs over their limit, and the check
returns zero exactly when there are none. -/
structure OverlimitExact (shift : IntShift) (state : State setup)
    (chunk : Chunk setup) (chunkSize : SizeT) : Prop where
  tried :
    (findSpaceNewData shift state chunk
      (hasOverlimitRoutes shift state chunk chunkSize)).tried = overlimitSet state chunk chunkSize
  zero :
    hasOverlimitRoutes shift state chunk chunkSize = 0#32 ↔ overlimitSet state chunk chunkSize = []

/-- The sum of the check does not wrap to a value within the limit. -/
def State.Unwrapped (state : State setup) (output : Output) (chunkSize : SizeT) : Prop :=
  state.demand output chunkSize < 2 ^ 64 ∨
    output.totalLimitSize.toNat < state.demand output chunkSize % 2 ^ 64

theorem overlimit_iff (state : State setup) (output : Output) (chunkSize : SizeT) :
    state.overlimit output chunkSize = true ↔
      output.totalLimitSize.toNat < state.demand output chunkSize % 2 ^ 64 := by
  simp only [State.overlimit, decide_eq_true_eq, BitVec.lt_def,
    BitVec.toNat_add, State.demand, Nat.mod_add_mod]

theorem unwrapped_iff (state : State setup) (output : Output) (chunkSize : SizeT) :
    state.Unwrapped output chunkSize ↔
      state.overlimit output chunkSize = state.exceeds output chunkSize := by
  have limit := output.totalLimitSize.isLt
  rw [Bool.eq_iff_iff, overlimit_iff]
  simp only [State.Unwrapped, State.exceeds, decide_eq_true_eq]
  have small := Nat.mod_le (state.demand output chunkSize) (2 ^ 64)
  constructor
  · rintro (inside | above)
    · rw [Nat.mod_eq_of_lt inside]
    · exact ⟨fun _ => by omega, fun _ => above⟩
  · intro agree
    by_cases inside : state.demand output chunkSize < 2 ^ 64
    · exact .inl inside
    · exact .inr (agree.mpr (by omega))

theorem mem_overlimitSet :
    output ∈ overlimitSet state chunk chunkSize ↔
      output ∈ setup.outputs ∧ chunk.charges output = true ∧
        state.exceeds output chunkSize = true := by
  simp [overlimitSet]

theorem mem_tried {overlimit : BitVec 32} :
    output ∈ (findSpaceNewData shift state chunk overlimit).tried ↔
      output ∈ setup.outputs ∧ chunk.charges output = true ∧
        (shift.shiftOne output.id &&& overlimit != 0#32) = true := by
  simp [tried_eq]

/-- The shift gives the charged outputs no bit but their own. -/
def Separates (shift : IntShift) (chunk : Chunk setup) : Prop :=
  ∀ output ∈ setup.outputs, chunk.charges output = true → ∀ position,
    (shift.shiftOne output.id).getLsbD position = true → position = output.id

theorem getLsbD_iff_of_separates (separates : Separates shift chunk)
    (configured : output ∈ setup.outputs)
    (charged : chunk.charges output = true) (small : output.id < 32) :
    (hasOverlimitRoutes shift state chunk chunkSize).getLsbD output.id =
      state.overlimit output chunkSize := by
  rw [Bool.eq_iff_iff, getLsbD_hasOverlimitRoutes]
  constructor
  · rintro ⟨other, otherConfigured, otherCharged, found, bit⟩
    have same : output.id = other.id := separates other otherConfigured otherCharged _ bit
    have equal : output = other :=
      inj_on_of_nodup_map setup.ids_nodup configured otherConfigured same
    rwa [equal]
  · intro found
    exact ⟨output, configured, charged, found, by simp [getLsbD_shiftOne small]⟩

theorem separates_of_small
    (small : ∀ output ∈ setup.outputs, chunk.charges output = true →
      output.id < 32) : Separates shift chunk := by
  intro output configured charged position bit
  simpa [getLsbD_shiftOne (small output configured charged)] using bit

section
variable (unwrapped : ∀ output ∈ setup.outputs, chunk.charges output = true →
  state.Unwrapped output chunkSize)
include unwrapped

theorem exact_of_within
    (within : ∀ output ∈ setup.outputs, chunk.charges output = true →
      state.exceeds output chunkSize = false) (shift : IntShift) :
    OverlimitExact shift state chunk chunkSize := by
  have zero : hasOverlimitRoutes shift state chunk chunkSize = 0#32 := by
    apply hasOverlimitRoutes_eq_zero
    intro output configured charged
    rw [(unwrapped_iff ..).mp (unwrapped output configured charged)]
    exact within output configured charged
  have empty : overlimitSet state chunk chunkSize = [] := by
    rw [eq_nil_iff_forall_not_mem]
    intro output member
    obtain ⟨configured, charged, above⟩ := mem_overlimitSet.mp member
    simp [within output configured charged] at above
  constructor
  · rw [empty, zero, tried_eq]
    simp
  · simp [zero, empty]

theorem exact_of_small
    (small : ∀ output ∈ setup.outputs, chunk.charges output = true →
      output.id < 32) (shift : IntShift) :
    OverlimitExact shift state chunk chunkSize := by
  have bit : ∀ output ∈ setup.outputs, chunk.charges output = true →
      (hasOverlimitRoutes shift state chunk chunkSize).getLsbD output.id =
        state.exceeds output chunkSize := by
    intro output configured charged
    rw [getLsbD_iff_of_separates (separates_of_small small) configured charged
      (small output configured charged)]
    exact (unwrapped_iff ..).mp (unwrapped output configured charged)
  constructor
  · rw [tried_eq, overlimitSet]
    apply filter_congr
    intro output configured
    by_cases charged : chunk.charges output = true
    · rw [shiftOne_and_ne_zero (small output configured charged), bit output configured charged]
    · simp [charged]
  · constructor
    · intro zero
      rw [eq_nil_iff_forall_not_mem]
      intro output member
      obtain ⟨configured, charged, above⟩ := mem_overlimitSet.mp member
      rw [← bit output configured charged, zero] at above
      simp at above
    · intro empty
      apply hasOverlimitRoutes_eq_zero
      intro output configured charged
      rw [(unwrapped_iff ..).mp (unwrapped output configured charged)]
      by_contra above
      have member : output ∈ overlimitSet state chunk chunkSize :=
        mem_overlimitSet.mpr ⟨configured, charged, by simpa using above⟩
      simp [empty] at member

end

/-- A shift that gives nothing to ids without a bit. -/
def droppingShift : IntShift :=
  { shiftOne := fun id => if id < 32 then 1#32 <<< id else 0#32
    defined := fun id small => by simp [small] }

/-- A shift that gives all bits to ids without one of their own. -/
def floodingShift : IntShift :=
  { shiftOne := fun id =>
      if id < 32 then 1#32 <<< id else BitVec.allOnes 32
    defined := fun id small => by simp [small] }

theorem separates_dropping (chunk : Chunk setup) : Separates droppingShift chunk := by
  intro output _ _ position bit
  by_cases small : output.id < 32
  · simpa [getLsbD_shiftOne small] using bit
  · simp [droppingShift, small] at bit

/-- An output the dropping shift lets the release try has a bit of its own,
and the check found it over its limit. -/
theorem of_mem_tried_dropping
    (tried : output ∈ (findSpaceNewData droppingShift state chunk
      (hasOverlimitRoutes droppingShift state chunk chunkSize)).tried) :
    output.id < 32 ∧ state.overlimit output chunkSize = true := by
  obtain ⟨configured, charged, shared⟩ := mem_tried.mp tried
  have small : output.id < 32 := by
    by_contra large
    simp [droppingShift, large] at shared
  rw [shiftOne_and_ne_zero small,
    getLsbD_iff_of_separates (separates_dropping chunk) configured charged small] at shared
  exact ⟨small, shared⟩

theorem unwrapped_of_exact (exactly : OverlimitExact droppingShift state chunk chunkSize)
    (configured : output ∈ setup.outputs) (charged : chunk.charges output = true) :
    state.Unwrapped output chunkSize := by
  by_cases inside : state.demand output chunkSize < 2 ^ 64
  · exact .inl inside
  · have limit := output.totalLimitSize.isLt
    have above : state.exceeds output chunkSize = true := decide_eq_true (by omega)
    have tried := mem_overlimitSet.mpr ⟨configured, charged, above⟩
    rw [← exactly.tried] at tried
    exact .inr ((overlimit_iff ..).mp (of_mem_tried_dropping tried).2)

theorem small_of_exact (dropping : OverlimitExact droppingShift state chunk chunkSize)
    (flooding : OverlimitExact floodingShift state chunk chunkSize) {exceeding : Output}
    (found : exceeding ∈ overlimitSet state chunk chunkSize) (configured : output ∈ setup.outputs)
    (charged : chunk.charges output = true) : output.id < 32 := by
  by_contra large
  have nonzero :
      hasOverlimitRoutes floodingShift state chunk chunkSize ≠ 0#32 := by
    intro zero
    simp [flooding.zero.mp zero] at found
  -- The flooding shift lets the release try the output, the dropping one not.
  have tried : output ∈ (findSpaceNewData floodingShift state chunk
      (hasOverlimitRoutes floodingShift state chunk chunkSize)).tried :=
    mem_tried.mpr ⟨configured, charged, by
      rw [show floodingShift.shiftOne output.id = BitVec.allOnes 32 from
        if_neg large, BitVec.allOnes_and]
      simpa using nonzero⟩
  rw [flooding.tried, ← dropping.tried] at tried
  exact large (of_mem_tried_dropping tried).1

/-- Whatever the shift gives for ids without a bit, the release tries exactly
the outputs over their limit if and only if no sum wraps, and either no
charged output is over its limit or all of them have a bit in an `int`. -/
theorem overlimitExact_iff (state : State setup) (chunk : Chunk setup) (chunkSize : SizeT) :
    (∀ shift, OverlimitExact shift state chunk chunkSize) ↔
      (∀ output ∈ setup.outputs, chunk.charges output = true → state.Unwrapped output chunkSize) ∧
      ((∀ output ∈ setup.outputs, chunk.charges output = true → output.id < 32) ∨
        ∀ output ∈ setup.outputs, chunk.charges output = true →
          state.exceeds output chunkSize = false) := by
  constructor
  · intro exactly
    refine ⟨fun output configured charged =>
      unwrapped_of_exact (exactly _) configured charged, ?_⟩
    by_cases empty : overlimitSet state chunk chunkSize = []
    · right
      intro output configured charged
      by_contra above
      have member : output ∈ overlimitSet state chunk chunkSize :=
        mem_overlimitSet.mpr ⟨configured, charged, by simpa using above⟩
      simp [empty] at member
    · left
      obtain ⟨exceeding, found⟩ := exists_mem_of_ne_nil _ empty
      intro output configured charged
      exact small_of_exact (exactly _) (exactly _) found configured charged
  · rintro ⟨unwrapped, small | within⟩ shift
    · exact exact_of_small unwrapped small shift
    · exact exact_of_within unwrapped within shift

/-- The shift of a processor that uses the low five bits of the count. -/
def maskingShift : IntShift :=
  { shiftOne := fun id => 1#32 <<< (id % 32)
    defined := fun id small => by rw [Nat.mod_eq_of_lt small] }

/-- Outputs 0 to 32, of which the first and the last may hold 100 bytes. -/
def thirtyThreeOutputs : Setup :=
  { hash64 := fun _ => 0
    outputs := (List.range 33).map fun id =>
      { id := id
        totalLimitSize := if id = 0 ∨ id = 32 then 100#64 else -1#64
        matchRule := none
        matchRegex := some fun _ => true }
    inputs := []
    storageBacklog :=
      { id := 0, storageType := .fs, routable := true, defaultTag := [] }
    storageDelBadChunks := false
    ids_nodup := by decide }

def firstOutputFull : State thirtyThreeOutputs :=
  { State.initial thirtyThreeOutputs (fun _ => 0) with
    fsChunksSize := fun id => if id = 0 then 100#64 else 0#64 }

def chunkForAll : Chunk thirtyThreeOutputs :=
  firstOutputFull.newChunk thirtyThreeOutputs.storageBacklog .logs []
    { realSize := 0, contentSize := 0, metaSize := 0, tagReadable := true }

/-- The release also tries the last output, which has room: it shares the bit
of the first one. -/
theorem overlimit_shares_bit :
    (findSpaceNewData maskingShift firstOutputFull chunkForAll
        (hasOverlimitRoutes maskingShift firstOutputFull chunkForAll
          1#64)).tried.map Output.id = [0, 32] ∧
      (overlimitSet firstOutputFull chunkForAll 1#64).map Output.id = [0] ∧
      ¬OverlimitExact maskingShift firstOutputFull chunkForAll 1#64 := by
  have tried : (findSpaceNewData maskingShift firstOutputFull chunkForAll
      (hasOverlimitRoutes maskingShift firstOutputFull chunkForAll
        1#64)).tried.map Output.id = [0, 32] := by
    decide +kernel
  have needed :
      (overlimitSet firstOutputFull chunkForAll 1#64).map Output.id = [0] := by
    decide +kernel
  refine ⟨tried, needed, fun exactly => ?_⟩
  rw [exactly.tried, needed] at tried
  simp at tried

end FluentBit.InputChunk
