import FluentBit.InputChunk.Limit

/-!
# The storage backlog

The chunk files found on disk at startup wait in one queue per output.  A file
has an entry in the queue of every output its tag routes to, and every output
counts the bytes of its own queue.  Files leave all queues at once: they are
handed to the engine, or closed because they cannot be read or because an
output needs space.  At any time the files that left determine the queues.

What Chunk I/O answers is given with every call.  The size of a file does not
change, and allocations succeed.
-/

namespace FluentBit.StorageBacklog

open InputChunk Run RoutesMask

/-- The answers of `cio_chunk_up_force`: `CIO_OK`, which also stands for a
chunk that is up already, `CIO_CORRUPTED`, `CIO_ERROR` and `CIO_RETRY`. -/
inductive Raised where
  | ok
  | corrupted
  | error
  | retry
deriving DecidableEq, Repr

/-- A chunk file found on disk.  A corrupted one may be irrecoverable
(`CIO_ERR_BAD_FILE_SIZE` or `CIO_ERR_BAD_LAYOUT`), and the tag of one that is
up may be unreadable. -/
structure Found where
  file : FileRef
  raised : Raised
  irrecoverable : Bool
  tag : Option (List Byte)
deriving DecidableEq, Repr

/-- The configuration and the disk.  `flb_output_new` numbers the outputs in
their order. -/
structure Config where
  setup : Setup
  ids_eq : setup.outputs.map Output.id = List.range setup.outputs.length
  memLimit : SizeT
  files : List Found
  files_nodup : (files.map Found.file).Nodup
  realSize : FileRef → Int

/-- The chunks, queues and counters, the files handed to the engine and those
closed. -/
structure Backlog (setup : Setup) where
  store : State setup
  handed : List FileRef
  closed : List FileRef

variable {setup : Setup}

def Backlog.initial (config : Config) : Backlog config.setup :=
  { store := State.initial config.setup config.realSize, handed := [], closed := [] }

def Backlog.close (backlog : Backlog setup) (file : FileRef) : Backlog setup :=
  { backlog with closed := backlog.closed ++ [file] }

/-- `sb_append_chunk_to_segregated_backlogs`, with
`sb_append_chunk_to_segregated_backlog` for the outputs in the routes mask.
Nothing is appended when the tag cannot be read; the size is unsigned, so the
check for a negative one never fails. -/
def sbAppendChunkToSegregatedBacklogs (state : State setup) (file : FileRef)
    (tag : Option (List Byte)) : Option (State setup) :=
  match tag with
  | none => none
  | some tag =>
    let chunkSize := SizeT.ofInt (state.fileRealSize file)
    let mask := routesMaskSetByTag setup tag
    let routed := fun output : Output => RoutesMask.getBit mask output.id
    some
      { state with
        backlogs := Keyed.updateEach Output.id routed
          (· ++ [{ chunk := file, size := chunkSize }]) state.backlogs
          setup.outputs
        fsBacklogChunksSize := Keyed.updateEach Output.id routed
          (· + chunkSize) state.fsBacklogChunksSize setup.outputs }

/-- The loops of `sb_segregate_chunks`.  The engine does not start when a file
that is not corrupted cannot be brought up. -/
def sbSegregateChunks (backlog : Backlog setup) : List Found → Option (Backlog setup)
  | [] => some backlog
  | found :: rest =>
    match found.raised with
    | .corrupted =>
      if setup.storageDelBadChunks && found.irrecoverable then
        sbSegregateChunks (backlog.close found.file) rest
      else sbSegregateChunks backlog rest
    | .error => none
    | .retry => none
    | .ok =>
      match sbAppendChunkToSegregatedBacklogs backlog.store found.file
          found.tag with
      | none => sbSegregateChunks (backlog.close found.file) rest
      | some store => sbSegregateChunks { backlog with store := store } rest

/-- What a visit to the first file of a queue is told: the answer of
`cio_chunk_up_force`, `flb_input_chunk_get_event_type`,
`cio_chunk_get_content_size`, and what `flb_input_chunk_map` reads. -/
structure Answer where
  raised : Raised
  eventType : Option EventType
  contentSize : Int
  tag : List Byte
  report : Option Report
deriving DecidableEq, Repr

/-- Whether `flb_input_chunk_map` returns a chunk. -/
def Answer.mappable (answer : Answer) : Bool :=
  match answer.report with
  | none => false
  | some report => decide (0 ≤ getRealSize report)

def Backlog.discard (backlog : Backlog setup) (file : FileRef) : Backlog setup :=
  { backlog with store := sbRemoveChunkFromSegregatedBacklogs backlog.store file }.close file

/-- A file leaves the queues as a chunk of the engine. -/
def Backlog.hand (backlog : Backlog setup) (file : FileRef)
    (eventType : EventType) (answer : Answer) : Backlog setup :=
  { backlog with
    store := sbRemoveChunkFromSegregatedBacklogs
      (map backlog.store setup.storageBacklog eventType answer.tag answer.report) file
    handed := backlog.handed ++ [file] }

/-- The body of the inner loop of `cb_queue_chunks` for a queue that is not
empty, with the bytes it adds to the total. -/
def queueChunk (backlog : Backlog setup) (file : FileRef) (answer : Answer) :
    Backlog setup × SizeT :=
  match answer.raised with
  | .corrupted => (backlog.discard file, 0#64)
  | .error => (backlog, 0#64)
  | .retry => (backlog, 0#64)
  | .ok =>
    match answer.eventType with
    | none => (backlog.discard file, 0#64)
    | some eventType =>
      if answer.contentSize ≤ 0 then (backlog.discard file, 0#64)
      else if answer.mappable then
        (backlog.hand file eventType answer, SizeT.ofInt answer.contentSize)
      else (backlog.discard file, 0#64)

/-- The local variables of `cb_queue_chunks` and the answers still to come. -/
structure Round (setup : Setup) where
  backlog : Backlog setup
  total : SizeT
  emptyOutputQueueCount : Nat
  answers : List Answer

/-- The inner loop of `cb_queue_chunks`.  It stops where the answers end. -/
def queuePass : List Output → Round setup → Round setup
  | [], round => round
  | output :: rest, round =>
    match round.backlog.store.backlogs output.id with
    | [] =>
      queuePass rest
        { round with emptyOutputQueueCount := round.emptyOutputQueueCount + 1 }
    | entry :: _ =>
      match round.answers with
      | [] => round
      | answer :: answers =>
        let result := queueChunk round.backlog entry.chunk answer
        queuePass rest
          { round with backlog := result.1, total := round.total + result.2, answers := answers }

/-- The condition of the outer loop of `cb_queue_chunks`. -/
def Round.continues (memLimit : SizeT) (round : Round setup) : Bool :=
  decide (round.total < memLimit) &&
    decide (round.emptyOutputQueueCount < setup.outputs.length)

/-- The outer loop of `cb_queue_chunks`, for a number of passes. -/
def queueLoop (memLimit : SizeT) : Nat → Round setup → Round setup
  | 0, round => round
  | passes + 1, round =>
    if round.continues memLimit then
      queueLoop memLimit passes (queuePass setup.outputs { round with emptyOutputQueueCount := 0 })
    else round

theorem queuePass_answers_le (outputs : List Output) (round : Round setup) :
    (queuePass outputs round).answers.length ≤ round.answers.length := by
  induction outputs generalizing round with
  | nil => exact Nat.le_refl _
  | cons output rest ih =>
    simp only [queuePass]
    split
    · exact ih _
    · split
      · exact Nat.le_refl _
      · next answer answers known =>
        apply Nat.le_trans (ih _)
        simp [known]

/-- A pass uses an answer, unless it has none or finds all queues empty. -/
theorem queuePass_progress (outputs : List Output) (round : Round setup) :
    (queuePass outputs round).answers.length < round.answers.length ∨
      (queuePass outputs round).answers = [] ∨
      (queuePass outputs round).emptyOutputQueueCount =
        round.emptyOutputQueueCount + outputs.length := by
  induction outputs generalizing round with
  | nil => exact .inr (.inr rfl)
  | cons output rest ih =>
    simp only [queuePass]
    split
    · have later := ih
        { round with emptyOutputQueueCount := round.emptyOutputQueueCount + 1 }
      simpa [Nat.add_comm, Nat.add_left_comm] using later
    · split
      · next none => exact .inr (.inl none)
      · next answer answers known =>
        apply Or.inl
        apply Nat.lt_of_le_of_lt (queuePass_answers_le rest _)
        simp [known]

/-- With one pass more than answers the loop ends by its own condition, or
where the answers end. -/
theorem queueLoop_ends (memLimit : SizeT) (passes : Nat)
    (round : Round setup) (enough : round.answers.length < passes) :
    (queueLoop memLimit passes round).answers = [] ∨
      (queueLoop memLimit passes round).continues memLimit = false := by
  induction passes generalizing round with
  | zero => omega
  | succ passes ih =>
    simp only [queueLoop]
    split
    · rcases queuePass_progress setup.outputs
          { round with emptyOutputQueueCount := 0 } with
        used | ended | empty
      · dsimp only at used
        exact ih _ (by omega)
      · cases passes with
        | zero => exact .inl ended
        | succ passes =>
          apply ih
          simp [ended]
      · have stops : (queuePass setup.outputs
            { round with emptyOutputQueueCount := 0 }).continues memLimit =
              false := by
          simp [Round.continues, empty]
        cases passes with
        | zero => exact .inr stops
        | succ passes =>
          simp only [queueLoop, stops, Bool.false_eq_true, if_false]
          exact .inr trivial
    · next stops =>
      apply Or.inr
      simpa using stops

/-- `cb_queue_chunks`, with what `flb_input_chunk_total_size` returns.  A
queue whose first file can neither be brought up nor be discarded is visited
again and again: the answers are those of the visits made so far. -/
def cbQueueChunks (memLimit : SizeT) (backlog : Backlog setup)
    (total : SizeT) (answers : List Answer) : Backlog setup :=
  if total ≥ memLimit then backlog
  else
    (queueLoop memLimit (answers.length + 1)
      { backlog := backlog
        total := total
        emptyOutputQueueCount := 0
        answers := answers }).backlog

/-- The loop of `sb_release_output_queue_space`, with the files it closes.
The walk keeps the next entry before the current one is removed.  The source
compares two `size_t`, which is the same for the positive requirement of the only
caller while the sum does not wrap. -/
def releaseLoop (required : Int) : List SbOutChunk → Backlog setup → Nat → Backlog setup × Nat
  | [], backlog, released => (backlog, released)
  | entry :: rest, backlog, released =>
    let released := released + entry.size.toNat
    let backlog := backlog.discard entry.chunk
    if (released : Int) ≥ required then (backlog, released)
    else releaseLoop required rest backlog released

/-- The queues and counters after the loop do not depend on which files were
closed. -/
theorem releaseLoop_store (required : Int) (entries : List SbOutChunk)
    (backlog : Backlog setup) (released : Nat) :
    ((releaseLoop required entries backlog released).1.store,
        (releaseLoop required entries backlog released).2) =
      sbReleaseLoop required entries backlog.store released := by
  induction entries generalizing backlog released with
  | nil => rfl
  | cons entry rest ih =>
    simp only [releaseLoop, sbReleaseLoop]
    split
    · rfl
    · exact ih (backlog.discard entry.chunk) _

def releaseOutputQueueSpace (backlog : Backlog setup) (output : Output) (required : Int) :
    Backlog setup × Int :=
  let result := releaseLoop required (backlog.store.backlogs output.id) backlog 0
  (result.1, required - result.2)

theorem releaseOutputQueueSpace_store (backlog : Backlog setup) (output : Output) (required : Int) :
    ((releaseOutputQueueSpace backlog output required).1.store,
        (releaseOutputQueueSpace backlog output required).2) =
      sbReleaseOutputQueueSpace backlog.store output required := by
  simp only [releaseOutputQueueSpace, sbReleaseOutputQueueSpace, ← releaseLoop_store]

inductive Event where
  | queue (total : SizeT) (answers : List Answer)
  | release (output : OutId) (required : Int)

/-- One step, on outputs that exist. -/
def step (config : Config) (backlog : Backlog config.setup) : Event → Option (Backlog config.setup)
  | .queue total answers => some (cbQueueChunks config.memLimit backlog total answers)
  | .release output required =>
    (Keyed.lookup Output.id config.setup.outputs output).map fun output =>
      (releaseOutputQueueSpace backlog output required).1

open List Keyed

theorem testBit_foldl {setup : Setup} (tag : List Byte) (id : Nat)
    (outputs : List Output) (mask : RoutesMask.Mask setup.maskConfig)
    (inside : ∀ output ∈ outputs, output.id < setup.maskConfig.routeMaskSlots) :
    RoutesMask.testBit (outputs.foldl (fun mask output =>
        if output.accepts tag then RoutesMask.setBit mask output.id
        else mask) mask) id =
      (outputs.any (fun output =>
        output.accepts tag && decide (id = output.id)) || RoutesMask.testBit mask id) := by
  induction outputs generalizing mask with
  | nil => rfl
  | cons output rest ih =>
    rw [foldl_cons, ih _ fun other member =>
      inside other (.tail _ member)]
    by_cases accepted : output.accepts tag = true
    · have bit := testBit_setBit (inside output (.head _)) mask id
      simp only [accepted, if_true, bit, any_cons, Bool.true_and]
      cases decide (id = output.id) <;> simp
    · simp [accepted]

variable {config : Config} {output : Output}

theorem Config.id_lt (member : output ∈ config.setup.outputs) :
    output.id < config.setup.outputs.length := by
  have listed : output.id ∈ config.setup.outputs.map Output.id := mem_map_of_mem member
  rw [config.ids_eq] at listed
  exact mem_range.mp listed

theorem getBit_routesMaskSetByTag (tag : List Byte) (member : output ∈ config.setup.outputs) :
    RoutesMask.getBit (routesMaskSetByTag config.setup tag) output.id = output.accepts tag := by
  have inside : ∀ other ∈ config.setup.outputs,
      other.id < config.setup.maskConfig.routeMaskSlots := by
    intro other listed
    exact lt_slots_of_lt (config.id_lt listed)
  have clear : testBit (zeroed config.setup.maskConfig) output.id = false :=
    testBit_run ([] : List (RoutesMask.Call config.setup.outputs.length)) output.id
  rw [getBit_eq_testBit (inside output member), routesMaskSetByTag,
    testBit_foldl tag _ _ _ inside, clear, Bool.or_false, Bool.eq_iff_iff, any_eq_true]
  constructor
  · intro found
    obtain ⟨other, listed, both⟩ := found
    simp only [Bool.and_eq_true, decide_eq_true_eq] at both
    have same : other = output :=
      inj_on_of_nodup_map config.setup.ids_nodup listed member both.2.symm
    exact same ▸ both.1
  · intro accepted
    exact ⟨output, member, by simp [accepted]⟩

def Found.routesTo (found : Found) (output : Output) : Bool :=
  decide (found.raised = .ok) &&
    match found.tag with
    | none => false
    | some tag => output.accepts tag

def Config.entry (config : Config) (found : Found) : SbOutChunk :=
  { chunk := found.file, size := SizeT.ofInt (config.realSize found.file) }

def Config.queue (config : Config) (files : List Found) (gone : List FileRef) (output : Output) :
    List SbOutChunk :=
  (files.filter fun found =>
    found.routesTo output && decide (found.file ∉ gone)).map config.entry

variable {files : List Found}

theorem mem_queue {gone : List FileRef} {file : FileRef} :
    file ∈ (config.queue files gone output).map SbOutChunk.chunk ↔
      ∃ found ∈ files, found.file = file ∧ found.routesTo output = true ∧ file ∉ gone := by
  simp only [Config.queue, map_map, mem_map, mem_filter,
    Bool.and_eq_true, decide_eq_true_eq, Function.comp_apply, Config.entry]
  constructor
  · intro listed
    obtain ⟨found, ⟨member, routed, waits⟩, rfl⟩ := listed
    exact ⟨found, member, rfl, routed, waits⟩
  · intro listed
    obtain ⟨found, member, rfl, routed, waits⟩ := listed
    exact ⟨found, ⟨member, routed, waits⟩, rfl⟩

theorem queue_leave {gone left : List FileRef} {file : FileRef}
    (leaves : left.Perm (file :: gone)) (output : Output) :
    config.queue files left output =
      Keyed.erase SbOutChunk.chunk (config.queue files gone output) file := by
  rw [Keyed.erase, Config.queue, Config.queue, filter_map, filter_filter]
  congr 1
  apply filter_congr
  intro found _
  simp only [Function.comp_apply, Config.entry, leaves.mem_iff, mem_cons, not_or]
  by_cases same : found.file = file
  all_goals simp [same]

theorem queue_append (files : List Found) (gone : List FileRef) (found : Found) (output : Output) :
    config.queue (files ++ [found]) gone output =
      config.queue files gone output ++
        if found.routesTo output = true ∧ found.file ∉ gone then
          [config.entry found]
        else [] := by
  rw [Config.queue, Config.queue, filter_append, map_append]
  congr 1
  by_cases enters : found.routesTo output = true ∧ found.file ∉ gone
  · simp [enters.1, enters.2]
  · rw [if_neg enters]
    simpa using enters

variable {config : Config}

def Backlog.gone {setup : Setup} (backlog : Backlog setup) : List FileRef :=
  backlog.handed ++ backlog.closed

structure Sound (config : Config) (files : List Found) (backlog : Backlog config.setup) : Prop where
  distinct : (files.map Found.file).Nodup
  queues : ∀ output ∈ config.setup.outputs,
    backlog.store.backlogs output.id = config.queue files backlog.gone output
  others : ∀ id ∉ config.setup.outputs.map Output.id, backlog.store.backlogs id = []
  counters : ∀ id, backlog.store.fsBacklogChunksSize id =
    ((backlog.store.backlogs id).map SbOutChunk.size).sum
  gone_nodup : backlog.gone.Nodup
  gone_found : ∀ file ∈ backlog.gone, file ∈ files.map Found.file
  realSize : backlog.store.fileRealSize = config.realSize

variable {files : List Found} {backlog : Backlog config.setup} {id : OutId}
  {entry : SbOutChunk} {file : FileRef} {found : Found}
  {store : State config.setup} {tag : List Byte}

section
variable (sound : Sound config files backlog)
include sound

theorem Sound.nodup (id : OutId) :
    ((backlog.store.backlogs id).map SbOutChunk.chunk).Nodup := by
  by_cases known : id ∈ config.setup.outputs.map Output.id
  · obtain ⟨output, member, rfl⟩ := mem_map.mp known
    rw [sound.queues output member]
    rw [Config.queue, map_map]
    exact sound.distinct.sublist (filter_sublist.map _)
  · rw [sound.others id known]
    exact nodup_nil

theorem Sound.waits (member : entry ∈ backlog.store.backlogs id) :
    entry.chunk ∈ files.map Found.file ∧ entry.chunk ∉ backlog.gone ∧
      entry.size = SizeT.ofInt (config.realSize entry.chunk) := by
  by_cases known : id ∈ config.setup.outputs.map Output.id
  · obtain ⟨output, listed, rfl⟩ := mem_map.mp known
    rw [sound.queues output listed] at member
    obtain ⟨found, inside, rfl⟩ := mem_map.mp member
    simp only [mem_filter, Bool.and_eq_true, decide_eq_true_eq] at inside
    exact ⟨mem_map_of_mem inside.1, inside.2.2, rfl⟩
  · rw [sound.others id known] at member
    cases member

theorem counter_remove (file : FileRef) (id : OutId) :
    (sbRemoveChunkFromSegregatedBacklogs backlog.store file).fsBacklogChunksSize id =
      (((sbRemoveChunkFromSegregatedBacklogs backlog.store
        file).backlogs id).map SbOutChunk.size).sum := by
  simp only [sbRemoveChunkFromSegregatedBacklogs]
  by_cases queued : ((backlog.store.backlogs id).any fun entry =>
      decide (entry.chunk = file)) = true
  · obtain ⟨entry, member, same⟩ := any_eq_true.mp queued
    have chunk : entry.chunk = file := by simpa using same
    subst chunk
    rw [if_pos queued, sound.realSize, ← (sound.waits member).2.2, eraseP_eq_erase
      (sound.nodup id), sum_erase (sound.nodup id) member, sound.counters id]
  · have absent : ∀ entry ∈ backlog.store.backlogs id,
        ¬decide (entry.chunk = file) = true := by
      intro entry member same
      exact queued (any_eq_true.mpr ⟨entry, member, same⟩)
    rw [if_neg queued, eraseP_of_forall_not absent, sound.counters id]

theorem Sound.leave {next : Backlog config.setup} (found : file ∈ files.map Found.file)
    (present : file ∉ backlog.gone) (gone : next.gone.Perm (file :: backlog.gone))
    (same : SameBacklog (sbRemoveChunkFromSegregatedBacklogs backlog.store file) next.store) :
    Sound config files next := by
  constructor
  · exact sound.distinct
  · intro output member
    rw [same.backlogs, queue_leave gone, ← sound.queues output member]
    exact eraseP_eq_erase (sound.nodup output.id)
  · intro id unknown
    rw [same.backlogs]
    simp [sbRemoveChunkFromSegregatedBacklogs, sound.others id unknown]
  · intro id
    rw [same.backlogs, same.counters]
    exact counter_remove sound file id
  · exact gone.nodup_iff.mpr (nodup_cons.mpr ⟨present, sound.gone_nodup⟩)
  · intro other member
    rcases mem_cons.mp (gone.mem_iff.mp member) with rfl | earlier
    · exact found
    · exact sound.gone_found other earlier
  · rw [same.files]
    exact sound.realSize

theorem Sound.discard (member : entry ∈ backlog.store.backlogs id) :
    Sound config files (backlog.discard entry.chunk) := by
  obtain ⟨found, present, _⟩ := sound.waits member
  refine sound.leave found present ?_ ⟨rfl, rfl, rfl⟩
  change (backlog.handed ++ (backlog.closed ++ [entry.chunk])).Perm _
  rw [← append_assoc]
  exact perm_append_singleton _ _

end

theorem sameBacklog_map {setup : Setup} (state : State setup) (input : Input)
    (eventType : EventType) (tag : List Byte) (report : Option Report) :
    SameBacklog state (map state input eventType tag report) := by
  cases report with
  | none => exact ⟨rfl, rfl, rfl⟩
  | some report =>
    simp only [InputChunk.map]
    split <;> exact ⟨rfl, rfl, rfl⟩

theorem sameBacklog_remove {setup : Setup} {state next : State setup}
    (same : SameBacklog state next) (file : FileRef) :
    SameBacklog (sbRemoveChunkFromSegregatedBacklogs state file)
      (sbRemoveChunkFromSegregatedBacklogs next file) := by
  constructor
  · simp only [sbRemoveChunkFromSegregatedBacklogs, same.backlogs]
  · simp only [sbRemoveChunkFromSegregatedBacklogs, same.backlogs, same.counters, same.files]
  · exact same.files

section
variable (sound : Sound config files backlog) (member : entry ∈ backlog.store.backlogs id)
include sound member

theorem Sound.hand (eventType : EventType) (answer : Answer) :
    Sound config files (backlog.hand entry.chunk eventType answer) := by
  obtain ⟨found, present, _⟩ := sound.waits member
  apply sound.leave found present _ (sameBacklog_remove (sameBacklog_map _ _ _ _ _) _)
  change ((backlog.handed ++ [entry.chunk]) ++ backlog.closed).Perm _
  rw [append_assoc]
  exact perm_middle

theorem Sound.queueChunk (answer : Answer) :
    Sound config files (StorageBacklog.queueChunk backlog entry.chunk answer).1 := by
  have discarded := sound.discard member
  simp only [StorageBacklog.queueChunk]
  split
  · exact discarded
  · exact sound
  · exact sound
  · split
    · exact discarded
    · next eventType _ =>
      split
      · exact discarded
      · split
        · exact sound.hand member eventType answer
        · exact discarded

end

theorem sound_queuePass (outputs : List Output) {round : Round config.setup}
    (sound : Sound config files round.backlog) :
    Sound config files (queuePass outputs round).backlog := by
  induction outputs generalizing round with
  | nil => exact sound
  | cons output rest ih =>
    simp only [queuePass]
    split
    · exact ih sound
    · next entry later queue =>
      split
      · exact sound
      · next answer answers _ =>
        have first : entry ∈ round.backlog.store.backlogs output.id := by
          rw [queue]
          exact mem_cons_self
        exact ih (sound.queueChunk first answer)

theorem sound_queueLoop {memLimit : SizeT} (passes : Nat)
    {round : Round config.setup} (sound : Sound config files round.backlog) :
    Sound config files (queueLoop memLimit passes round).backlog := by
  induction passes generalizing round with
  | zero => exact sound
  | succ passes ih =>
    simp only [queueLoop]
    split
    · apply ih
      exact sound_queuePass _ sound
    · exact sound

section
variable (sound : Sound config files backlog)
include sound

theorem Sound.cbQueueChunks (memLimit total : SizeT) (answers : List Answer) :
    Sound config files (StorageBacklog.cbQueueChunks memLimit backlog total answers) := by
  simp only [StorageBacklog.cbQueueChunks]
  split
  · exact sound
  · exact sound_queueLoop _ sound

/-- The walk over the own queue finds it shortened by the entry it removed. -/
theorem sound_releaseLoop {required : Int} {entries : List SbOutChunk}
    (queue : backlog.store.backlogs id = entries)
    (released : Nat) : Sound config files (releaseLoop required entries backlog released).1 := by
  induction entries generalizing backlog released with
  | nil => exact sound
  | cons entry rest ih =>
    have first : entry ∈ backlog.store.backlogs id := by
      rw [queue]
      exact mem_cons_self
    have discarded := sound.discard first
    simp only [releaseLoop]
    split
    · exact discarded
    · apply ih discarded
      simp [Backlog.discard, Backlog.close, sbRemoveChunkFromSegregatedBacklogs, queue]

theorem Sound.step {next : Backlog config.setup}
    {event : Event} (taken : StorageBacklog.step config backlog event = some next) :
    Sound config files next := by
  cases event with
  | queue total answers =>
    cases taken
    exact sound.cbQueueChunks _ total answers
  | release id required =>
    obtain ⟨output, _, rfl⟩ := Option.map_eq_some_iff.mp taken
    exact sound_releaseLoop sound rfl 0

end

theorem sound_initial (config : Config) : Sound config [] (Backlog.initial config) := by
  constructor
  · exact nodup_nil
  · intro output _
    rfl
  · intro id _
    rfl
  · intro id
    rfl
  · exact nodup_nil
  · intro file member
    cases member
  · rfl

theorem Sound.pass (sound : Sound config files backlog)
    (distinct : ((files ++ [found]).map Found.file).Nodup)
    (unrouted : ∀ output, found.routesTo output = false) :
    Sound config (files ++ [found]) backlog := by
  constructor
  · exact distinct
  · intro output member
    rw [queue_append, sound.queues output member]
    simp [unrouted output]
  · exact sound.others
  · exact sound.counters
  · exact sound.gone_nodup
  · intro file member
    rw [map_append, mem_append]
    exact .inl (sound.gone_found file member)
  · exact sound.realSize

theorem fresh_of_distinct (distinct : ((files ++ [found]).map Found.file).Nodup) :
    found.file ∉ files.map Found.file := by
  rw [map_append, nodup_append] at distinct
  intro member
  exact distinct.2.2 _ member _ (by simp) rfl

theorem Sound.drop (sound : Sound config files backlog)
    (distinct : ((files ++ [found]).map Found.file).Nodup)
    (unrouted : ∀ output, found.routesTo output = false) :
    Sound config (files ++ [found]) (backlog.close found.file) := by
  have passed := sound.pass distinct unrouted
  have fresh := fresh_of_distinct distinct
  have present : found.file ∉ backlog.gone := fun member =>
    fresh (sound.gone_found _ member)
  have absent : ∀ id, ∀ entry ∈ backlog.store.backlogs id,
      ¬decide (entry.chunk = found.file) = true := by
    intro id entry member same
    rw [decide_eq_true_eq] at same
    exact fresh (same ▸ (sound.waits member).1)
  apply passed.leave (by simp) present
  · change (backlog.handed ++ (backlog.closed ++ [found.file])).Perm _
    rw [← append_assoc]
    exact perm_append_singleton _ _
  · constructor
    · funext id
      exact (eraseP_of_forall_not (absent id)).symm
    · funext id
      have unqueued : ¬((backlog.store.backlogs id).any fun entry =>
          decide (entry.chunk = found.file)) = true := by
        intro queued
        obtain ⟨entry, member, same⟩ := any_eq_true.mp queued
        exact absent id entry member same
      exact (if_neg unqueued).symm
    · rfl

section
variable {state : State config.setup}
  (appended : sbAppendChunkToSegregatedBacklogs state file (some tag) = some store)
include appended

theorem append_known {output : Output} (member : output ∈ config.setup.outputs) :
    let size := SizeT.ofInt (state.fileRealSize file)
    store.backlogs output.id =
        (if output.accepts tag then
          state.backlogs output.id ++ [{ chunk := file, size := size }]
        else state.backlogs output.id) ∧
      store.fsBacklogChunksSize output.id =
        if output.accepts tag then state.fsBacklogChunksSize output.id + size
        else state.fsBacklogChunksSize output.id := by
  have ids := config.setup.ids_nodup
  have bit := getBit_routesMaskSetByTag tag member
  cases appended
  dsimp only
  rw [updateEach_apply _ ids member, updateEach_apply _ ids member, bit]
  exact ⟨rfl, rfl⟩

theorem append_unknown (unknown : id ∉ config.setup.outputs.map Output.id) :
    store.backlogs id = state.backlogs id ∧
      store.fsBacklogChunksSize id = state.fsBacklogChunksSize id := by
  cases appended
  dsimp only
  rw [updateEach_of_not_mem _ unknown, updateEach_of_not_mem _ unknown]
  exact ⟨rfl, rfl⟩

end

theorem Sound.append (sound : Sound config files backlog)
    (distinct : ((files ++ [found]).map Found.file).Nodup)
    (up : found.raised = .ok) (readable : found.tag = some tag)
    (appended : sbAppendChunkToSegregatedBacklogs backlog.store found.file
      (some tag) = some store) :
    Sound config (files ++ [found]) { backlog with store := store } := by
  have present : found.file ∉ backlog.gone := fun member =>
    fresh_of_distinct distinct (sound.gone_found _ member)
  constructor
  · exact distinct
  · intro output member
    have routed : found.routesTo output = output.accepts tag := by
      simp [Found.routesTo, up, readable]
    change _ = config.queue (files ++ [found]) backlog.gone output
    rw [queue_append, (append_known appended member).1,
      sound.queues output member, sound.realSize, routed]
    by_cases accepted : output.accepts tag = true
    · simp [accepted, present, Config.entry]
    · simp [accepted]
  · intro id unknown
    exact (append_unknown appended unknown).1.trans (sound.others id unknown)
  · intro id
    by_cases known : id ∈ config.setup.outputs.map Output.id
    · obtain ⟨output, member, rfl⟩ := mem_map.mp known
      obtain ⟨queue, counter⟩ := append_known appended member
      rw [queue, counter, sound.counters output.id]
      split
      · simp
      · rfl
    · obtain ⟨queue, counter⟩ := append_unknown appended known
      rw [queue, counter, sound.counters id]
  · exact sound.gone_nodup
  · intro file member
    rw [map_append, mem_append]
    exact .inl (sound.gone_found file member)
  · cases appended
    exact sound.realSize

theorem Sound.segregate {rest : List Found} {start : Backlog config.setup}
    (sound : Sound config files backlog) (distinct : ((files ++ rest).map Found.file).Nodup)
    (segregated : sbSegregateChunks backlog rest = some start) :
    Sound config (files ++ rest) start := by
  induction rest generalizing files backlog with
  | nil =>
    cases segregated
    simpa using sound
  | cons found rest ih =>
    have split : files ++ found :: rest = (files ++ [found]) ++ rest := by simp
    rw [split] at distinct ⊢
    have before : ((files ++ [found]).map Found.file).Nodup := by
      rw [map_append] at distinct
      exact distinct.of_append_left
    simp only [sbSegregateChunks] at segregated
    cases raised : found.raised with
    | corrupted =>
      have unrouted : ∀ output, found.routesTo output = false := by simp [Found.routesTo, raised]
      simp only [raised] at segregated
      split at segregated
      · exact ih (sound.drop before unrouted) distinct segregated
      · exact ih (sound.pass before unrouted) distinct segregated
    | error | retry => simp [raised] at segregated
    | ok =>
      simp only [raised] at segregated
      cases readable : found.tag with
      | none =>
        have unrouted : ∀ output, found.routesTo output = false := by
          simp [Found.routesTo, readable]
        rw [readable] at segregated
        exact ih (sound.drop before unrouted) distinct segregated
      | some tag =>
        rw [readable] at segregated
        exact ih (sound.append before raised readable rfl) distinct segregated

theorem toNat_sum (sizes : List SizeT) :
    sizes.sum.toNat = (sizes.map BitVec.toNat).sum % 2 ^ 64 := by
  induction sizes with
  | nil => rfl
  | cons size rest ih =>
    rw [sum_cons, BitVec.toNat_add, ih, map_cons, sum_cons, Nat.add_mod_mod]

/-- The accounts of the backlog.  Counters have the width of `size_t`. -/
structure Accounted (config : Config) (backlog : Backlog config.setup) : Prop where
  counted : ∀ id, (backlog.store.fsBacklogChunksSize id).toNat =
    ((backlog.store.backlogs id).map fun entry =>
      entry.size.toNat).sum % 2 ^ 64
  sized : ∀ id, ∀ entry ∈ backlog.store.backlogs id,
    entry.size = SizeT.ofInt (config.realSize entry.chunk)
  once : ∀ id, ((backlog.store.backlogs id).map SbOutChunk.chunk).Nodup
  referenced : ∀ found ∈ config.files, ∀ output ∈ config.setup.outputs,
    found.file ∈ (backlog.store.backlogs output.id).map SbOutChunk.chunk ↔
      found.routesTo output = true ∧ found.file ∉ backlog.handed ∧ found.file ∉ backlog.closed
  released : ∀ file, file ∈ backlog.handed ∨ file ∈ backlog.closed →
    ∀ id, file ∉ (backlog.store.backlogs id).map SbOutChunk.chunk
  handed_once : backlog.handed.Nodup

theorem Sound.accounted (sound : Sound config config.files backlog) : Accounted config backlog := by
  constructor
  · intro id
    rw [sound.counters id, toNat_sum, map_map]
    rfl
  · intro id entry member
    exact (sound.waits member).2.2
  · exact sound.nodup
  · intro found listed output member
    rw [sound.queues output member, mem_queue, Backlog.gone, mem_append, not_or]
    constructor
    · intro queued
      obtain ⟨other, inside, same, routed, waiting⟩ := queued
      have identical : other = found := inj_on_of_nodup_map sound.distinct inside listed same
      exact ⟨identical ▸ routed, waiting⟩
    · intro waiting
      exact ⟨found, listed, rfl, waiting⟩
  · intro file left id queued
    obtain ⟨entry, member, rfl⟩ := mem_map.mp queued
    exact (sound.waits member).2.1 (mem_append.mpr left)
  · exact sound.gone_nodup.of_append_left

/-- In every state that rounds and releases reach from a segregated disk, the
counters, the references and the deliveries are accounted. -/
theorem backlog_is_accounted {config : Config} {start backlog : Backlog config.setup}
    (segregated : sbSegregateChunks (Backlog.initial config) config.files = some start)
    (reached : Reaches (step config) (fun _ _ => True) start backlog) :
    Accounted config backlog := by
  have sound : Sound config config.files start :=
    (sound_initial config).segregate config.files_nodup segregated
  apply Sound.accounted
  apply reached.invariant sound
  intro current next event holds _ taken
  exact holds.step taken

/-- Two outputs, the first for one tag and the second for all, and a disk with
three files that can be read, a corrupted one and one without tag. -/
def fiveFiles : Config :=
  { setup :=
      { hash64 := fun _ => 0
        outputs :=
          [{ id := 0, totalLimitSize := 100#64, matchRule := none,
             matchRegex := some fun tag => decide (tag = [1]) },
           { id := 1, totalLimitSize := 100#64, matchRule := none,
             matchRegex := some fun _ => true }]
        inputs := []
        storageBacklog :=
          { id := 0, storageType := .fs, routable := true, defaultTag := [] }
        storageDelBadChunks := false
        ids_nodup := by decide }
    ids_eq := by decide
    memLimit := 50#64
    files :=
      [{ file := 0, raised := .ok, irrecoverable := false, tag := some [1] },
       { file := 1, raised := .corrupted, irrecoverable := false, tag := none },
       { file := 2, raised := .ok, irrecoverable := false, tag := some [2] },
       { file := 3, raised := .ok, irrecoverable := false, tag := none },
       { file := 4, raised := .ok, irrecoverable := false, tag := some [1] }]
    files_nodup := by decide
    realSize := fun file => 30 + file }

def Answer.logs (report : Report) : Answer :=
  { raised := .ok
    eventType := some .logs
    contentSize := report.contentSize
    tag := [1]
    report := some report }

/-- The first file is handed to the engine through the queue of the first
output, the second one of the other queue does not come up; then the second
output needs space for the bytes of one file. -/
def fiveFilesEvents : List Event :=
  [.queue 0#64
    [.logs { realSize := 30, contentSize := 20, metaSize := 4, tagReadable := true },
     { raised := .retry, eventType := none, contentSize := 0, tag := [], report := none }],
   .release 1 10]

theorem backlog_is_accounted_fiveFiles :
    ∃ start backlog,
      sbSegregateChunks (Backlog.initial fiveFiles) fiveFiles.files = some start ∧
        runGuarded (step fiveFiles) (fun _ _ => True) start fiveFilesEvents = some backlog ∧
        backlog.handed = [0] ∧ backlog.closed = [3, 2] ∧
        (backlog.store.backlogs 0).map SbOutChunk.chunk = [4] ∧
        (backlog.store.backlogs 1).map SbOutChunk.chunk = [4] ∧
        Accounted fiveFiles backlog := by
  obtain ⟨start, segregated⟩ : ∃ start,
      sbSegregateChunks (Backlog.initial fiveFiles) fiveFiles.files = some start := ⟨_, rfl⟩
  obtain ⟨backlog, taken⟩ : ∃ backlog,
      runGuarded (step fiveFiles) (fun _ _ => True) start fiveFilesEvents = some backlog := by
    cases segregated
    exact ⟨_, rfl⟩
  have accounted := backlog_is_accounted segregated (Reaches.refl.of_runGuarded taken)
  refine ⟨start, backlog, segregated, taken, ?_, ?_, ?_, ?_, accounted⟩
  all_goals
    cases segregated
    cases taken
    rfl

end FluentBit.StorageBacklog
