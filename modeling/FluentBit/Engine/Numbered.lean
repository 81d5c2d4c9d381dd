import FluentBit.Engine.Flush
import FluentBit.Lib.Run

/-!
# Numbering

Tasks, flushes, queue entries and requests are numbered from one counter.
Every number in the state was handed out before, and flushes and requests are
told apart by theirs.  The rules for other invariants include this, so a task
that is alive is known to have an old number.
-/

namespace FluentBit.Engine

open List

variable {Out : Type}

structure Numbered (state : State Out) : Prop where
  tasks : ∀ {ref task}, state.task ref = some task → ref < state.next
  flushes : ∀ flush ∈ state.flushes,
    flush.id < state.next ∧ flush.task < state.next ∧
      ∀ seq, flush.entry = some seq → seq < state.next
  flushIds : (state.flushes.map (·.id)).Nodup
  pending : ∀ out, ∀ entry ∈ (state.queue out).pending,
    entry.seq < state.next ∧ entry.task < state.next
  inProgress : ∀ out, ∀ entry ∈ (state.queue out).inProgress, entry.seq < state.next
  requests : ∀ request ∈ state.allRequests, request.id < state.next
  requestIds : (state.allRequests.map (·.id)).Nodup
  started : ∀ pair ∈ state.started, pair.2 < state.next

theorem numbered_initial : Numbered (State.initial : State Out) := by
  constructor <;> simp [State.initial, State.allRequests]

/-- The part of the state the numbering looks at, besides the heap: what a
change that hands out no number to a flush or an entry may do. -/
structure Retains (before after : State Out) : Prop where
  tasks : ∀ {ref task}, after.task ref = some task → ∃ old, before.task ref = some old
  flushes : after.flushes = before.flushes
  queue : after.queue = before.queue
  requests : after.allRequests.Subperm before.allRequests
  next : before.next ≤ after.next
  started : after.started = before.started

variable {before : State Out}

section
variable {after middle : State Out}

theorem Retains.refl (state : State Out) : Retains state state :=
  ⟨fun live => ⟨_, live⟩, rfl, rfl, .refl _, Nat.le_refl _, rfl⟩

theorem Retains.trans (first : Retains before middle) (second : Retains middle after) :
    Retains before after :=
  { tasks := fun live => by
      obtain ⟨old, oldLive⟩ := second.tasks live
      exact first.tasks oldLive
    flushes := second.flushes.trans first.flushes
    queue := second.queue.trans first.queue
    requests := second.requests.trans first.requests
    next := Nat.le_trans first.next second.next
    started := second.started.trans first.started }

theorem Numbered.retains (numbered : Numbered before) (retains : Retains before after) :
    Numbered after := by
  obtain ⟨kept, permutation, sublist⟩ := retains.requests
  exact
    { tasks := fun live => by
        obtain ⟨old, oldLive⟩ := retains.tasks live
        exact Nat.lt_of_lt_of_le (numbered.tasks oldLive) retains.next
      flushes := by
        rw [retains.flushes]
        intro flush member
        obtain ⟨id, task, entry⟩ := numbered.flushes flush member
        exact ⟨Nat.lt_of_lt_of_le id retains.next, Nat.lt_of_lt_of_le task retains.next,
          fun seq some => Nat.lt_of_lt_of_le (entry seq some) retains.next⟩
      flushIds := by
        rw [retains.flushes]
        exact numbered.flushIds
      pending := by
        rw [retains.queue]
        intro out entry member
        obtain ⟨seq, task⟩ := numbered.pending out entry member
        exact ⟨Nat.lt_of_lt_of_le seq retains.next, Nat.lt_of_lt_of_le task retains.next⟩
      inProgress := by
        rw [retains.queue]
        intro out entry member
        exact Nat.lt_of_lt_of_le (numbered.inProgress out entry member) retains.next
      requests := fun request member =>
        Nat.lt_of_lt_of_le (numbered.requests request (retains.requests.subset member)) retains.next
      requestIds := by
        have keptIds := (sublist.map (·.id)).nodup numbered.requestIds
        exact (permutation.map (·.id)).nodup_iff.mp keptIds
      started := by
        rw [retains.started]
        intro pair member
        exact Nat.lt_of_lt_of_le (numbered.started pair member) retains.next }

end

variable {after : State Out}

theorem Sheds.retains (sheds : Sheds before after) : Retains before after :=
  { tasks := fun live => by
      obtain ⟨old, oldLive, _⟩ := sheds.tasks live
      exact ⟨old, oldLive⟩
    flushes := sheds.flushes
    queue := sheds.queue
    requests := sheds.requests
    next := Nat.le_of_eq sheds.next.symm
    started := sheds.started }

theorem Numbered.sheds (numbered : Numbered before) (sheds : Sheds before after) : Numbered after :=
  numbered.retains sheds.retains

variable {state : State Out}

theorem retains_modifyTask (state : State Out) (ref : TaskRef) (change : Task Out → Task Out) :
    Retains state (state.modifyTask ref change) :=
  { Retains.refl state with
    tasks := by
      intro other task live
      rw [modifyTask_task] at live
      split at live
      · next same =>
        subst other
        obtain ⟨old, oldLive, _⟩ := Option.map_eq_some_iff.mp live
        exact ⟨old, oldLive⟩
      · exact ⟨task, live⟩ }

variable {ref : TaskRef}

theorem Numbered.startFlush (numbered : Numbered state) (known : ref < state.next)
    (out : Out) {entry : Option Nat} (older : ∀ seq, entry = some seq → seq < state.next)
    (phase : Phase) : Numbered (startFlush state ref out entry phase) := by
  have counted : Numbered (taskUsersInc state ref) :=
    numbered.retains (retains_modifyTask state ref _)
  exact
    { tasks := fun live => Nat.lt_succ_of_lt (counted.tasks live)
      flushes := by
        intro flush member
        simp only [Engine.startFlush, mem_append, mem_singleton] at member ⊢
        rcases member with old | rfl
        · obtain ⟨id, task, seq⟩ := numbered.flushes flush old
          exact ⟨Nat.lt_succ_of_lt id, Nat.lt_succ_of_lt task,
            fun number some => Nat.lt_succ_of_lt (seq number some)⟩
        · exact ⟨Nat.lt_succ_self _, Nat.lt_succ_of_lt known,
            fun number some => Nat.lt_succ_of_lt (older number some)⟩
      flushIds := by
        simp only [Engine.startFlush, map_append, map_cons, map_nil]
        refine nodup_append.mpr ⟨numbered.flushIds, nodup_singleton _, ?_⟩
        intro left leftMember right rightMember
        rw [mem_singleton.mp rightMember]
        obtain ⟨flush, member, rfl⟩ := mem_map.mp leftMember
        exact Nat.ne_of_lt (numbered.flushes flush member).1
      pending := fun other entry member => by
        obtain ⟨seq, task⟩ := numbered.pending other entry member
        exact ⟨Nat.lt_succ_of_lt seq, Nat.lt_succ_of_lt task⟩
      inProgress := fun other entry member =>
        Nat.lt_succ_of_lt (numbered.inProgress other entry member)
      requests := fun request member =>
        Nat.lt_succ_of_lt (numbered.requests request member)
      requestIds := numbered.requestIds
      started := by
        intro pair member
        rcases mem_append.mp member with old | new
        · exact Nat.lt_succ_of_lt (numbered.started pair old)
        · obtain ⟨seq, same, rfl⟩ := mem_map.mp new
          exact Nat.lt_succ_of_lt (older seq (Option.mem_toList.mp same)) }

theorem Numbered.addRequest (numbered : Numbered state) (request : Request Out)
    (number : request.id = state.next) {scheduled waiting : List (Request Out)}
    (permutation : (scheduled ++ waiting).Perm (request :: state.allRequests)) :
    Numbered
      { state with requests := scheduled, requestsWait := waiting, next := state.next + 1 } := by
  have advanced : Numbered { state with next := state.next + 1 } :=
    numbered.retains { Retains.refl state with next := Nat.le_succ _ }
  exact
    { advanced with
      requests := by
        intro other member
        rcases mem_cons.mp (permutation.subset member) with rfl | old
        · simp only
          omega
        · exact advanced.requests other old
      requestIds := by
        rw [State.allRequests, (permutation.map (·.id)).nodup_iff, map_cons, nodup_cons]
        refine ⟨?_, numbered.requestIds⟩
        intro member
        obtain ⟨other, old, same⟩ := mem_map.mp member
        have older := numbered.requests other old
        omega }

theorem perm_middle_request (left right : List (Request Out)) (request : Request Out) :
    ((left ++ [request]) ++ right).Perm (request :: (left ++ right)) := by
  simp

theorem Numbered.schedRequestCreate (numbered : Numbered state) (data : RetryRef Out) (now : Nat)
    (backoff : Option Nat) : Numbered (schedRequestCreate state data now backoff).1 := by
  unfold Engine.schedRequestCreate
  split
  · exact numbered
  · next backoff =>
    let request : Request Out :=
      { id := state.next, data := data, created := now, timeout := backoff + 1 }
    dsimp only
    split
    · refine numbered.addRequest request rfl ?_
      rw [← append_assoc]
      exact perm_append_singleton _ _
    · exact numbered.addRequest request rfl (perm_middle_request _ _ _)

theorem Numbered.schedRetryNow (numbered : Numbered state) (data : RetryRef Out) (now : Nat)
    (timer : Bool) : Numbered (schedRetryNow state data now timer).1 := by
  unfold Engine.schedRetryNow
  split
  · let request : Request Out :=
      { id := state.next, data := data, created := now, timeout := 0 }
    exact numbered.addRequest request rfl (perm_middle_request _ _ _)
  · exact numbered

theorem promoteLoop_perm (now : Nat) (requests : List (Request Out)) (timers : List Bool) :
    ((promoteLoop now requests timers).1 ++
        (promoteLoop now requests timers).2.1 ++
          (promoteLoop now requests timers).2.2).Perm requests := by
  induction requests generalizing timers with
  | nil => simp [promoteLoop]
  | cons request requests ih =>
    simp only [promoteLoop]
    split
    · split
      · refine List.Perm.trans ?_ ((ih timers.tail).cons request)
        simp only [append_assoc, cons_append]
        exact perm_middle
      · refine List.Perm.trans ?_ ((ih timers.tail).cons request)
        exact perm_middle
    · exact (ih timers).cons request

theorem scheduleRequestPromote_perm (state : State Out) (now : Nat) (timers : List Bool) :
    (scheduleRequestPromote state now timers).allRequests.Perm state.allRequests := by
  have distributed := promoteLoop_perm now state.requestsWait timers
  simp only [State.allRequests, scheduleRequestPromote]
  rw [append_assoc]
  refine List.Perm.append_left _ (List.Perm.trans ?_ distributed)
  rw [← append_assoc]
  exact perm_append_comm.append_right _

section
variable (numbered : Numbered state)
include numbered

theorem Numbered.taskCreate (input : InId) (created : NewTask Out) :
    Numbered (taskCreate state input created) := by
  have advanced : Numbered { state with next := state.next + 1 } :=
    numbered.retains { Retains.refl state with next := Nat.le_succ _ }
  exact
    { advanced with
      tasks := by
        intro ref task live
        by_cases new : ref = state.next
        · subst ref
          exact Nat.lt_succ_self _
        · exact advanced.tasks (by simpa [Engine.taskCreate, new] using live) }

theorem Numbered.removeFlush (id : Nat) :
    Numbered (state.removeFlush id) :=
  { numbered with
    flushes := fun flush member =>
      numbered.flushes flush (mem_of_mem_filter member)
    flushIds := (filter_sublist.map _).nodup numbered.flushIds }

theorem Numbered.removeFlush_split {flush : Flush Out} (member : flush ∈ state.flushes) :
    ∃ front back, state.flushes = front ++ flush :: back ∧
      (state.removeFlush flush.id).flushes = front ++ back := by
  obtain ⟨front, back, parts⟩ := append_of_mem member
  have ids := numbered.flushIds
  rw [parts, map_append, map_cons, nodup_append] at ids
  obtain ⟨_, tail, apart⟩ := ids
  have behind := (nodup_cons.mp tail).1
  refine ⟨front, back, parts, ?_⟩
  have keepsFront : front.filter (·.id ≠ flush.id) = front := by
    apply filter_eq_self.mpr
    intro other otherMember
    have different := apart other.id (mem_map_of_mem otherMember) flush.id mem_cons_self
    simpa using different
  have keepsBack : back.filter (·.id ≠ flush.id) = back := by
    apply filter_eq_self.mpr
    intro other otherMember
    have different : other.id ≠ flush.id := by
      intro same
      exact behind (same ▸ mem_map_of_mem otherMember)
    simpa using different
  simp only [State.removeFlush, parts, filter_append, keepsFront, filter_cons, keepsBack]
  simp

theorem Numbered.setPhase (id : Nat) (phase : Phase) :
    Numbered (state.setPhase id phase) := by
  have ids : (state.setPhase id phase).flushes.map (·.id) =
      state.flushes.map (·.id) := by
    simp only [State.setPhase, map_map]
    apply map_congr_left
    intro flush _
    simp only [Function.comp_apply]
    split <;> rfl
  exact
    { numbered with
      flushes := by
        intro flush member
        obtain ⟨old, oldMember, rfl⟩ := mem_map.mp member
        have known := numbered.flushes old oldMember
        split <;> exact known
      flushIds := by
        rw [ids]
        exact numbered.flushIds }

end

variable [DecidableEq Out] {config : Config Out}

theorem retains_taskRetryCreate (state : State Out) (ref : TaskRef) (out : Out) (alloc : Bool) :
    Retains state (taskRetryCreate config state ref out alloc).1 := by
  apply taskRetryCreate_keeps (Retains.refl state)
  · exact fun _ _ => (sheds_taskRetryDestroy state _).retains
  · intro next change later
    have advanced : Retains state { state with next := next } :=
      { Retains.refl state with next := later }
    exact advanced.trans (retains_modifyTask _ _ _)

variable {out : Out}

theorem Numbered.setQueue (numbered : Numbered state) {queue : TaskQueue Out}
    (pending : ∀ entry ∈ queue.pending, entry.seq < state.next ∧ entry.task < state.next)
    (inProgress : ∀ entry ∈ queue.inProgress, entry.seq < state.next) :
    Numbered (state.setQueue out queue) :=
  { numbered with
    pending := by
      intro other entry member
      by_cases same : other = out
      · subst other
        exact pending entry (by simpa [State.setQueue] using member)
      · exact numbered.pending other entry (by simpa [State.setQueue, same] using member)
    inProgress := by
      intro other entry member
      by_cases same : other = out
      · subst other
        exact inProgress entry (by simpa [State.setQueue] using member)
      · exact numbered.inProgress other entry (by simpa [State.setQueue, same] using member) }

theorem Numbered.endInProgress (numbered : Numbered state) (out : Out) :
    Numbered (endInProgress state out) := by
  unfold Engine.endInProgress
  split
  · exact numbered
  · next entry inProgress front =>
    have moved : Numbered (state.setQueue out
        { pending := (state.queue out).pending
          inProgress := inProgress }) :=
      numbered.setQueue (numbered.pending out) fun other member =>
        numbered.inProgress out other (by simp [front, member])
    exact { moved with }

theorem Numbered.takeEntry (numbered : Numbered state) {entry : Enqueued Out}
    {pending : List (Enqueued Out)} (front : (state.queue out).pending = entry :: pending) :
    Numbered (takeEntry state out entry pending) := by
  have moved : Numbered (state.setQueue out
      { pending := pending
        inProgress := (state.queue out).inProgress ++ [entry] }) := by
    apply numbered.setQueue
    · intro other member
      exact numbered.pending out other (by simp [front, member])
    · intro other member
      rcases mem_append.mp member with old | new
      · exact numbered.inProgress out other old
      · rw [mem_singleton.mp new]
        exact (numbered.pending out entry (by simp [front])).1
  have counted := moved.retains (retains_modifyTask _ entry.task
    fun task => { task with users := task.users - 1 })
  exact { counted with }

theorem numbered_queueClosed (out : Out) : QueueClosed out (Numbered : State Out → Prop) :=
  { ended := fun numbered => numbered.endInProgress out
    begun := by
      intro state entry pending phase front numbered
      have known := numbered.pending out entry (by simp [front])
      exact (numbered.takeEntry front).startFlush known.2 out
        (fun seq same => by
          cases same
          exact known.1) phase
    taken := fun front numbered => numbered.takeEntry front
    destroyed := fun numbered => numbered.sheds (sheds_taskRetryDestroy _ _)
    read := fun numbered => { numbered with } }

theorem Numbered.pushEntry (numbered : Numbered state) (retry : Option (RetryRef Out))
    (known : ref < state.next) (out : Out) :
    Numbered (pushEntry state retry ref out) := by
  have counted : Numbered (taskUsersInc state ref) := numbered.retains (retains_modifyTask _ _ _)
  have advanced : Numbered
      { enterQueue state ref out with next := state.next + 1 } :=
    counted.retains
      { Retains.refl (taskUsersInc state ref) with next := Nat.le_succ _ }
  have pushed : Numbered
      (({ enterQueue state ref out with
            next := state.next + 1 } : State Out).setQueue out
        { pending := (state.queue out).pending ++
            [{ seq := state.next, task := ref, retry := retry }]
          inProgress := (state.queue out).inProgress }) := by
    apply advanced.setQueue
    · intro entry member
      rcases mem_append.mp member with old | new
      · exact advanced.pending out entry old
      · rw [mem_singleton.mp new]
        exact ⟨Nat.lt_succ_self _, Nat.lt_succ_of_lt known⟩
    · exact advanced.inProgress out
  exact { pushed with }

/-- Handing a known task to outputs keeps the numbering, and the task
known. -/
theorem numbered_routeClosed (ref : TaskRef) :
    RouteClosed ref fun state : State Out =>
      Numbered state ∧ ref < state.next :=
  { queue := fun out =>
      { ended := fun {state} kept => by
          refine ⟨kept.1.endInProgress out, ?_⟩
          unfold endInProgress
          split <;> exact kept.2
        begun := fun front kept =>
          ⟨(numbered_queueClosed out).begun front kept.1, Nat.lt_succ_of_lt kept.2⟩
        taken := fun front kept => ⟨kept.1.takeEntry front, kept.2⟩
        destroyed := fun kept =>
          ⟨kept.1.sheds (sheds_taskRetryDestroy _ _),
            Nat.lt_of_lt_of_le kept.2 (sheds_taskRetryDestroy _ _).retains.next⟩
        read := fun kept => ⟨{ kept.1 with }, kept.2⟩ }
    handed := fun kept => ⟨{ kept.1 with }, kept.2⟩
    begun := by
      intro state out phase kept
      have handed : Numbered (handOver state ref out) := { kept.1 with }
      exact ⟨handed.startFlush kept.2 out (by simp) phase, Nat.lt_succ_of_lt kept.2⟩
    entered := by
      intro state out first kept
      have counted : Numbered (taskUsersInc state ref) := kept.1.retains (retains_modifyTask _ _ _)
      exact ⟨{ counted with }, kept.2⟩
    pushed := fun first kept =>
      ⟨kept.1.pushEntry _ kept.2 _, Nat.lt_succ_of_lt kept.2⟩ }

variable {Kept : State Out → Prop}

/-- A property kept by the changes a dispatch round is made of. -/
structure DispatchClosed (config : Config Out) (Kept : State Out → Prop) : Prop where
  numbered : ∀ {state}, Kept state → Numbered state
  cleaned : ∀ {state ref}, Kept state → Kept (cleanupTask state ref)
  created : ∀ {state input new}, Kept state → Kept (taskCreate state input new)
  status : ∀ {state ref status}, Kept state → Kept (setStatus state ref status)
  removed : ∀ {state ref out}, Kept state → Kept (removeRoute state ref out)
  started : ∀ {state ref out}, Kept state → ref < state.next →
    Kept (startRoute config state ref out)

section
variable (closed : DispatchClosed config Kept)
include closed

theorem DispatchClosed.startTask (kept : Kept state) (retry : Nat) (ref : TaskRef) :
    Kept (startTask config state retry ref).1 := by
  unfold Engine.startTask
  split
  · exact kept
  · next task live =>
    dsimp only
    split
    · exact kept
    · have known : ref < state.next := (closed.numbered kept).tasks live
      have running : Kept (setStatus state ref .running) ∧ ref <
        (setStatus state ref .running).next := ⟨closed.status kept, known⟩
      have routed : Kept (startRoutes config ref (countRetry task retry)
          (task.routes.map (·.out)) (setStatus state ref .running)).1 :=
        (startRoutes_keeps (fun current => Kept current ∧ ref < current.next)
          (fun kept => ⟨closed.removed kept.1, kept.2⟩)
          (fun {state out} kept =>
            ⟨closed.started kept.1 kept.2,
              ((numbered_routeClosed ref).startRoute ⟨closed.numbered kept.1, kept.2⟩ out).2⟩)
          _ _ running).1
      split
      · exact closed.status routed
      · exact routed

theorem DispatchClosed.startTasks (kept : Kept state) (refs : List TaskRef) (retry : Nat) :
    Kept (startTasks config refs state retry) := by
  induction refs generalizing state retry with
  | nil => exact kept
  | cons ref refs ih => exact ih (closed.startTask kept retry ref) _

theorem DispatchClosed.engineDispatch (kept : Kept state) (input : InId)
    (created : List (NewTask Out)) : Kept (engineDispatch config state input created) := by
  have made : Kept (created.foldl (taskCreate · input ·) state) :=
    List.foldlRecOn created _ kept fun _ current _ _ => closed.created current
  exact List.foldlRecOn _ cleanupTask (closed.startTasks made _ 0)
    fun _ kept _ _ => closed.cleaned kept

end

/-- A property kept by the changes the dispatch of a retry is made of. -/
structure RetryClosed (config : Config Out) (Kept : State Out → Prop) : Prop where
  numbered : ∀ {state}, Kept state → Numbered state
  sheds : ∀ {state after}, Kept state → Sheds state after → Kept after
  requested : ∀ {state data now backoff}, Kept state →
    Kept (schedRequestCreate state data now backoff).1
  queued : ∀ {state retry ref out},
    (config.output out).synchronous = true → Kept state →
      ref < state.next → Kept (outputTaskSingleplexEnqueue config state retry ref out).1
  flushed : ∀ {state ref out},
    (config.output out).synchronous = false → Kept state →
      ref < state.next → Kept (outputTaskFlushDirect config state ref out).1

section
variable (closed : RetryClosed config Kept)
include closed

theorem RetryClosed.startRoute (kept : Kept state)
    (known : ref < state.next) : Kept (startRoute config state ref out) := by
  unfold Engine.startRoute
  split
  · next synchronous => exact closed.queued synchronous kept known
  · next multiplexed => exact closed.flushed (by simpa using multiplexed) kept known

theorem RetryClosed.schedRequestTimer (kept : Kept state) {request : Request Out}
    (known : request.data.parent < state.next) (env : RetryEnv) :
    Kept (schedRequestTimer config state request env) :=
  schedRequestTimer_keeps kept (closed.requested kept)
    (fun kept => closed.sheds kept (sheds_taskRetryDestroy _ _))
    (fun kept => closed.sheds kept (sheds_taskUsersRelease _ _))
    (fun synchronous => closed.queued synchronous kept known)
    (fun multiplexed => closed.flushed multiplexed kept known)
    (fun kept => closed.sheds kept (sheds_filterRequests _ _))

end

theorem numbered_retryClosed (config : Config Out) :
    RetryClosed config (Numbered : State Out → Prop) :=
  { numbered := fun numbered => numbered
    sheds := fun numbered sheds => numbered.sheds sheds
    requested := fun numbered => numbered.schedRequestCreate _ _ _
    queued := fun _ numbered known =>
      ((numbered_routeClosed _).outputTaskSingleplexEnqueue ⟨numbered, known⟩ _ _).1
    flushed := fun _ numbered known =>
      ((numbered_routeClosed _).outputTaskFlushDirect ⟨numbered, known⟩ _).1 }

theorem numbered_dispatchClosed (config : Config Out) :
    DispatchClosed config (Numbered : State Out → Prop) :=
  { numbered := fun numbered => numbered
    cleaned := fun numbered => numbered.sheds (sheds_cleanupTask _ _)
    created := fun numbered => numbered.taskCreate _ _
    status := fun numbered => numbered.retains (retains_modifyTask _ _ _)
    removed := fun numbered => numbered.retains (retains_modifyTask _ _ _)
    started := fun numbered known =>
      (numbered_retryClosed config).startRoute numbered known }

theorem retains_finishRoute (state : State Out) (ref : TaskRef) (out : Out) :
    Retains state (finishRoute state ref out) :=
  ((sheds_taskRetryClean state ref out).retains.trans
    (retains_modifyTask _ _ _)).trans (sheds_taskUsersRelease _ _).retains

theorem Numbered.handleOutputEvent (numbered : Numbered state) (ref : TaskRef) (out : Out)
    (ret : Ret) (env : OutputEnv) : Numbered (handleOutputEvent config state ref out ret env) := by
  have left : ∀ {state : State Out}, Numbered state → Numbered (taskUsersDec state ref) :=
    fun numbered => numbered.retains (retains_modifyTask _ _ _)
  apply handleOutputEvent_leaves (flushNextIf_keeps Numbered numbered
    ((numbered_queueClosed out).outputTaskSingleplexFlushNext numbered))
  · exact fun numbered => numbered.retains (retains_taskRetryCreate _ _ _ _)
  · exact fun numbered => numbered.retains (retains_finishRoute _ _ _)
  · exact fun numbered => (left numbered).schedRequestCreate _ _ _
  · exact fun numbered => ((left numbered).sheds (sheds_taskRetryDestroy _ _)).sheds
      (sheds_taskUsersRelease _ _)

theorem Numbered.engineRescheduleRetries (numbered : Numbered state) (now : Nat)
    (timers : List Bool) : Numbered (engineRescheduleRetries config state now timers) := by
  obtain ⟨_, kept⟩ := engineRescheduleRetries_keeps config (fun current _ => Numbered current) now
    (fun data kept => (kept.sheds (sheds_schedRequestInvalidate _ data)).schedRetryNow data now _)
    timers numbered
  exact kept

theorem numbered_step {next : State Out} {event : Event Out} (numbered : Numbered state)
    (taken : step config state event = some next) : Numbered next := by
  have loaded : ∀ script, Numbered (state.load script) := fun script =>
    { numbered with }
  cases step_result taken with
  | dispatch input created script =>
    exact (numbered_dispatchClosed config).engineDispatch (loaded script) input created
  | workerStart flush created member phase =>
    unfold workerStart
    split
    · exact numbered.setPhase _ _
    · exact numbered.removeFlush _
  | resume flush task member phase live =>
    have routed : ∀ status, Numbered (taskSetRouteStatus state flush.task flush.out status) :=
      fun status => numbered.retains (retains_modifyTask _ _ _)
    unfold resumeFlush
    split
    · exact (routed _).setPhase _ _
    · exact routed _
  | outputReturn flush ret member phase =>
    exact (numbered.retains (retains_modifyTask _ _ _)).setPhase _ _
  | outputEvent flush ret task env starts member phase live =>
    exact ((loaded _).removeFlush _).handleOutputEvent _ _ _ _
  | retryTimer request task env script member live linked =>
    exact (numbered_retryClosed config).schedRequestTimer (loaded script) (numbered.tasks live) env
  | frameTimer now timers =>
    exact numbered.retains
      { Retains.refl _ with requests := (scheduleRequestPromote_perm _ now timers).subperm }
  | rescheduleRetries now timers => exact numbered.engineRescheduleRetries now timers
  | dropRoute ref out task live inUse =>
    have routed : Numbered (taskSetRouteStatus state ref out .dropped) :=
      numbered.retains (retains_modifyTask _ _ _)
    exact { routed with }
  | releaseChunk ref task live unused => exact numbered.sheds (sheds_taskDestroy _ _)

/-- A property of the queues and the flushes.  What the end of a flush starts
is asked for at the step. -/
structure QuietClosed (config : Config Out) (Kept : State Out → Prop) : Prop where
  quiet : ∀ {state after}, Kept state → Quiet state after → Kept after
  queued : ∀ {state retry ref out}, (config.output out).synchronous = true → Numbered state →
    (∀ data, retry = some data → data.parent = ref ∧ data.oIns = out) → Kept state →
      Kept (outputTaskSingleplexEnqueue config state retry ref out).1
  begun : ∀ {state ref out phase}, (config.output out).synchronous = false → Kept state →
    Kept (startFlush (handOver state ref out) ref out none phase)
  phased : ∀ {state id phase}, Kept state → Kept (state.setPhase id phase)
  removed : ∀ {state id}, Kept state → Kept (state.removeFlush id)

/-- A property of the queues alone. -/
theorem QuietClosed.of_queue
    (stable : ∀ {state after}, Kept state → after.queue = state.queue → Kept after)
    (queued : ∀ {state retry ref out}, (∀ data, retry = some data →
      data.parent = ref ∧ data.oIns = out) → Kept state →
        Kept (outputTaskSingleplexEnqueue config state retry ref out).1) :
    QuietClosed config Kept :=
  ⟨fun kept quiet => stable kept quiet.queue, fun _ _ own kept => queued own kept,
    fun _ kept => stable kept rfl, fun kept => stable kept rfl, fun kept => stable kept rfl⟩

section
variable (closed : QuietClosed config Kept) (numbered : Numbered state) (kept : Kept state)
include closed kept

theorem QuietClosed.flushDirect
    (multiplexed : (config.output out).synchronous = false) :
    Kept (outputTaskFlushDirect config state ref out).1 := by
  have handed : Kept (handOver state ref out) := closed.quiet kept ⟨rfl, rfl, rfl, rfl, rfl⟩
  obtain ⟨ended, returned, result⟩ := outputTaskFlushDirect_result config state ref out
  rw [returned]
  cases result with
  | started first => exact closed.begun multiplexed kept
  | poolFailed threaded first | writeFailed unthreaded first =>
    simpa [afterFailure, multiplexed] using handed
  | createFailed unthreaded first => exact handed

include numbered

theorem QuietClosed.startRoute (ref : TaskRef) (out : Out) :
    Kept (startRoute config state ref out) := by
  unfold Engine.startRoute
  split
  · next synchronous => exact closed.queued synchronous numbered (by simp) kept
  · next multiplexed => exact closed.flushDirect kept (by simpa using multiplexed)

omit numbered kept in
theorem QuietClosed.dispatchClosed :
    DispatchClosed config fun state : State Out => Numbered state ∧ Kept state :=
  have numbered := numbered_dispatchClosed config
  { numbered := fun kept => kept.1
    cleaned := fun kept =>
      ⟨numbered.cleaned kept.1, closed.quiet kept.2 (sheds_cleanupTask _ _).quiet⟩
    created := fun kept => ⟨numbered.created kept.1, closed.quiet kept.2 ⟨rfl, rfl, rfl, rfl, rfl⟩⟩
    status := fun kept => ⟨numbered.status kept.1, closed.quiet kept.2 (quiet_modifyTask _ _ _)⟩
    removed := fun kept => ⟨numbered.removed kept.1, closed.quiet kept.2 (quiet_modifyTask _ _ _)⟩
    started := fun kept known =>
      ⟨numbered.started kept.1 known, closed.startRoute kept.1 kept.2 _ _⟩ }

theorem QuietClosed.step {next : State Out} {event : Event Out}
    (completes : ∀ flush ∈ state.flushes, ∀ env starts,
      event = .outputEvent flush.id env starts → (config.output flush.out).synchronous = true →
        Kept (outputTaskSingleplexFlushNext config
          ((state.load { starts := starts, allocs := [] }).removeFlush flush.id) flush.out))
    (taken : step config state event = some next) : Kept next := by
  have loaded : ∀ script, Numbered (state.load script) ∧ Kept (state.load script) :=
    fun script => ⟨{ numbered with }, closed.quiet kept ⟨rfl, rfl, rfl, rfl, rfl⟩⟩
  have routed : ∀ ref out status, Kept (taskSetRouteStatus state ref out status) :=
    fun _ _ _ => closed.quiet kept (quiet_modifyTask _ _ _)
  cases step_result taken with
  | dispatch input created script =>
    exact (closed.dispatchClosed.engineDispatch (loaded script) input created).2
  | workerStart flush created member phase =>
    unfold workerStart
    split
    · exact closed.phased kept
    · exact closed.removed kept
  | resume flush task member phase live =>
    unfold resumeFlush
    split
    · exact closed.phased (routed _ _ _)
    · exact routed _ _ _
  | outputReturn flush ret member phase => exact closed.phased (routed _ _ _)
  | outputEvent flush ret task env starts member phase live =>
    refine closed.quiet ?_ (quiet_handleOutputEvent _ _ _ _ _)
    unfold flushNextIf
    split
    · next synchronous => exact completes flush member env starts rfl synchronous
    · exact closed.removed (loaded _).2
  | retryTimer request task env script member live linked =>
    obtain ⟨known, loaded⟩ := loaded script
    exact schedRequestTimer_keeps loaded (closed.quiet loaded (quiet_schedRequestCreate _ _ _ _))
      (fun kept => closed.quiet kept (sheds_taskRetryDestroy _ _).quiet)
      (fun kept => closed.quiet kept (sheds_taskUsersRelease _ _).quiet)
      (fun synchronous =>
        closed.queued synchronous known (by rintro data ⟨⟩; exact ⟨rfl, rfl⟩) loaded)
      (fun multiplexed => closed.flushDirect loaded multiplexed)
      (fun kept => closed.quiet kept (sheds_filterRequests _ _).quiet)
  | frameTimer now timers => exact closed.quiet kept ⟨rfl, rfl, rfl, rfl, rfl⟩
  | rescheduleRetries now timers =>
    exact closed.quiet kept (quiet_engineRescheduleRetries state now timers)
  | dropRoute ref out task live inUse => exact closed.quiet kept ⟨rfl, rfl, rfl, rfl, rfl⟩
  | releaseChunk ref task live unused => exact closed.quiet kept (sheds_taskDestroy state ref).quiet

end

end FluentBit.Engine
