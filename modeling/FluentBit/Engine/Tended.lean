import FluentBit.Engine.Queue

/-!
# Retries that are looked after

A retry of a live task is looked after by a request of the scheduler, by an
entry waiting in a singleplex queue, or by a flush in flight whose completion
will clean it or schedule it again.  Each retry belongs to the task that lists
it, a task has at most one retry for an output, and an entry waits with a
retry of its own task and output.
-/

namespace FluentBit.Engine

open List

variable {Out : Type}

/-- The retry waits in a queue or its output is flushing the task. -/
def Attended (state : State Out) (retry : RetryRef Out) : Prop :=
  (∃ out, ∃ entry ∈ (state.queue out).pending, entry.retry = some retry) ∨
  ∃ flush ∈ state.flushes, flush.task = retry.parent ∧ flush.out = retry.oIns

/-- Something will bring the retry back. -/
def Covered (state : State Out) (retry : RetryRef Out) : Prop :=
  (∃ request ∈ state.allRequests, request.data = retry) ∨ Attended state retry

def Task.refs (task : Task Out) : List (RetryRef Out) := task.retries.map (·.ref)

/-- An entry waits with a retry of its own task and output. -/
def Enqueued.Wired (entry : Enqueued Out) (out : Out) : Prop :=
  ∀ retry, entry.retry = some retry → retry.parent = entry.task ∧ retry.oIns = out

/-- Every retry of a live task is covered, besides those that are spared. -/
structure Tended (spared : RetryRef Out → Prop) (state : State Out) : Prop where
  parents : ∀ {ref task}, state.task ref = some task → ∀ retry ∈ task.refs, retry.parent = ref
  distinct : ∀ {ref task}, state.task ref = some task → (task.refs.map (·.oIns)).Nodup
  entries : ∀ out, ∀ entry ∈ (state.queue out).pending, entry.Wired out
  covered : ∀ {ref task}, state.task ref = some task →
    ∀ retry ∈ task.refs, spared retry ∨ Covered state retry

theorem tended_initial : Tended (fun _ => False) (State.initial : State Out) := by
  constructor <;> simp [State.initial]

variable {after : State Out} {retry : RetryRef Out} {state : State Out}

theorem Covered.mono (covered : Covered state retry)
    (requests : ∀ request ∈ state.allRequests, request.data = retry →
      ∃ other ∈ after.allRequests, other.data = retry)
    (pending : ∀ out, ∀ entry ∈ (state.queue out).pending,
      entry.retry = some retry → Covered after retry)
    (flushes : ∀ flush ∈ state.flushes, flush.task = retry.parent →
      flush.out = retry.oIns → Covered after retry) :
    Covered after retry := by
  rcases covered with ⟨request, member, data⟩ | ⟨out, entry, member, waits⟩ |
      ⟨flush, member, task, output⟩
  · exact .inl (requests request member data)
  · exact pending out entry member waits
  · exact flushes flush member task output

theorem Covered.of_requests (covered : Covered state retry)
    (queue : after.queue = state.queue)
    (flushes : after.flushes = state.flushes)
    (requests : ∀ request ∈ state.allRequests, request.data = retry →
      ∃ other ∈ after.allRequests, other.data = retry) :
    Covered after retry :=
  covered.mono requests
    (fun out entry member waits =>
      .inr (.inl ⟨out, entry, by rw [queue]; exact member, waits⟩))
    (fun flush member task output =>
      .inr (.inr ⟨flush, by rw [flushes]; exact member, task, output⟩))

section
variable {spared left : RetryRef Out → Prop} {after : State Out}

section
variable (tended : Tended spared state)
  (tasks : ∀ {ref task}, after.task ref = some task →
    ∃ old, state.task ref = some old ∧ task.refs.Sublist old.refs)
  (entries : ∀ out, ∀ entry ∈ (after.queue out).pending,
    entry ∈ (state.queue out).pending ∨ entry.Wired out)
include tended tasks entries

theorem Tended.shrink
    (covered : ∀ {ref task}, after.task ref = some task → ∀ retry ∈ task.refs,
      spared retry ∨ Covered state retry → left retry ∨ Covered after retry) :
    Tended left after :=
  { parents := by
      intro ref task live retry member
      obtain ⟨old, oldLive, kept⟩ := tasks live
      exact tended.parents oldLive retry (kept.subset member)
    distinct := by
      intro ref task live
      obtain ⟨old, oldLive, kept⟩ := tasks live
      exact (tended.distinct oldLive).sublist (kept.map _)
    entries := by
      intro out entry member
      rcases entries out entry member with waiting | wired
      · exact tended.entries out entry waiting
      · exact wired
    covered := by
      intro ref task live retry member
      obtain ⟨old, oldLive, kept⟩ := tasks live
      exact covered live retry member (tended.covered oldLive retry (kept.subset member)) }

theorem Tended.of_covered (covered : ∀ retry, Covered state retry → Covered after retry) :
    Tended spared after :=
  tended.shrink tasks entries fun _ retry _ old =>
    old.imp_right (covered retry)

end

variable {ref : TaskRef} {task : Task Out}

theorem refs_modifyTask {change : Task Out → Task Out}
    (kept : ∀ task, (change task).refs.Sublist task.refs) {other : TaskRef}
    (live : (state.modifyTask ref change).task other = some task) :
    ∃ old, state.task other = some old ∧ task.refs.Sublist old.refs := by
  rcases modifyTask_eq_some live with ⟨old, rfl, oldLive, rfl⟩ | ⟨_, live⟩
  · exact ⟨old, oldLive, kept old⟩
  · exact ⟨task, live, .refl _⟩

theorem refs_taskUsersInc {other : TaskRef}
    (live : (taskUsersInc state ref).task other = some task) :
    ∃ old, state.task other = some old ∧ task.refs.Sublist old.refs := by
  refine refs_modifyTask (fun task => ?_) live
  exact .refl _

theorem Tended.modifyTask (tended : Tended spared state) {change : Task Out → Task Out}
    (kept : ∀ task, (change task).refs.Sublist task.refs) :
    Tended spared (state.modifyTask ref change) :=
  tended.of_covered (fun live => refs_modifyTask kept live) (fun _ _ member => .inl member)
    (fun _ covered => covered.of_requests rfl rfl
      fun request member data => ⟨request, member, data⟩)

theorem Tended.startFlush (tended : Tended spared state) (ref : TaskRef)
    (out : Out) (entry : Option Nat) (phase : Phase) :
    Tended spared (startFlush (handOver state ref out) ref out entry phase) := by
  refine tended.of_covered (fun live => refs_taskUsersInc live) (fun _ _ member => .inl member) ?_
  intro data covered
  exact covered.mono (fun request member same => ⟨request, member, same⟩)
    (fun other waiting member waits =>
      .inr (.inl ⟨other, waiting, member, waits⟩))
    (fun flush member task output =>
      .inr (.inr ⟨flush, mem_append_left _ member, task, output⟩))

theorem Tended.removeFlush (tended : Tended (fun _ => False) state) {flush : Flush Out}
    (numbered : Numbered state) (member : flush ∈ state.flushes) :
    Tended (fun retry => retry.parent = flush.task ∧ retry.oIns = flush.out)
      (state.removeFlush flush.id) := by
  refine tended.shrink (fun live => ⟨_, live, .refl _⟩)
    (fun _ _ waiting => .inl waiting) ?_
  intro ref task live retry _ old
  rcases old.resolve_left id with request | waiting | flight
  · exact .inr (.inl request)
  · exact .inr (.inr (.inl waiting))
  · obtain ⟨other, otherMember, otherTask, otherOut⟩ := flight
    by_cases same : other.id = flush.id
    · have equal : other = flush := inj_on_of_nodup_map numbered.flushIds otherMember member same
      subst other
      exact .inl ⟨otherTask.symm, otherOut.symm⟩
    · refine .inr (.inr (.inr ⟨other, ?_, otherTask, otherOut⟩))
      exact mem_filter.mpr ⟨otherMember, by simpa using same⟩

section
variable (tended : Tended spared state)
include tended

theorem Tended.setPhase (id : Nat) (phase : Phase) :
    Tended spared (state.setPhase id phase) := by
  refine tended.of_covered (fun live => ⟨_, live, .refl _⟩)
    (fun _ _ member => .inl member) ?_
  intro retry covered
  refine covered.mono (fun request member data => ⟨request, member, data⟩)
    (fun out entry member waits => .inr (.inl ⟨out, entry, member, waits⟩)) ?_
  intro flush member task output
  refine .inr (.inr ⟨_, mem_map_of_mem member, ?_⟩)
  split <;> exact ⟨task, output⟩

theorem Tended.taskCreate (input : InId) (created : NewTask Out) :
    Tended spared (taskCreate state input created) := by
  have tasks : ∀ {ref : TaskRef} {task : Task Out},
      (Engine.taskCreate state input created).task ref = some task →
        task.refs = [] ∨ state.task ref = some task := by
    intro ref task live
    by_cases new : ref = state.next
    · subst ref
      simp only [Engine.taskCreate, Function.update_self, Option.some.injEq] at live
      subst live
      exact .inl rfl
    · exact .inr (by simpa [Engine.taskCreate, new] using live)
  exact
    { parents := by
        intro ref task live retry member
        rcases tasks live with none | old
        · simp [none] at member
        · exact tended.parents old retry member
      distinct := by
        intro ref task live
        rcases tasks live with none | old
        · simp [none]
        · exact tended.distinct old
      entries := tended.entries
      covered := by
        intro ref task live retry member
        rcases tasks live with none | old
        · simp [none] at member
        · exact tended.covered old retry member }

theorem Tended.refs_nodup (live : state.task ref = some task) :
    task.refs.Nodup :=
  List.Nodup.of_map _ (tended.distinct live)

end

theorem Covered.schedRequestCreate {retry : RetryRef Out} (covered : Covered state retry)
    (data : RetryRef Out) (now : Nat) (backoff : Option Nat) :
    Covered (schedRequestCreate state data now backoff).1 retry := by
  have quiet := quiet_schedRequestCreate state data now backoff
  refine covered.of_requests quiet.queue quiet.flushes ?_
  intro request member same
  refine ⟨request, ?_, same⟩
  unfold Engine.schedRequestCreate
  split
  · exact member
  · dsimp only
    rcases mem_append.mp member with ready | waiting
    · split <;> simp [State.allRequests, ready]
    · split <;> simp [State.allRequests, waiting]

theorem covered_schedRequestCreate (state : State Out) (data : RetryRef Out) (now backoff : Nat) :
    Covered (schedRequestCreate state data now (some backoff)).1 data := by
  refine .inl ⟨{ id := state.next, data := data, created := now, timeout := backoff + 1 }, ?_, rfl⟩
  unfold schedRequestCreate
  dsimp only
  split <;> simp [State.allRequests]

theorem schedRequestCreate_task (state : State Out) (data : RetryRef Out) (now : Nat)
    (backoff : Option Nat) : (schedRequestCreate state data now backoff).1.task = state.task := by
  unfold schedRequestCreate
  split
  · rfl
  · dsimp only
    split <;> rfl

theorem Tended.schedRequestCreate (tended : Tended spared state) (data : RetryRef Out) (now : Nat)
    (backoff : Option Nat) : Tended spared (schedRequestCreate state data now backoff).1 := by
  refine tended.of_covered ?_ ?_ (fun _ covered => covered.schedRequestCreate data now backoff)
  · intro ref task live
    rw [schedRequestCreate_task] at live
    exact ⟨task, live, .refl _⟩
  · intro out entry member
    rw [(quiet_schedRequestCreate state data now backoff).queue] at member
    exact .inl member

theorem Tended.unique (tended : Tended spared state) (live : state.task ref = some task)
    {left right : RetryRef Out} (leftMember : left ∈ task.refs) (rightMember : right ∈ task.refs)
    (same : left.oIns = right.oIns) : left = right :=
  inj_on_of_nodup_map (tended.distinct live) leftMember rightMember same

def OfRoute (ref : TaskRef) (out : Out) (retry : RetryRef Out) : Prop :=
  retry.parent = ref ∧ retry.oIns = out

variable {out : Out}

/-- Nothing has to be spared once the retry of the route is covered. -/
theorem Tended.settle (tended : Tended (OfRoute ref out) state)
    (settled : ∀ task, state.task ref = some task →
      ∀ retry ∈ task.refs, retry.oIns = out → Covered state retry) :
    Tended (fun _ => False) state :=
  { tended with
    covered := by
      intro other task live retry member
      rcases tended.covered live retry member with spare | covered
      · have same : other = ref := (tended.parents live retry member).symm.trans spare.1
        subst other
        exact .inr (settled task live retry member spare.2)
      · exact .inr covered }

theorem Tended.addRetry (tended : Tended (OfRoute ref out) state)
    (live : state.task ref = some task) (absent : ∀ retry ∈ task.refs, retry.oIns ≠ out)
    {new : TaskRetry Out} (route : OfRoute ref out new.ref) :
    Tended (OfRoute ref out)
      (state.modifyTask ref fun task =>
        { task with retries := task.retries ++ [new] }) := by
  have tasks : ∀ {other : TaskRef} {after : Task Out},
      (state.modifyTask ref fun task =>
        { task with retries := task.retries ++ [new] }).task other = some after →
        (other = ref ∧ after.refs = task.refs ++ [new.ref]) ∨
        state.task other = some after := by
    intro other after afterLive
    rw [modifyTask_task] at afterLive
    split at afterLive
    · next same =>
      rw [live] at afterLive
      cases afterLive
      exact .inl ⟨same, by simp [Task.refs]⟩
    · exact .inr afterLive
  have covers : ∀ retry, Covered state retry → Covered
      (state.modifyTask ref fun task =>
        { task with retries := task.retries ++ [new] }) retry :=
    fun _ covered => covered.of_requests rfl rfl fun request ready data => ⟨request, ready, data⟩
  exact
    { parents := by
        intro other after afterLive retry member
        rcases tasks afterLive with ⟨rfl, refs⟩ | old
        · rw [refs] at member
          rcases mem_append.mp member with listed | added
          · exact tended.parents live retry listed
          · rw [mem_singleton.mp added]
            exact route.1
        · exact tended.parents old retry member
      distinct := by
        intro other after afterLive
        rcases tasks afterLive with ⟨rfl, refs⟩ | old
        · rw [refs, map_append, nodup_append]
          refine ⟨tended.distinct live, by simp, ?_⟩
          intro left leftMember right rightMember
          obtain ⟨retry, listed, rfl⟩ := mem_map.mp leftMember
          simp only [map_cons, map_nil, mem_singleton] at rightMember
          rw [rightMember, route.2]
          exact absent retry listed
        · exact tended.distinct old
      entries := tended.entries
      covered := by
        intro other after afterLive retry member
        rcases tasks afterLive with ⟨rfl, refs⟩ | old
        · rw [refs] at member
          rcases mem_append.mp member with listed | added
          · exact (tended.covered live retry listed).imp_right (covers retry)
          · rw [mem_singleton.mp added]
            exact .inl route
        · exact (tended.covered old retry member).imp_right (covers retry) }

theorem Tended.dropRequest (tended : Tended (fun _ => False) state)
    (unique : (state.allRequests.map (·.id)).Nodup)
    {request : Request Out} (member : request ∈ state.requests)
    (otherwise : Attended state request.data ∨
      ∃ other ∈ state.allRequests, other.id ≠ request.id ∧ other.data = request.data) :
    Tended (fun _ => False) (dropRequest state request) := by
  refine tended.of_covered (fun live => ⟨_, live, .refl _⟩)
    (fun _ _ waiting => .inl waiting) ?_
  have stays : ∀ other ∈ state.allRequests, other.id ≠ request.id →
      other ∈ (Engine.dropRequest state request).allRequests := by
    intro other listed different
    rcases mem_append.mp listed with ready | waiting
    · exact mem_append_left _ (mem_filter.mpr ⟨ready, by simpa using different⟩)
    · exact mem_append_right _ waiting
  intro retry covered
  rcases covered with ⟨other, listed, data⟩ | attended
  · by_cases same : other.id = request.id
    · have equal : other = request :=
        inj_on_of_nodup_map unique listed (mem_append_left _ member) same
      subst other
      subst data
      rcases otherwise with attended | ⟨other, listed, different, data⟩
      · exact .inr attended
      · exact .inl ⟨other, stays other listed different, data⟩
    · exact .inl ⟨other, stays other listed same, data⟩
  · exact .inr attended

theorem Tended.scheduleRequestPromote (tended : Tended spared state) (now : Nat)
    (timers : List Bool) : Tended spared (scheduleRequestPromote state now timers) := by
  refine tended.of_covered (fun live => ⟨_, live, .refl _⟩)
    (fun _ _ waiting => .inl waiting) ?_
  intro retry covered
  refine covered.of_requests rfl rfl fun request member data => ?_
  refine ⟨request, ?_, data⟩
  have parts := (promoteLoop_perm now state.requestsWait timers).mem_iff (a := request)
  simp only [State.allRequests, Engine.scheduleRequestPromote, mem_append] at member parts ⊢
  tauto

theorem Covered.beginEntry [DecidableEq Out] {retry : RetryRef Out} (covered : Covered state retry)
    {entry : Enqueued Out} {pending : List (Enqueued Out)}
    (front : (state.queue out).pending = entry :: pending) (wired : entry.Wired out)
    (phase : Phase) : Covered (beginEntry state out entry pending phase) retry := by
  refine covered.mono (fun request member data => ⟨request, member, data⟩) ?_ ?_
  · intro other waiting member waits
    by_cases same : other = out
    · subst other
      rw [front] at member
      rcases mem_cons.mp member with rfl | later
      · obtain ⟨parent, output⟩ := wired retry waits
        refine .inr (.inr ⟨_, mem_append_right _ (mem_singleton.mpr rfl), parent.symm, output.symm⟩)
      · exact .inr (.inl ⟨out, waiting, by simpa using later, waits⟩)
    · refine .inr (.inl ⟨other, waiting, ?_, waits⟩)
      rw [beginEntry_queue, takeEntry_queue_of_ne _ _ same]
      exact member
  · intro flush member task output
    exact .inr (.inr ⟨flush, mem_append_left _ member, task, output⟩)

end

variable [DecidableEq Out] {config : Config Out} {spared : RetryRef Out → Prop}
  {out : Out} {ref : TaskRef}

section
variable (tended : Tended spared state)
include tended

theorem Tended.beginEntry {entry : Enqueued Out}
    {pending : List (Enqueued Out)} (front : (state.queue out).pending = entry :: pending)
    (phase : Phase) : Tended spared (beginEntry state out entry pending phase) := by
  have wired : entry.Wired out := tended.entries out entry (by simp [front])
  refine tended.of_covered ?_ ?_ (fun _ covered => covered.beginEntry front wired phase)
  · intro ref task live
    rw [beginEntry_task] at live
    exact ⟨task, live, .refl _⟩
  · intro other waiting member
    refine .inl ?_
    by_cases same : other = out
    · subst other
      rw [front]
      exact mem_cons_of_mem _ (by simpa using member)
    · rw [beginEntry_queue, takeEntry_queue_of_ne _ _ same] at member
      exact member

theorem Tended.endInProgress (out : Out) : Tended spared (endInProgress state out) := by
  have pending : ∀ other,
      ((Engine.endInProgress state out).queue other).pending = (state.queue other).pending := by
    intro other
    by_cases same : other = out
    · subst other
      simp
    · rw [endInProgress_queue_of_ne _ _ same]
  have rest : (Engine.endInProgress state out).allRequests = state.allRequests ∧
      (Engine.endInProgress state out).flushes = state.flushes := by
    unfold Engine.endInProgress
    split <;> exact ⟨rfl, rfl⟩
  refine tended.of_covered ?_ ?_ ?_
  · intro ref task live
    rw [endInProgress_task] at live
    exact ⟨task, live, .refl _⟩
  · intro other waiting member
    rw [pending] at member
    exact .inl member
  · intro retry covered
    refine covered.mono ?_ ?_ ?_
    · intro request member data
      exact ⟨request, by rw [rest.1]; exact member, data⟩
    · intro other waiting member waits
      exact .inr (.inl ⟨other, waiting, by rw [pending]; exact member, waits⟩)
    · intro flush member task output
      exact .inr (.inr ⟨flush, by rw [rest.2]; exact member, task, output⟩)

theorem Tended.flushNext (succeeds : Succeeds state) (out : Out) :
    Tended spared (outputTaskSingleplexFlushNext config state out) := by
  rw [succeeds.flushNext]
  split
  · exact tended.endInProgress out
  · next entry pending front => exact (tended.endInProgress out).beginEntry (by simpa using front) _

theorem Tended.pushEntry {retry : Option (RetryRef Out)} (wired : ∀ data, retry = some data →
      data.parent = ref ∧ data.oIns = out) :
    Tended spared (pushEntry state retry ref out) := by
  have pending : ∀ other, ∀ entry ∈ (state.queue other).pending,
      entry ∈ ((Engine.pushEntry state retry ref out).queue other).pending := by
    intro other entry member
    by_cases same : other = out
    · subst other
      simp [member]
    · rw [pushEntry_queue_of_ne _ _ _ _ same]
      exact member
  refine tended.of_covered (fun live => refs_taskUsersInc live) ?_ ?_
  · intro other entry member
    by_cases same : other = out
    · subst other
      rw [pushEntry_queue_self] at member
      rcases mem_append.mp member with old | new
      · exact .inl old
      · rw [mem_singleton.mp new]
        exact .inr wired
    · rw [pushEntry_queue_of_ne _ _ _ _ same] at member
      exact .inl member
  · intro data covered
    exact covered.mono (fun request member same => ⟨request, member, same⟩)
      (fun other entry member waits =>
        .inr (.inl ⟨other, entry, pending other entry member, waits⟩))
      (fun flush member task output =>
        .inr (.inr ⟨flush, member, task, output⟩))

theorem Tended.start {retry : Option (RetryRef Out)}
    (result : StartResult config state retry ref out after)
    (wired : ∀ data, retry = some data → data.parent = ref ∧ data.oIns = out) :
    Tended spared after := by
  cases result with
  | flushed => exact tended.startFlush ref out none _
  | queued => exact tended.pushEntry wired
  | started empty =>
    refine (tended.pushEntry wired).beginEntry ?_ _
    simp [empty]

end

theorem StartResult.attended {data : RetryRef Out}
    (result : StartResult config state (some data) data.parent data.oIns
      after) : Attended after data := by
  cases result with
  | flushed | started empty =>
    exact .inr ⟨_, mem_append_right _ (mem_singleton.mpr rfl), rfl, rfl⟩
  | queued => exact .inl ⟨data.oIns, by simp⟩

@[simp] theorem schedRequestInvalidate_task (state : State Out) (data : RetryRef Out) :
    (schedRequestInvalidate state data).task = state.task := by
  unfold schedRequestInvalidate
  split <;> rfl

theorem Covered.schedRequestInvalidate {data : RetryRef Out} (covered : Covered state retry)
    (different : retry ≠ data) : Covered (schedRequestInvalidate state data) retry := by
  have shed := sheds_schedRequestInvalidate state data
  refine covered.of_requests shed.queue shed.flushes ?_
  intro request member same
  have stays : ∀ requests : List (Request Out), request ∈ requests →
      request ∈ requests.eraseP (·.data = data) := by
    intro requests listed
    refine (mem_eraseP_of_neg ?_).mpr listed
    simpa [same] using different
  refine ⟨request, ?_, same⟩
  unfold Engine.schedRequestInvalidate
  rcases mem_append.mp member with ready | waiting
  · split
    · exact mem_append_left _ (stays _ ready)
    · exact mem_append_left _ ready
  · split
    · exact mem_append_right _ waiting
    · exact mem_append_right _ (stays _ waiting)

theorem not_mem_eraseP_of_nodup {Item Value : Type} [DecidableEq Value]
    {value : Item → Value} {items : List Item} (distinct : (items.map value).Nodup)
    (found : Value) : found ∉ (items.eraseP (value · = found)).map value := by
  induction items with
  | nil => simp
  | cons item items ih =>
    rw [map_cons, nodup_cons] at distinct
    by_cases same : value item = found
    · rw [eraseP_cons_of_pos (by simpa using same), ← same]
      exact distinct.1
    · rw [eraseP_cons_of_neg (by simpa using same)]
      intro member
      rcases mem_cons.mp member with first | later
      · exact same first.symm
      · exact ih distinct.2 later

section
variable (tended : Tended spared state)
include tended

theorem Tended.not_mem_taskRetryDestroy (retry : RetryRef Out)
    {task : Task Out} (live : (taskRetryDestroy state retry).task ref = some task) :
    retry ∉ task.refs := by
  intro member
  obtain ⟨old, oldLive, shed⟩ := (sheds_taskRetryDestroy state retry).tasks live
  have parent : retry.parent = ref :=
    tended.parents oldLive retry ((shed.retries.map _).subset member)
  subst ref
  unfold Engine.taskRetryDestroy at live
  rw [modifyTask_task_self, schedRequestInvalidate_task, oldLive] at live
  cases live
  exact not_mem_eraseP_of_nodup (tended.refs_nodup oldLive) retry member

theorem Tended.taskRetryDestroy (retry : RetryRef Out) :
    Tended spared (taskRetryDestroy state retry) := by
  have shed := sheds_taskRetryDestroy state retry
  refine tended.shrink ?_ ?_ ?_
  · intro ref task live
    obtain ⟨old, oldLive, kept⟩ := shed.tasks live
    exact ⟨old, oldLive, kept.retries.map _⟩
  · intro out entry member
    rw [shed.queue] at member
    exact .inl member
  · intro ref task live other member old
    refine old.imp_right fun covered => ?_
    have different : other ≠ retry := by
      rintro rfl
      exact tended.not_mem_taskRetryDestroy other live member
    exact (covered.schedRequestInvalidate different).of_requests rfl rfl
      fun request ready data => ⟨request, ready, data⟩

theorem Tended.taskDestroy (ref : TaskRef) : Tended spared (taskDestroy state ref) := by
  unfold Engine.taskDestroy
  split
  · exact tended
  · next task live =>
    have destroyed : Tended spared (task.retries.foldl
      (fun state retry => Engine.taskRetryDestroy state retry.ref) state) :=
      List.foldlRecOn task.retries _ tended fun _ kept retry _ => kept.taskRetryDestroy retry.ref
    refine destroyed.of_covered ?_ (fun _ _ member => .inl member)
      (fun _ covered => covered.of_requests rfl rfl
        fun request ready data => ⟨request, ready, data⟩)
    intro other kept keptLive
    by_cases same : other = ref
    · subst other
      simp at keptLive
    · refine ⟨kept, ?_, .refl _⟩
      simpa [same] using keptLive

theorem Tended.taskUsersRelease (ref : TaskRef) : Tended spared (taskUsersRelease state ref) := by
  unfold Engine.taskUsersRelease
  split
  · exact tended
  · split
    · exact tended.taskDestroy ref
    · exact tended

theorem Tended.cleanupTask (ref : TaskRef) : Tended spared (cleanupTask state ref) := by
  unfold Engine.cleanupTask
  split
  · exact tended
  · split
    · exact tended.taskDestroy ref
    · exact tended

end

section
variable (tended : Tended (OfRoute ref out) state)
include tended

theorem Tended.taskRetryClean : Tended (fun _ => False) (taskRetryClean state ref out) := by
  unfold Engine.taskRetryClean
  split
  · next dead => exact tended.settle (by simp [dead])
  · next task live =>
    split
    · next absent =>
      refine tended.settle ?_
      intro other otherLive retry member output
      rw [live] at otherLive
      cases otherLive
      obtain ⟨found, listed, rfl⟩ := mem_map.mp member
      have missed := List.find?_eq_none.mp absent found listed
      simp [output] at missed
    · next found present =>
      have output : found.ref.oIns = out := by simpa using List.find?_some present
      have listed : found.ref ∈ task.refs := mem_map_of_mem (mem_of_find?_eq_some present)
      refine (tended.taskRetryDestroy found.ref).settle ?_
      intro left leftLive retry member same
      obtain ⟨old, oldLive, shed⟩ := (sheds_taskRetryDestroy state found.ref).tasks leftLive
      rw [live] at oldLive
      cases oldLive
      have equal : retry = found.ref :=
        tended.unique live ((shed.retries.map _).subset member) listed (same.trans output.symm)
      subst equal
      exact absurd member (tended.not_mem_taskRetryDestroy found.ref leftLive)

theorem Tended.finishRoute : Tended (fun _ => False) (finishRoute state ref out) := by
  have left : Tended (fun _ => False) (taskUsersDec (Engine.taskRetryClean state ref out) ref) :=
    tended.taskRetryClean.modifyTask fun _ => .refl _
  exact left.taskUsersRelease ref

theorem Tended.taskRetryCreate {alloc : Bool} {next : State Out} {result : Option (RetryRef Out)}
    (created : taskRetryCreate config state ref out alloc = (next, result)) :
    Tended (OfRoute ref out) next ∧
      ∀ retry, result = some retry → retry.oIns = out ∧
        ∃ task, next.task ref = some task ∧ retry ∈ task.refs := by
  unfold Engine.taskRetryCreate at created
  split at created
  · cases created
    exact ⟨tended, by simp⟩
  · next task live =>
    split at created
    · next found present =>
      dsimp only at created
      split at created
      · cases created
        exact ⟨tended.taskRetryDestroy found.ref, by simp⟩
      · cases created
        have refs : ∀ task : Task Out,
            ((task.retries.map fun other =>
              if other.ref = found.ref then
                { other with attempts := other.attempts + 1 }
              else other).map (·.ref)) = task.refs := by
          intro task
          rw [map_map]
          refine map_congr_left fun other _ => ?_
          simp only [Function.comp_apply]
          split <;> rfl
        refine ⟨tended.modifyTask fun task =>
          (refs task).symm ▸ .refl _, ?_⟩
        intro retry same
        cases same
        refine ⟨by simpa using List.find?_some present, _,
          by rw [modifyTask_task_self, live]; rfl, ?_⟩
        have listed : found.ref ∈ task.refs := mem_map_of_mem (mem_of_find?_eq_some present)
        rw [← refs task] at listed
        exact listed
    · next absent =>
      split at created
      · cases created
        have numbered : Tended (OfRoute ref out)
            { state with next := state.next + 1 } :=
          ⟨tended.parents, tended.distinct, tended.entries, tended.covered⟩
        refine ⟨numbered.addRetry live ?_ ⟨rfl, rfl⟩, ?_⟩
        · intro other member
          obtain ⟨found, listed, rfl⟩ := mem_map.mp member
          simpa using List.find?_eq_none.mp absent found listed
        · intro retry same
          cases same
          exact ⟨rfl, _, by rw [modifyTask_task_self]; simp [live]; rfl, by simp [Task.refs]⟩
      · cases created
        exact ⟨tended, by simp⟩

theorem Tended.handleRetry (env : OutputEnv) :
    Tended (fun _ => False) (handleRetry config state ref out env) := by
  obtain ⟨ended, returned, result⟩ := handleRetry_result config state ref out env
  rw [returned]
  cases result with
  | unretried => exact tended.finishRoute
  | refused absent => exact (tended.taskRetryCreate absent).1.finishRoute
  | @scheduled next retry backoff present =>
    obtain ⟨kept, listed⟩ := tended.taskRetryCreate present
    obtain ⟨output, task, live, member⟩ := listed retry rfl
    have left : Tended (OfRoute ref out) (taskUsersDec next ref) :=
      kept.modifyTask fun _ => .refl _
    refine (left.schedRequestCreate retry env.now (some backoff)).settle ?_
    intro after afterLive other otherMember same
    rw [schedRequestCreate_task, taskUsersDec, modifyTask_task_self, live] at afterLive
    cases afterLive
    have equal : other = retry := kept.unique live otherMember member (same.trans output.symm)
    subst equal
    exact covered_schedRequestCreate _ _ _ _
  | @unscheduled next retry present =>
    obtain ⟨kept, listed⟩ := tended.taskRetryCreate present
    obtain ⟨output, task, live, member⟩ := listed retry rfl
    have left : Tended (OfRoute ref out) (taskUsersDec next ref) :=
      kept.modifyTask fun _ => .refl _
    refine Tended.taskUsersRelease ?_ ref
    refine (left.taskRetryDestroy retry).settle ?_
    intro after afterLive other otherMember same
    obtain ⟨old, oldLive, shed⟩ := (sheds_taskRetryDestroy _ retry).tasks afterLive
    have oldMember := (shed.retries.map _).subset otherMember
    rw [taskUsersDec, modifyTask_task_self, live] at oldLive
    cases oldLive
    have equal : other = retry := kept.unique live oldMember member (same.trans output.symm)
    subst equal
    exact absurd otherMember (left.not_mem_taskRetryDestroy other afterLive)

end

theorem Tended.reschedule (tended : Tended spared state) (data : RetryRef Out) (now : Nat) :
    Tended spared (schedRetryNow (schedRequestInvalidate state data) data now true).1 := by
  have shed := sheds_schedRequestInvalidate state data
  refine tended.of_covered ?_ ?_ ?_
  · intro ref task live
    exact ⟨task, by simpa [schedRetryNow] using live, .refl _⟩
  · intro out entry member
    refine .inl ?_
    rw [← shed.queue]
    simpa [schedRetryNow] using member
  · intro retry covered
    by_cases same : retry = data
    · refine .inl ⟨{ id := (schedRequestInvalidate state data).next
                     data := data, created := now, timeout := 0 }, ?_,
        same.symm⟩
      simp [schedRetryNow, State.allRequests]
    · refine (covered.schedRequestInvalidate same).of_requests rfl rfl ?_
      intro request member data
      refine ⟨request, ?_, data⟩
      rcases mem_append.mp member with ready | waiting
      · simp [schedRetryNow, State.allRequests, ready]
      · simp [schedRetryNow, State.allRequests, waiting]

end FluentBit.Engine
