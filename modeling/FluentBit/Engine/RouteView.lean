import FluentBit.Engine.LifeCycle
import FluentBit.Engine.Routes
import FluentBit.Lib.Keyed

/-!
# What the engine holds for a route

For one output of a task the engine can hold flushes in flight, entries in the
singleplex queue, requests of the scheduler and retries of the task.  Together
they are the view of the route.  Whatever happens at another route leaves the
view alone, the completion of a flush at another output included.
-/

namespace FluentBit.Engine

open List Function Keyed

variable {Out : Type} [DecidableEq Out]

instance (ref : TaskRef) (out : Out) : DecidablePred (OfRoute ref out) :=
  fun _ => inferInstanceAs (Decidable (_ ∧ _))

def State.flights (state : State Out) (ref : TaskRef) (out : Out) : List (Flush Out) :=
  state.flushes.filter fun flush => flush.task = ref ∧ flush.out = out

def State.waiting (state : State Out) (ref : TaskRef) (out : Out) : Nat :=
  (state.queue out).pending.countP fun entry => entry.task = ref

/-- The retries that requests of the scheduler refer to. -/
def State.requested (state : State Out) : Multiset (RetryRef Out) :=
  Multiset.ofList (state.allRequests.map (·.data))

def State.retriesOf (state : State Out) (ref : TaskRef) (out : Out) : List (TaskRetry Out) :=
  match state.task ref with
  | none => []
  | some task => task.retries.filter fun retry => retry.ref.oIns = out

@[ext]
structure View (Out : Type) where
  flights : List (Flush Out)
  waiting : Nat
  requests : Multiset (RetryRef Out)
  retries : List (TaskRetry Out)

def State.view (state : State Out) (ref : TaskRef) (out : Out) : View Out :=
  { flights := state.flights ref out
    waiting := state.waiting ref out
    requests := state.requested.filter (OfRoute ref out)
    retries := state.retriesOf ref out }

variable {changed ref : TaskRef}

section
variable {state after : State Out} {out : Out}

theorem view_eq (flushes : after.flushes = state.flushes) (queue : after.queue = state.queue)
    (requested : after.requested = state.requested)
    (retries : after.retriesOf ref out = state.retriesOf ref out) :
    after.view ref out = state.view ref out := by
  apply View.ext
  · simp only [State.view, State.flights, flushes]
  · simp only [State.view, State.waiting, queue]
  · simp only [State.view, requested]
  · exact retries

theorem retriesOf_of_task (same : after.task ref = state.task ref) :
    after.retriesOf ref out = state.retriesOf ref out := by
  simp only [State.retriesOf, same]

variable {request : Request Out} {retry : RetryRef Out}
  {output : Out} {flush : Flush Out}

theorem retriesOf_modifyTask {change : Task Out → Task Out}
    (kept : changed = ref → ∀ task,
      ((change task).retries.filter fun retry => retry.ref.oIns = out) =
        task.retries.filter fun retry => retry.ref.oIns = out) :
    (state.modifyTask changed change).retriesOf ref out = state.retriesOf ref out := by
  by_cases same : changed = ref
  · subst same
    simp only [State.retriesOf, modifyTask_task_self]
    cases live : state.task changed with
    | none => rfl
    | some task => exact kept rfl task
  · apply retriesOf_of_task
    exact modifyTask_task_of_ne _ _ _ (Ne.symm same)

theorem view_modifyTask {change : Task Out → Task Out}
    (kept : ∀ task, (change task).retries = task.retries) :
    (state.modifyTask changed change).view ref out = state.view ref out := by
  refine view_eq rfl rfl rfl ?_
  apply retriesOf_modifyTask
  intro _ task
  rw [kept task]

@[simp] theorem view_taskUsersDec (state : State Out) (changed ref : TaskRef) (out : Out) :
    (taskUsersDec state changed).view ref out = state.view ref out := by
  apply view_modifyTask
  intro task
  rfl

theorem map_eraseP_data (requests : List (Request Out)) (data : RetryRef Out) :
    (requests.eraseP (·.data = data)).map (·.data) = (requests.map (·.data)).erase data := by
  induction requests with
  | nil => rfl
  | cons request requests ih =>
    by_cases same : request.data = data
    · simp [same]
    · simp [same, ih]

theorem requested_schedRequestInvalidate (state : State Out) (data : RetryRef Out) :
    (schedRequestInvalidate state data).requested = state.requested.erase data := by
  simp only [schedRequestInvalidate]
  split <;>
    simp only [State.requested, State.allRequests, map_append, map_eraseP_data, Multiset.coe_erase]
  · next found =>
    rw [erase_append_left]
    simpa using found
  · next missing =>
    rw [erase_append_right]
    simpa using missing

theorem filter_erase (requested : Multiset (RetryRef Out)) (data : RetryRef Out) :
    (requested.erase data).filter (OfRoute ref out) =
      (requested.filter (OfRoute ref out)).erase data := by
  apply Multiset.ext.mpr
  intro other
  by_cases same : other = data
  · subst same
    simp only [Multiset.count_erase_self, Multiset.count_filter]
    split <;> rfl
  · simp only [Multiset.count_erase_of_ne same, Multiset.count_filter]

omit [DecidableEq Out] in
theorem requested_schedRequestCreate (state : State Out) (data : RetryRef Out) (now backoff : Nat) :
    (schedRequestCreate state data now (some backoff)).1.requested = data ::ₘ state.requested := by
  simp only [schedRequestCreate]
  split <;>
    simp only [State.requested, State.allRequests, map_append, map_cons, map_nil,
      Multiset.cons_coe, Multiset.coe_eq_coe]
  · rw [← append_assoc]
    exact perm_append_singleton _ _
  · rw [append_assoc]
    exact perm_middle

omit [DecidableEq Out] in
theorem requested_schedRetryNow (state : State Out) (data : RetryRef Out) (now : Nat) :
    (schedRetryNow state data now true).1.requested = data ::ₘ state.requested := by
  simp only [schedRetryNow, if_true, State.requested, State.allRequests, List.map_append,
    List.map_cons, List.map_nil, Multiset.cons_coe, Multiset.coe_eq_coe]
  rw [List.append_assoc]
  exact List.perm_middle

theorem view_schedRequestCreate (data : RetryRef Out) (now backoff : Nat) :
    (schedRequestCreate state data now (some backoff)).1.view ref out =
      { state.view ref out with
        requests := if OfRoute ref out data then data ::ₘ (state.view ref out).requests
          else (state.view ref out).requests } := by
  have quiet := quiet_schedRequestCreate state data now (some backoff)
  apply View.ext
  · simp only [State.view, State.flights, quiet.flushes]
  · simp only [State.view, State.waiting, quiet.queue]
  · simp only [State.view, requested_schedRequestCreate]
    split
    · next here => rw [Multiset.filter_cons_of_pos _ here]
    · next elsewhere => rw [Multiset.filter_cons_of_neg _ elsewhere]
  · apply retriesOf_of_task
    rw [schedRequestCreate_task]

theorem erase_requests_elsewhere {data : RetryRef Out} (elsewhere : ¬OfRoute ref out data) :
    (state.view ref out).requests.erase data = (state.view ref out).requests := by
  apply Multiset.erase_of_notMem
  intro inside
  simp only [State.view] at inside
  exact elsewhere (Multiset.mem_filter.mp inside).2

section
variable (ids : (state.allRequests.map (·.id)).Nodup) (member : request ∈ state.requests)
include ids member

theorem requested_dropRequest :
    (dropRequest state request).requested = state.requested.erase request.data := by
  have waits : erase (·.id) state.requestsWait request.id =
      state.requestsWait := by
    apply filter_eq_self.mpr
    intro other otherMember
    rw [State.allRequests, map_append, nodup_append] at ids
    have different := ids.2.2 request.id (mem_map_of_mem member)
      other.id (mem_map_of_mem otherMember)
    simpa using different.symm
  have left : (dropRequest state request).allRequests =
      erase (·.id) state.allRequests request.id := by
    calc
      (dropRequest state request).allRequests =
          erase (·.id) state.requests request.id ++
            erase (·.id) state.requestsWait request.id := by
        rw [waits]
        rfl
      _ = erase (·.id) state.allRequests request.id := (filter_append _ _).symm
  have split := (perm_erase ids (mem_append_left _ member)).map (·.data)
  simp only [State.requested, left]
  rw [Multiset.coe_eq_coe.mpr split, map_cons, ← Multiset.cons_coe, Multiset.erase_cons_head]

theorem view_dropRequest :
    (dropRequest state request).view ref out =
      { state.view ref out with requests := (state.view ref out).requests.erase request.data } := by
  refine View.ext rfl rfl ?_ rfl
  simp only [State.view, requested_dropRequest ids member, filter_erase]

end

theorem filter_eraseP_retry {retries : List (TaskRetry Out)} (elsewhere : retry.oIns ≠ out) :
    ((retries.eraseP (·.ref = retry)).filter fun other =>
        other.ref.oIns = out) =
      retries.filter fun other => other.ref.oIns = out := by
  induction retries with
  | nil => rfl
  | cons head rest ih =>
    by_cases same : head.ref = retry
    · simp [same, elsewhere]
    · simp [same, filter_cons, ih]

theorem retriesOf_taskRetryDestroy (elsewhere : ¬OfRoute ref out retry) :
    (taskRetryDestroy state retry).retriesOf ref out = state.retriesOf ref out := by
  have invalidated : (schedRequestInvalidate state retry).retriesOf ref out =
      state.retriesOf ref out := by
    apply retriesOf_of_task
    rw [schedRequestInvalidate_task]
  rw [← invalidated]
  apply retriesOf_modifyTask
  intro parent task
  apply filter_eraseP_retry
  intro same
  exact elsewhere ⟨parent, same⟩

theorem view_taskRetryDestroy_eq (state : State Out) (retry : RetryRef Out) :
    (taskRetryDestroy state retry).view ref out =
      { state.view ref out with
        requests := (state.view ref out).requests.erase retry
        retries := (taskRetryDestroy state retry).retriesOf ref out } := by
  have sheds := sheds_taskRetryDestroy state retry
  refine View.ext ?_ ?_ ?_ rfl
  · simp only [State.view, State.flights, sheds.flushes]
  · simp only [State.view, State.waiting, sheds.queue]
  · have requested : (taskRetryDestroy state retry).requested = state.requested.erase retry :=
      requested_schedRequestInvalidate state retry
    simp only [State.view, requested, filter_erase]

theorem view_taskRetryDestroy (elsewhere : ¬OfRoute ref out retry) :
    (taskRetryDestroy state retry).view ref out = state.view ref out := by
  rw [view_taskRetryDestroy_eq, retriesOf_taskRetryDestroy elsewhere,
    erase_requests_elsewhere elsewhere]
  rfl

theorem filter_eraseP_of_imp {Item : Type} {erased kept : Item → Bool}
    (imp : ∀ item, erased item = true → kept item = true) (items : List Item) :
    (items.eraseP erased).filter kept = (items.filter kept).eraseP erased := by
  induction items with
  | nil => rfl
  | cons head rest ih =>
    cases out : erased head with
    | true => simp [out, imp head out]
    | false =>
      cases stays : kept head with
      | true | false => simp [out, stays, ih]

theorem view_taskRetryDestroy_here (here : OfRoute ref out retry) :
    (taskRetryDestroy state retry).view ref out =
      { state.view ref out with
        requests := (state.view ref out).requests.erase retry
        retries := (state.view ref out).retries.eraseP (·.ref = retry) } := by
  obtain ⟨rfl, rfl⟩ := here
  rw [view_taskRetryDestroy_eq]
  refine View.ext rfl rfl rfl ?_
  simp only [State.view, State.retriesOf, taskRetryDestroy,
    modifyTask_task_self, schedRequestInvalidate_task]
  cases live : state.task retry.parent with
  | none => rfl
  | some task =>
    apply filter_eraseP_of_imp
    intro other same
    simpa using congrArg RetryRef.oIns (of_decide_eq_true same)

/-- Nothing is left to destroy when a task without retries goes. -/
theorem view_taskDestroy
    (parents : ∀ task, state.task changed = some task →
      ∀ retry ∈ task.retries, retry.ref.parent = changed)
    (released : changed = ref → state.retriesOf ref out = []) :
    (taskDestroy state changed).view ref out = state.view ref out := by
  simp only [taskDestroy]
  split
  · rfl
  · next task live =>
    have others : ∀ retry ∈ task.retries, ¬OfRoute ref out retry.ref := by
      rintro retry member ⟨parent, same⟩
      have here : changed = ref := by
        rw [← parents task live retry member]
        exact parent
      have none := released here
      subst here
      simp only [State.retriesOf, live] at none
      have missing := filter_eq_nil_iff.mp none retry member
      exact missing (by simpa using same)
    have destroyed : (task.retries.foldl (fun state retry => taskRetryDestroy state retry.ref)
        state).view ref out = state.view ref out := by
      refine List.foldlRecOn (motive := fun current : State Out =>
        current.view ref out = state.view ref out) task.retries _ rfl ?_
      intro current same retry member
      rw [view_taskRetryDestroy (others retry member), same]
    rw [← destroyed]
    refine view_eq rfl rfl rfl ?_
    by_cases here : changed = ref
    · have none := congrArg View.retries destroyed
      simp only [State.view, released here] at none
      subst here
      rw [none]
      simp [State.retriesOf]
    · apply retriesOf_of_task
      exact update_of_ne (Ne.symm here) _ _

theorem view_taskUsersRelease (changed : TaskRef) :
    (taskUsersRelease state changed).view ref out = state.view ref out := by
  simp only [taskUsersRelease]
  split
  · rfl
  · next task live =>
    split
    · next unused =>
      have empty := eq_nil_of_length_eq_zero unused.2
      apply view_taskDestroy
      · intro other found retry member
        rw [live] at found
        cases found
        rw [empty] at member
        cases member
      · rintro rfl
        simp [State.retriesOf, live, empty]
    · rfl

theorem view_taskRetryClean
    (parents : output = out → ∀ task, state.task changed = some task →
      ∀ retry ∈ task.retries, retry.ref.parent = changed)
    (elsewhere : ¬(changed = ref ∧ output = out)) :
    (taskRetryClean state changed output).view ref out = state.view ref out := by
  simp only [taskRetryClean]
  split
  · rfl
  · next task live =>
    split
    · rfl
    · next retry found =>
      apply view_taskRetryDestroy
      rintro ⟨parent, same⟩
      have served : retry.ref.oIns = output := by simpa using List.find?_some found
      have outputs : output = out := served.symm.trans same
      apply elsewhere
      refine ⟨?_, outputs⟩
      rw [← parents outputs task live retry (mem_of_find?_eq_some found)]
      exact parent

def bump (retry : RetryRef Out) (other : TaskRetry Out) : TaskRetry Out :=
  if other.ref = retry then { other with attempts := other.attempts + 1 }
  else other

theorem filter_map_bump (retries : List (TaskRetry Out)) (retry : RetryRef Out) (out : Out) :
    ((retries.map (bump retry)).filter fun other => other.ref.oIns = out) =
      (retries.filter fun other => other.ref.oIns = out).map (bump retry) := by
  rw [filter_map]
  congr 2
  funext other
  simp only [bump, comp_apply]
  split <;> rfl

theorem map_bump_of_ne {retries : List (TaskRetry Out)} (elsewhere : retry.oIns ≠ out) :
    (retries.filter fun other => other.ref.oIns = out).map (bump retry) =
      retries.filter fun other => other.ref.oIns = out := by
  rw [← map_id (retries.filter fun other => other.ref.oIns = out), map_map]
  apply map_congr_left
  intro other member
  have outputs : other.ref.oIns = out := by simpa using (mem_filter.mp member).2
  apply if_neg
  rintro rfl
  exact elsewhere outputs

theorem view_taskRetryCreate {config : Config Out} {alloc : Bool}
    (parents : output = out → ∀ task, state.task changed = some task →
      ∀ retry ∈ task.retries, retry.ref.parent = changed)
    (elsewhere : ¬(changed = ref ∧ output = out)) :
    (taskRetryCreate config state changed output alloc).1.view ref out = state.view ref out := by
  simp only [taskRetryCreate]
  split
  · rfl
  · next task live =>
    split
    · next retry found =>
      have same : retry.ref.oIns = output := by simpa using List.find?_some found
      split
      · apply view_taskRetryDestroy
        rintro ⟨owner, outputs⟩
        have here : output = out := same.symm.trans outputs
        have parent : retry.ref.parent = changed :=
          parents here task live retry (mem_of_find?_eq_some found)
        exact elsewhere ⟨parent.symm.trans owner, here⟩
      · refine view_eq rfl rfl rfl ?_
        apply retriesOf_modifyTask
        intro owner task
        apply (filter_map_bump task.retries retry.ref out).trans
        apply map_bump_of_ne
        rw [same]
        exact fun outputs => elsewhere ⟨owner, outputs⟩
    · split
      · refine view_eq rfl rfl rfl ?_
        apply retriesOf_modifyTask
        intro owner task
        have different : output ≠ out := fun outputs =>
          elsewhere ⟨owner, outputs⟩
        simp [different]
      · rfl

section
variable (config : Config Out) {task : Task Out} (alloc : Bool) (live : state.task ref = some task)
include live

theorem find?_retriesOf :
    task.retries.find? (·.ref.oIns = out) = (state.retriesOf ref out).head? := by
  simp [State.retriesOf, live]

theorem taskRetryCreate_first (none : state.retriesOf ref out = []) :
    (taskRetryCreate config state ref out true).2 =
        some { addr := state.next, parent := ref, oIns := out } ∧
      (taskRetryCreate config state ref out true).1.view ref out =
        { state.view ref out with
          retries :=
            [{ ref := { addr := state.next, parent := ref, oIns := out }
               attempts := 1 }] } := by
  have absent : task.retries.find? (·.ref.oIns = out) = Option.none := by
    rw [find?_retriesOf live, none]
    rfl
  simp only [taskRetryCreate, live, absent, if_true]
  refine ⟨trivial, ?_⟩
  refine View.ext rfl rfl rfl ?_
  simp only [State.retriesOf, live] at none
  simp [State.view, State.retriesOf, live, none]

variable {retry : TaskRetry Out} (only : state.retriesOf ref out = [retry])
include only

theorem find?_of_only : task.retries.find? (·.ref.oIns = out) = some retry := by
  rw [find?_retriesOf live, only]
  rfl

theorem taskRetryCreate_last (parent : retry.ref.parent = ref)
    (limited : 0 ≤ (config.output out).retryLimit)
    (last : (config.output out).retryLimit ≤ retry.attempts) :
    (taskRetryCreate config state ref out alloc).2 = none ∧
      (taskRetryCreate config state ref out alloc).1.view ref out =
        { state.view ref out with
          requests := (state.view ref out).requests.erase retry.ref
          retries := [] } := by
  have found := find?_of_only live only
  have here : OfRoute ref out retry.ref := ⟨parent, by simpa using List.find?_some found⟩
  simp only [taskRetryCreate, live, found, ge_iff_le, last, limited, and_self, if_true, true_and]
  rw [view_taskRetryDestroy_here here]
  simp [State.view, only]

theorem taskRetryCreate_again
    (more : ¬((config.output out).retryLimit ≤ retry.attempts ∧
      0 ≤ (config.output out).retryLimit)) :
    (taskRetryCreate config state ref out alloc).2 = some retry.ref ∧
      (taskRetryCreate config state ref out alloc).1.view ref out =
        { state.view ref out with retries := [{ retry with attempts := retry.attempts + 1 }] } := by
  have found := find?_of_only live only
  simp only [taskRetryCreate, live, found, ge_iff_le, more, if_false, true_and]
  refine View.ext rfl rfl rfl ?_
  simp only [State.retriesOf, live] at only
  simp only [State.view, State.retriesOf, modifyTask_task_self, live, Option.map_some]
  apply (filter_map_bump task.retries retry.ref out).trans
  rw [only]
  simp [bump]

end

theorem view_startFlush (state : State Out) (changed : TaskRef) (output : Out)
    (entry : Option Nat) (phase : Phase) :
    (startFlush (handOver state changed output) changed output entry phase).view ref out =
      { state.view ref out with
        flights := (state.view ref out).flights ++
          if changed = ref ∧ output = out then
            [{ id := state.next, task := changed, out := output, entry := entry, phase := phase }]
          else [] } := by
  refine View.ext ?_ rfl rfl ?_
  · simp [State.view, State.flights, startFlush, handOver, filter_cons]
  · exact retriesOf_modifyTask fun _ _ => rfl

theorem view_pushEntry (state : State Out) (retry : Option (RetryRef Out)) (changed : TaskRef)
    (output : Out) :
    (pushEntry state retry changed output).view ref out =
      { state.view ref out with
        waiting := (state.view ref out).waiting +
          if changed = ref ∧ output = out then 1 else 0 } := by
  refine View.ext rfl ?_ rfl ?_
  · by_cases same : out = output
    · subst same
      simp [State.view, State.waiting, pushEntry, enterQueue, State.setQueue, countP_cons]
    · simp [State.view, State.waiting, pushEntry, enterQueue, State.setQueue, same, Ne.symm same,
        taskUsersInc]
  · exact retriesOf_modifyTask fun _ _ => rfl

@[simp] theorem view_endInProgress (state : State Out) (ref : TaskRef) (out output : Out) :
    (endInProgress state output).view ref out = state.view ref out := by
  apply View.ext
  · simp [State.view, State.flights]
  · by_cases same : out = output
    · subst same
      simp [State.view, State.waiting]
    · simp [State.view, State.waiting, endInProgress_queue_of_ne _ _ same]
  · simp [State.view, State.requested]
  · apply retriesOf_of_task
    rw [endInProgress_task]

section
variable {output : Out} {entry : Enqueued Out}
  {pending : List (Enqueued Out)}
  (front : (state.queue output).pending = entry :: pending)
include front

theorem view_beginEntry (phase : Phase) :
    (beginEntry state output entry pending phase).view ref out =
      if entry.task = ref ∧ output = out then
        { state.view ref out with
          flights := (state.view ref out).flights ++
            [{ id := state.next
               task := entry.task
               out := output
               entry := some entry.seq
               phase := phase }]
          waiting := (state.view ref out).waiting - 1 }
      else state.view ref out := by
  have task : (beginEntry state output entry pending phase).retriesOf ref out =
      state.retriesOf ref out := by
    apply retriesOf_of_task
    rw [beginEntry_task]
  split
  · next here =>
    obtain ⟨rfl, rfl⟩ := here
    refine View.ext ?_ ?_ rfl task
    · simp [State.view, State.flights, beginEntry_flushes]
    · simp [State.view, State.waiting, front]
  · next elsewhere =>
    refine View.ext ?_ ?_ rfl task
    · simp [State.view, State.flights, beginEntry_flushes, elsewhere]
    · by_cases same : out = output
      · subst same
        have different : entry.task ≠ ref := fun same => elsewhere ⟨same, rfl⟩
        simp [State.view, State.waiting, front, different]
      · simp [State.view, State.waiting, takeEntry_queue_of_ne _ _ same]

end

theorem view_takeEntry (different : out ≠ output) (entry : Enqueued Out)
    (pending : List (Enqueued Out)) :
    (takeEntry state output entry pending).view ref out = state.view ref out := by
  refine View.ext rfl ?_ rfl ?_
  · simp [State.view, State.waiting, takeEntry_queue_of_ne _ _ different]
  · exact retriesOf_modifyTask fun _ _ => rfl

theorem flights_removeFlush (state : State Out) (id : Nat) :
    (state.removeFlush id).flights ref out = (state.flights ref out).filter (·.id ≠ id) := by
  exact filter_comm _ _ _

theorem flights_setPhase (state : State Out) (id : Nat) (phase : Phase) :
    (state.setPhase id phase).flights ref out =
      (state.flights ref out).map fun flush =>
        if flush.id = id then { flush with phase := phase } else flush := by
  simp only [State.flights, State.setPhase, filter_map]
  congr 2
  funext flush
  simp only [comp_apply]
  split <;> rfl

theorem id_ne_of_flights (numbered : Numbered state) {other : Flush Out}
    (member : flush ∈ state.flushes) (elsewhere : ¬(flush.task = ref ∧ flush.out = out))
    (flies : other ∈ state.flights ref out) : other.id ≠ flush.id := by
  intro same
  obtain ⟨listed, here⟩ := mem_filter.mp flies
  have equal : other = flush := inj_on_of_nodup_map numbered.flushIds listed member same
  subst equal
  exact elsewhere (of_decide_eq_true here)

theorem view_removeFlush_here (only : state.flights ref out = [flush]) :
    (state.removeFlush flush.id).view ref out =
      { state.view ref out with flights := [] } := by
  apply View.ext
  · simp [State.view, flights_removeFlush, only]
  all_goals rfl

theorem view_removeFlush (numbered : Numbered state) (member : flush ∈ state.flushes)
    (elsewhere : ¬(flush.task = ref ∧ flush.out = out)) :
    (state.removeFlush flush.id).view ref out = state.view ref out := by
  apply View.ext
  · simp only [State.view, flights_removeFlush]
    apply filter_eq_self.mpr
    intro other flies
    simpa using id_ne_of_flights numbered member elsewhere flies
  all_goals rfl

theorem view_setPhase_here {phase : Phase} (only : state.flights ref out = [flush]) :
    (state.setPhase flush.id phase).view ref out =
      { state.view ref out with flights := [{ flush with phase := phase }] } := by
  apply View.ext
  · simp [State.view, flights_setPhase, only]
  all_goals rfl

theorem view_setPhase (numbered : Numbered state) {phase : Phase} (member : flush ∈ state.flushes)
    (elsewhere : ¬(flush.task = ref ∧ flush.out = out)) :
    (state.setPhase flush.id phase).view ref out = state.view ref out := by
  apply View.ext
  · simp only [State.view, flights_setPhase]
    conv_rhs => rw [← map_id (state.flights ref out)]
    apply map_congr_left
    intro other flies
    exact if_neg (id_ne_of_flights numbered member elsewhere flies)
  all_goals rfl

section
variable {config : Config Out} {retry : Option (RetryRef Out)}

theorem StartResult.view {output : Out}
    (result : StartResult config state retry changed output after)
    (elsewhere : ¬(changed = ref ∧ output = out)) : after.view ref out = state.view ref out := by
  cases result with
  | flushed => rw [view_startFlush, if_neg elsewhere, append_nil]
  | queued => rw [view_pushEntry, if_neg elsewhere, Nat.add_zero]
  | started empty =>
    rw [view_beginEntry (pushEntry_front retry changed empty), if_neg elsewhere, view_pushEntry,
      if_neg elsewhere, Nat.add_zero]

theorem StartResult.view_here (result : StartResult config state retry ref out after) :
    (∃ flush : Flush Out, flush.phase = startPhase config out ∧
      after.view ref out =
        { state.view ref out with
          flights := (state.view ref out).flights ++ [flush] }) ∨
      after.view ref out =
        { state.view ref out with waiting := (state.view ref out).waiting + 1 } := by
  cases result with
  | flushed =>
    rw [view_startFlush, if_pos ⟨rfl, rfl⟩]
    exact .inl ⟨_, rfl, rfl⟩
  | queued =>
    rw [view_pushEntry, if_pos ⟨rfl, rfl⟩]
    exact .inr rfl
  | started empty =>
    rw [view_beginEntry (pushEntry_front retry ref empty), if_pos ⟨rfl, rfl⟩, view_pushEntry,
      if_pos ⟨rfl, rfl⟩]
    exact .inl ⟨_, rfl, rfl⟩

end

end

variable {Out : Type}

def AllWired (state : State Out) : Prop :=
  ∀ out, ∀ entry ∈ (state.queue out).pending, entry.Wired out

theorem allWired_initial : AllWired (State.initial : State Out) := by
  intro out entry member
  cases member

theorem AllWired.of_pending {state after : State Out} (wired : AllWired state)
    (fewer : ∀ out, (after.queue out).pending ⊆ (state.queue out).pending) : AllWired after := by
  intro out entry member
  exact wired out entry (fewer out member)

theorem AllWired.of_queue {state after : State Out} (wired : AllWired state)
    (same : after.queue = state.queue) : AllWired after := by
  apply wired.of_pending
  intro out
  rw [same]
  exact .refl _

variable [DecidableEq Out] {config : Config Out} {state : State Out}

theorem AllWired.endInProgress (wired : AllWired state) (out : Out) :
    AllWired (endInProgress state out) := by
  apply wired.of_pending
  intro other
  by_cases same : other = out
  · subst same
    simp
  · rw [endInProgress_queue_of_ne _ _ same]
    exact .refl _

theorem AllWired.takeEntry (wired : AllWired state) {out : Out} {entry : Enqueued Out}
    {pending : List (Enqueued Out)} (front : (state.queue out).pending = entry :: pending) :
    AllWired (takeEntry state out entry pending) := by
  apply wired.of_pending
  intro other
  by_cases same : other = out
  · subst same
    rw [takeEntry_queue_self, front]
    exact List.subset_cons_self _ _
  · rw [takeEntry_queue_of_ne _ _ same]
    exact .refl _

theorem allWired_queueClosed (out : Out) : QueueClosed out (AllWired : State Out → Prop) :=
  { ended := fun wired => wired.endInProgress out
    begun := fun front wired => (wired.takeEntry front).of_queue rfl
    taken := fun front wired => wired.takeEntry front
    destroyed := fun wired => wired.of_queue (sheds_taskRetryDestroy _ _).queue
    read := fun wired => wired.of_queue rfl }

section
variable {retry : Option (RetryRef Out)} {out : Out} (wired : AllWired state)
  (own : ∀ data, retry = some data → data.parent = ref ∧ data.oIns = out)
include wired own

theorem AllWired.pushEntry : AllWired (pushEntry state retry ref out) := by
  intro other entry member
  by_cases same : other = out
  · subst same
    simp only [Engine.pushEntry, State.setQueue, Function.update_self] at member
    rcases List.mem_append.mp member with old | new
    · exact wired other entry old
    · obtain rfl := List.mem_singleton.mp new
      exact own
  · simp only [Engine.pushEntry, State.setQueue, enterQueue, Function.update_of_ne same] at member
    exact wired other entry member

theorem AllWired.enqueue : AllWired (outputTaskSingleplexEnqueue config state retry ref out).1 := by
  obtain ⟨ended, returned, result⟩ := outputTaskSingleplexEnqueue_result config state retry ref out
  rw [returned]
  cases result with
  | allocFailed first =>
    apply (allWired_queueClosed out).destroyRetry
    exact wired.of_queue rfl
  | queued first busy => exact wired.pushEntry own
  | flushed first idle =>
    apply (allWired_queueClosed out).flushOne
    · exact fun _ =>
        (allWired_queueClosed out).outputTaskSingleplexFlushNext
    · exact wired.pushEntry own

end

theorem wired_step {next : State Out} {event : Event Out} (kept : Numbered state ∧ AllWired state)
    (taken : step config state event = some next) : Numbered next ∧ AllWired next := by
  have closed : QuietClosed config (AllWired : State Out → Prop) :=
    .of_queue AllWired.of_queue fun own wired => wired.enqueue own
  refine ⟨numbered_step kept.1 taken, closed.step kept.1 kept.2 ?_ taken⟩
  intro flush _ env starts _ _
  apply (allWired_queueClosed flush.out).outputTaskSingleplexFlushNext
  exact kept.2.of_queue rfl

/-- Whatever else fails in a run that reads no freed queue entry, an output
with nothing in progress has nothing pending, and a retry that waits is one of
its entry's task and output. -/
theorem queues_are_served (reached : Run.Reaches (step config)
      (fun state event => Sound (step config state event)) State.initial state) :
    AllIdle state ∧ AllWired state := by
  have kept : (Numbered state ∧ AllIdle state) ∧ Numbered state ∧ AllWired state := by
    apply reached.invariant
      ⟨⟨numbered_initial, allIdle_initial⟩, numbered_initial, allWired_initial⟩
    intro current next event kept _ taken
    exact ⟨allIdle_step kept.1 taken, wired_step kept.2 taken⟩
  exact ⟨kept.1.2, kept.2.2⟩

theorem queues_are_served_retriedOnce :
    ∃ state : State Unit, Run.runGuarded (step synchronousOutput)
      (fun state event => Sound (step synchronousOutput state event)) State.initial
      retriedOnce = some state ∧ AllIdle state ∧ AllWired state := by
  obtain ⟨state, taken⟩ : ∃ state, Run.runGuarded (step synchronousOutput)
      (fun state event => Sound (step synchronousOutput state event)) State.initial
      retriedOnce = some state := ⟨_, rfl⟩
  exact ⟨state, taken, queues_are_served (Run.Reaches.refl.of_runGuarded taken)⟩

section
variable {out output : Out} (different : out ≠ output)
include different

theorem view_destroyRetry {entry : Enqueued Out} (wired : entry.Wired output) :
    (destroyRetry state entry.retry).view ref out = state.view ref out := by
  cases data : entry.retry with
  | none => rfl
  | some retry =>
    apply view_taskRetryDestroy
    rintro ⟨_, same⟩
    exact different (same.symm.trans (wired retry data).2)

/-- The induction over the queue, with the entries known to be wired. -/
theorem view_singleplexFlushNext (fuel : Nat) (wired : AllWired state) :
    (singleplexFlushNext config fuel state output).view ref out = state.view ref out := by
  induction fuel generalizing state with
  | zero => rfl
  | succ fuel ih =>
    have ended := wired.endInProgress output
    have closed := allWired_queueClosed output
    have nextWired : ∀ {current : State Out}, AllWired current →
        AllWired (singleplexFlushNext config fuel current output) :=
      fun kept => closed.singleplexFlushNext fuel kept
    simp only [singleplexFlushNext]
    split
    · apply view_endInProgress
    · next entry pending front =>
      have own : entry.Wired output := by
        apply ended output
        rw [front]
        exact List.mem_cons_self
      have taken := ended.takeEntry front
      have took : (takeEntry (endInProgress state output) output entry
          pending).view ref out = state.view ref out := by
        rw [view_takeEntry different, view_endInProgress]
      obtain ⟨flushed, returned, result⟩ :=
        outputTaskQueueFlushOne_result config (singleplexFlushNext config fuel) front
      rw [returned]
      have failed : AllWired (afterFailure config (singleplexFlushNext config fuel)
            (takeEntry (endInProgress state output) output entry pending)
            output) ∧
          (afterFailure config (singleplexFlushNext config fuel)
            (takeEntry (endInProgress state output) output entry pending)
            output).view ref out = state.view ref out := by
        simp only [afterFailure]
        split
        · exact ⟨nextWired taken, (ih taken).trans took⟩
        · exact ⟨taken, took⟩
      cases result with
      | started first =>
        rw [view_beginEntry front, if_neg fun both => different both.2.symm, view_endInProgress]
      | poolFailed threaded first => exact failed.2
      | createFailed unthreaded first =>
        rw [ih (closed.destroyRetry taken entry.retry), view_destroyRetry different own, took]
      | writeFailed unthreaded first =>
        rw [ih (closed.destroyRetry (closed.read failed.1) entry.retry),
          view_destroyRetry different own]
        exact failed.2

theorem view_finishRoute_of_ne (state : State Out) (changed : TaskRef) :
    (finishRoute state changed output).view ref out = state.view ref out := by
  simp only [finishRoute]
  rw [view_taskUsersRelease, view_taskUsersDec]
  apply view_taskRetryClean
  · exact fun same => (different same.symm).elim
  · exact fun both => different both.2.symm

omit different in
theorem taskRetryCreate_oIns {alloc : Bool}
    {next : State Out} {retry : RetryRef Out}
    (created : taskRetryCreate config state changed output alloc =
      (next, some retry)) : retry.oIns = output := by
  simp only [taskRetryCreate] at created
  split at created
  · cases created
  · split at created
    · next found present =>
      split at created
      · cases created
      · cases created
        simpa using List.find?_some present
    · split at created
      · cases created
        rfl
      · cases created

theorem view_handleRetry_of_ne (state : State Out) (changed : TaskRef) (env : OutputEnv) :
    (handleRetry config state changed output env).view ref out = state.view ref out := by
  obtain ⟨ended, returned, result⟩ := handleRetry_result config state changed output env
  have created : (taskRetryCreate config state changed output
      env.alloc).1.view ref out = state.view ref out := by
    apply view_taskRetryCreate
    · exact fun same => (different same.symm).elim
    · exact fun both => different both.2.symm
  rw [returned]
  cases result with
  | unretried => exact view_finishRoute_of_ne different state changed
  | refused absent =>
    rw [absent] at created
    rw [view_finishRoute_of_ne different, created]
  | @scheduled next retry backoff present =>
    rw [present] at created
    rw [view_schedRequestCreate, if_neg, view_taskUsersDec, created]
    rintro ⟨_, same⟩
    exact different (same.symm.trans (taskRetryCreate_oIns present))
  | @unscheduled next retry present =>
    rw [present] at created
    rw [view_taskUsersRelease, view_taskRetryDestroy, view_taskUsersDec, created]
    rintro ⟨_, same⟩
    exact different (same.symm.trans (taskRetryCreate_oIns present))

theorem view_handleOutputEvent_of_ne (wired : AllWired state)
    (changed : TaskRef) (ret : Ret) (env : OutputEnv) :
    (handleOutputEvent config state changed output ret env).view ref out = state.view ref out := by
  have flushed : (flushNextIf config state output).view ref out = state.view ref out :=
    flushNextIf_keeps (fun after => after.view ref out = state.view ref out) rfl
      (view_singleplexFlushNext different _ wired)
  cases ret with
  | ok | error => exact (view_finishRoute_of_ne different _ changed).trans flushed
  | retry => exact (view_handleRetry_of_ne different _ changed env).trans flushed

end

end FluentBit.Engine
