import FluentBit.Lib.Handles
import FluentBit.Lib.Run

/-!
# The file registry of the tail input

Every file is in the list of static files or in the list of event files, its
key is in the hash table that belongs to the list, and a rotated file is in a
third list until it is purged.  Files move from the first list to the second.
The number of static files is counted apart: it is incremented and decremented
where files are appended and promoted, but not where a static file is removed.
-/

namespace FluentBit.Tail.Registry

open Handles Run List Function

abbrev Ref := Nat

structure Key where
  dev : Nat
  inode : Nat
deriving DecidableEq, Repr

inductive Mode where
  | static
  | event
deriving DecidableEq, Repr

structure File where
  hashKey : Key
  tailMode : Mode
  rotated : Nat
deriving DecidableEq, Repr

/-- `struct flb_tail_config`, with its lists of files. -/
structure Context where
  files : Heap File
  filesStatic : List Ref
  filesEvent : List Ref
  filesRotated : List Ref
  staticHash : List Key
  eventHash : List Key
  filesStaticCount : Int

def Context.initial : Context :=
  { files := Heap.empty
    filesStatic := []
    filesEvent := []
    filesRotated := []
    staticHash := []
    eventHash := []
    filesStaticCount := 0 }

/-- `flb_hash_table_add`, for the keys. -/
def hashAdd (keys : List Key) (key : Key) : List Key := if key ∈ keys then keys else keys ++ [key]

def fileExists (ctx : Context) (key : Key) : Bool := key ∈ ctx.staticHash || key ∈ ctx.eventHash

/-- `flb_tail_file_append`.  Nothing changes for a file that exists. -/
def fileAppend (mode : Mode) (ctx : Context) (key : Key) : Context :=
  if fileExists ctx key then ctx
  else
    let files := ctx.files.alloc
      { hashKey := key, tailMode := mode, rotated := 0 }
    match mode with
    | .static =>
      { ctx with
        files := files
        filesStatic := ctx.filesStatic ++ [ctx.files.next]
        filesStaticCount := ctx.filesStaticCount + 1
        staticHash := hashAdd ctx.staticHash key }
    | .event =>
      { ctx with
        files := files
        filesEvent := ctx.filesEvent ++ [ctx.files.next]
        eventHash := hashAdd ctx.eventHash key }

def fileRemove (ctx : Context) (ref : Ref) (file : File) : Context :=
  { ctx with
    files := ctx.files.free ref
    filesRotated :=
      if file.rotated > 0 then ctx.filesRotated.erase ref
      else ctx.filesRotated
    filesStatic := ctx.filesStatic.erase ref
    filesEvent := ctx.filesEvent.erase ref
    staticHash := ctx.staticHash.erase file.hashKey
    eventHash := ctx.eventHash.erase file.hashKey }

def File.rotate (now : Nat) (file : File) : File :=
  { file with rotated := now }

/-- `flb_tail_file_rotated`.  Files that were created under the old name, or
that a scan finds, are appended. -/
def fileRotated (now : Nat) (created : List Key) (ctx : Context) (ref : Ref) (file : File) :
    Context :=
  if file.rotated = 0 then
    created.foldl (fileAppend .static)
      { ctx with
        files := ctx.files.modify ref (File.rotate now)
        filesRotated := ctx.filesRotated ++ [ref] }
  else ctx

def File.promote (file : File) : File :=
  { file with tailMode := .event }

/-- The list swap of `flb_tail_file_to_event`. -/
def listSwap (ctx : Context) (ref : Ref) (key : Key) : Context :=
  { ctx with
    files := ctx.files.modify ref File.promote
    filesStatic := ctx.filesStatic.erase ref
    filesStaticCount := ctx.filesStaticCount - 1
    staticHash := ctx.staticHash.erase key
    filesEvent := ctx.filesEvent ++ [ref]
    eventHash := hashAdd ctx.eventHash key }

/-- `flb_tail_file_to_event`.  The check tells whether the file was rotated,
and when. -/
def fileToEvent (check : Option (Nat × List Key)) (fsAdded : Bool)
    (ctx : Context) (ref : Ref) (file : File) : Context :=
  let ctx :=
    match check with
    | some (now, created) => fileRotated now created ctx ref file
    | none => ctx
  if fsAdded then listSwap ctx ref file.hashKey else ctx

def removeIf (test : Ref → File → Bool) (ctx : Context) (ref : Ref) : Context :=
  match ctx.files.get ref with
  | none => ctx
  | some file => if test ref file then fileRemove ctx ref file else ctx

/-- `flb_tail_file_purge`.  `check_purge_deleted_file` is given by a test. -/
def filePurge (rotateWait now : Nat) (deleted : Ref → Bool) (ctx : Context) : Context :=
  let ctx := ctx.filesRotated.foldl (removeIf fun _ file => file.rotated + rotateWait ≤ now) ctx
  let ctx := ctx.filesStatic.foldl (removeIf fun ref _ => deleted ref) ctx
  ctx.filesEvent.foldl (removeIf fun ref _ => deleted ref) ctx

inductive Event where
  | append (mode : Mode) (key : Key)
  | rotate (ref : Ref) (now : Nat) (created : List Key)
  | promote (ref : Ref) (check : Option (Nat × List Key)) (fsAdded : Bool)
  | purge (now : Nat) (deleted : Ref → Bool)
  | remove (ref : Ref)

/-- One step, when it is possible.  The clock does not show zero, and static
files are promoted. -/
def step (rotateWait : Nat) (ctx : Context) : Event → Option Context
  | .append mode key => some (fileAppend mode ctx key)
  | .rotate ref now created =>
    match ctx.files.get ref with
    | none => none
    | some file =>
      if now = 0 then none
      else some (fileRotated now created ctx ref file)
  | .promote ref check fsAdded =>
    match ctx.files.get ref with
    | none => none
    | some file =>
      if file.tailMode = .event ∨ check.any (·.1 = 0) then none
      else some (fileToEvent check fsAdded ctx ref file)
  | .purge now deleted => some (filePurge rotateWait now deleted ctx)
  | .remove ref =>
    match ctx.files.get ref with
    | none => none
    | some file => some (fileRemove ctx ref file)

theorem hashAdd_of_not_mem {keys : List Key} {key : Key} (fresh : key ∉ keys) :
    hashAdd keys key = keys ++ [key] :=
  if_neg fresh

structure Sound (ctx : Context) : Prop where
  static : Collects ctx.files (·.tailMode = .static) ctx.filesStatic
  event : Collects ctx.files (·.tailMode = .event) ctx.filesEvent
  rotated : Collects ctx.files (·.rotated ≠ 0) ctx.filesRotated
  staticHash : Keys ctx.files (·.tailMode = .static) File.hashKey ctx.staticHash
  eventHash : Keys ctx.files (·.tailMode = .event) File.hashKey ctx.eventHash
  unique : Unique ctx.files File.hashKey

section
variable {ctx : Context} {ref : Ref} {file : File}

theorem sound_initial : Sound .initial := by
  constructor
  · exact collects_empty
  · exact collects_empty
  · exact collects_empty
  · exact keys_empty
  · exact keys_empty
  · exact unique_empty

theorem Sound.fresh_key (sound : Sound ctx) {key : Key} (fresh : fileExists ctx key = false) :
    key ∉ ctx.staticHash ∧ key ∉ ctx.eventHash ∧
      ∀ {other found}, ctx.files.get other = some found → found.hashKey ≠ key := by
  simp only [fileExists, Bool.or_eq_false_iff, decide_eq_false_iff_not] at fresh
  refine ⟨fresh.1, fresh.2, ?_⟩
  intro other found live same
  cases mode : found.tailMode with
  | static =>
    apply fresh.1
    exact (sound.staticHash.mem_iff key).mpr ⟨other, found, live, mode, same⟩
  | event =>
    apply fresh.2
    exact (sound.eventHash.mem_iff key).mpr ⟨other, found, live, mode, same⟩

theorem Sound.fileAppend (sound : Sound ctx) (mode : Mode) (key : Key) :
    Sound (fileAppend mode ctx key) := by
  rw [Registry.fileAppend]
  split
  · exact sound
  · next new =>
    obtain ⟨notStatic, notEvent, fresh⟩ := sound.fresh_key (Bool.not_eq_true _ ▸ new)
    cases mode with
    | static =>
      constructor
      · exact sound.static.alloc_pos rfl
      · exact sound.event.alloc_neg nofun
      · exact sound.rotated.alloc_neg (fun wrong => wrong rfl)
      · rw [hashAdd_of_not_mem notStatic]
        exact sound.staticHash.alloc_pos rfl notStatic
      · exact sound.eventHash.alloc_neg nofun
      · exact sound.unique.alloc fresh
    | event =>
      constructor
      · exact sound.static.alloc_neg nofun
      · exact sound.event.alloc_pos rfl
      · exact sound.rotated.alloc_neg (fun wrong => wrong rfl)
      · exact sound.staticHash.alloc_neg nofun
      · rw [hashAdd_of_not_mem notEvent]
        exact sound.eventHash.alloc_pos rfl notEvent
      · exact sound.unique.alloc fresh

theorem Sound.fileRemove (sound : Sound ctx) (live : ctx.files.get ref = some file) :
    Sound (fileRemove ctx ref file) := by
  constructor
  · exact sound.static.free ref
  · exact sound.event.free ref
  · have removed := sound.rotated.free ref
    rw [Registry.fileRemove]
    split
    · exact removed
    · next never =>
      rwa [erase_of_not_mem] at removed
      rw [sound.rotated.get_iff live, not_not]
      exact Nat.eq_zero_of_not_pos never
  · exact sound.staticHash.free sound.unique live
  · exact sound.eventHash.free sound.unique live
  · exact sound.unique.free ref

theorem fileRotated_rule {motive : Context → Prop} {now : Nat} (kept : motive ctx)
    (marked : file.rotated = 0 → motive { ctx with
      files := ctx.files.modify ref (File.rotate now)
      filesRotated := ctx.filesRotated ++ [ref] })
    (appended : ∀ {current} key, motive current → motive (fileAppend .static current key))
    (created : List Key) : motive (fileRotated now created ctx ref file) := by
  rw [fileRotated]
  split
  · next never =>
    have known := marked never
    generalize { ctx with
      files := ctx.files.modify ref (File.rotate now)
      filesRotated := ctx.filesRotated ++ [ref] } = current at known
    induction created generalizing current with
    | nil => exact known
    | cons key created ih => exact ih _ (appended key known)
  · exact kept

theorem Sound.fileRotated (sound : Sound ctx) (live : ctx.files.get ref = some file) {now : Nat}
    (clock : now ≠ 0) (created : List Key) : Sound (fileRotated now created ctx ref file) := by
  refine fileRotated_rule sound ?_ (fun key known => known.fileAppend .static key) created
  intro never
  constructor
  · exact sound.static.modify_same live Iff.rfl
  · exact sound.event.modify_same live Iff.rfl
  · exact sound.rotated.modify_enter live (fun rotated => rotated never) clock
  · exact sound.staticHash.modify_same live rfl Iff.rfl
  · exact sound.eventHash.modify_same live rfl Iff.rfl
  · exact sound.unique.modify live rfl

theorem Sound.listSwap (sound : Sound ctx) (live : ctx.files.get ref = some file)
    (static : file.tailMode = .static) : Sound (listSwap ctx ref file.hashKey) := by
  have fresh : file.hashKey ∉ ctx.eventHash := by
    rw [sound.eventHash.get_iff sound.unique live, static]
    nofun
  constructor
  · exact sound.static.modify_leave live nofun
  · refine sound.event.modify_enter live ?_ rfl
    rw [static]
    nofun
  · exact sound.rotated.modify_same live Iff.rfl
  · exact sound.staticHash.modify_leave sound.unique live nofun
  · rw [Registry.listSwap]
    rw [hashAdd_of_not_mem fresh]
    refine sound.eventHash.modify_enter live rfl ?_ rfl fresh
    rw [static]
    nofun
  · exact sound.unique.modify live rfl

theorem fileAppend_get (live : ctx.files.get ref = some file) (mode : Mode) (key : Key) :
    (Registry.fileAppend mode ctx key).files.get ref = some file := by
  have old : ref ≠ ctx.files.next := by
    rintro rfl
    rw [Heap.get_next] at live
    cases live
  have kept : ∀ new, (ctx.files.alloc new).get ref = some file := by
    intro new
    rw [Heap.get_alloc, update_of_ne old, live]
  rw [Registry.fileAppend]
  split
  · exact live
  · cases mode with
    | static | event => exact kept _

theorem fileRotated_get (live : ctx.files.get ref = some file) (now : Nat) (created : List Key) :
    ∃ after, (Registry.fileRotated now created ctx ref file).files.get ref = some after ∧
      after.tailMode = file.tailMode ∧ after.hashKey = file.hashKey := by
  refine @fileRotated_rule ctx ref file (fun current =>
    ∃ after, current.files.get ref = some after ∧
    after.tailMode = file.tailMode ∧ after.hashKey = file.hashKey) now
    ⟨file, live, rfl, rfl⟩ ?_ ?_ created
  · intro _
    refine ⟨file.rotate now, ?_, rfl, rfl⟩
    rw [Heap.get_modify live, update_self]
  · rintro current key ⟨after, here, same⟩
    exact ⟨after, fileAppend_get here .static key, same⟩

theorem Sound.removeIf (sound : Sound ctx) (test : Ref → File → Bool) (ref : Ref) :
    Sound (removeIf test ctx ref) := by
  rw [Registry.removeIf]
  split
  · exact sound
  · next file live =>
    split
    · exact sound.fileRemove live
    · exact sound

theorem Sound.round (sound : Sound ctx) (test : Ref → File → Bool) (round : List Ref) :
    Sound (round.foldl (Registry.removeIf test) ctx) := by
  induction round generalizing ctx with
  | nil => exact sound
  | cons ref round ih => exact ih (sound.removeIf test ref)

theorem Sound.filePurge (sound : Sound ctx) (rotateWait now : Nat) (deleted : Ref → Bool) :
    Sound (filePurge rotateWait now deleted ctx) :=
  ((sound.round _ _).round _ _).round _ _

end

def Context.Counted (ctx : Context) : Prop := ctx.filesStaticCount = ctx.filesStatic.length

def Spared (rotateWait now : Nat) (deleted : Ref → Bool) (ctx : Context) : Prop :=
  ∀ ref ∈ ctx.filesStatic, ∀ file ∈ ctx.files.get ref,
    (ref ∈ ctx.filesRotated → now < file.rotated + rotateWait) ∧ deleted ref = false

/-- The steps that keep the number right: no static file is removed. -/
def Keeps (rotateWait : Nat) (ctx : Context) : Event → Prop
  | .remove ref => ref ∉ ctx.filesStatic
  | .purge now deleted => Spared rotateWait now deleted ctx
  | _ => True

variable {rotateWait : Nat}

section
variable {ctx : Context} {ref : Ref} {file : File}

theorem Counted.fileAppend (counted : ctx.Counted) (mode : Mode) (key : Key) :
    (fileAppend mode ctx key).Counted := by
  rw [Registry.fileAppend]
  split
  · exact counted
  · cases mode with
    | static =>
      rw [Context.Counted]
      dsimp only
      rw [length_append, length_singleton, counted]
      omega
    | event => exact counted

theorem Counted.fileRemove (counted : ctx.Counted) (other : ref ∉ ctx.filesStatic) :
    (fileRemove ctx ref file).Counted := by
  rw [Context.Counted, Registry.fileRemove]
  rw [erase_of_not_mem other]
  exact counted

theorem Counted.fileRotated (counted : ctx.Counted) (now : Nat) (created : List Key) :
    (fileRotated now created ctx ref file).Counted :=
  fileRotated_rule counted (fun _ => counted)
    (fun key known => Counted.fileAppend known .static key) created

theorem Counted.listSwap (counted : ctx.Counted) (member : ref ∈ ctx.filesStatic) (key : Key) :
    (listSwap ctx ref key).Counted := by
  have positive := length_pos_of_mem member
  rw [Context.Counted, Registry.listSwap]
  dsimp only
  rw [length_erase_of_mem member, counted]
  omega

theorem Counted.round {test : Ref → File → Bool} {round : List Ref}
    (counted : ctx.Counted) (sound : Sound ctx)
    (spared : ∀ ref ∈ round, ref ∈ ctx.filesStatic →
      ∀ file ∈ ctx.files.get ref, test ref file = false) :
    (round.foldl (removeIf test) ctx).Counted ∧
      (round.foldl (removeIf test) ctx).filesStatic = ctx.filesStatic ∧
      ∀ ref ∈ ctx.filesStatic,
        (round.foldl (removeIf test) ctx).files.get ref = ctx.files.get ref := by
  induction round generalizing ctx with
  | nil => exact ⟨counted, rfl, fun _ _ => rfl⟩
  | cons ref round ih =>
    have later := fun other (member : other ∈ round) =>
      spared other (mem_cons_of_mem _ member)
    rw [foldl_cons, removeIf]
    cases live : ctx.files.get ref with
    | none => exact ih counted sound later
    | some file =>
      dsimp only
      split
      · next chosen =>
        have other : ref ∉ ctx.filesStatic := by
          intro member
          have kept := spared ref mem_cons_self member file live
          rw [chosen] at kept
          cases kept
        have same : (Registry.fileRemove ctx ref file).filesStatic =
            ctx.filesStatic := erase_of_not_mem other
        have get : ∀ found ∈ ctx.filesStatic,
            (Registry.fileRemove ctx ref file).files.get found = ctx.files.get found := by
          intro found member
          apply update_of_ne
          rintro rfl
          exact other member
        obtain ⟨final, lists, files⟩ := ih
          (Counted.fileRemove counted other) (sound.fileRemove live) (by
            rw [same]
            intro found member static known here
            rw [get found static] at here
            exact later found member static known here)
        rw [same] at lists files
        refine ⟨final, lists, ?_⟩
        intro found member
        rw [files found member, get found member]
      · exact ih counted sound later

theorem Counted.filePurge {now : Nat} {deleted : Ref → Bool} (counted : ctx.Counted)
    (sound : Sound ctx) (spared : Spared rotateWait now deleted ctx) :
    (filePurge rotateWait now deleted ctx).Counted := by
  obtain ⟨first, sameFirst, _⟩ := @Counted.round ctx
    (fun _ file => file.rotated + rotateWait ≤ now) ctx.filesRotated counted
    sound (by
      intro ref rotated member file live
      have waits := (spared ref member file live).1 rotated
      simpa using waits)
  have soundFirst := sound.round (fun _ file => file.rotated + rotateWait ≤ now) ctx.filesRotated
  have kept : ∀ {current : Context} (round : List Ref),
      current.filesStatic = ctx.filesStatic → ∀ ref ∈ round,
      ref ∈ current.filesStatic → ∀ file ∈ current.files.get ref, deleted ref = false := by
    intro current round same ref _ member file live
    rw [same] at member
    obtain ⟨found, here, _⟩ := (sound.static.mem_iff ref).mp member
    exact (spared ref member found here).2
  obtain ⟨second, sameSecond, _⟩ := @Counted.round _
    (fun ref _ => deleted ref) _ first soundFirst (kept _ sameFirst)
  exact (@Counted.round _ (fun ref _ => deleted ref) _ second
    (soundFirst.round _ _) (kept _ (sameSecond.trans sameFirst))).1

theorem fileToEvent_rule {motive : Context → Prop} (live : ctx.files.get ref = some file)
    (kept : motive ctx) {check : Option (Nat × List Key)}
    (rotated : ∀ now created, (now, created) ∈ check →
      motive (fileRotated now created ctx ref file))
    (swapped : ∀ {current after}, motive current → current.files.get ref = some after →
      after.tailMode = file.tailMode → after.hashKey = file.hashKey →
      motive (listSwap current ref file.hashKey)) (fsAdded : Bool) :
    motive (fileToEvent check fsAdded ctx ref file) := by
  have swap : ∀ {current after}, motive current → current.files.get ref = some after →
      after.tailMode = file.tailMode → after.hashKey = file.hashKey →
      motive (if fsAdded then listSwap current ref file.hashKey else current) := by
    intro current after known here mode key
    split
    · exact swapped known here mode key
    · exact known
  cases check with
  | none => exact swap kept live rfl rfl
  | some rotation =>
    obtain ⟨after, here, mode, key⟩ := fileRotated_get live rotation.1 rotation.2
    exact swap (rotated _ _ rfl) here mode key

theorem Sound.fileToEvent (sound : Sound ctx) (live : ctx.files.get ref = some file)
    (static : file.tailMode = .static) {check : Option (Nat × List Key)}
    (clock : ¬check.any (·.1 = 0)) (fsAdded : Bool) :
    Sound (fileToEvent check fsAdded ctx ref file) ∧
      (ctx.Counted → (fileToEvent check fsAdded ctx ref file).Counted) := by
  refine @fileToEvent_rule ctx ref file (fun current =>
    Sound current ∧ (ctx.Counted → current.Counted)) live ⟨sound, id⟩ check ?_ ?_ fsAdded
  · rintro now created rfl
    exact ⟨sound.fileRotated live (by simpa using clock) created, fun counted =>
      Counted.fileRotated counted now created⟩
  · rintro current after ⟨known, counts⟩ here mode key
    have waits := mode.trans static
    refine ⟨key ▸ known.listSwap here waits, fun counted => ?_⟩
    exact Counted.listSwap (counts counted) ((known.static.get_iff here).mpr waits) _

theorem step_promote {check : Option (Nat × List Key)} {fsAdded : Bool}
    {next : Context} (taken : step rotateWait ctx (.promote ref check fsAdded) = some next) :
    ∃ file, ctx.files.get ref = some file ∧ file.tailMode = .static ∧ ¬check.any (·.1 = 0) ∧
      next = Registry.fileToEvent check fsAdded ctx ref file := by
  rw [step] at taken
  repeat' split at taken
  all_goals cases taken
  next file live allowed =>
    rw [not_or] at allowed
    refine ⟨file, live, ?_, allowed.2, rfl⟩
    cases mode : file.tailMode with
    | static => rfl
    | event => exact absurd mode allowed.1

theorem Sound.step {event : Event} {next : Context} (sound : Sound ctx)
    (taken : step rotateWait ctx event = some next) :
    Sound next ∧ (Keeps rotateWait ctx event → ctx.Counted → next.Counted) := by
  cases event with
  | append mode key =>
    cases taken
    exact ⟨sound.fileAppend mode key, fun _ counted => Counted.fileAppend counted mode key⟩
  | rotate ref now created =>
    rw [Registry.step] at taken
    repeat' split at taken
    all_goals cases taken
    next file live clock =>
      exact ⟨sound.fileRotated live clock created, fun _ counted =>
        Counted.fileRotated counted now created⟩
  | promote ref check fsAdded =>
    obtain ⟨file, live, static, clock, rfl⟩ := step_promote taken
    have promoted := sound.fileToEvent live static clock fsAdded
    exact ⟨promoted.1, fun _ => promoted.2⟩
  | purge now deleted =>
    cases taken
    exact ⟨sound.filePurge rotateWait now deleted, fun keeps counted =>
      Counted.filePurge counted sound keeps⟩
  | remove ref =>
    rw [Registry.step] at taken
    repeat' split at taken
    all_goals cases taken
    next file live =>
      exact ⟨sound.fileRemove live, fun keeps counted => Counted.fileRemove counted keeps⟩

end

/-- The lists and the hash tables agree with the files in every run, and the
number of static files is right in every run that removes no static file. -/
theorem registry_is_consistent (rotateWait : Nat) (ctx : Context) :
    (Reaches (step rotateWait) (fun _ _ => True) .initial ctx → Sound ctx) ∧
    (Reaches (step rotateWait) (Keeps rotateWait) .initial ctx → ctx.Counted) := by
  constructor
  · intro reached
    exact reached.invariant sound_initial fun sound _ taken => (sound.step taken).1
  · intro reached
    have both : Sound ctx ∧ ctx.Counted := by
      apply reached.invariant ⟨sound_initial, rfl⟩
      rintro current next event ⟨sound, counted⟩ keeps taken
      exact (sound.step taken).imp_right fun counts => counts keeps counted
    exact both.2

instance (rotateWait : Nat) (ctx : Context) :
    (event : Event) → Decidable (Keeps rotateWait ctx event)
  | .remove _ => inferInstanceAs (Decidable (_ ∉ _))
  | .purge _ _ => inferInstanceAs (Decidable (∀ _ ∈ _, ∀ _ ∈ _, _ ∧ _))
  | .append .. | .rotate .. | .promote .. => isTrue trivial

/-- Two files are appended, the first is rotated while it is promoted, and
purged. -/
def rotationEvents : List Event :=
  [.append .static ⟨1, 10⟩, .append .static ⟨1, 11⟩,
    .promote 0 (some (5, [⟨1, 12⟩])) true, .purge 20 fun _ => false]

theorem registry_is_consistent_rotationEvents :
    ∃ ctx, run (step 5) .initial rotationEvents = some ctx ∧
      ctx.filesStatic = [1, 2] ∧ ctx.filesEvent = [] ∧
      Sound ctx ∧ ctx.Counted := by
  obtain ⟨ctx, taken⟩ : ∃ ctx, runGuarded (step 5) (Keeps 5) .initial
      rotationEvents = some ctx := ⟨_, rfl⟩
  have reached := Reaches.refl.of_runGuarded taken
  have counted := (registry_is_consistent 5 ctx).2 reached
  have sound := (registry_is_consistent 5 ctx).1 (reached.mono fun _ => trivial)
  cases taken
  exact ⟨_, rfl, rfl, rfl, sound, counted⟩

theorem static_files_are_miscounted :
    (run (step 5) .initial [.append .static ⟨1, 10⟩, .remove 0]).map
        (fun ctx => (ctx.filesStatic, ctx.filesStaticCount)) =
      some ([], 1) :=
  rfl

end FluentBit.Tail.Registry
