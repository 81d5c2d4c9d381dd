import Mathlib.Data.List.Nodup

/-!
# Objects reached through a table of slots

A heap gives every object an address that was not in use before.  A table of
slots holds the addresses of some objects, and every object knows the index it
was entered under.  The table indexes the heap when the slots and the indices
of the objects agree.  A list collects the objects that satisfy a predicate.
-/

namespace FluentBit.Handles

open List Function Option

variable {α : Type*}

/-- Allocated objects.  No address from `next` on is in use. -/
structure Heap (α : Type*) where
  get : Nat → Option α
  next : Nat
  fresh : ∀ address, next ≤ address → get address = none

namespace Heap

def empty : Heap α :=
  { get := fun _ => none
    next := 0
    fresh := fun _ _ => rfl }

def alloc (heap : Heap α) (object : α) : Heap α :=
  { get := update heap.get heap.next (some object)
    next := heap.next + 1
    fresh := by
      intro address unused
      rw [update_of_ne (by omega)]
      exact heap.fresh address (by omega) }

def modify (heap : Heap α) (address : Nat) (change : α → α) : Heap α :=
  { get := update heap.get address ((heap.get address).map change)
    next := heap.next
    fresh := by
      intro other unused
      by_cases same : other = address
      · subst same
        rw [update_self, heap.fresh other unused, Option.map_none]
      · rw [update_of_ne same]
        exact heap.fresh other unused }

def free (heap : Heap α) (address : Nat) : Heap α :=
  { get := update heap.get address none
    next := heap.next
    fresh := by
      intro other unused
      by_cases same : other = address
      · rw [same, update_self]
      · rw [update_of_ne same]
        exact heap.fresh other unused }

@[simp]
theorem get_next (heap : Heap α) : heap.get heap.next = none := heap.fresh heap.next (Nat.le_refl _)

theorem get_alloc (heap : Heap α) (object : α) :
    (heap.alloc object).get = update heap.get heap.next (some object) :=
  rfl

theorem get_free (heap : Heap α) (address : Nat) :
    (heap.free address).get = update heap.get address none :=
  rfl

variable {address : Nat}

theorem get_modify {heap : Heap α} {object : α}
    (live : heap.get address = some object) (change : α → α) :
    (heap.modify address change).get = update heap.get address (some (change object)) := by
  simp only [modify, live, map_some]

end Heap

/-- What the slot at an index holds; there is nothing past the end. -/
def slotAt (slots : List (Option Nat)) (index : Nat) : Option Nat := (slots[index]?).join

variable {index : Nat}

theorem slotAt_set {slots : List (Option Nat)}
    (inside : index < slots.length) (content : Option Nat) :
    slotAt (slots.set index content) = update (slotAt slots) index content := by
  funext other
  simp only [slotAt, List.getElem?_set, update_apply]
  by_cases same : other = index
  · simp [same, inside]
  · rw [if_neg (Ne.symm same), if_neg same]

theorem slotAt_append_replicate (slots : List (Option Nat)) (count : Nat) :
    slotAt (slots ++ List.replicate count none) = slotAt slots := by
  funext index
  simp only [slotAt]
  by_cases inside : index < slots.length
  · rw [List.getElem?_append_left inside]
  · rw [List.getElem?_append_right (by omega), List.getElem?_eq_none
      (by omega : slots.length ≤ index), List.getElem?_replicate]
    split <;> rfl

theorem slotAt_lt {slots : List (Option Nat)}
    (held : slotAt slots index = some address) : index < slots.length := by
  by_contra outside
  rw [slotAt, List.getElem?_eq_none (by omega)] at held
  exact absurd held (by simp)

/-- The slots hold exactly the objects of the heap, each under its index. -/
def Indexed (slot : Nat → Option Nat) (get : Nat → Option α) (indexOf : α → Nat) : Prop :=
  ∀ index address, slot index = some address ↔
    ∃ object, get address = some object ∧ indexOf object = index

namespace Indexed

variable {slot : Nat → Option Nat} {get : Nat → Option α}
  {indexOf : α → Nat}

theorem empty : Indexed (fun _ => none) (fun _ => (none : Option α)) indexOf := by
  intro index address
  simp

variable {object : α}

section
variable (indexed : Indexed slot get indexOf)
include indexed

theorem slot_eq (live : get address = some object) : slot (indexOf object) = some address :=
  (indexed _ _).mpr ⟨object, live, rfl⟩

theorem address_eq {left right : Nat} {other : α}
    (leftLive : get left = some object) (rightLive : get right = some other)
    (same : indexOf object = indexOf other) : left = right := by
  have leftHeld := indexed.slot_eq leftLive
  rw [same, indexed.slot_eq rightLive] at leftHeld
  exact (some.inj leftHeld).symm

theorem insert (unheld : slot (indexOf object) = none) (fresh : get address = none) :
    Indexed (update slot (indexOf object) (some address))
      (update get address (some object)) indexOf := by
  intro index other
  by_cases sameAddress : other = address
  · subst sameAddress
    have absent : slot index ≠ some other := by
      intro held
      obtain ⟨found, live, _⟩ := (indexed index other).mp held
      simp [fresh] at live
    by_cases sameIndex : index = indexOf object
    · simp [sameIndex]
    · simp [sameIndex, absent, Ne.symm sameIndex]
  · rw [update_of_ne sameAddress]
    by_cases sameIndex : index = indexOf object
    · subst sameIndex
      rw [update_self, ← indexed, unheld]
      simp [Ne.symm sameAddress]
    · rw [update_of_ne sameIndex]
      exact indexed index other

theorem remove (live : get address = some object) :
    Indexed (update slot (indexOf object) none)
      (update get address none) indexOf := by
  intro index other
  have held := indexed.slot_eq live
  by_cases sameAddress : other = address
  · subst sameAddress
    by_cases sameIndex : index = indexOf object
    · simp [sameIndex]
    · have absent : slot index ≠ some other := by
        intro claimed
        obtain ⟨found, foundLive, foundIndex⟩ := (indexed index other).mp claimed
        rw [live] at foundLive
        cases foundLive
        exact sameIndex foundIndex.symm
      simp [sameIndex, absent]
  · rw [update_of_ne sameAddress]
    by_cases sameIndex : index = indexOf object
    · subst sameIndex
      rw [update_self, ← indexed, held]
      simp [Ne.symm sameAddress]
    · rw [update_of_ne sameIndex]
      exact indexed index other

end

/-- A slot that holds an address not in use breaks the table. -/
theorem not_update_of_fresh (fresh : get address = none) :
    ¬Indexed (update slot index (some address)) get indexOf := by
  intro indexed
  obtain ⟨object, live, _⟩ := (indexed index address).mp (update_self ..)
  rw [fresh] at live
  exact absurd live (by simp)

end Indexed

variable {α κ : Type*}

/-- The list holds every object that satisfies the predicate, once. -/
structure Collects (heap : Heap α) (P : α → Prop) (list : List Nat) : Prop where
  nodup : list.Nodup
  mem_iff : ∀ address, address ∈ list ↔ ∃ object, heap.get address = some object ∧ P object

section
variable {heap : Heap α} {P : α → Prop} {list : List Nat} {object : α}

theorem collects_empty : Collects (Heap.empty : Heap α) P [] := by
  constructor
  · exact nodup_nil
  · intro address
    constructor
    · nofun
    · rintro ⟨_, live, _⟩
      cases live

variable (collects : Collects heap P list)
include collects

theorem Collects.get_iff (live : heap.get address = some object) : address ∈ list ↔ P object := by
  simp only [collects.mem_iff, live, some.injEq, exists_eq_left']

theorem Collects.next_not_mem : heap.next ∉ list := by
  simp [collects.mem_iff]

section
variable {next : Heap α} {content : Option α}

theorem Collects.edit (get : next.get = update heap.get address content) {edited : List Nat}
    (nodup : edited.Nodup) (others : ∀ other, other ≠ address → (other ∈ edited ↔ other ∈ list))
    (here : address ∈ edited ↔ ∃ object, content = some object ∧ P object) :
    Collects next P edited := by
  refine ⟨nodup, fun other => ?_⟩
  rw [get]
  by_cases same : other = address
  · rw [same, update_self, here]
  · rw [others other same, update_of_ne same, collects.mem_iff]

theorem Collects.enter (get : next.get = update heap.get address (some object))
    (fresh : address ∉ list) (holds : P object) : Collects next P (list ++ [address]) := by
  refine collects.edit get ?_ ?_ ?_
  · exact nodup_append_comm.mp (nodup_cons.mpr ⟨fresh, collects.nodup⟩)
  · intro other apart
    simp [apart]
  · simp [holds]

theorem Collects.leave (get : next.get = update heap.get address content)
    (fails : ∀ object ∈ content, ¬P object) : Collects next P (list.erase address) := by
  refine collects.edit get (collects.nodup.erase _) (fun _ apart => mem_erase_of_ne apart) ?_
  have gone : ¬∃ object, content = some object ∧ P object := by
    rintro ⟨object, here, holds⟩
    exact fails object here holds
  exact iff_of_false collects.nodup.not_mem_erase gone

end

theorem Collects.alloc_pos (holds : P object) :
    Collects (heap.alloc object) P (list ++ [heap.next]) :=
  collects.enter (heap.get_alloc object) collects.next_not_mem holds

theorem Collects.alloc_neg (fails : ¬P object) : Collects (heap.alloc object) P list := by
  have left := collects.leave (heap.get_alloc object) (by simpa using fails)
  rwa [erase_of_not_mem collects.next_not_mem] at left

theorem Collects.free (address : Nat) :
    Collects (heap.free address) P (list.erase address) :=
  collects.leave (heap.get_free address) (by simp)

variable {change : α → α} (live : heap.get address = some object)
include live

theorem Collects.modify_same
    (same : P (change object) ↔ P object) :
    Collects (heap.modify address change) P list := by
  refine collects.edit (Heap.get_modify live change) collects.nodup (fun _ _ => Iff.rfl) ?_
  simp only [collects.get_iff live, some.injEq, exists_eq_left', same]

theorem Collects.modify_enter (before : ¬P object) (after : P (change object)) :
    Collects (heap.modify address change) P (list ++ [address]) := by
  apply collects.enter (Heap.get_modify live change) _ after
  rwa [collects.get_iff live]

theorem Collects.modify_leave
    (after : ¬P (change object)) :
    Collects (heap.modify address change) P (list.erase address) :=
  collects.leave (Heap.get_modify live change) (by simpa using after)

end

structure Unique (heap : Heap α) (key : α → κ) : Prop where
  eq : ∀ {one two first second}, heap.get one = some first →
    heap.get two = some second → key first = key second → one = two

/-- The keys of the objects that satisfy the predicate, each once. -/
structure Keys (heap : Heap α) (P : α → Prop) (key : α → κ) (keys : List κ) : Prop where
  nodup : keys.Nodup
  mem_iff : ∀ found, found ∈ keys ↔
    ∃ address object, heap.get address = some object ∧ P object ∧ key object = found

section
variable {heap next : Heap α} {P : α → Prop} {key : α → κ} {keys : List κ}
  {object : α} {content : Option α} {change : α → α}

theorem unique_empty : Unique (Heap.empty : Heap α) key := by
  constructor
  intro one two first second live
  cases live

section
variable (unique : Unique heap key)
include unique

theorem Unique.edit (get : next.get = update heap.get address content)
    (fresh : ∀ object ∈ content, ∀ other found, other ≠ address →
      heap.get other = some found → key found ≠ key object) : Unique next key := by
  constructor
  intro one two first second here there same
  rw [get] at here there
  by_cases new : one = address
  · by_cases newer : two = address
    · rw [new, newer]
    · rw [new, update_self] at here
      rw [update_of_ne newer] at there
      exact absurd same.symm (fresh first here two second newer there)
  · rw [update_of_ne new] at here
    by_cases newer : two = address
    · rw [newer, update_self] at there
      exact absurd same (fresh second there one first new here)
    · rw [update_of_ne newer] at there
      exact unique.eq here there same

theorem Unique.alloc
    (fresh : ∀ {other found}, heap.get other = some found → key found ≠ key object) :
    Unique (heap.alloc object) key := by
  refine unique.edit (heap.get_alloc object) ?_
  rintro _ ⟨⟩ other found _ live
  exact fresh live

theorem Unique.free (address : Nat) : Unique (heap.free address) key :=
  unique.edit (heap.get_free address) (by simp)

theorem Unique.modify (live : heap.get address = some object)
    (kept : key (change object) = key object) : Unique (heap.modify address change) key := by
  refine unique.edit (Heap.get_modify live change) ?_
  rintro _ ⟨⟩ other found apart here same
  exact apart (unique.eq here live (same.trans kept))

end

theorem keys_empty : Keys (Heap.empty : Heap α) P key [] := by
  constructor
  · exact nodup_nil
  · intro found
    constructor
    · nofun
    · rintro ⟨_, _, live, _⟩
      cases live

theorem Keys.get_iff (collected : Keys heap P key keys) (unique : Unique heap key)
    (live : heap.get address = some object) : key object ∈ keys ↔ P object := by
  rw [collected.mem_iff]
  constructor
  · rintro ⟨other, found, here, holds, same⟩
    cases unique.eq here live same
    rw [live] at here
    cases here
    exact holds
  · intro holds
    exact ⟨address, object, live, holds, rfl⟩

/-- An object at another address satisfies the predicate and has the key. -/
def KeyElsewhere (heap : Heap α) (P : α → Prop) (key : α → κ) (address : Nat) (found : κ) : Prop :=
  ∃ other object, other ≠ address ∧ heap.get other = some object ∧ P object ∧ key object = found

theorem exists_key_iff (heap : Heap α) (address : Nat) (found : κ) :
    (∃ other object, heap.get other = some object ∧ P object ∧ key object = found) ↔
      KeyElsewhere heap P key address found ∨
        ∃ object, heap.get address = some object ∧ P object ∧ key object = found := by
  constructor
  · rintro ⟨other, object, live, holds⟩
    by_cases same : other = address
    · exact .inr ⟨object, same ▸ live, holds⟩
    · exact .inl ⟨other, object, same, live, holds⟩
  · rintro (⟨other, object, _, live, holds⟩ | ⟨object, live, holds⟩)
    · exact ⟨other, object, live, holds⟩
    · exact ⟨address, object, live, holds⟩

theorem Keys.mem_iff_at (collected : Keys heap P key keys) (address : Nat) (found : κ) :
    found ∈ keys ↔ KeyElsewhere heap P key address found ∨
      ∃ object, heap.get address = some object ∧ P object ∧ key object = found :=
  (collected.mem_iff found).trans (exists_key_iff heap address found)

theorem keys_edit (get : next.get = update heap.get address content) (nodup : keys.Nodup)
    (mem : ∀ found, found ∈ keys ↔ KeyElsewhere heap P key address found ∨
      ∃ object, content = some object ∧ P object ∧ key object = found) :
    Keys next P key keys := by
  refine ⟨nodup, fun found => (mem found).trans ?_⟩
  have others : ∀ other, other ≠ address → next.get other = heap.get other := by
    intro other apart
    rw [get, update_of_ne apart]
  rw [exists_key_iff next address, get, update_self]
  apply or_congr_left
  constructor
  · rintro ⟨other, object, apart, live, holds⟩
    exact ⟨other, object, apart, (others other apart).trans live, holds⟩
  · rintro ⟨other, object, apart, live, holds⟩
    exact ⟨other, object, apart, (others other apart).symm.trans live, holds⟩

variable (collected : Keys heap P key keys)
include collected

theorem Keys.enter (get : next.get = update heap.get address (some object))
    (before : ∀ found ∈ heap.get address, ¬P found) (holds : P object)
    (fresh : key object ∉ keys) : Keys next P key (keys ++ [key object]) := by
  refine keys_edit get (nodup_append_comm.mp (nodup_cons.mpr ⟨fresh, collected.nodup⟩)) fun _ => ?_
  simp only [mem_append, mem_singleton, collected.mem_iff_at address, some.injEq,
    exists_eq_left', holds, true_and, @eq_comm _ (key object)]
  refine or_congr_left (or_iff_left ?_)
  rintro ⟨found, live, holds, _⟩
  exact before found live holds

theorem Keys.alloc_pos (holds : P object) (fresh : key object ∉ keys) :
    Keys (heap.alloc object) P key (keys ++ [key object]) :=
  collected.enter (heap.get_alloc object) (by simp) holds fresh

theorem Keys.alloc_neg (fails : ¬P object) : Keys (heap.alloc object) P key keys := by
  refine keys_edit (heap.get_alloc object) collected.nodup fun found => ?_
  simp [collected.mem_iff_at heap.next, fails]

section
variable (live : heap.get address = some object) (kept : key (change object) = key object)
include live kept

theorem Keys.modify_enter (before : ¬P object) (after : P (change object))
    (fresh : key object ∉ keys) :
    Keys (heap.modify address change) P key (keys ++ [key object]) := by
  rw [← kept] at fresh ⊢
  exact collected.enter (Heap.get_modify live change) (by simpa [live] using before) after fresh

theorem Keys.modify_same (iff : P (change object) ↔ P object) :
    Keys (heap.modify address change) P key keys := by
  refine keys_edit (Heap.get_modify live change) collected.nodup fun found => ?_
  simp [collected.mem_iff_at address, live, kept, iff]

end

variable [DecidableEq κ] (unique : Unique heap key) (live : heap.get address = some object)
include unique live

theorem Keys.leave (get : next.get = update heap.get address content)
    (fails : ∀ found ∈ content, ¬P found) : Keys next P key (keys.erase (key object)) := by
  refine keys_edit get (collected.nodup.erase _) fun found => ?_
  rw [collected.nodup.mem_erase_iff, collected.mem_iff_at address, live]
  constructor
  · rintro ⟨different, elsewhere | ⟨_, ⟨⟩, _, same⟩⟩
    · exact .inl elsewhere
    · exact absurd same.symm different
  · rintro (elsewhere | ⟨other, here, holds, _⟩)
    · refine ⟨?_, .inl elsewhere⟩
      rintro rfl
      obtain ⟨other, found, apart, here, _, same⟩ := elsewhere
      exact apart (unique.eq here live same)
    · exact absurd holds (fails other here)

theorem Keys.free : Keys (heap.free address) P key (keys.erase (key object)) :=
  collected.leave unique live (heap.get_free address) (by simp)

theorem Keys.modify_leave (after : ¬P (change object)) :
    Keys (heap.modify address change) P key (keys.erase (key object)) :=
  collected.leave unique live (Heap.get_modify live change) (by simpa using after)

end

end FluentBit.Handles
