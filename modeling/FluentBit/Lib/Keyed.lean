import Mathlib.Tactic

/-!
# Keyed lists and tables

Records that live in a list and are named by a key, as heap cells linked in a
list are, and tables of counters indexed by a key.  The rules say how a sum
over the records changes when one of them is changed or taken out, and what a
loop that updates one counter per record leaves in the table.
-/

namespace FluentBit.Keyed

open List

variable {Item Key Value Sum : Type*} [DecidableEq Key]

section
variable (key : Item → Key)

def lookup (items : List Item) (name : Key) : Option Item :=
  items.find? fun item => decide (key item = name)

def modify (items : List Item) (name : Key) (change : Item → Item) : List Item :=
  items.map fun item => if key item = name then change item else item

def erase (items : List Item) (name : Key) : List Item :=
  items.filter fun item => decide (key item ≠ name)

variable {key} {items : List Item} {name other : Key} {item : Item}
  {change : Item → Item}

theorem lookup_eq_some (found : lookup key items name = some item) :
    item ∈ items ∧ key item = name :=
  ⟨mem_of_find?_eq_some found, by
    simpa using List.find?_some found⟩

theorem lookup_of_mem (distinct : (items.map key).Nodup) (member : item ∈ items) :
    lookup key items (key item) = some item := by
  induction items with
  | nil => cases member
  | cons head rest ih =>
    simp only [map_cons, nodup_cons] at distinct
    rcases mem_cons.mp member with rfl | inside
    · simp [lookup]
    · have different : key head ≠ key item := by
        intro same
        exact distinct.1 (same ▸ mem_map_of_mem inside)
      simpa [lookup, different] using ih distinct.2 inside

theorem mem_modify {changed : Item} (member : changed ∈ modify key items name change) :
    (changed ∈ items ∧ key changed ≠ name) ∨
      ∃ item ∈ items, key item = name ∧ changed = change item := by
  obtain ⟨item, inside, rfl⟩ := mem_map.mp member
  by_cases same : key item = name
  · exact .inr ⟨item, inside, same, by simp [same]⟩
  · exact .inl (by simpa [same] using inside)

theorem mem_erase : item ∈ erase key items name ↔ item ∈ items ∧ key item ≠ name := by
  simp [erase]

theorem modify_eq_self (missing : ∀ item ∈ items, key item ≠ name) :
    modify key items name change = items := by
  rw [modify, map_congr_left (g := id), map_id]
  intro item inside
  simp [missing item inside]

theorem erase_eq_self (missing : ∀ item ∈ items, key item ≠ name) :
    erase key items name = items := by
  rw [erase, filter_eq_self]
  intro item inside
  simpa using missing item inside

omit [DecidableEq Key] in
theorem tail_ne {head : Item} {rest : List Item}
    (distinct : ((head :: rest).map key).Nodup) : ∀ item ∈ rest, key item ≠ key head := by
  intro item inside same
  simp only [List.map_cons, List.nodup_cons] at distinct
  exact distinct.1 (same ▸ List.mem_map_of_mem inside)

/-- With distinct keys the first record with a key is the only one. -/
theorem eraseP_eq_erase (distinct : (items.map key).Nodup) :
    items.eraseP (fun item => decide (key item = name)) = erase key items name := by
  induction items with
  | nil => rfl
  | cons head rest ih =>
    by_cases same : key head = name
    · have others : erase key rest name = rest := erase_eq_self (same ▸ tail_ne distinct)
      simpa [erase, same] using others.symm
    · rw [eraseP_cons_of_neg (by simpa using same), ih (nodup_cons.mp distinct).2]
      simp [erase, same]

theorem map_key_modify (same : ∀ item, key item = name → key (change item) = name) :
    (modify key items name change).map key = items.map key := by
  simp only [modify, map_map]
  refine map_congr_left fun item _ => ?_
  by_cases named : key item = name
  · simp [named, same item named]
  · simp [named]

theorem modify_modify {first second : Item} (same : key first = name) :
    modify key (modify key items name fun _ => first) name (fun _ => second) =
      modify key items name fun _ => second := by
  simp only [modify, map_map]
  refine map_congr_left fun item _ => ?_
  by_cases named : key item = name
  · simp [named, same]
  · simp [named]

section
variable (distinct : (items.map key).Nodup)
include distinct

theorem set_eq_modify {index : Nat} {new : Item} (found : items[index]? = some item) :
    items.set index new = modify key items (key item) fun _ => new := by
  induction items generalizing index with
  | nil => cases found
  | cons head rest ih =>
    cases index with
    | zero =>
      obtain rfl : head = item := by simpa using found
      have others : modify key rest (key head) (fun _ => new) = rest :=
        modify_eq_self (tail_ne distinct)
      simpa [modify] using others.symm
    | succ index =>
      have inside : item ∈ rest := mem_of_getElem? found
      have different : key head ≠ key item := (tail_ne distinct item inside).symm
      have later := ih (nodup_cons.mp distinct).2 found
      rw [set_cons_succ, later]
      simp [modify, different]

theorem nodup_erase : ((erase key items name).map key).Nodup :=
  distinct.sublist (filter_sublist.map key)

theorem split_at (member : item ∈ items) :
    ∃ front back, items = front ++ item :: back ∧ erase key items (key item) = front ++ back ∧
      ∀ change, modify key items (key item) change = front ++ change item :: back := by
  obtain ⟨front, back, rfl⟩ := append_of_mem member
  rw [map_append, map_cons] at distinct
  obtain ⟨_, behind, apart⟩ := nodup_append.mp distinct
  have before : ∀ other ∈ front, key other ≠ key item := fun other inside =>
    apart _ (mem_map_of_mem inside) _ mem_cons_self
  have after := tail_ne behind
  refine ⟨front, back, rfl, ?_, fun change => ?_⟩
  · have gone : erase key (item :: back) (key item) = erase key back (key item) := by simp [erase]
    rw [erase, filter_append]
    exact congrArg₂ (· ++ ·) (erase_eq_self before) (gone.trans (erase_eq_self after))
  · have here : modify key (item :: back) (key item) change =
        change item :: modify key back (key item) change := by
      simp [modify]
    rw [modify, map_append]
    refine congrArg₂ (· ++ ·) (modify_eq_self before) (here.trans ?_)
    rw [modify_eq_self after]

theorem perm_erase (member : item ∈ items) :
    items.Perm (item :: erase key items (key item)) := by
  obtain ⟨front, back, whole, left, _⟩ := split_at distinct member
  rw [left, whole]
  exact perm_middle

end

section
variable (same : ∀ item, key item = name → key (change item) = name)
include same

theorem lookup_modify_other (different : other ≠ name) :
    lookup key (modify key items name change) other = lookup key items other := by
  induction items with
  | nil => rfl
  | cons head rest ih =>
    simp only [lookup, modify, map_cons, List.find?_cons] at ih ⊢
    by_cases named : key head = name
    · have notOther : name ≠ other := different.symm
      simpa [named, same head named, notOther] using ih
    · simp only [named, if_false]
      rw [ih]

theorem lookup_modify_self :
    lookup key (modify key items name change) name = (lookup key items name).map change := by
  induction items with
  | nil => rfl
  | cons head rest ih =>
    simp only [lookup, modify, map_cons, List.find?_cons] at ih ⊢
    by_cases named : key head = name
    · simp [named, same head named]
    · simpa [named] using ih

end

theorem lookup_erase_other (different : other ≠ name) :
    lookup key (erase key items name) other = lookup key items other := by
  induction items with
  | nil => rfl
  | cons head rest ih =>
    simp only [lookup, erase] at ih ⊢
    by_cases named : key head = name
    · have notOther : name ≠ other := different.symm
      simpa [named, notOther] using ih
    · simp only [filter_cons, named, ne_eq, not_false_eq_true,
        decide_true, if_true, List.find?_cons]
      rw [ih]

variable [AddCommGroup Sum] {weight : Item → Sum}

theorem sum_modify (distinct : (items.map key).Nodup) (member : item ∈ items) :
    ((modify key items (key item) change).map weight).sum =
      (items.map weight).sum + (weight (change item) - weight item) := by
  obtain ⟨front, back, whole, _, changed⟩ := split_at distinct member
  rw [changed, whole, map_append, map_append, map_cons, map_cons, sum_append, sum_append, sum_cons,
    sum_cons]
  abel

theorem sum_erase (distinct : (items.map key).Nodup) (member : item ∈ items) :
    ((erase key items (key item)).map weight).sum = (items.map weight).sum - weight item := by
  obtain ⟨front, back, whole, left, _⟩ := split_at distinct member
  rw [left, whole, map_append, map_append, map_cons, sum_append, sum_append, sum_cons]
  abel

end

section
variable {key : Item → Key} {items : List Item}

/-- A loop that updates the counter of every record that meets a condition. -/
def updateEach (key : Item → Key) (condition : Item → Bool) (update : Value → Value)
    (table : Key → Value) (items : List Item) : Key → Value :=
  items.foldl (fun table item =>
    if condition item then
      Function.update table (key item) (update (table (key item)))
    else table) table

theorem updateEach_of_not_mem {condition : Item → Bool} {update : Value → Value} {name : Key}
    (table : Key → Value) (missing : name ∉ items.map key) :
    updateEach key condition update table items name = table name := by
  induction items generalizing table with
  | nil => rfl
  | cons head rest ih =>
    simp only [map_cons, mem_cons, not_or] at missing
    simp only [updateEach, foldl_cons] at ih ⊢
    rw [ih _ missing.2]
    split
    · exact Function.update_of_ne missing.1 _ _
    · rfl

/-- With distinct keys every record meets its counter as the loop found it. -/
theorem updateEach_apply {condition : Item → Bool} {update : Value → Value} (table : Key → Value)
    (distinct : (items.map key).Nodup) {item : Item} (member : item ∈ items) :
    updateEach key condition update table items (key item) =
      if condition item then update (table (key item))
      else table (key item) := by
  induction items generalizing table with
  | nil => cases member
  | cons head rest ih =>
    have unfolded : updateEach key condition update table (head :: rest) =
        updateEach key condition update
          (if condition head then
            Function.update table (key head) (update (table (key head)))
          else table) rest := rfl
    rw [unfolded]
    simp only [map_cons, nodup_cons] at distinct
    rcases mem_cons.mp member with rfl | inside
    · rw [updateEach_of_not_mem _ distinct.1]
      split <;> simp
    · have different : key item ≠ key head := by
        intro same
        exact distinct.1 (same ▸ mem_map_of_mem inside)
      rw [ih _ distinct.2 inside]
      by_cases met : condition head = true
      · simp [met, Function.update_of_ne different]
      · simp [met]

end

end FluentBit.Keyed
