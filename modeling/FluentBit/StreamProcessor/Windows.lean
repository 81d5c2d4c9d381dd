import FluentBit.StreamProcessor
import FluentBit.Lib.Keyed

/-!
# Windows of grouped aggregation

A node that was right about the records of its group stays right with every
further one.  As long as every tuple of group values that comes in can be
compared with the tuples of the window, the tree is ordered and every group has
one node.
-/

namespace FluentBit.StreamProcessor

open Run List Keyed

/-- A number that keeps the best of the values it was given. -/
def Best (better : Int → Int → Prop) (values : List Int) (num : Num) : Prop :=
  (num = { ops := 0, i64 := 0 } ∧ values = []) ∨
    (num.ops ≠ 0 ∧ num.i64 ∈ values ∧ ∀ value ∈ values, better num.i64 value)

section
variable {values : List Int} {num : Num} {value : Int}

theorem Best.replace {better : Int → Int → Prop} (best : Best better values num)
    (itself : better value value)
    (improves : num.ops ≠ 0 → ∀ other, better num.i64 other → better value other) :
    Best better (values ++ [value]) { ops := num.ops + 1, i64 := value } := by
  refine .inr ⟨Nat.succ_ne_zero _, by simp, ?_⟩
  intro other member
  rcases mem_append.mp member with earlier | last
  · rcases best with ⟨_, rfl⟩ | ⟨set, _, best⟩
    · cases earlier
    · exact improves set other (best other earlier)
  · obtain rfl : other = value := by simpa using last
    exact itself

theorem Best.keep {better : Int → Int → Prop} (best : Best better values num) (set : num.ops ≠ 0)
    (worse : better num.i64 value) : Best better (values ++ [value]) num := by
  rcases best with ⟨unset, _⟩ | ⟨_, member, best⟩
  · exact absurd (congrArg Num.ops unset) set
  · refine .inr ⟨set, mem_append_left _ member, ?_⟩
    intro other inside
    rcases mem_append.mp inside with earlier | last
    · exact best other earlier
    · obtain rfl : other = value := by simpa using last
      exact worse

theorem Best.least (best : Best (· ≤ ·) values num) : values.min?.getD 0 = num.i64 := by
  rcases best with ⟨rfl, rfl⟩ | ⟨_, member, least⟩
  · rfl
  · rw [List.min?_eq_some_iff.mpr ⟨member, least⟩]
    rfl

theorem Best.greatest (best : Best (· ≥ ·) values num) : values.max?.getD 0 = num.i64 := by
  rcases best with ⟨rfl, rfl⟩ | ⟨_, member, greatest⟩
  · rfl
  · rw [List.max?_eq_some_iff.mpr ⟨member, greatest⟩]
    rfl

/-- What the number of an aggregation says about the values it was given. -/
def AggrFunc.Exact : AggrFunc → List Int → Num → Prop
  | .sum, values, num => num.i64 = values.sum
  | .min, values, num => Best (· ≤ ·) values num
  | .max, values, num => Best (· ≥ ·) values num

theorem wrap_of_fits (fits : Fits value) : wrap value = value := by
  obtain ⟨lower, upper⟩ := fits
  rw [wrap, Int.bmod_eq_of_le (by omega) (by omega)]

theorem AggrFunc.Exact.add {aggrFunc : AggrFunc} (exact : aggrFunc.Exact values num)
    (fits : aggrFunc = .sum → Fits (values ++ [value]).sum) :
    aggrFunc.Exact (values ++ [value]) (aggregateFuncAdd aggrFunc num value) := by
  cases aggrFunc with
  | sum =>
    have total : (values ++ [value]).sum = num.i64 + value := by
      rw [sum_append, sum_singleton, ← show _ = _ from exact]
    have bounded := fits rfl
    rw [total] at bounded
    exact (wrap_of_fits bounded).trans total.symm
  | min =>
    simp only [aggregateFuncAdd]
    split
    · next smaller =>
      apply Best.replace exact (Int.le_refl _)
      intro set other least
      omega
    · next larger => exact Best.keep exact (by omega) (by omega)
  | max =>
    simp only [aggregateFuncAdd]
    split
    · next larger =>
      apply Best.replace exact (Int.le_refl _)
      intro set other greatest
      omega
    · next smaller => exact Best.keep exact (by omega) (by omega)

end

section
variable {num : Num} {record : Record} {cmd : Cmd} {seen : List Record}

def Selection.Sums {groups : Nat} (records : List Record) : Selection groups → Prop
  | .aggregate .sum key => Fits (values key records).sum
  | _ => True

def Selection.Holds {groups : Nat} (records : List Record) : Selection groups → Num → Prop
  | .aggregate aggrFunc key, num => aggrFunc.Exact (values key records) num
  | _, _ => True

theorem Selection.Holds.add {groups : Nat} {selection : Selection groups} {records : List Record}
    (holds : selection.Holds records num) (reads : selection.Reads record)
    (sums : selection.Sums (records ++ [record])) :
    selection.Holds (records ++ [record]) (addValue record selection num) := by
  cases selection with
  | group position | count => trivial
  | aggregate aggrFunc key =>
    obtain ⟨value, known, _⟩ := reads
    have known : (keyToValue key record).bind integer = some value := known
    simp only [Selection.Holds, addValue, known, values_append known]
    apply AggrFunc.Exact.add holds
    rintro rfl
    rw [← values_append known]
    exact sums

structure NodeSound (cmd : Cmd) (seen : List Record) (node : AggregateNode) : Prop where
  plain : ∀ value ∈ node.groupbyNums, value.Plain
  size : node.groupbyNums.length = cmd.gbKeys.length
  records : node.records = (members cmd seen node.groupbyNums).length
  nums : List.Forall₂ (fun key num =>
    key.selection.Holds (members cmd seen node.groupbyNums) num) cmd.keys node.nums

def AggregateNode.blank (cmd : Cmd) (group : List Value) : AggregateNode :=
  { AggregateNode.new cmd group with records := 0 }

def AggregateNode.add (cmd : Cmd) (record : Record) (node : AggregateNode) : AggregateNode :=
  { node with
    records := node.records + 1
    nums := List.zipWith (fun key num =>
      addValue record key.selection num) cmd.keys node.nums }

theorem nodeSound_blank {group : List Value} (plain : ∀ value ∈ group, value.Plain)
    (size : group.length = cmd.gbKeys.length) (unseen : members cmd seen group = []) :
    NodeSound cmd seen (.blank cmd group) := by
  constructor
  · exact plain
  · exact size
  · change 0 = (members cmd seen group).length
    rw [unseen]
    rfl
  · change List.Forall₂ _ cmd.keys (cmd.keys.map fun _ => _)
    rw [forall₂_map_right_iff, forall₂_same]
    intro key _
    change key.selection.Holds (members cmd seen group) _
    rw [unseen]
    cases key.selection with
    | group position | count => trivial
    | aggregate aggrFunc path =>
      cases aggrFunc with
      | sum => rfl
      | min | max => exact .inl ⟨rfl, rfl⟩

theorem forall₂_zipWith {α β : Type*} {P Q : α → β → Prop} {f : α → β → β} {keys : List α}
    {nums : List β} (each : List.Forall₂ P keys nums)
    (step : ∀ key ∈ keys, ∀ num, P key num → Q key (f key num)) :
    List.Forall₂ Q keys (List.zipWith f keys nums) := by
  induction each with
  | nil => exact .nil
  | cons first later ih =>
    simp only [forall_mem_cons] at step
    exact .cons (step.1 _ first) (ih step.2)

variable {node : AggregateNode}

section
variable (sound : NodeSound cmd seen node)
include sound

theorem NodeSound.add (joins : members cmd (seen ++ [record]) node.groupbyNums =
      members cmd seen node.groupbyNums ++ [record])
    (reads : ∀ key ∈ cmd.keys, key.selection.Reads record)
    (sums : ∀ key ∈ cmd.keys, key.selection.Sums
      (members cmd (seen ++ [record]) node.groupbyNums)) :
    NodeSound cmd (seen ++ [record]) (node.add cmd record) := by
  constructor
  · exact sound.plain
  · exact sound.size
  · change node.records + 1 = (members cmd (seen ++ [record]) node.groupbyNums).length
    rw [joins, length_append, sound.records]
    rfl
  · apply forall₂_zipWith sound.nums
    intro key member num holds
    change key.selection.Holds (members cmd (seen ++ [record]) node.groupbyNums) _
    rw [joins]
    exact holds.add (reads key member) (joins ▸ sums key member)

theorem NodeSound.pass
    (same : members cmd (seen ++ [record]) node.groupbyNums = members cmd seen node.groupbyNums) :
    NodeSound cmd (seen ++ [record]) node := by
  constructor
  · exact sound.plain
  · exact sound.size
  · rw [same]
    exact sound.records
  · rw [same]
    exact sound.nums

theorem NodeSound.packValue {selection : Selection cmd.gbKeys.length}
    (holds : selection.Holds (members cmd seen node.groupbyNums) num) :
    StreamProcessor.packValue node selection num =
      exactValue cmd seen node.groupbyNums selection := by
  cases selection with
  | group position => rfl
  | count => simp only [StreamProcessor.packValue, exactValue, sound.records]
  | aggregate aggrFunc key =>
    cases aggrFunc with
    | sum => exact congrArg Value.i64 holds
    | min => exact congrArg Value.i64 (Best.least holds).symm
    | max => exact congrArg Value.i64 (Best.greatest holds).symm

theorem NodeSound.row :
    ((cmd.keys.zip node.nums).map fun pair =>
        (pair.1.label, StreamProcessor.packValue node pair.1.selection pair.2)) =
      exactRow cmd seen node.groupbyNums := by
  have each := sound.nums
  unfold exactRow
  generalize cmd.keys = keys, node.nums = nums at each
  induction each with
  | nil => rfl
  | cons first later ih => simp only [zip_cons_cons, map_cons, ih, sound.packValue first]

end

instance {groups : Nat} (record : Record) :
    (selection : Selection groups) → Decidable (selection.Reads record)
  | .aggregate _ key => inferInstanceAs (Decidable
      (∃ value ∈ (keyToValue key record).bind integer, Fits value))
  | .group _ | .count => isTrue trivial

instance {groups : Nat} (records : List Record) :
    (selection : Selection groups) → Decidable (selection.Sums records)
  | .aggregate .sum key => inferInstanceAs (Decidable (Fits (values key records).sum))
  | .aggregate .min _ | .aggregate .max _ | .group _ | .count => isTrue trivial

def CleanGroup (cmd : Cmd) (task : Task) (record : Record) : Option (List Value) → Prop
  | none => ∃ key ∈ cmd.gbKeys, (keyToValue key record).isNone = true
  | some group =>
    (∀ value ∈ group, value.Plain) ∧ (∀ value ∈ group, value.Unconverted cmd) ∧
      (∀ node ∈ task.window.aggregateList, comparable group node.groupbyNums = true) ∧
      (∀ key ∈ cmd.keys, key.selection.Reads record) ∧
      ∀ key ∈ cmd.keys, key.selection.Sums (members cmd (task.seen ++ [record]) group)

instance (cmd : Cmd) (task : Task) (record : Record) :
    (group : Option (List Value)) → Decidable (CleanGroup cmd task record group)
  | none => inferInstanceAs (Decidable (∃ key ∈ cmd.gbKeys, (keyToValue key record).isNone = true))
  | some _ => inferInstanceAs (Decidable (_ ∧ _ ∧ _ ∧ _ ∧ _))

/-- A record that the window can take: no key twice, group values that are
integers or strings without NUL that are not taken for numbers, and that can be
compared with those of the window, and selected values that are integers with
sums of 64 bits. -/
def Clean (cmd : Cmd) (task : Task) : Event → Prop
  | .close => True
  | .record record =>
    cmd.condition record = true →
      (record.map Prod.fst).Nodup ∧ CleanGroup cmd task record (tuple cmd record)

instance (cmd : Cmd) (task : Task) : (event : Event) → Decidable (Clean cmd task event)
  | .close => inferInstanceAs (Decidable True)
  | .record _ => inferInstanceAs (Decidable (_ → _ ∧ _))

structure Sound (cmd : Cmd) (task : Task) : Prop where
  nodes : ∀ node ∈ task.window.aggregateList, NodeSound cmd task.seen node
  distinct : (task.window.aggregateList.map AggregateNode.groupbyNums).Nodup
  groups : ∀ group,
    group ∈ task.window.aggregateList.map AggregateNode.groupbyNums ↔
      members cmd task.seen group ≠ []
  indexed : task.window.aggregateTree.toList.Perm
    (task.window.aggregateList.map AggregateNode.groupbyNums).zipIdx
  sorted : task.window.aggregateTree.toList.Pairwise fun first second =>
    rank first.1 < rank second.1
  counted : 0 < task.window.records ↔ task.window.aggregateList ≠ []

end

variable {cmd : Cmd} {task : Task}

theorem sound_initial (cmd : Cmd) : Sound cmd Task.initial := by
  constructor
  · intro node member
    cases member
  · exact nodup_nil
  · intro group
    constructor
    · intro member
      cases member
    · intro occupied
      exact absurd rfl occupied
  · exact .refl _
  · exact Pairwise.nil
  · constructor
    · intro positive
      cases positive
    · intro occupied
      exact absurd rfl occupied

theorem Sound.item (sound : Sound cmd task) {item : List Value × Nat}
    (member : item ∈ task.window.aggregateTree.toList) :
    ∃ node, task.window.aggregateList[item.2]? = some node ∧ node.groupbyNums = item.1 := by
  have listed := sound.indexed.mem_iff.mp member
  rw [mem_zipIdx_iff_getElem?, getElem?_map, Option.map_eq_some_iff] at listed
  exact listed

variable {group : List Value} {window : Window}

section
variable (sound : Sound cmd task) (size : group.length = cmd.gbKeys.length)
  (plain : ∀ value ∈ group, value.Plain)
  (compared : ∀ node ∈ task.window.aggregateList, comparable group node.groupbyNums = true)
include sound size plain compared

theorem Sound.agrees {item : List Value × Nat} (member : item ∈ task.window.aggregateTree.toList) :
    (groupbyCompare group item.1 < 0 ↔ rank group < rank item.1) ∧
      (groupbyCompare group item.1 = 0 ↔ group = item.1) := by
  obtain ⟨node, found, same⟩ := sound.item member
  have inside := mem_of_getElem? found
  have right := sound.nodes node inside
  rw [← same]
  exact groupbyCompare_agrees (size.trans right.size.symm) plain right.plain (compared node inside)

theorem Sound.falling : RedBlack.Falling (fun item => groupbyCompare group item.1)
    task.window.aggregateTree.toList := by
  apply sound.sorted.imp_of_mem
  intro first second firstMember secondMember below notAbove
  have one := sound.agrees size plain compared firstMember
  have two := sound.agrees size plain compared secondMember
  apply two.1.mpr
  rcases Int.lt_or_eq_of_le notAbove with less | equal
  · exact (one.1.mp less).trans below
  · rw [one.2.mp equal]
    exact below

end

/-- What a clean record of a group does to the window: the node of the group
takes it, or a node is added that has taken it. -/
structure Takes (cmd : Cmd) (record : Record) (group : List Value)
    (before after : Window) : Prop where
  counted : after.records = before.records + 1
  stored :
    (∃ node ∈ before.aggregateList, node.groupbyNums = group ∧
      after.aggregateTree = before.aggregateTree ∧
      after.aggregateList = Keyed.modify AggregateNode.groupbyNums
        before.aggregateList group fun _ => node.add cmd record) ∨
    ((∀ item ∈ before.aggregateTree.toList, groupbyCompare group item.1 ≠ 0) ∧
      after.aggregateList =
        before.aggregateList ++ [(AggregateNode.blank cmd group).add cmd record] ∧
      after.aggregateTree.toList =
        before.aggregateTree.toList.filter (fun item =>
          decide (0 < groupbyCompare group item.1)) ++
        (group, before.aggregateList.length) ::
          before.aggregateTree.toList.filter (fun item =>
            decide (groupbyCompare group item.1 < 0)))

theorem set_modify {α : Type*} (items : List α) (index : Nat) (change : α → α) (new : α) :
    (items.modify index change).set index new = items.set index new := by
  apply ext_getElem?
  intro position
  by_cases here : index = position
  · subst position
    simp [getElem?_set]
  · simp [here]

theorem Sound.takes (sound : Sound cmd task) {record : Record} (met : cmd.condition record = true)
    (names : (record.map Prod.fst).Nodup) (known : tuple cmd record = some group)
    (plain : ∀ value ∈ group, value.Plain) (unconverted : ∀ value ∈ group, value.Unconverted cmd)
    (compared : ∀ node ∈ task.window.aggregateList, comparable group node.groupbyNums = true)
    (reads : ∀ key ∈ cmd.keys, key.selection.Reads record) :
    ∃ window, processRecord cmd task.window record = some window ∧
      Takes cmd record group task.window window := by
  have enough : ¬valuesFound cmd record < cmd.gbKeys.length := by
    rw [valuesFound_of_tuple names known]
    exact Nat.lt_irrefl _
  have falling := sound.falling (length_tuple known) plain compared
  rcases RedBlack.findOrInsert_spec falling
      (group, task.window.aggregateList.length) with
    ⟨item, member, zero, result⟩ | ⟨apart, tree, result, order⟩
  · obtain ⟨node, found, same⟩ := sound.item member
    have equal : group = item.1 :=
      (sound.agrees (length_tuple known) plain compared member).2.mp zero
    have inside := mem_of_getElem? found
    have sizes : node.nums.length = cmd.keys.length := (sound.nodes node inside).nums.length_eq.symm
    have added := addRecord_eq names reads node.nums sizes
    have stored : task.window.aggregateList.set item.2 (node.add cmd record) =
      Keyed.modify AggregateNode.groupbyNums task.window.aggregateList node.groupbyNums
      fun _ => node.add cmd record := set_eq_modify sound.distinct found
    simp only [processRecord, met, if_true, enough, if_false,
      groupNums_of_tuple known plain unconverted,
      aggregateNode, result, getElem?_modify_eq, found, Option.map_some, Option.map_eq_map,
      added]
    refine ⟨_, rfl, rfl, .inl ⟨node, inside, same.trans equal.symm, rfl, ?_⟩⟩
    rw [equal, ← same, ← stored]
    exact set_modify _ _ _ _
  · have added := addRecord_eq names reads
      (AggregateNode.blank cmd group).nums (by simp [AggregateNode.blank, AggregateNode.new])
    change addRecord cmd record (AggregateNode.new cmd group).nums = _ at added
    simp only [processRecord, met, if_true, enough, if_false,
      groupNums_of_tuple known plain unconverted,
      aggregateNode, result, getElem?_concat_length, added]
    refine ⟨_, rfl, rfl, .inr ⟨apart, ?_, order⟩⟩
    rw [set_append_right _ _ (Nat.le_refl _), Nat.sub_self]
    rfl

theorem Sound.node_item (sound : Sound cmd task) (member :
      group ∈ task.window.aggregateList.map AggregateNode.groupbyNums) :
    ∃ item ∈ task.window.aggregateTree.toList, item.1 = group := by
  obtain ⟨position, found⟩ := mem_iff_getElem?.mp member
  refine ⟨(group, position), ?_, rfl⟩
  rw [sound.indexed.mem_iff, mem_zipIdx_iff_getElem?]
  exact found

theorem sorted_insert {items : List (List Value × Nat)}
    {item : List Value × Nat} {cut : List Value × Nat → Int}
    (sorted : items.Pairwise fun first second =>
      rank first.1 < rank second.1)
    (agrees : ∀ other ∈ items, (cut other < 0 ↔ rank item.1 < rank other.1) ∧
      (cut other = 0 ↔ item.1 = other.1)) :
    (items.filter (fun other => decide (0 < cut other)) ++
      item :: items.filter (fun other => decide (cut other < 0))).Pairwise
        fun first second => rank first.1 < rank second.1 := by
  have below : ∀ other ∈ items.filter (fun other => decide (0 < cut other)),
      rank other.1 < rank item.1 := by
    intro other member
    obtain ⟨inside, positive⟩ := mem_filter.mp member
    rw [decide_eq_true_eq] at positive
    obtain ⟨less, equal⟩ := agrees other inside
    rcases lt_trichotomy (rank item.1) (rank other.1) with before | same | after
    · have := less.mpr before
      omega
    · have := equal.mpr (rank_injective same)
      omega
    · exact after
  have above : ∀ other ∈ items.filter (fun other => decide (cut other < 0)),
      rank item.1 < rank other.1 := by
    intro other member
    obtain ⟨inside, negative⟩ := mem_filter.mp member
    rw [decide_eq_true_eq] at negative
    exact (agrees other inside).1.mp negative
  rw [pairwise_append]
  refine ⟨sorted.sublist filter_sublist, ?_, ?_⟩
  · exact pairwise_cons.mpr ⟨above, sorted.sublist filter_sublist⟩
  · intro first firstMember second secondMember
    rcases mem_cons.mp secondMember with rfl | later
    · exact below first firstMember
    · exact (below first firstMember).trans (above second later)

theorem perm_insert {α : Type*} {items : List α} {item : α}
    {cut : α → Int} (apart : ∀ other ∈ items, cut other ≠ 0) :
    (items.filter (fun other => decide (0 < cut other)) ++
      item :: items.filter (fun other => decide (cut other < 0))).Perm (item :: items) := by
  have negative : items.filter (fun other => decide (cut other < 0)) =
      items.filter (fun other => !decide (0 < cut other)) := by
    apply filter_congr
    intro other member
    have nonzero := apart other member
    rw [Bool.eq_iff_iff]
    simp only [decide_eq_true_eq, Bool.not_eq_eq_eq_not, Bool.not_true, decide_eq_false_iff_not]
    omega
  rw [negative]
  exact perm_middle.trans ((filter_append_perm _ items).cons item)

section
variable {record : Record} (sound : Sound cmd task) (met : cmd.condition record = true)
  (known : tuple cmd record = some group) (reads : ∀ key ∈ cmd.keys, key.selection.Reads record)
  (sums : ∀ key ∈ cmd.keys, key.selection.Sums (members cmd (task.seen ++ [record]) group))
include known

theorem members_append_other {other : List Value} (different : other ≠ group) :
    members cmd (task.seen ++ [record]) other = members cmd task.seen other := by
  rw [members_append, if_neg]
  rintro ⟨_, same⟩
  rw [known, Option.some.injEq] at same
  exact different same.symm

include sound met reads sums

theorem Sound.join {node : AggregateNode} (member : node ∈ task.window.aggregateList)
    (own : node.groupbyNums = group) (counted : window.records = task.window.records + 1)
    (tree : window.aggregateTree = task.window.aggregateTree)
    (list : window.aggregateList = Keyed.modify AggregateNode.groupbyNums
      task.window.aggregateList group fun _ => node.add cmd record) :
    Sound cmd { window := window, seen := task.seen ++ [record] } := by
  subst own
  have joins := members_append cmd task.seen record node.groupbyNums
  rw [if_pos ⟨met, known⟩] at joins
  have keys : window.aggregateList.map AggregateNode.groupbyNums =
      task.window.aggregateList.map AggregateNode.groupbyNums := by
    rw [list]
    exact map_key_modify fun _ _ => rfl
  constructor
  · intro other inside
    rw [list] at inside
    rcases mem_modify inside with ⟨before, different⟩ | ⟨_, _, _, rfl⟩
    · exact (sound.nodes other before).pass (members_append_other known different)
    · exact (sound.nodes node member).add joins reads sums
  · rw [keys]
    exact sound.distinct
  · intro group
    rw [keys, sound.groups]
    by_cases same : group = node.groupbyNums
    · have present := (sound.groups node.groupbyNums).mp (mem_map_of_mem member)
      simp [same, present, joins]
    · rw [members_append_other known same]
  · rw [keys, tree]
    exact sound.indexed
  · rw [tree]
    exact sound.sorted
  · rw [counted, list]
    have occupied : task.window.aggregateList ≠ [] := ne_nil_of_mem member
    simp [Keyed.modify, occupied]

theorem Sound.enter (plain : ∀ value ∈ group, value.Plain)
    (compared : ∀ node ∈ task.window.aggregateList, comparable group node.groupbyNums = true)
    (counted : window.records = task.window.records + 1)
    (apart : ∀ item ∈ task.window.aggregateTree.toList, groupbyCompare group item.1 ≠ 0)
    (list : window.aggregateList = task.window.aggregateList ++
      [(AggregateNode.blank cmd group).add cmd record])
    (tree : window.aggregateTree.toList =
      task.window.aggregateTree.toList.filter (fun item =>
        decide (0 < groupbyCompare group item.1)) ++
      (group, task.window.aggregateList.length) ::
        task.window.aggregateTree.toList.filter (fun item =>
          decide (groupbyCompare group item.1 < 0))) :
    Sound cmd { window := window, seen := task.seen ++ [record] } := by
  have joins := members_append cmd task.seen record group
  rw [if_pos ⟨met, known⟩] at joins
  have size := length_tuple known
  have agrees : ∀ item ∈ task.window.aggregateTree.toList,
    (groupbyCompare group item.1 < 0 ↔ rank group < rank item.1) ∧ (groupbyCompare group item.1 =
    0 ↔ group = item.1) := fun item member => sound.agrees size plain compared member
  have absent : group ∉
      task.window.aggregateList.map AggregateNode.groupbyNums := by
    intro member
    obtain ⟨item, inside, same⟩ := sound.node_item member
    exact apart item inside ((agrees item inside).2.mpr same.symm)
  have unseen : members cmd task.seen group = [] := by
    by_contra occupied
    exact absent ((sound.groups group).mpr occupied)
  have keys : window.aggregateList.map AggregateNode.groupbyNums =
      task.window.aggregateList.map AggregateNode.groupbyNums ++ [group] := by
    rw [list, map_append]
    rfl
  constructor
  · intro node member
    rw [list, mem_append, mem_singleton] at member
    rcases member with before | rfl
    · apply (sound.nodes node before).pass
      apply members_append_other known
      rintro rfl
      exact absent (mem_map_of_mem before)
    · exact (nodeSound_blank plain size unseen).add joins reads sums
  · rw [keys]
    apply sound.distinct.append (nodup_singleton _)
    exact disjoint_singleton.mpr absent
  · intro other
    rw [keys, mem_append, mem_singleton, sound.groups]
    by_cases same : other = group
    · simp [same, joins]
    · simp [same, members_append_other known same]
  · rw [keys, tree, zipIdx_append, length_map]
    apply (perm_insert apart).trans
    apply (sound.indexed.cons _).trans
    simpa using (perm_append_singleton _ _).symm
  · rw [tree]
    exact sorted_insert sound.sorted agrees
  · rw [counted, list]
    simp

end

section
variable (sound : Sound cmd task)
include sound

theorem Sound.pass {record : Record}
    (alone : ∀ group, ¬(cmd.condition record = true ∧ tuple cmd record = some group)) :
    Sound cmd { task with seen := task.seen ++ [record] } := by
  have same : ∀ group, members cmd (task.seen ++ [record]) group =
      members cmd task.seen group := fun group =>
    (members_append cmd task.seen record group).trans (if_neg (alone group))
  constructor
  · intro node member
    exact (sound.nodes node member).pass (same node.groupbyNums)
  · exact sound.distinct
  · intro group
    rw [same group]
    exact sound.groups group
  · exact sound.indexed
  · exact sound.sorted
  · exact sound.counted

theorem Sound.record {record : Record} (clean : Clean cmd task (.record record))
    (taken : processRecord cmd task.window record = some window) :
    Sound cmd { window := window, seen := task.seen ++ [record] } := by
  by_cases met : cmd.condition record = true
  · obtain ⟨names, grouped⟩ := clean met
    cases known : tuple cmd record with
    | none =>
      rw [known] at grouped
      obtain ⟨key, member, missing⟩ := grouped
      have fewer : valuesFound cmd record < cmd.gbKeys.length := by
        rw [valuesFound_eq names, countP_lt_length_iff]
        exact ⟨key, member, by simpa using missing⟩
      simp only [processRecord, met, if_true, fewer] at taken
      cases taken
      exact sound.pass (by simp [known])
    | some group =>
      rw [known] at grouped
      obtain ⟨plain, unconverted, compared, reads, sums⟩ := grouped
      obtain ⟨other, possible, takes⟩ :=
        sound.takes met names known plain unconverted compared reads
      obtain rfl : other = window := by
        rw [possible, Option.some.injEq] at taken
        exact taken
      rcases takes.stored with
        ⟨node, member, own, tree, list⟩ | ⟨apart, list, tree⟩
      · exact sound.join met known reads sums member own takes.counted tree list
      · exact sound.enter met known reads sums plain compared takes.counted apart list tree
  · simp only [processRecord, met] at taken
    cases taken
    exact sound.pass fun group both => met both.1

theorem Sound.unused (empty : ¬task.window.records > 0) : task.window.aggregateList = [] := by
  by_contra nonempty
  exact empty (sound.counted.mpr nonempty)

theorem Sound.close : Sound cmd { window := windowPrune task.window, seen := [] } := by
  by_cases occupied : task.window.records > 0
  · rw [windowPrune, if_pos occupied]
    exact sound_initial cmd
  · rw [windowPrune, if_neg occupied]
    have list := sound.unused occupied
    constructor
    · rw [list]
      intro node member
      cases member
    · exact sound.distinct
    · intro group
      rw [list]
      simp [members]
    · exact sound.indexed
    · exact sound.sorted
    · exact sound.counted

theorem Sound.step {event : Event} {next : Task}
    (clean : Clean cmd task event) (taken : StreamProcessor.step cmd task event = some next) :
    Sound cmd next := by
  cases event with
  | record record =>
    obtain ⟨window, possible, rfl⟩ := Option.map_eq_some_iff.mp taken
    exact sound.record clean possible
  | close =>
    cases taken
    exact sound.close

theorem Sound.exact : Exact cmd task.seen (task.closing cmd) := by
  refine ⟨task.window.aggregateList.map AggregateNode.groupbyNums, sound.distinct, ?_, ?_⟩
  · intro group
    rw [sound.groups, members, Ne, filter_eq_nil_iff]
    simp
  · have rows : packageResults cmd task.window =
        (task.window.aggregateList.map AggregateNode.groupbyNums).map (exactRow cmd task.seen) := by
      rw [packageResults, map_map]
      apply map_congr_left
      intro node member
      exact (sound.nodes node member).row
    by_cases occupied : task.window.records > 0
    · rw [Task.closing, if_pos occupied, rows]
    · rw [Task.closing, if_neg occupied, sound.unused occupied]
      rfl

end

/-- Whenever the window closes in a run of clean records, the output has one
row for every tuple of group values among the records since the last time it
closed, with exact values. -/
theorem window_rows_are_exact {cmd : Cmd} {task : Task}
    (reached : Reaches (step cmd) (Clean cmd) Task.initial task) :
    Exact cmd task.seen (task.closing cmd) := by
  apply Sound.exact
  apply reached.invariant (sound_initial cmd)
  intro current next event sound clean taken
  exact sound.step clean taken

/-- `SELECT k, COUNT(*), SUM(v), MIN(v), MAX(v) … GROUP BY k`. -/
def selectAll : Cmd :=
  { gbKeys := [{ name := [107], subkeys := [] }]
    keys :=
      [{ label := [107], selection := .group 0 },
       { label := [42], selection := .count },
       { label := [115], selection := .aggregate .sum { name := [118], subkeys := [] } },
       { label := [109], selection := .aggregate .min { name := [118], subkeys := [] } },
       { label := [120], selection := .aggregate .max { name := [118], subkeys := [] } }]
    condition := fun _ => true
    convertStrToNum := true
    stringToNumber := fun _ => none
    grouped := by simp }

/-- A record with the group value `k` and the selected value `v`. -/
def keyed (k : Msgpack.Object) (v : BitVec 64) : Event :=
  .record [([107], k), ([118], .positiveInteger v)]

def twoWindows : List Event :=
  [keyed (.positiveInteger 1) 5, keyed (.positiveInteger 2) 7,
   keyed (.positiveInteger 1) 3, .close, keyed (.str [97]) 4]

theorem window_rows_are_exact_twoWindows :
    ∃ task, runGuarded (step selectAll) (Clean selectAll) Task.initial twoWindows = some task ∧
      task.closing selectAll =
        [[([107], .string [97]), ([42], .i64 1), ([115], .i64 4),
          ([109], .i64 4), ([120], .i64 4)]] ∧
      Exact selectAll task.seen (task.closing selectAll) := by
  obtain ⟨task, taken⟩ : ∃ task, runGuarded (step selectAll) (Clean selectAll)
      Task.initial twoWindows = some task := ⟨_, rfl⟩
  refine ⟨task, taken, ?_, window_rows_are_exact (Reaches.refl.of_runGuarded taken)⟩
  cases taken
  rfl

/-- The integers 1 and 0 with a string between them, and the integer 1 again:
the rotation that balances the tree puts the string above the two integers, so
that the second search for 1 goes to the left of the string and misses the
first 1 on its right. -/
def mixedTypes : List Event :=
  [keyed (.positiveInteger 1) 5, keyed (.str [97]) 6,
   keyed (.positiveInteger 0) 7, keyed (.positiveInteger 1) 8]

theorem group_is_split :
    ∃ task, run (step selectAll) Task.initial mixedTypes = some task ∧
      (task.closing selectAll).map (fun row => row.take 3) =
        [[([107], .i64 1), ([42], .i64 1), ([115], .i64 5)],
         [([107], .string [97]), ([42], .i64 1), ([115], .i64 6)],
         [([107], .i64 0), ([42], .i64 1), ([115], .i64 7)],
         [([107], .i64 1), ([42], .i64 1), ([115], .i64 8)]] ∧
      ¬Exact selectAll task.seen (task.closing selectAll) := by
  obtain ⟨task, taken⟩ : ∃ task, run (step selectAll) Task.initial
      mixedTypes = some task := ⟨_, rfl⟩
  refine ⟨task, taken, ?_, ?_⟩
  · cases taken
    rfl
  · rintro ⟨groups, distinct, listed, rows⟩
    have four : groups.length = 4 := by
      have lengths := congrArg length rows
      rw [length_map] at lengths
      rw [← lengths]
      cases taken
      rfl
    have tuples : task.seen.filterMap (tuple selectAll) =
        [[.i64 1], [.string [97]], [.i64 0], [.i64 1]] := by
      cases taken
      rfl
    have three : groups ⊆ [[.i64 1], [.string [97]], [.i64 0]] := by
      intro group member
      obtain ⟨record, inside, _, known⟩ := (listed group).mp member
      have occurs : group ∈ task.seen.filterMap (tuple selectAll) :=
        mem_filterMap.mpr ⟨record, inside, known⟩
      rw [tuples] at occurs
      simp only [mem_cons, not_mem_nil, or_false] at occurs ⊢
      tauto
    have bound := (distinct.subperm three).length_le
    rw [four] at bound
    exact absurd bound (by decide)

end FluentBit.StreamProcessor
