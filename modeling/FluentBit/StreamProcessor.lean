import FluentBit.Lib.Msgpack
import FluentBit.Lib.RedBlack
import FluentBit.Lib.Run

/-!
# Grouped aggregation in the stream processor

A task with a tumbling window reads the group values of every record, looks
for the group in a red-black tree that is ordered by a comparison of group
values, and adds the selected values to the numbers of the group.  When the
window closes, one row is packed for every group and the window is emptied.
The comparison agrees with an order of group values as long as the first
difference of two tuples is between values of one type and strings hold no NUL.

The keys of a record are strings.  Floating point numbers are not part of the
model: a record that brings one in has no step.
-/

namespace FluentBit.StreamProcessor

open Msgpack (Object)

abbrev Record := List (List Byte × Object)

/-- A key with its sub-keys, of which there may be none. -/
structure KeyPath where
  name : List Byte
  subkeys : List (List Byte)
deriving DecidableEq, Repr

/-- The results of `string_to_number` and `object_to_number`. -/
inductive Number where
  | int (i64 : Int)
  | float
deriving DecidableEq, Repr

/-- `FLB_SP_SUM`, `FLB_SP_MIN` and `FLB_SP_MAX`. -/
inductive AggrFunc where
  | sum
  | min
  | max
deriving DecidableEq, Repr

/-- What a selected key shows: the value of a group key, the number of records
or an aggregated value.  `sp_cmd_aggregated_keys` refuses other keys next to
an aggregation. -/
inductive Selection (groups : Nat) where
  | group (position : Fin groups)
  | count
  | aggregate (aggrFunc : AggrFunc) (key : KeyPath)
deriving DecidableEq, Repr

/-- `struct flb_sp_cmd_key`, with the name it is packed under. -/
structure CmdKey (groups : Nat) where
  label : List Byte
  selection : Selection groups
deriving DecidableEq, Repr

/-- `struct flb_sp_cmd` with a `GROUP BY`, the `WHERE` condition as a test, and
the conversion of strings to numbers that `stream_processor_str_conv` turns
on. -/
structure Cmd where
  gbKeys : List KeyPath
  keys : List (CmdKey gbKeys.length)
  condition : Record → Bool
  convertStrToNum : Bool
  stringToNumber : List Byte → Option Number
  grouped : gbKeys ≠ []

def objectToSpValue : Object → Option Object
  | .bin _ => none
  | .ext _ _ => none
  | .array _ => none
  | object => some object

/-- `subkey_to_value`: one level of maps for every sub-key. -/
def subkeyToValue : List (List Byte) → Object → Option Object
  | [], object => objectToSpValue object
  | subkey :: rest, .map pairs =>
    let entry := pairs.find? fun pair =>
      match pair.1 with
      | .str data => decide (data = subkey)
      | _ => false
    match entry with
    | none => none
    | some pair => subkeyToValue rest pair.2
  | _ :: _, _ => none

/-- `flb_sp_key_to_value`.  Sub-keys of a value that is no map are ignored. -/
def keyToValue (key : KeyPath) (record : Record) : Option Object :=
  match record.find? fun entry => decide (entry.1 = key.name) with
  | none => none
  | some (_, .map pairs) => subkeyToValue key.subkeys (.map pairs)
  | some (_, object) => objectToSpValue object

/-- `object_to_number`.  `via.i64` reads the bits of all integers as signed
ones. -/
def objectToNumber (cmd : Cmd) : Object → Option Number
  | .positiveInteger bits => some (.int bits.toInt)
  | .negativeInteger bits => some (.int bits.toInt)
  | .float32 _ => some .float
  | .float64 _ => some .float
  | .str data =>
    if cmd.convertStrToNum && decide (data.length ≤ 19) then
      cmd.stringToNumber data
    else none
  | _ => none

/-- A `struct aggregate_num` that holds a value: `FLB_SP_NUM_I64` or
`FLB_SP_STRING`. -/
inductive Value where
  | i64 (value : Int)
  | string (data : List Byte)
deriving DecidableEq, Repr

def groupbyCompare : List Value → List Value → Int
  | .i64 left :: lefts, .i64 right :: rights =>
    if left > right then 1
    else if left < right then -1
    else groupbyCompare lefts rights
  | .string left :: lefts, .string right :: rights =>
    if strcmp left right ≠ 0 then strcmp left right
    else groupbyCompare lefts rights
  | _ :: _, _ :: _ => -1
  | _, _ => 0

/-- The number of a group value; the zeroed number stays where the value is
neither a number nor a string nor a boolean. -/
def groupNum (cmd : Cmd) (object : Object) : Option Value :=
  match objectToNumber cmd object with
  | some (.int i64) => some (.i64 i64)
  | some .float => none
  | none =>
    match object with
    | .str data => some (.string data)
    | .boolean value => some (.i64 (if value then 1 else 0))
    | _ => some (.i64 0)

/-- `values_found`: for every entry of the record, the group keys of its name
that have a value. -/
def valuesFound (cmd : Cmd) (record : Record) : Nat :=
  (record.map fun entry => cmd.gbKeys.countP fun key =>
    decide (key.name = entry.1) && (keyToValue key record).isSome).sum

/-- `gb_nums` after all entries: every entry of a name stores the same
value. -/
def groupNums (cmd : Cmd) (record : Record) : Option (List Value) :=
  cmd.gbKeys.mapM fun key =>
    match keyToValue key record with
    | none => some (.i64 0)
    | some object => groupNum cmd object

structure Num where
  ops : Nat
  i64 : Int
deriving DecidableEq, Repr

/-- `struct aggregate_node`. -/
structure AggregateNode where
  groupbyNums : List Value
  records : Nat
  nums : List Num
deriving DecidableEq, Repr

/-- `task->window`.  The tree holds the nodes by their group values and their
position in the list. -/
structure Window where
  aggregateTree : RedBlack.Tree (List Value × Nat)
  aggregateList : List AggregateNode
  records : Nat

def Window.empty : Window :=
  { aggregateTree := .leaf, aggregateList := [], records := 0 }

def AggregateNode.new (cmd : Cmd) (groupbyNums : List Value) : AggregateNode :=
  { groupbyNums := groupbyNums, records := 1, nums := cmd.keys.map fun _ => { ops := 0, i64 := 0 } }

/-- The end of `sp_process_aggregate_data`: the node of the group, found or
added. -/
def aggregateNode (cmd : Cmd) (window : Window) (groupbyNums : List Value) : Window × Nat :=
  let position := window.aggregateList.length
  let result := RedBlack.findOrInsert
    (fun item => groupbyCompare groupbyNums item.1) (groupbyNums, position)
    window.aggregateTree
  match result.1 with
  | some item =>
    ({ window with
        aggregateList := window.aggregateList.modify item.2 fun node =>
          { node with records := node.records + 1 } }, item.2)
  | none =>
    ({ window with
        aggregateTree := result.2
        aggregateList := window.aggregateList ++ [.new cmd groupbyNums] }, position)

def wrap (value : Int) : Int := value.bmod (2 ^ 64)

/-- `aggregate_func_add_sum`, `aggregate_func_add_min` and
`aggregate_func_add_max` on an integer. -/
def aggregateFuncAdd (aggrFunc : AggrFunc) (num : Num) (ival : Int) : Num :=
  match aggrFunc with
  | .sum => { ops := num.ops + 1, i64 := wrap (num.i64 + ival) }
  | .min =>
    if num.ops = 0 ∨ num.i64 > ival then
      { ops := num.ops + 1, i64 := ival }
    else num
  | .max =>
    if num.ops = 0 ∨ num.i64 < ival then
      { ops := num.ops + 1, i64 := ival }
    else num

def addEntry (cmd : Cmd) (record : Record) (name : List Byte) :
    Selection cmd.gbKeys.length → Num → Option Num
  | .aggregate aggrFunc key, num =>
    if key.name = name then
      match keyToValue key record with
      | none => some num
      | some object =>
        match objectToNumber cmd object with
        | none => some num
        | some (.int ival) => some (aggregateFuncAdd aggrFunc num ival)
        | some .float => none
    else some num
  | _, num => some num

/-- The loops over the entries and the selected keys. -/
def addRecord (cmd : Cmd) (record : Record) (nums : List Num) : Option (List Num) :=
  record.foldlM (fun nums entry =>
    (cmd.keys.zip nums).mapM fun pair =>
      addEntry cmd record entry.1 pair.1.selection pair.2) nums

/-- One record in `sp_process_data_aggr`. -/
def processRecord (cmd : Cmd) (window : Window) (record : Record) : Option Window :=
  if cmd.condition record then
    if valuesFound cmd record < cmd.gbKeys.length then some window
    else
      match groupNums cmd record with
      | none => none
      | some groupbyNums =>
        let (window, position) := aggregateNode cmd window groupbyNums
        match window.aggregateList[position]? with
        | none => none
        | some node =>
          match addRecord cmd record node.nums with
          | none => none
          | some nums =>
            some
              { window with
                aggregateList := window.aggregateList.set position
                  { node with nums := nums }
                records := window.records + 1 }
  else some window

/-- The value of a selected key in a row of `package_results`. -/
def packValue {groups : Nat} (node : AggregateNode) (selection : Selection groups) (num : Num) :
    Value :=
  match selection with
  | .group position => node.groupbyNums.getD position (.i64 0)
  | .count => .i64 node.records
  | .aggregate _ _ => .i64 num.i64

/-- `package_results`: the rows, as maps from the names of the selected
keys. -/
def packageResults (cmd : Cmd) (window : Window) : List (List (List Byte × Value)) :=
  window.aggregateList.map fun node =>
    (cmd.keys.zip node.nums).map fun pair =>
      (pair.1.label, packValue node pair.1.selection pair.2)

/-- `flb_sp_window_prune` for a tumbling window. -/
def windowPrune (window : Window) : Window := if window.records > 0 then Window.empty else window

/-- A task, with the records since its window was opened.  These are not kept
by the source. -/
structure Task where
  window : Window
  seen : List Record

def Task.initial : Task :=
  { window := Window.empty, seen := [] }

/-- The rows that `flb_sp_fd_event` sends when the window closes. -/
def Task.closing (cmd : Cmd) (task : Task) : List (List (List Byte × Value)) :=
  if task.window.records > 0 then packageResults cmd task.window else []

inductive Event where
  | record (record : Record)
  | close

def step (cmd : Cmd) (task : Task) : Event → Option Task
  | .record record =>
    (processRecord cmd task.window record).map fun window =>
      { window := window, seen := task.seen ++ [record] }
  | .close =>
    some
      { window := windowPrune task.window, seen := [] }

open List

abbrev Rank := List (Int ⊕ₗ List Nat)

def Value.rank : Value → Int ⊕ₗ List Nat
  | .i64 value => Sum.inlₗ value
  | .string data => Sum.inrₗ (data.map UInt8.toNat)

def rank (values : List Value) : Rank := values.map Value.rank

theorem Value.rank_injective : Function.Injective Value.rank := by
  intro left right same
  cases left with
  | i64 left =>
    cases right with
    | i64 right =>
      have equal : left = right := by simpa [Value.rank] using same
      rw [equal]
    | string right => simp [Value.rank] at same
  | string left =>
    cases right with
    | i64 right => simp [Value.rank] at same
    | string right =>
      have equal : left.map UInt8.toNat = right.map UInt8.toNat := by simpa [Value.rank] using same
      rw [map_injective_iff.mpr (fun _ _ => UInt8.toNat_inj.mp) equal]

theorem rank_injective : Function.Injective rank := map_injective_iff.mpr Value.rank_injective

theorem strcmp_agrees {left right : List Byte} (leftFree : 0 ∉ left) (rightFree : 0 ∉ right) :
    (strcmp left right < 0 ↔
        left.map UInt8.toNat < right.map UInt8.toNat) ∧
      (strcmp left right = 0 ↔ left = right) := by
  induction left generalizing right with
  | nil =>
    cases right with
    | nil => simp [strcmp]
    | cons byte rest =>
      have nonzero : byte ≠ 0 := by
        rintro rfl
        exact rightFree mem_cons_self
      have positive : 0 < byte.toNat := by
        apply Nat.pos_of_ne_zero
        intro zero
        exact nonzero (UInt8.toNat_inj.mp zero)
      simp [strcmp]
      omega
  | cons byte lefts ih =>
    cases right with
    | nil =>
      have nonzero : byte ≠ 0 := by
        rintro rfl
        exact leftFree mem_cons_self
      have positive : byte.toNat ≠ 0 := fun zero =>
        nonzero (UInt8.toNat_inj.mp zero)
      simp [strcmp]
      omega
    | cons other rights =>
      simp only [mem_cons, not_or] at leftFree rightFree
      have later := ih leftFree.2 rightFree.2
      by_cases same : byte = other
      · subst other
        have nonzero : byte ≠ 0 := Ne.symm leftFree.1
        simp only [strcmp, if_true, nonzero, if_false, map_cons]
        rw [later.1, later.2]
        simp
      · have different : byte.toNat ≠ other.toNat := fun equal =>
          same (UInt8.toNat_inj.mp equal)
        simp only [strcmp, same, if_false, map_cons, cons_lt_cons_iff, List.cons.injEq, different,
          false_and, or_false, iff_false]
        omega

def Fits (value : Int) : Prop := -2 ^ 63 ≤ value ∧ value < 2 ^ 63

instance (value : Int) : Decidable (Fits value) := inferInstanceAs (Decidable (_ ∧ _))

/-- A group value the comparison can tell apart: an integer of 64 bits, or a
string without NUL. -/
def Value.Plain : Value → Prop
  | .i64 value => Fits value
  | .string data => 0 ∉ data

instance : (value : Value) → Decidable value.Plain
  | .i64 value => inferInstanceAs (Decidable (Fits value))
  | .string data => inferInstanceAs (Decidable (0 ∉ data))

def Value.sameType : Value → Value → Bool
  | .i64 _, .i64 _ => true
  | .string _, .string _ => true
  | _, _ => false

/-- The first difference of two tuples, if there is one, is between values of
one type. -/
def comparable : List Value → List Value → Bool
  | left :: lefts, right :: rights =>
    if left = right then comparable lefts rights
    else left.sameType right
  | _, _ => true

theorem rank_cons_lt {left right : Value} (different : left ≠ right) (lefts rights : List Value) :
    rank (left :: lefts) < rank (right :: rights) ↔
      left.rank < right.rank := by
  have apart : left.rank ≠ right.rank := fun same =>
    different (Value.rank_injective same)
  simp [rank, cons_lt_cons_iff, apart]

theorem groupbyCompare_agrees {lefts rights : List Value} (sizes : lefts.length = rights.length)
    (leftPlain : ∀ value ∈ lefts, value.Plain) (rightPlain : ∀ value ∈ rights, value.Plain)
    (compared : comparable lefts rights = true) :
    (groupbyCompare lefts rights < 0 ↔ rank lefts < rank rights) ∧
      (groupbyCompare lefts rights = 0 ↔ lefts = rights) := by
  induction lefts generalizing rights with
  | nil =>
    cases rights with
    | nil => simp [groupbyCompare]
    | cons right rights => simp at sizes
  | cons left lefts ih =>
    cases rights with
    | nil => simp at sizes
    | cons right rights =>
      simp only [length_cons, Nat.add_right_cancel_iff] at sizes
      simp only [forall_mem_cons] at leftPlain rightPlain
      by_cases same : left = right
      · subst right
        simp only [comparable, if_true] at compared
        have later := ih sizes leftPlain.2 rightPlain.2 compared
        have equation : groupbyCompare (left :: lefts) (left :: rights) =
            groupbyCompare lefts rights := by
          cases left with
          | i64 value => simp [groupbyCompare]
          | string data =>
            have zero : strcmp data data = 0 := (strcmp_agrees leftPlain.1 rightPlain.1).2.mpr rfl
            simp [groupbyCompare, zero]
        rw [equation, later.1, later.2]
        simp [rank]
      · rw [rank_cons_lt same]
        cases left with
        | i64 left =>
          cases right with
          | i64 right =>
            have different : left ≠ right := by simpa using same
            have order : (Value.i64 left).rank < (Value.i64 right).rank ↔
                left < right := Sum.Lex.inl_lt_inl_iff
            rw [order]
            simp only [groupbyCompare, List.cons.injEq, same, false_and, iff_false]
            split
            · omega
            · split <;> omega
          | string right => cases compared
        | string left =>
          cases right with
          | i64 right => cases compared
          | string right =>
            have agrees := strcmp_agrees leftPlain.1 rightPlain.1
            have different : strcmp left right ≠ 0 := by
              rw [Ne, agrees.2]
              simpa using same
            have order : (Value.string left).rank < (Value.string right).rank ↔
                left.map UInt8.toNat < right.map UInt8.toNat :=
              Sum.Lex.inr_lt_inr_iff
            rw [order, ← agrees.1]
            simp [groupbyCompare, different, same]

def integer : Object → Option Int
  | .positiveInteger bits => some bits.toNat
  | .negativeInteger bits => some bits.toInt
  | _ => none

/-- The group value of a record, as it stands there. -/
def groupValue : Object → Option Value
  | .str data => some (.string data)
  | object => (integer object).map Value.i64

/-- A string that `object_to_number` takes for a number stands for that number
in the groups. -/
def Value.Unconverted (cmd : Cmd) : Value → Prop
  | .i64 _ => True
  | .string data => objectToNumber cmd (.str data) = none

instance (cmd : Cmd) : (value : Value) → Decidable (value.Unconverted cmd)
  | .i64 _ => isTrue trivial
  | .string data => inferInstanceAs (Decidable (objectToNumber cmd (.str data) = none))

def tuple (cmd : Cmd) (record : Record) : Option (List Value) :=
  cmd.gbKeys.mapM fun key =>
    (keyToValue key record).bind groupValue

def members (cmd : Cmd) (records : List Record) (group : List Value) : List Record :=
  records.filter fun record =>
    cmd.condition record && decide (tuple cmd record = some group)

def values (key : KeyPath) (records : List Record) : List Int :=
  records.filterMap fun record => (keyToValue key record).bind integer

def exactValue (cmd : Cmd) (records : List Record) (group : List Value) :
    Selection cmd.gbKeys.length → Value
  | .group position => group.getD position (.i64 0)
  | .count => .i64 (members cmd records group).length
  | .aggregate .sum key => .i64 (values key (members cmd records group)).sum
  | .aggregate .min key => .i64 ((values key (members cmd records group)).min?.getD 0)
  | .aggregate .max key => .i64 ((values key (members cmd records group)).max?.getD 0)

def exactRow (cmd : Cmd) (records : List Record) (group : List Value) : List (List Byte × Value) :=
  cmd.keys.map fun key =>
    (key.label, exactValue cmd records group key.selection)

/-- One row for every tuple of group values, with exact values. -/
def Exact (cmd : Cmd) (records : List Record) (rows : List (List (List Byte × Value))) : Prop :=
  ∃ groups : List (List Value), groups.Nodup ∧
    (∀ group, group ∈ groups ↔ ∃ record ∈ records,
      cmd.condition record = true ∧ tuple cmd record = some group) ∧
    rows = groups.map (exactRow cmd records)

theorem members_append (cmd : Cmd) (records : List Record) (record : Record) (group : List Value) :
    members cmd (records ++ [record]) group =
      if cmd.condition record = true ∧ tuple cmd record = some group then
        members cmd records group ++ [record]
      else members cmd records group := by
  simp only [members, filter_append, filter_cons, filter_nil, Bool.and_eq_true, decide_eq_true_eq]
  split
  · rfl
  · simp

variable {key : KeyPath} {record : Record} {α β : Type*} {items : List α}
  {cmd : Cmd} {group : List Value}

theorem values_append {value : Int} (known : (keyToValue key record).bind integer = some value)
    (records : List Record) : values key (records ++ [record]) = values key records ++ [value] := by
  simp [values, known]

theorem mapM_eq_some_iff {f : α → Option β} {results : List β} :
    items.mapM f = some results ↔
      List.Forall₂ (fun item result => f item = some result) items
        results := by
  induction items generalizing results with
  | nil =>
    cases results with
    | nil | cons => simp
  | cons item rest ih =>
    simp only [mapM_cons, Option.bind_eq_bind, Option.bind_eq_some_iff,
      Option.pure_def, Option.some.injEq]
    constructor
    · intro known
      obtain ⟨result, first, later, others, rfl⟩ := known
      exact .cons first (ih.mp others)
    · intro known
      cases known with
      | cons first others => exact ⟨_, first, _, ih.mpr others, rfl⟩

theorem length_tuple (known : tuple cmd record = some group) : group.length = cmd.gbKeys.length :=
  (mapM_eq_some_iff.mp known).length_eq.symm

theorem toInt_eq_toNat {bits : BitVec 64} (small : (bits.toNat : Int) < 2 ^ 63) :
    bits.toInt = bits.toNat := by
  rw [BitVec.toInt_eq_toNat_cond, if_pos (by omega)]

/-- On plain values the numbers of the source are the group values. -/
theorem groupNum_of_groupValue {object : Object} {value : Value}
    (known : groupValue object = some value) (plain : value.Plain)
    (unconverted : value.Unconverted cmd) : groupNum cmd object = some value := by
  cases object with
  | positiveInteger bits =>
    simp only [groupValue, integer, Option.map_some, Option.some.injEq] at known
    subst known
    have same := toInt_eq_toNat plain.2
    simp [groupNum, objectToNumber, same]
  | negativeInteger bits =>
    simp only [groupValue, integer, Option.map_some, Option.some.injEq] at known
    subst known
    rfl
  | str data =>
    cases known
    simp only [Value.Unconverted] at unconverted
    rw [groupNum, unconverted]
  | nil | boolean value => cases known
  | float32 bits | float64 bits | bin data | ext type data | array items | map pairs => cases known

theorem groupNums_of_tuple (known : tuple cmd record = some group)
    (plain : ∀ value ∈ group, value.Plain) (unconverted : ∀ value ∈ group, value.Unconverted cmd) :
    groupNums cmd record = some group := by
  have each := mapM_eq_some_iff.mp known
  apply mapM_eq_some_iff.mpr
  clear known
  generalize cmd.gbKeys = keys at each ⊢
  induction each with
  | nil => exact .nil
  | cons first later ih =>
    simp only [forall_mem_cons] at plain unconverted
    refine .cons ?_ (ih plain.2 unconverted.2)
    obtain ⟨object, found, value⟩ := Option.bind_eq_some_iff.mp first
    rw [found]
    exact groupNum_of_groupValue value plain.1 unconverted.1

theorem name_mem_of_keyToValue (known : (keyToValue key record).isSome = true) :
    key.name ∈ record.map Prod.fst := by
  simp only [keyToValue] at known
  cases found : record.find? fun entry => decide (entry.1 = key.name) with
  | none => simp [found] at known
  | some entry =>
    have named := List.find?_some found
    rw [decide_eq_true_eq] at named
    exact named ▸ mem_map_of_mem (mem_of_find?_eq_some found)

theorem sum_named (record : Record) (name : List Byte) :
    (record.map fun entry => if name = entry.1 then 1 else 0).sum =
      (record.map Prod.fst).count name := by
  induction record with
  | nil => rfl
  | cons entry rest ih =>
    simp only [map_cons, sum_cons, count_cons, ih]
    by_cases same : name = entry.1
    · simp [same, Nat.add_comm]
    · simp [same, Ne.symm same]

/-- In a record without repeated keys the values found are the group keys that
have one. -/
theorem valuesFound_eq (names : (record.map Prod.fst).Nodup) :
    valuesFound cmd record = cmd.gbKeys.countP fun key => (keyToValue key record).isSome := by
  unfold valuesFound
  generalize cmd.gbKeys = keys
  induction keys with
  | nil => simp
  | cons key rest ih =>
    simp only [countP_cons, sum_map_add, ih]
    congr 1
    by_cases known : (keyToValue key record).isSome = true
    · have once := count_eq_one_of_mem names (name_mem_of_keyToValue known)
      simpa [known, once] using sum_named record key.name
    · simp [known]

theorem exists_of_forall₂ {R : α → β → Prop} {results : List β}
    (each : List.Forall₂ R items results) {item : α} (member : item ∈ items) :
    ∃ result, R item result := by
  induction each with
  | nil => cases member
  | cons first later ih =>
    rcases mem_cons.mp member with rfl | inside
    · exact ⟨_, first⟩
    · exact ih inside

theorem valuesFound_of_tuple (names : (record.map Prod.fst).Nodup)
    (known : tuple cmd record = some group) : valuesFound cmd record = cmd.gbKeys.length := by
  rw [valuesFound_eq names, countP_eq_length]
  intro key member
  obtain ⟨value, bound⟩ := exists_of_forall₂ (mapM_eq_some_iff.mp known) member
  obtain ⟨object, found, _⟩ := Option.bind_eq_some_iff.mp bound
  rw [found]
  rfl

def Selection.source {groups : Nat} : Selection groups → Option (List Byte)
  | .aggregate _ key => some key.name
  | _ => none

def Selection.Reads {groups : Nat} (record : Record) : Selection groups → Prop
  | .aggregate _ key => ∃ value ∈ (keyToValue key record).bind integer, Fits value
  | _ => True

def addValue {groups : Nat} (record : Record) : Selection groups → Num → Num
  | .aggregate aggrFunc key, num =>
    match (keyToValue key record).bind integer with
    | some value => aggregateFuncAdd aggrFunc num value
    | none => num
  | _, num => num

theorem objectToNumber_of_integer (cmd : Cmd) {object : Object}
    {value : Int} (known : integer object = some value) (fits : Fits value) :
    objectToNumber cmd object = some (.int value) := by
  cases object with
  | positiveInteger bits =>
    simp only [integer, Option.some.injEq] at known
    subst known
    simp [objectToNumber, toInt_eq_toNat fits.2]
  | negativeInteger bits =>
    simp only [integer, Option.some.injEq] at known
    subst known
    rfl
  | nil | boolean value | float32 bits => cases known
  | float64 bits | str data | bin data | ext type data | array items | map pairs => cases known

theorem addEntry_eq {selection : Selection cmd.gbKeys.length}
    (reads : selection.Reads record) (name : List Byte) (num : Num) :
    addEntry cmd record name selection num =
      some (if selection.source = some name then
        addValue record selection num else num) := by
  cases selection with
  | group position | count => simp [addEntry, Selection.source]
  | aggregate aggrFunc key =>
    obtain ⟨value, known, fits⟩ := reads
    obtain ⟨object, found, integral⟩ := Option.bind_eq_some_iff.mp known
    have number := objectToNumber_of_integer cmd integral fits
    by_cases named : key.name = name
    · simp [addEntry, Selection.source, addValue, named, found, number, integral]
    · simp [addEntry, Selection.source, named]

theorem mapM_of_forall {f : α → Option β} {g : α → β}
    (known : ∀ item ∈ items, f item = some (g item)) : items.mapM f = some (items.map g) := by
  induction items with
  | nil => rfl
  | cons item rest ih =>
    simp only [forall_mem_cons] at known
    rw [mapM_cons, known.1, ih known.2]
    rfl

theorem zipWith_zipWith (f g : α → β → β) (keys : List α) (nums : List β) :
    List.zipWith g keys (List.zipWith f keys nums) =
      List.zipWith (fun key num => g key (f key num)) keys nums := by
  induction keys generalizing nums with
  | nil => rfl
  | cons key keys ih =>
    cases nums with
    | nil => rfl
    | cons num nums => simp [ih]

theorem zipWith_second {keys : List α} {nums : List β} (sizes : nums.length = keys.length) :
    List.zipWith (fun _ num => num) keys nums = nums := by
  induction keys generalizing nums with
  | nil =>
    cases nums with
    | nil => rfl
    | cons => simp at sizes
  | cons key keys ih =>
    cases nums with
    | nil => rfl
    | cons num nums => simpa using ih (by simpa using sizes)

theorem addEntry_all (reads : ∀ key ∈ cmd.keys, key.selection.Reads record)
    (name : List Byte) (nums : List Num) :
    ((cmd.keys.zip nums).mapM fun pair =>
        addEntry cmd record name pair.1.selection pair.2) =
      some (List.zipWith (fun key num =>
        if key.selection.source = some name then
          addValue record key.selection num
        else num) cmd.keys nums) := by
  rw [← map_uncurry_zip_eq_zipWith]
  apply mapM_of_forall
  intro pair member
  exact addEntry_eq (reads pair.1 (of_mem_zip member).1) name pair.2

/-- The numbers after some of the entries, none of which has the name of
another. -/
theorem addEntries_eq (reads : ∀ key ∈ cmd.keys, key.selection.Reads record)
    {entries : Record} (names : (entries.map Prod.fst).Nodup) (nums : List Num)
    (sizes : nums.length = cmd.keys.length) :
    entries.foldlM (fun nums entry =>
        (cmd.keys.zip nums).mapM fun pair =>
          addEntry cmd record entry.1 pair.1.selection pair.2) nums =
      some (List.zipWith (fun key num =>
        if ∃ name ∈ entries.map Prod.fst, key.selection.source = some name then
          addValue record key.selection num
        else num) cmd.keys nums) := by
  induction entries generalizing nums with
  | nil => simp [zipWith_second sizes]
  | cons entry rest ih =>
    simp only [map_cons, nodup_cons] at names
    rw [foldlM_cons, addEntry_all reads, Option.bind_eq_bind,
      Option.bind_some, ih names.2 _ (by simp [sizes]), zipWith_zipWith]
    congr 2
    funext key num
    by_cases first : key.selection.source = some entry.1
    · have alone : ¬∃ name ∈ rest.map Prod.fst, key.selection.source = some name := by
        intro again
        obtain ⟨name, member, same⟩ := again
        rw [first, Option.some.injEq] at same
        exact names.1 (same ▸ member)
      rw [if_neg alone, if_pos first, if_pos ⟨entry.1, mem_cons_self, first⟩]
    · have later : (∃ name ∈ (entry :: rest).map Prod.fst, key.selection.source = some name) ↔
          ∃ name ∈ rest.map Prod.fst, key.selection.source = some name := by
        simp only [map_cons, mem_cons, exists_eq_or_imp, first, false_or]
      rw [if_neg first]
      exact (if_congr later rfl rfl).symm

theorem addRecord_eq (names : (record.map Prod.fst).Nodup)
    (reads : ∀ key ∈ cmd.keys, key.selection.Reads record) (nums : List Num)
    (sizes : nums.length = cmd.keys.length) :
    addRecord cmd record nums =
      some (List.zipWith (fun key num =>
        addValue record key.selection num) cmd.keys nums) := by
  rw [addRecord, addEntries_eq reads names nums sizes,
    ← map_uncurry_zip_eq_zipWith, ← map_uncurry_zip_eq_zipWith]
  congr 1
  apply map_congr_left
  intro pair member
  have readable := reads pair.1 (of_mem_zip member).1
  dsimp only [Function.uncurry]
  cases selection : pair.1.selection with
  | group position | count => simp [Selection.source, addValue]
  | aggregate aggrFunc key =>
    rw [selection] at readable
    obtain ⟨value, known, _⟩ := readable
    obtain ⟨object, found, _⟩ := Option.bind_eq_some_iff.mp known
    have member := name_mem_of_keyToValue (by rw [found]; rfl)
    exact if_pos ⟨key.name, member, rfl⟩

end FluentBit.StreamProcessor
