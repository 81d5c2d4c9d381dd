import FluentBit.HashTable

/-!
# Hash tables as finite maps

The abstract view of a table is a partial map from keys to values; on a
case-insensitive table the keys are lower-cased.  A table without eviction and
expiry behaves as its view as long as no call meets an entry of another key
that the comparison of that call takes for the key asked for.  The comparisons
stop at NUL bytes, `flb_hash_table_del_ptr` compares prefixes and
`flb_hash_table_get_by_id` does not compare at all when a chain has one entry,
so without this condition the table is not a map.
-/

namespace FluentBit.HashTable

open Function List

/-- The abstract state: the value stored under each normalized key. -/
abbrev Map := List Byte → Option Value

variable (hash64 : List Byte → UInt64)

/-- The calls of the interface, on keys of positive length. -/
inductive Call where
  | add (env : Env) (key : List Byte) (positive : key ≠ []) (value : Value)
  | get (env : Env) (key : List Byte) (positive : key ≠ [])
  | getPtr (key : List Byte) (positive : key ≠ [])
  | del (key : CString) (positive : key.bytes ≠ [])
  | delPtr (key : List Byte) (positive : key ≠ []) (ptr : Address)
  | hashExists (hash : UInt64)
  | getById (id : Int) (key : CString)

inductive Answer where
  | status (code : Int)
  | value (code : Int) (value : Option Value)
  | pointer (address : Address)
  | flag (found : Bool)
deriving DecidableEq, Repr

def call (ht : Table) : Call → Table × Answer
  | .add env key _ value =>
    let (ht, code) := add hash64 env ht key value
    (ht, .status code)
  | .get env key _ =>
    let (ht, code, value) := get hash64 env ht key
    (ht, .value code value)
  | .getPtr key _ =>
    let (ht, address) := getPtr hash64 ht key
    (ht, .pointer address)
  | .del key _ =>
    let (ht, code) := del hash64 ht key
    (ht, .status code)
  | .delPtr key _ ptr =>
    let (ht, code) := delPtr hash64 ht key ptr
    (ht, .status code)
  | .hashExists hash => (ht, .flag (hashExists ht hash))
  | .getById id key =>
    let (code, value) := getById ht id key
    (ht, .value code value)

/-- What the calls mean for a map.  The table shows through in the chain ids
that `flb_hash_table_add` and `flb_hash_table_get` return. -/
def Spec (size : Nat) (caseSensitivity : Bool) (map : Map) : Call → Answer → Map → Prop
  | .add _ key _ value, answer, next =>
    let key := normalize caseSensitivity key
    answer = .status ((hash64 key).toNat % size : Nat) ∧
      next = update map key (some value)
  | .get _ key _, answer, next =>
    let key := normalize caseSensitivity key
    next = map ∧
      match map key with
      | none => answer = .value (-1) none
      | some value => answer = .value ((hash64 key).toNat % size : Nat) (some value)
  | .getPtr key _, answer, next =>
    next = map ∧ answer = .pointer (((map (normalize caseSensitivity key)).map Value.val).getD 0)
  | .del key _, answer, next =>
    let key := normalize caseSensitivity key.bytes
    next = update map key none ∧ answer = .status (if (map key).isSome then 0 else -1)
  | .delPtr key _ ptr, answer, next =>
    let key := normalize caseSensitivity key
    if (map key).map Value.val = some ptr then
      next = update map key none ∧ answer = .status 0
    else next = map ∧ answer = .status (-1)
  | .hashExists hash, answer, next =>
    next = map ∧ ∃ found, answer = .flag found ∧
      (found = true ↔ ∃ key, (map key).isSome ∧ hash64 key = hash)
  | .getById _ key, answer, next =>
    next = map ∧
      (answer = .value (-1) none ∨
        ∃ value, map (normalize caseSensitivity key.bytes) = some value ∧
          answer = .value 0 (some value))

/-- Every entry of a chain that a comparison accepts holds the key. -/
def AcceptsOnly (ht : Table) (id : Nat) (accepts : Ref → Bool) (key : List Byte) : Prop :=
  ∀ ref ∈ (ht.table id).chains, accepts ref = true → ht.keyOf ref = normalize ht.caseSensitivity key

instance (ht : Table) (id : Nat) (accepts : Ref → Bool) (key : List Byte) :
    Decidable (AcceptsOnly ht id accepts key) :=
  inferInstanceAs (Decidable (∀ ref ∈ (ht.table id).chains, _ → _))

theorem acceptsOnly_delPtr {hash64 : List Byte → UInt64} {ht : Table} {deleted key : List Byte}
    {ptr : Address} (only : AcceptsOnly ht (keyId hash64 ht key) (sameKey ht key) key) :
    AcceptsOnly (delPtr hash64 ht deleted ptr).1 (keyId hash64 (delPtr hash64 ht deleted ptr).1 key)
      (sameKey (delPtr hash64 ht deleted ptr).1 key) key := by
  simp only [delPtr]
  split
  · exact only
  · intro ref linked accepted
    exact only ref (mem_chains_of_entryFree linked) accepted

/-- The calls that cannot take one key for another in the state they are made
in. -/
def Unambiguous (ht : Table) : Call → Prop
  | .add _ key _ _ | .get _ key _ | .getPtr key _ =>
    AcceptsOnly ht (keyId hash64 ht key) (sameKey ht key) key
  | .del key _ => AcceptsOnly ht (keyId hash64 ht key.bytes) (sameKey ht key.bytes) key.bytes
  | .delPtr key _ ptr =>
    AcceptsOnly ht (keyId hash64 ht key) (sameKeyPtr ht key ptr) key ∧
      ∀ ref ∈ (ht.table (keyId hash64 ht key)).chains,
        ht.keyOf ref = normalize ht.caseSensitivity key →
          strncmpEq key.length (ht.heap ref).key key = true
  | .hashExists _ => True
  | .getById id key =>
    if (ht.table id.toNat).chains.length = 1 then
      AcceptsOnly ht id.toNat (fun _ => true) key.bytes
    else
      AcceptsOnly ht id.toNat (fun ref => strcmpEq (ht.heap ref).key key.bytes) key.bytes

def Table.view (ht : Table) : Map := fun key =>
  (ht.entries.find? fun ref => ht.keyOf ref == key).map fun ref =>
    (ht.heap ref).value

theorem find?_eq_some_iff_of_unique {Element : Type}
    {elements : List Element} {accepts : Element → Bool} {element : Element}
    (unique : ∀ left ∈ elements, ∀ right ∈ elements,
      accepts left = true → accepts right = true → left = right) :
    elements.find? accepts = some element ↔ element ∈ elements ∧ accepts element = true := by
  constructor
  · intro found
    exact ⟨mem_of_find?_eq_some found, find?_some found⟩
  · rintro ⟨member, accepted⟩
    cases search : elements.find? accepts with
    | none => exact (find?_eq_none.mp search element member accepted).elim
    | some other =>
      rw [unique other (mem_of_find?_eq_some search) element member
        (find?_some search) accepted]

variable {hash64} {ht : Table} {key : List Byte}

theorem view_eq_some_iff (formed : WellFormed hash64 ht) {value : Value} :
    ht.view key = some value ↔
      ∃ ref ∈ ht.entries, ht.keyOf ref = key ∧ (ht.heap ref).value = value := by
  have unique : ∀ left ∈ ht.entries, ∀ right ∈ ht.entries,
      (ht.keyOf left == key) = true → (ht.keyOf right == key) = true →
        left = right := by
    intro left leftMember right rightMember leftKey rightKey
    apply formed.distinct left leftMember right rightMember
    rw [eq_of_beq leftKey, eq_of_beq rightKey]
  simp only [Table.view, Option.map_eq_some_iff,
    find?_eq_some_iff_of_unique unique, beq_iff_eq, and_assoc]

theorem view_eq_none_iff : ht.view key = none ↔ ∀ ref ∈ ht.entries, ht.keyOf ref ≠ key := by
  simp [Table.view, find?_eq_none]

variable {ref : Ref} {positive : key ≠ []}

theorem view_keyOf (formed : WellFormed hash64 ht) (member : ref ∈ ht.entries) :
    ht.view (ht.keyOf ref) = some (ht.heap ref).value :=
  (view_eq_some_iff formed).mpr ⟨ref, member, rfl, rfl⟩

theorem view_congr {updated : Table} (formed : WellFormed hash64 ht)
    (formedNext : WellFormed hash64 updated)
    (held : ∀ ref, ref ∈ updated.entries ∧ updated.keyOf ref = key ↔
      ref ∈ ht.entries ∧ ht.keyOf ref = key)
    (values : ∀ ref ∈ ht.entries, ht.keyOf ref = key →
      (updated.heap ref).value = (ht.heap ref).value) : updated.view key = ht.view key := by
  ext value
  rw [view_eq_some_iff formed, view_eq_some_iff formedNext]
  constructor
  · rintro ⟨ref, member, same, rfl⟩
    obtain ⟨live, holds⟩ := (held ref).mp ⟨member, same⟩
    exact ⟨ref, live, holds, (values ref live holds).symm⟩
  · rintro ⟨ref, live, holds, rfl⟩
    obtain ⟨member, same⟩ := (held ref).mpr ⟨live, holds⟩
    exact ⟨ref, member, same, values ref live holds⟩

section
variable (formed : WellFormed hash64 ht)
include formed

theorem view_hit (ref : Ref) : (hit ht ref).view = ht.view := by
  have keys : ∀ other, (hit ht ref).keyOf other = ht.keyOf other := keyOf_heap_update rfl
  funext key
  apply view_congr formed (formed.hit ref)
  · intro other
    rw [keys]
    rfl
  · intro other _ _
    exact unchanged_update _ _ Entry.value (by rfl) other

theorem view_entrySetValue (env : Env) (member : ref ∈ ht.entries) (value : Value) :
    (entrySetValue env ht ref value).view =
      update ht.view (ht.keyOf ref) (some value) := by
  have updated := formed.entrySetValue env ref value
  have keys : ∀ other,
      (entrySetValue env ht ref value).keyOf other = ht.keyOf other := keyOf_heap_update rfl
  funext key
  by_cases target : key = ht.keyOf ref
  · rw [target, update_self, ← keys, view_keyOf updated member]
    simp [entrySetValue]
  · rw [update_of_ne target]
    apply view_congr formed updated
    · intro other
      rw [keys]
      rfl
    · intro other _ holds
      have different : other ≠ ref := by
        rintro rfl
        exact target holds.symm
      simp [entrySetValue, different]

theorem view_entryFree (member : ref ∈ ht.entries) :
    (entryFree ht ref).view = update ht.view (ht.keyOf ref) none := by
  funext key
  by_cases target : key = ht.keyOf ref
  · rw [target, update_self, view_eq_none_iff]
    intro other kept same
    obtain ⟨different, live⟩ := (mem_entryFree formed ref other).mp kept
    exact different (formed.distinct other live ref member same)
  · rw [update_of_ne target]
    apply view_congr formed (formed.entryFree member) _ (fun _ _ _ => rfl)
    intro other
    rw [mem_entryFree formed]
    constructor
    · rintro ⟨⟨_, live⟩, holds⟩
      exact ⟨live, holds⟩
    · rintro ⟨live, holds⟩
      refine ⟨⟨?_, live⟩, holds⟩
      rintro rfl
      exact target holds.symm

theorem view_linkEntry (env : Env) (value : Value)
    (absent : ∀ ref ∈ ht.entries, ht.keyOf ref ≠ normalize ht.caseSensitivity key) :
    (linkEntry hash64 env ht key value).view =
      update ht.view (normalize ht.caseSensitivity key) (some value) := by
  have linked := formed.linkEntry env key value absent
  have newKey := @keyOf_linkEntry_next hash64 ht env key value
  funext other
  by_cases target : other = normalize ht.caseSensitivity key
  · have new := (@mem_linkEntry hash64 ht env key value ht.next).mpr (.inr rfl)
    rw [target, update_self, ← newKey, view_keyOf linked new]
    simp [linkEntry]
  · rw [update_of_ne target]
    apply view_congr formed linked
    · intro ref
      rw [mem_linkEntry]
      constructor
      · rintro ⟨live | rfl, holds⟩
        · rw [keyOf_linkEntry_of_ne env key value (formed.ne_next live)] at holds
          exact ⟨live, holds⟩
        · exact (target (holds.symm.trans newKey)).elim
      · rintro ⟨live, holds⟩
        rw [keyOf_linkEntry_of_ne env key value (formed.ne_next live)]
        exact ⟨.inl live, holds⟩
    · intro ref live _
      rw [heap_linkEntry_of_ne env key value (formed.ne_next live)]

/-- A search that accepts the key and only the key finds the entry that holds
it. -/
theorem find?_chain_eq_some_iff {accepts : Ref → Bool}
    (only : AcceptsOnly ht (keyId hash64 ht key) accepts key) :
    (ht.table (keyId hash64 ht key)).chains.find? accepts = some ref ↔
      ref ∈ ht.entries ∧ ht.keyOf ref = normalize ht.caseSensitivity key ∧ accepts ref = true := by
  have live : ∀ other ∈ (ht.table (keyId hash64 ht key)).chains,
      other ∈ ht.entries := fun other member =>
    ((formed.chained _ other).mp member).1
  rw [find?_eq_some_iff_of_unique]
  · constructor
    · rintro ⟨member, accepted⟩
      exact ⟨live ref member, only ref member accepted, accepted⟩
    · rintro ⟨member, same, accepted⟩
      exact ⟨formed.mem_chain_of_keyOf_eq member same, accepted⟩
  · intro left leftMember right rightMember leftAccepted rightAccepted
    apply formed.distinct left (live left leftMember) right (live right rightMember)
    rw [only left leftMember leftAccepted, only right rightMember rightAccepted]

theorem find?_sameKey_eq_some_iff
    (only : AcceptsOnly ht (keyId hash64 ht key) (sameKey ht key) key) :
    (ht.table (keyId hash64 ht key)).chains.find? (sameKey ht key) = some ref ↔
      ref ∈ ht.entries ∧ ht.keyOf ref = normalize ht.caseSensitivity key := by
  rw [find?_chain_eq_some_iff formed only]
  constructor
  · rintro ⟨member, same, _⟩
    exact ⟨member, same⟩
  · rintro ⟨member, same⟩
    exact ⟨member, same, sameKey_of_keyOf_eq same⟩

theorem hashGetEntry_cases (positive : key ≠ [])
    (only : AcceptsOnly ht (keyId hash64 ht key) (sameKey ht key) key) :
    (hashGetEntry hash64 ht key = none ∧ ht.view (normalize ht.caseSensitivity key) = none) ∨
      ∃ ref ∈ ht.entries,
        hashGetEntry hash64 ht key = some (keyId hash64 ht key, ref) ∧
          ht.keyOf ref = normalize ht.caseSensitivity key ∧
          ht.view (normalize ht.caseSensitivity key) = some (ht.heap ref).value := by
  rw [hashGetEntry_eq formed positive]
  cases search :
      (ht.table (keyId hash64 ht key)).chains.find? (sameKey ht key) with
  | none =>
    refine .inl ⟨rfl, view_eq_none_iff.mpr ?_⟩
    intro ref member same
    have found := (find?_sameKey_eq_some_iff formed only).mpr ⟨member, same⟩
    rw [search] at found
    cases found
  | some ref =>
    obtain ⟨member, same⟩ := (find?_sameKey_eq_some_iff formed only).mp search
    exact .inr ⟨ref, member, rfl, same, same ▸ view_keyOf formed member⟩

end

/-- A table without eviction and expiry that stands for a map. -/
structure Represents (hash64 : List Byte → UInt64) (size : Nat)
    (caseSensitivity : Bool) (ht : Table) (map : Map) : Prop where
  formed : WellFormed hash64 ht
  unbounded : ht.maxEntries = 0
  lasting : ht.cacheTtl = 0
  size_eq : ht.size = size
  sensitivity_eq : ht.caseSensitivity = caseSensitivity
  view_eq : ht.view = map

variable {size : Nat} {caseSensitivity : Bool} {map : Map}

section
variable (represents : Represents hash64 size caseSensitivity ht map)
include represents

theorem Represents.self : Represents hash64 size caseSensitivity ht ht.view :=
  { represents with view_eq := rfl }

/-- The updates leave the parameters of the table alone, so a new table is
related to its own view. -/
theorem Represents.update {updated : Table} (formed : WellFormed hash64 updated)
    (maxEntries : updated.maxEntries = ht.maxEntries) (cacheTtl : updated.cacheTtl = ht.cacheTtl)
    (sameSize : updated.size = ht.size) (sensitivity : updated.caseSensitivity = ht.caseSensitivity)
    {next : Map} (view : updated.view = next) :
    Represents hash64 size caseSensitivity updated next :=
  { formed := formed
    unbounded := maxEntries.trans represents.unbounded
    lasting := cacheTtl.trans represents.lasting
    size_eq := sameSize.trans represents.size_eq
    sensitivity_eq := sensitivity.trans represents.sensitivity_eq
    view_eq := view }

def Simulated (hash64 : List Byte → UInt64) (size : Nat)
    (caseSensitivity : Bool) (ht : Table) (map : Map) (event : Call) : Prop :=
  ∃ next, Spec hash64 size caseSensitivity map event (call hash64 ht event).2 next ∧
    Represents hash64 size caseSensitivity (call hash64 ht event).1 next

theorem simulated_add {env : Env}
    {value : Value} (clear : Unambiguous hash64 ht (.add env key positive value)) :
    Simulated hash64 size caseSensitivity ht map (.add env key positive value) := by
  have related := represents
  obtain ⟨formed, unbounded, lasting, rfl, rfl, rfl⟩ := represents
  have length : key.length ≠ 0 := by simpa using positive
  have capacity : checkCapacity env ht = ht := by simp [checkCapacity, unbounded]
  refine ⟨_, ⟨?_, rfl⟩, ?_⟩
  · rcases hashGetEntry_cases formed positive clear with
      ⟨missing, _⟩ | ⟨ref, _, found, _, _⟩
    · simp only [call, add, length, if_false, capacity, missing]
      rfl
    · simp only [call, add, length, if_false, capacity, found]
      rfl
  · rcases hashGetEntry_cases formed positive clear with
      ⟨missing, absent⟩ | ⟨ref, member, found, same, _⟩
    · have unheld := view_eq_none_iff.mp absent
      simp only [call, add, length, if_false, capacity, missing]
      exact related.update (formed.linkEntry env key value unheld)
        rfl rfl rfl rfl (view_linkEntry formed env value unheld)
    · simp only [call, add, length, if_false, capacity, found]
      rw [← same]
      exact related.update (formed.entrySetValue env ref value)
        rfl rfl rfl rfl (view_entrySetValue formed env member value)

theorem simulated_get {env : Env} (clear : Unambiguous hash64 ht (.get env key positive)) :
    Simulated hash64 size caseSensitivity ht map (.get env key positive) := by
  have related := represents
  obtain ⟨formed, unbounded, lasting, rfl, rfl, rfl⟩ := represents
  rcases hashGetEntry_cases formed positive clear with
    ⟨missing, absent⟩ | ⟨ref, _, found, _, stored⟩
  · refine ⟨ht.view, ⟨rfl, ?_⟩, ?_⟩
    · simp [absent, call, get, missing]
    · simpa only [call, get, missing] using related
  · refine ⟨ht.view, ⟨rfl, ?_⟩, ?_⟩
    · simp only [stored, call, get, found, lasting, gt_iff_lt, lt_self_iff_false,
        false_and, if_false]
      rfl
    · simp only [call, get, found, lasting, gt_iff_lt, lt_self_iff_false, false_and, if_false]
      exact related.update (formed.hit ref) rfl rfl rfl rfl (view_hit formed ref)

theorem simulated_getPtr (clear : Unambiguous hash64 ht (.getPtr key positive)) :
    Simulated hash64 size caseSensitivity ht map (.getPtr key positive) := by
  have related := represents
  obtain ⟨formed, unbounded, lasting, rfl, rfl, rfl⟩ := represents
  rcases hashGetEntry_cases formed positive clear with
    ⟨missing, absent⟩ | ⟨ref, _, found, _, stored⟩
  · refine ⟨ht.view, ⟨rfl, ?_⟩, ?_⟩
    · simp [absent, call, getPtr, missing]
    · simpa only [call, getPtr, missing] using related
  · refine ⟨ht.view, ⟨rfl, ?_⟩, ?_⟩
    · simp [stored, call, getPtr, found]
    · simp only [call, getPtr, found]
      exact related.update (formed.hit ref) rfl rfl rfl rfl (view_hit formed ref)

theorem simulated_del {key : CString}
    {positive : key.bytes ≠ []} (clear : Unambiguous hash64 ht (.del key positive)) :
    Simulated hash64 size caseSensitivity ht map (.del key positive) := by
  have related := represents
  obtain ⟨formed, unbounded, lasting, rfl, rfl, rfl⟩ := represents
  have length : key.bytes.length ≠ 0 := by simpa using positive
  have search : chainFind (ht.table (keyId hash64 ht key.bytes)) (sameKey ht key.bytes) = (ht.table
    (keyId hash64 ht key.bytes)).chains.find? (sameKey ht key.bytes) := chainFind_eq_find?
    (formed.counts _)
  rcases hashGetEntry_cases formed positive clear with
    ⟨missing, absent⟩ | ⟨ref, member, found, same, stored⟩
  · rw [hashGetEntry_eq formed positive, Option.map_eq_none_iff, ← search] at missing
    have unchanged :
        update ht.view (normalize ht.caseSensitivity key.bytes) none = ht.view := by
      rw [← absent, update_eq_self]
    refine ⟨ht.view, ⟨unchanged.symm, ?_⟩, ?_⟩
    · simp [call, del, length, missing, absent]
    · simpa only [call, del, length, if_false, missing] using related
  · rw [hashGetEntry_eq formed positive, ← search] at found
    obtain ⟨_, found, pair⟩ := Option.map_eq_some_iff.mp found
    cases pair
    refine ⟨_, ⟨rfl, ?_⟩, ?_⟩
    · simp [call, del, length, found, stored]
    · simp only [call, del, length, if_false, found]
      rw [← same]
      exact related.update (formed.entryFree member) rfl rfl rfl rfl (view_entryFree formed member)

theorem simulated_delPtr {ptr : Address}
    (clear : Unambiguous hash64 ht (.delPtr key positive ptr)) :
    Simulated hash64 size caseSensitivity ht map (.delPtr key positive ptr) := by
  have related := represents
  obtain ⟨formed, unbounded, lasting, rfl, rfl, rfl⟩ := represents
  obtain ⟨only, spelled⟩ := clear
  cases search : (ht.table (keyId hash64 ht key)).chains.find?
      (sameKeyPtr ht key ptr) with
  | none =>
    have unheld : ¬(ht.view (normalize ht.caseSensitivity key)).map Value.val = some ptr := by
      intro held
      obtain ⟨value, stored, address⟩ := Option.map_eq_some_iff.mp held
      obtain ⟨ref, member, same, sameValue⟩ := (view_eq_some_iff formed).mp stored
      have linked := formed.mem_chain_of_keyOf_eq member same
      have accepted : sameKeyPtr ht key ptr ref = true := by
        simp [sameKeyPtr, spelled ref linked same, sameValue, address]
      exact find?_eq_none.mp search ref linked accepted
    refine ⟨ht.view, ?_, ?_⟩
    · simp only [Spec, unheld, if_false]
      exact ⟨trivial, by simp only [call, delPtr, search]⟩
    · simpa only [call, delPtr, search] using related
  | some ref =>
    obtain ⟨member, same, accepted⟩ := (find?_chain_eq_some_iff formed only).mp search
    have held : (ht.view (normalize ht.caseSensitivity key)).map Value.val = some ptr := by
      rw [← same, view_keyOf formed member]
      simp only [sameKeyPtr, Bool.and_eq_true, beq_iff_eq] at accepted
      simp [accepted.2]
    refine ⟨update ht.view (normalize ht.caseSensitivity key) none, ?_, ?_⟩
    · simp only [Spec, held, if_true]
      exact ⟨trivial, by simp only [call, delPtr, search]⟩
    · simp only [call, delPtr, search]
      rw [← same]
      exact related.update (formed.entryFree member) rfl rfl rfl rfl (view_entryFree formed member)

end

theorem hashExists_iff (formed : WellFormed hash64 ht) (hash : UInt64) :
    hashExists ht hash = true ↔ ∃ key, (ht.view key).isSome ∧ hash64 key = hash := by
  simp only [hashExists, any_eq_true, beq_iff_eq]
  constructor
  · rintro ⟨ref, linked, same⟩
    have member := ((formed.chained _ ref).mp linked).1
    refine ⟨ht.keyOf ref, ?_, ?_⟩
    · simp [view_keyOf formed member]
    · rw [← formed.hashed ref member, same]
  · rintro ⟨key, held, rfl⟩
    obtain ⟨value, stored⟩ := Option.isSome_iff_exists.mp held
    obtain ⟨ref, member, rfl, _⟩ := (view_eq_some_iff formed).mp stored
    have hashed := formed.hashed ref member
    refine ⟨ref, (formed.chained _ ref).mpr ⟨member, ?_⟩, hashed⟩
    rw [formed.placed ref member, hashed]

section
variable (represents : Represents hash64 size caseSensitivity ht map)
include represents

theorem simulated_hashExists (hash : UInt64) : Simulated hash64 size caseSensitivity ht map
    (.hashExists hash) := by
  refine ⟨map, ⟨rfl, hashExists ht hash, rfl, ?_⟩, represents⟩
  rw [← represents.view_eq]
  exact hashExists_iff represents.formed hash

theorem simulated_getById {id : Int}
    {key : CString} (clear : Unambiguous hash64 ht (.getById id key)) :
    Simulated hash64 size caseSensitivity ht map (.getById id key) := by
  refine ⟨map, ⟨rfl, ?_⟩, represents⟩
  obtain ⟨formed, unbounded, lasting, rfl, rfl, rfl⟩ := represents
  have counted := formed.counts id.toNat
  -- Whatever the branch, an entry that is returned was accepted.
  have returns : ∀ ref ∈ (ht.table id.toNat).chains,
      ht.keyOf ref = normalize ht.caseSensitivity key.bytes →
        ∃ value, ht.view (normalize ht.caseSensitivity key.bytes) = some value ∧
          (ht.heap ref).value = value := by
    intro ref linked same
    have member := ((formed.chained _ ref).mp linked).1
    exact ⟨_, same ▸ view_keyOf formed member, rfl⟩
  simp only [call, getById]
  split
  · exact .inl rfl
  · split
    · exact .inl rfl
    · split
      · exact .inl rfl
      · next ref found =>
        right
        simp only [Unambiguous] at clear
        split at found
        · next single =>
          have length : (ht.table id.toNat).chains.length = 1 := by omega
          rw [if_pos length] at clear
          have linked := mem_of_head? found
          obtain ⟨value, stored, same⟩ := returns ref linked (clear ref linked rfl)
          exact ⟨value, stored, by rw [same]⟩
        · next several =>
          have length : (ht.table id.toNat).chains.length ≠ 1 := by omega
          rw [if_neg length] at clear
          have linked := mem_of_find?_eq_some found
          have accepted := find?_some found
          obtain ⟨value, stored, same⟩ := returns ref linked (clear ref linked accepted)
          exact ⟨value, stored, by rw [same]⟩

theorem simulated_of_unambiguous {event : Call} (clear : Unambiguous hash64 ht event) :
    Simulated hash64 size caseSensitivity ht map event := by
  cases event with
  | add env key positive value => exact simulated_add represents clear
  | get env key positive => exact simulated_get represents clear
  | getPtr key positive => exact simulated_getPtr represents clear
  | del key positive => exact simulated_del represents clear
  | delPtr key positive ptr => exact simulated_delPtr represents clear
  | hashExists hash => exact simulated_hashExists represents hash
  | getById id key => exact simulated_getById represents clear

end

theorem represents_create {evictMode : EvictMode}
    (created : create 0 evictMode size 0 caseSensitivity = some ht) :
    Represents hash64 size caseSensitivity ht fun _ => none := by
  have formed : WellFormed hash64 ht := wellFormed_create created
  unfold create at created
  split at created
  · cases created
  · cases created
    exact ⟨formed, rfl, rfl, rfl, rfl, rfl⟩

/-- A table without eviction and expiry answers every sequence of
unambiguous calls as a finite map does. -/
theorem answers_conform_to_map (hash64 : List Byte → UInt64) (evictMode : EvictMode) (size : Nat)
    (caseSensitivity : Bool) (start : Table)
    (created : create 0 evictMode size 0 caseSensitivity = some start) (calls : List Call)
    (unambiguous : Run.Guarded (call hash64) (Unambiguous hash64) start calls) :
    Run.Conforms (Spec hash64 size caseSensitivity) (fun _ => none) calls
      (Run.answers (call hash64) start calls) := by
  apply Run.conforms_of_simulation (Represents hash64 size caseSensitivity)
    _ (represents_create created) unambiguous
  intro table map event related clear
  exact simulated_of_unambiguous related clear

private def reference (address : Address) : Value :=
  { val := address, copy := none }

def now : Env := { time := 0, random := 0 }

def oneChain : Table :=
  { evictMode := .none, maxEntries := 0, totalCount := 0, cacheTtl := 0,
    caseSensitivity := true, size := 1, entries := [],
    table := fun _ => { count := 0, chains := [] },
    heap := fun _ =>
      { created := 0, hits := 0, hash := 0, key := [],
        value := { val := 0, copy := none }, table := 0 },
    next := 0 }

/-- Two keys in one chain, added and read back. -/
theorem answers_conform_to_map_two_keys :
    create 0 .none 1 0 true = some oneChain ∧
      Run.Conforms (Spec (fun _ => 0) 1 true) (fun _ => none)
        [.add now [97] (by decide) (reference 5), .add now [98] (by decide) (reference 6),
          .get now [97] (by decide)]
        [.status 0, .status 0, .value 0 (some (reference 5))] := by
  refine ⟨rfl, ?_⟩
  refine answers_conform_to_map (fun _ => 0) .none 1 true oneChain rfl
    [.add now [97] (by decide) (reference 5), .add now [98] (by decide) (reference 6),
      .get now [97] (by decide)] ⟨?_, ?_, ?_, trivial⟩
  · exact fun ref member => absurd member (by decide +revert)
  · unfold Unambiguous AcceptsOnly
    decide
  · unfold Unambiguous AcceptsOnly
    decide

/-- One chain with the key `ab` loses it to a deletion of its prefix `a`. -/
theorem delPtr_removes_longer_key : create 0 .none 1 0 true = some oneChain ∧
    Run.answers (call fun _ => 0) oneChain
        [.add now [97, 98] (by decide) (reference 5), .delPtr [97] (by decide) 5,
          .get now [97, 98] (by decide)] =
      [.status 0, .status 0, .value (-1) none] ∧
    ¬Run.Conforms (Spec (fun _ => 0) 1 true) (fun _ => none)
        [.add now [97, 98] (by decide) (reference 5), .delPtr [97] (by decide) 5,
          .get now [97, 98] (by decide)]
        (Run.answers (call fun _ => 0) oneChain
          [.add now [97, 98] (by decide) (reference 5), .delPtr [97] (by decide) 5,
            .get now [97, 98] (by decide)]) := by
  refine ⟨rfl, by decide, ?_⟩
  intro conforms
  cases conforms with
  | cons added remaining =>
    cases remaining with
    | cons deleted _ =>
      rw [added.2] at deleted
      have failed : ¬(update (fun _ => none) (normalize true [97, 98]) (some (reference 5))
          (normalize true [97])).map Value.val = some 5 := by
        decide
      exact absurd deleted.2 (by decide)

end FluentBit.HashTable
