import FluentBit.Lib.CString
import Mathlib.Tactic
import FluentBit.Lib.Run

/-!
# Hash tables

`flb_hash_table`: an array of chains, a list of all entries in insertion
order, and two kinds of counters.  Entries are heap cells named by a
reference; both lists hold references.  The hash function, the clock and the
random numbers are parameters.  Memory allocations succeed, and the number of
chains is one the initialisation loop of `flb_hash_table_create` can count to
with its `int` index.  The elementary updates keep one set of entries, no two
of them with the same key, whatever the comparison loops accept.

A table that evicts never holds more than `max_entries` entries.
`flb_hash_table_add` looks for an entry to give up before it looks for the key,
so the addition of a key that is present keeps the other keys exactly when the
entry given up is the one of that key.
-/

namespace FluentBit.HashTable

open List Function

abbrev Address := Nat

abbrev Ref := Nat

/-- What `entry_set_value` leaves in `val` and `val_size`: an address, with a
copy of the caller's buffer at that address when a size was given. -/
structure Value where
  val : Address
  copy : Option (List Byte)
deriving DecidableEq, Repr

/-- `struct flb_hash_table_entry`.  The key length is the length of `key`, and
`table` is the index of the chain. -/
structure Entry where
  created : Nat
  hits : Nat
  hash : UInt64
  key : List Byte
  value : Value
  table : Nat
deriving DecidableEq, Repr

structure Chain where
  count : Int
  chains : List Ref
deriving DecidableEq, Repr

inductive EvictMode where
  | none
  | older
  | lessUsed
  | random
deriving DecidableEq, Repr

/-- `struct flb_hash_table`, with the heap cells of its entries. -/
structure Table where
  evictMode : EvictMode
  maxEntries : Int
  totalCount : Int
  cacheTtl : Int
  caseSensitivity : Bool
  size : Nat
  entries : List Ref
  table : Nat → Chain
  heap : Ref → Entry
  next : Ref

/-- The largest `size` for which the initialisation loop of
`flb_hash_table_create` ends. -/
def maxSize : Nat := 2147483647

/-- `flb_hash_table_create_with_ttl`, followed by
`flb_hash_table_set_case_sensitivity`. -/
def create (cacheTtl : Int) (evictMode : EvictMode) (size : Nat)
    (maxEntries : Int) (caseSensitivity : Bool) : Option Table :=
  if size = 0 ∨ size > maxSize then none
  else
    some
      { evictMode := evictMode
        maxEntries := maxEntries
        totalCount := 0
        cacheTtl := cacheTtl
        caseSensitivity := caseSensitivity
        size := size
        entries := []
        table := fun _ => { count := 0, chains := [] }
        heap := fun _ =>
          { created := 0, hits := 0, hash := 0, key := [],
            value := { val := 0, copy := none }, table := 0 }
        next := 0 }

/-- What a call reads from its surroundings: the time and a random number. -/
structure Env where
  time : Nat
  random : Nat

section

-- `cfl_hash_64bits`
variable (hash64 : List Byte → UInt64)

/-- The key as the hash function sees it. -/
def normalize (caseSensitivity : Bool) (key : List Byte) : List Byte :=
  if caseSensitivity then key else key.map tolower

def computeKeyHash (ht : Table) (key : List Byte) : UInt64 :=
  hash64 (normalize ht.caseSensitivity key)

def chainId (ht : Table) (hash : UInt64) : Nat := hash.toNat % ht.size

def keyId (ht : Table) (key : List Byte) : Nat := chainId ht (computeKeyHash hash64 ht key)

/-- The comparison of `hash_get_entry` and `flb_hash_table_del`: equal lengths,
and `strncmp` or `strncasecmp` over that length. -/
def sameKey (ht : Table) (key : List Byte) (ref : Ref) : Bool :=
  (ht.heap ref).key.length == key.length &&
    if ht.caseSensitivity then
      strncmpEq key.length (ht.heap ref).key key
    else strncasecmpEq key.length (ht.heap ref).key key

/-- The lookup in one chain that `hash_get_entry` and `flb_hash_table_del`
share: a chain of one entry is not searched. -/
def chainFind (chain : Chain) (accepts : Ref → Bool) : Option Ref :=
  if chain.count = 1 then chain.chains.head?.filter accepts
  else chain.chains.find? accepts

/-- `hash_get_entry`: the chain id and the entry. -/
def hashGetEntry (ht : Table) (key : List Byte) : Option (Nat × Ref) :=
  if key.length = 0 then none
  else
    let id := keyId hash64 ht key
    if (ht.table id).count = 0 then none
    else (chainFind (ht.table id) (sameKey ht key)).map (id, ·)

def entryFree (ht : Table) (ref : Ref) : Table :=
  let id := (ht.heap ref).table
  { ht with
    totalCount := ht.totalCount - 1
    entries := ht.entries.erase ref
    table := update ht.table id
      { count := (ht.table id).count - 1, chains := (ht.table id).chains.erase ref } }

def evictRandom (env : Env) (ht : Table) : Table :=
  match ht.entries[env.random % ht.totalCount.toNat]? with
  | none => ht
  | some ref => entryFree ht ref

/-- The loop of `flb_hash_table_evict_less_used`. -/
def lessUsed (ht : Table) : Option Ref → List Ref → Option Ref
  | best, [] => best
  | none, ref :: refs => lessUsed ht (some ref) refs
  | some best, ref :: refs =>
    if (ht.heap ref).hits < (ht.heap best).hits then
      lessUsed ht (some ref) refs
    else lessUsed ht (some best) refs

def evictLessUsed (ht : Table) : Table :=
  match lessUsed ht none ht.entries with
  | none => ht
  | some ref => entryFree ht ref

def evictOlder (ht : Table) : Table :=
  match ht.entries.head? with
  | none => ht
  | some ref => entryFree ht ref

/-- The capacity check at the head of `flb_hash_table_add`. -/
def checkCapacity (env : Env) (ht : Table) : Table :=
  if ht.maxEntries > 0 ∧ ht.totalCount ≥ ht.maxEntries then
    match ht.evictMode with
    | .none => ht
    | .older => evictOlder ht
    | .lessUsed => evictLessUsed ht
    | .random => evictRandom env ht
  else ht

def entrySetValue (env : Env) (ht : Table) (ref : Ref) (value : Value) : Table :=
  { ht with
    heap := update ht.heap ref
      { ht.heap ref with value := value, created := env.time } }

/-- The part of `flb_hash_table_add` that links a new entry at the end of its
chain and of the list of entries. -/
def linkEntry (env : Env) (ht : Table) (key : List Byte) (value : Value) : Table :=
  let hash := computeKeyHash hash64 ht key
  let id := chainId ht hash
  { ht with
    totalCount := ht.totalCount + 1
    entries := ht.entries ++ [ht.next]
    table := update ht.table id
      { count := (ht.table id).count + 1, chains := (ht.table id).chains ++ [ht.next] }
    heap := update ht.heap ht.next
      { created := env.time, hits := 0, hash := hash, key := key, value := value, table := id }
    next := ht.next + 1 }

def add (env : Env) (ht : Table) (key : List Byte) (value : Value) : Table × Int :=
  if key.length = 0 then (ht, -1)
  else
    let ht := checkCapacity env ht
    match hashGetEntry hash64 ht key with
    | some (id, ref) => (entrySetValue env ht ref value, id)
    | none => (linkEntry hash64 env ht key value, keyId hash64 ht key)

/-- `entry->hits++`. -/
def hit (ht : Table) (ref : Ref) : Table :=
  { ht with
    heap := update ht.heap ref
      { ht.heap ref with hits := (ht.heap ref).hits + 1 } }

/-- `flb_hash_table_get`: the return value, and the value handed out. -/
def get (env : Env) (ht : Table) (key : List Byte) : Table × Int × Option Value :=
  match hashGetEntry hash64 ht key with
  | none => (ht, -1, none)
  | some (id, ref) =>
    if ht.cacheTtl > 0 ∧
        (env.time : Int) > (ht.heap ref).created + ht.cacheTtl then
      (entryFree ht ref, -1, none)
    else (hit ht ref, id, some (ht.heap ref).value)

def hashExists (ht : Table) (hash : UInt64) : Bool :=
  (ht.table (chainId ht hash)).chains.any fun ref =>
    (ht.heap ref).hash == hash

/-- `flb_hash_table_get_by_id`: a chain of one entry is returned without a
look at the key.  A negative id is a large number in the comparison with the
unsigned size. -/
def getById (ht : Table) (id : Int) (key : CString) : Int × Option Value :=
  if id < 0 ∨ ht.size ≤ id then (-1, none)
  else
    let chain := ht.table id.toNat
    if chain.count = 0 then (-1, none)
    else
      let found :=
        if chain.count = 1 then chain.chains.head?
        else chain.chains.find? fun ref => strcmpEq (ht.heap ref).key key.bytes
      match found with
      | none => (-1, none)
      | some ref => (0, some (ht.heap ref).value)

/-- `flb_hash_table_get_ptr`; zero is `NULL`. -/
def getPtr (ht : Table) (key : List Byte) : Table × Address :=
  match hashGetEntry hash64 ht key with
  | none => (ht, 0)
  | some (_, ref) => (hit ht ref, (ht.heap ref).value.val)

def del (ht : Table) (key : CString) : Table × Int :=
  if key.bytes.length = 0 then (ht, -1)
  else
    match chainFind (ht.table (keyId hash64 ht key.bytes))
        (sameKey ht key.bytes) with
    | none => (ht, -1)
    | some ref => (entryFree ht ref, 0)

/-- The comparison of `flb_hash_table_del_ptr`: the length of the stored key
is not looked at, and case always counts. -/
def sameKeyPtr (ht : Table) (key : List Byte) (ptr : Address) (ref : Ref) : Bool :=
  strncmpEq key.length (ht.heap ref).key key && (ht.heap ref).value.val == ptr

def delPtr (ht : Table) (key : List Byte) (ptr : Address) : Table × Int :=
  match (ht.table (keyId hash64 ht key)).chains.find?
      (sameKeyPtr ht key ptr) with
  | none => (ht, -1)
  | some ref => (entryFree ht ref, 0)

end

variable {caseSensitivity : Bool}

section
variable {hash64 : List Byte → UInt64}

def Table.keyOf (ht : Table) (ref : Ref) : List Byte :=
  normalize ht.caseSensitivity (ht.heap ref).key

structure WellFormed (hash64 : List Byte → UInt64) (ht : Table) : Prop where
  positive : 0 < ht.size
  total : ht.totalCount = ht.entries.length
  nodup : ht.entries.Nodup
  fresh : ∀ ref ∈ ht.entries, ref < ht.next
  counts : ∀ id, (ht.table id).count = (ht.table id).chains.length
  chainNodup : ∀ id, (ht.table id).chains.Nodup
  chained : ∀ id ref, ref ∈ (ht.table id).chains ↔ ref ∈ ht.entries ∧ (ht.heap ref).table = id
  hashed : ∀ ref ∈ ht.entries, (ht.heap ref).hash = hash64 (ht.keyOf ref)
  placed : ∀ ref ∈ ht.entries, (ht.heap ref).table = chainId ht (ht.heap ref).hash
  distinct : ∀ ref ∈ ht.entries, ∀ other ∈ ht.entries, ht.keyOf ref = ht.keyOf other → ref = other

variable {ht : Table} {ref : Ref} {key : List Byte} {id : Nat}

theorem wellFormed_create {cacheTtl maxEntries : Int} {evictMode : EvictMode} {size : Nat}
    (created : create cacheTtl evictMode size maxEntries caseSensitivity = some ht) :
    WellFormed hash64 ht := by
  unfold create at created
  split at created
  · cases created
  · next accepted =>
    cases created
    exact
      { positive := by
          simp only [not_or] at accepted
          exact Nat.pos_of_ne_zero accepted.1
        total := rfl
        nodup := nodup_nil
        fresh := by simp
        counts := by simp
        chainNodup := by simp
        chained := by simp
        hashed := by simp
        placed := by simp
        distinct := by simp }

theorem unchanged_update {α : Type} {entry : Entry} (heap : Ref → Entry) (ref : Ref)
    (field : Entry → α) (same : field entry = field (heap ref)) (other : Ref) :
    field (update heap ref entry other) = field (heap other) := by
  by_cases equal : other = ref
  · rw [equal, update_self, same]
  · rw [update_of_ne equal]

theorem keyOf_heap_update {entry : Entry} (same : entry.key = (ht.heap ref).key) (other : Ref) :
    Table.keyOf { ht with heap := update ht.heap ref entry } other = ht.keyOf other :=
  congrArg (normalize _) (unchanged_update ht.heap ref Entry.key same other)

section
variable (formed : WellFormed hash64 ht)
include formed

theorem WellFormed.heap_update {entry : Entry} (key : entry.key = (ht.heap ref).key)
    (hash : entry.hash = (ht.heap ref).hash) (table : entry.table = (ht.heap ref).table) :
    WellFormed hash64
      { ht with heap := update ht.heap ref entry } := by
  have keys := @keyOf_heap_update ht ref entry key
  have hashes := unchanged_update ht.heap ref Entry.hash hash
  have tables := unchanged_update ht.heap ref Entry.table table
  exact
    { formed with
      chained := by simpa only [tables] using formed.chained
      hashed := by simpa only [keys, hashes] using formed.hashed
      placed := by simpa only [chainId, tables, hashes] using formed.placed
      distinct := by simpa only [keys] using formed.distinct }

theorem WellFormed.entrySetValue (env : Env) (ref : Ref)
    (value : Value) : WellFormed hash64 (entrySetValue env ht ref value) :=
  formed.heap_update rfl rfl rfl

theorem WellFormed.hit (ref : Ref) : WellFormed hash64 (hit ht ref) :=
  formed.heap_update rfl rfl rfl

theorem mem_entryFree (ref other : Ref) :
    other ∈ (entryFree ht ref).entries ↔ other ≠ ref ∧ other ∈ ht.entries :=
  formed.nodup.mem_erase_iff

theorem WellFormed.entryFree (member : ref ∈ ht.entries) :
    WellFormed hash64 (entryFree ht ref) := by
  have remaining : ∀ other ∈ (HashTable.entryFree ht ref).entries,
      other ∈ ht.entries := fun other kept =>
    ((mem_entryFree formed ref other).mp kept).2
  have linked : ref ∈ (ht.table (ht.heap ref).table).chains :=
    (formed.chained _ ref).mpr ⟨member, rfl⟩
  exact
    { positive := formed.positive
      total := by
        have length := length_erase_of_mem member
        have nonempty : 0 < ht.entries.length := length_pos_of_mem member
        have total := formed.total
        simp only [HashTable.entryFree]
        omega
      nodup := formed.nodup.erase ref
      fresh := fun other kept => formed.fresh other (remaining other kept)
      counts := by
        apply (forall_update_iff ht.table fun _ chain => chain.count = chain.chains.length).mpr
        refine ⟨?_, fun id _ => formed.counts id⟩
        have length := length_erase_of_mem linked
        have nonempty := length_pos_of_mem linked
        have count := formed.counts (ht.heap ref).table
        dsimp only
        omega
      chainNodup := by
        apply (forall_update_iff ht.table fun _ chain => chain.chains.Nodup).mpr
        exact ⟨(formed.chainNodup _).erase ref, fun id _ => formed.chainNodup id⟩
      chained := by
        intro id other
        rw [mem_entryFree formed]
        simp only [HashTable.entryFree]
        by_cases same : id = (ht.heap ref).table
        · subst id
          rw [update_self, (formed.chainNodup _).mem_erase_iff, formed.chained]
          tauto
        · rw [update_of_ne same, formed.chained]
          constructor
          · rintro ⟨live, rfl⟩
            refine ⟨⟨?_, live⟩, rfl⟩
            rintro rfl
            exact same rfl
          · rintro ⟨⟨_, live⟩, chain⟩
            exact ⟨live, chain⟩
      hashed := fun other kept => formed.hashed other (remaining other kept)
      placed := fun other kept => formed.placed other (remaining other kept)
      distinct := fun left leftKept right rightKept =>
        formed.distinct left (remaining left leftKept)
          right (remaining right rightKept) }

theorem WellFormed.next_not_mem :
    ht.next ∉ ht.entries := fun member =>
  Nat.lt_irrefl _ (formed.fresh _ member)

theorem WellFormed.ne_next (member : ref ∈ ht.entries) : ref ≠ ht.next :=
  Nat.ne_of_lt (formed.fresh ref member)

end

section
variable {ht : Table} (env : Env) (key : List Byte) (value : Value)

theorem mem_linkEntry (other : Ref) :
    other ∈ (linkEntry hash64 env ht key value).entries ↔ other ∈ ht.entries ∨ other = ht.next := by
  simp [linkEntry]

theorem heap_linkEntry_of_ne {other : Ref} (old : other ≠ ht.next) :
    (linkEntry hash64 env ht key value).heap other = ht.heap other := by
  simp [linkEntry, old]

theorem keyOf_linkEntry_of_ne {other : Ref} (old : other ≠ ht.next) :
    (linkEntry hash64 env ht key value).keyOf other = ht.keyOf other := by
  simp only [Table.keyOf, heap_linkEntry_of_ne env key value old]
  rfl

theorem keyOf_linkEntry_next :
    (linkEntry hash64 env ht key value).keyOf ht.next = normalize ht.caseSensitivity key := by
  simp [Table.keyOf, linkEntry]

theorem WellFormed.linkEntry (formed : WellFormed hash64 ht)
    (absent : ∀ ref ∈ ht.entries, ht.keyOf ref ≠ normalize ht.caseSensitivity key) :
    WellFormed hash64 (linkEntry hash64 env ht key value) := by
  have unchained : ∀ id, ht.next ∉ (ht.table id).chains := fun id member =>
    formed.next_not_mem ((formed.chained id _).mp member).1
  exact
    { positive := formed.positive
      total := by simp [HashTable.linkEntry, formed.total]
      nodup := by
        apply formed.nodup.append (nodup_singleton _)
        exact disjoint_singleton.mpr formed.next_not_mem
      fresh := by
        intro ref member
        rcases (mem_linkEntry env key value ref).mp member with live | rfl
        · exact Nat.lt_succ_of_lt (formed.fresh ref live)
        · exact Nat.lt_succ_self _
      counts := by
        apply (forall_update_iff ht.table fun _ chain => chain.count = chain.chains.length).mpr
        exact ⟨by simp [formed.counts], fun id _ => formed.counts id⟩
      chainNodup := by
        apply (forall_update_iff ht.table fun _ chain => chain.chains.Nodup).mpr
        refine ⟨?_, fun id _ => formed.chainNodup id⟩
        apply (formed.chainNodup _).append (nodup_singleton _)
        exact disjoint_singleton.mpr (unchained _)
      chained := by
        intro id ref
        by_cases new : ref = ht.next
        · subst ref
          by_cases same : id = chainId ht (computeKeyHash hash64 ht key)
          · subst id
            simp [HashTable.linkEntry]
          · have other : chainId ht (computeKeyHash hash64 ht key) ≠ id :=
              fun equality => same equality.symm
            simp [HashTable.linkEntry, same, other, unchained]
        · have chain := formed.chained id ref
          by_cases same : id = chainId ht (computeKeyHash hash64 ht key)
          · subst id
            simpa [HashTable.linkEntry, new] using chain
          · simpa [HashTable.linkEntry, new, same] using chain
      hashed := by
        intro ref member
        rcases (mem_linkEntry env key value ref).mp member with live | rfl
        · rw [heap_linkEntry_of_ne env key value (formed.ne_next live),
            keyOf_linkEntry_of_ne env key value (formed.ne_next live)]
          exact formed.hashed ref live
        · rw [keyOf_linkEntry_next]
          simp [HashTable.linkEntry, computeKeyHash]
      placed := by
        intro ref member
        rcases (mem_linkEntry env key value ref).mp member with live | rfl
        · rw [heap_linkEntry_of_ne env key value (formed.ne_next live)]
          exact formed.placed ref live
        · simp [HashTable.linkEntry, chainId]
      distinct := by
        intro left leftMember right rightMember same
        have new := @keyOf_linkEntry_next hash64 ht env key value
        rcases (mem_linkEntry env key value left).mp leftMember with live | rfl
        · rw [keyOf_linkEntry_of_ne env key value (formed.ne_next live)] at same
          rcases (mem_linkEntry env key value right).mp rightMember with other | rfl
          · rw [keyOf_linkEntry_of_ne env key value (formed.ne_next other)] at same
            exact formed.distinct left live right other same
          · exact (absent left live (same.trans new)).elim
        · rcases (mem_linkEntry env key value right).mp rightMember with other | rfl
          · rw [keyOf_linkEntry_of_ne env key value (formed.ne_next other)] at same
            exact (absent right other (same.symm.trans new)).elim
          · rfl }

end

/-- Under the representation invariant the shortcut for chains of one entry
is a search. -/
theorem chainFind_eq_find? {chain : Chain} {accepts : Ref → Bool}
    (counted : chain.count = chain.chains.length) :
    chainFind chain accepts = chain.chains.find? accepts := by
  unfold chainFind
  split
  · next single =>
    have length : chain.chains.length = 1 := by omega
    obtain ⟨ref, only⟩ := length_eq_one_iff.mp length
    by_cases accepted : accepts ref = true
    all_goals simp [only, accepted]
  · rfl

theorem hashGetEntry_eq (formed : WellFormed hash64 ht) (positive : key ≠ []) :
    hashGetEntry hash64 ht key =
      ((ht.table (keyId hash64 ht key)).chains.find? (sameKey ht key)).map
        (keyId hash64 ht key, ·) := by
  have length : key.length ≠ 0 := by simpa using positive
  have counted := formed.counts (keyId hash64 ht key)
  simp only [hashGetEntry, length, if_false, chainFind_eq_find? counted]
  split
  · next empty =>
    have noEntries : (ht.table (keyId hash64 ht key)).chains = [] := by
      apply length_eq_zero_iff.mp
      omega
    simp [noEntries]
  · rfl

theorem sameKey_of_keyOf_eq (same : ht.keyOf ref = normalize ht.caseSensitivity key) :
    sameKey ht key ref = true := by
  unfold Table.keyOf normalize at same
  unfold sameKey
  cases sensitive : ht.caseSensitivity with
  | true =>
    simp only [sensitive, if_true] at same
    simp [same, strncmpEq, strncmpEqBy_of_map_eq]
  | false =>
    simp only [sensitive, Bool.false_eq_true, if_false] at same
    have length : (ht.heap ref).key.length = key.length := by simpa using congrArg List.length same
    simp [length, strncasecmpEq, strncmpEqBy_of_map_eq same]

/-- A lookup of the key can find an entry that refers to the address. -/
def Table.Offers (hash64 : List Byte → UInt64) (ht : Table) (key : List Byte) (address : Address) :
    Prop :=
  ∃ ref ∈ (ht.table (keyId hash64 ht key)).chains,
    sameKey ht key ref = true ∧ (ht.heap ref).value.val = address

instance (ht : Table) (key : List Byte) (address : Address) :
    Decidable (ht.Offers hash64 key address) :=
  inferInstanceAs (Decidable (∃ ref ∈ (ht.table (keyId hash64 ht key)).chains, _ ∧ _))

theorem hashGetEntry_eq_some (found : hashGetEntry hash64 ht key = some (id, ref)) :
    ref ∈ (ht.table (keyId hash64 ht key)).chains ∧ sameKey ht key ref = true := by
  simp only [hashGetEntry] at found
  split at found
  · cases found
  · split at found
    · cases found
    · obtain ⟨other, search, same⟩ := Option.map_eq_some_iff.mp found
      cases same
      simp only [chainFind] at search
      split at search
      · obtain ⟨head, accepted⟩ := Option.filter_eq_some_iff.mp search
        exact ⟨mem_of_head? head, accepted⟩
      · exact ⟨mem_of_find?_eq_some search, List.find?_some search⟩

theorem mem_chains_of_entryFree {freed : Ref}
    (linked : ref ∈ ((entryFree ht freed).table id).chains) : ref ∈ (ht.table id).chains := by
  simp only [entryFree] at linked
  by_cases chain : id = (ht.heap freed).table
  · subst id
    rw [update_self] at linked
    exact mem_of_mem_erase linked
  · rwa [update_of_ne chain] at linked

theorem offers_of_delPtr {deleted : List Byte} {ptr address : Address}
    (offers : (delPtr hash64 ht deleted ptr).1.Offers hash64 key address) :
    ht.Offers hash64 key address := by
  simp only [delPtr] at offers
  split at offers
  · exact offers
  · obtain ⟨ref, linked, found⟩ := offers
    exact ⟨ref, mem_chains_of_entryFree linked, found⟩

theorem WellFormed.mem_chain_of_keyOf_eq (formed : WellFormed hash64 ht) (member : ref ∈ ht.entries)
    (same : ht.keyOf ref = normalize ht.caseSensitivity key) :
    ref ∈ (ht.table (keyId hash64 ht key)).chains := by
  refine (formed.chained _ ref).mpr ⟨member, ?_⟩
  rw [formed.placed ref member, formed.hashed ref member, same]
  rfl

end

variable {hash64 : List Byte → UInt64} {ht : Table}

inductive Operation where
  | add (env : Env) (key : List Byte) (value : Value)
  | get (env : Env) (key : List Byte)
  | del (key : CString)
  | delPtr (key : List Byte) (ptr : Address)

def operate (hash64 : List Byte → UInt64) (ht : Table) : Operation → Option Table
  | .add env key value => some (add hash64 env ht key value).1
  | .get env key => some (get hash64 env ht key).1
  | .del key => some (del hash64 ht key).1
  | .delPtr key ptr => some (delPtr hash64 ht key ptr).1

/-- The two lists and the counters describe one set of entries, each linked
once in the chain of its hash, with distinct keys. -/
structure Consistent (hash64 : List Byte → UInt64) (ht : Table) : Prop where
  total_entries : ht.totalCount = ht.entries.length
  total_chains : ht.totalCount = ∑ id ∈ Finset.range ht.size, (ht.table id).count
  chain_counts : ∀ id < ht.size, (ht.table id).count = (ht.table id).chains.length
  hashed : ∀ ref ∈ ht.entries, (ht.heap ref).hash = computeKeyHash hash64 ht (ht.heap ref).key
  chained_once : ∀ ref ∈ ht.entries, ∀ id < ht.size,
    (ht.table id).chains.count ref = if id = (ht.heap ref).hash.toNat % ht.size then 1 else 0
  listed_once : ∀ ref ∈ ht.entries, ht.entries.count ref = 1
  chains_listed : ∀ id < ht.size, ∀ ref ∈ (ht.table id).chains, ref ∈ ht.entries
  keys_distinct : (ht.entries.map ht.keyOf).Nodup

def WithinCapacity (ht : Table) : Prop :=
  ht.evictMode ≠ .none → 0 < ht.maxEntries → ht.totalCount ≤ ht.maxEntries

def Present (ht : Table) (key : List Byte) : Prop :=
  ∃ ref ∈ ht.entries, ht.keyOf ref = normalize ht.caseSensitivity key

def KeepsOthers (before after : Table) (key : List Byte) : Prop :=
  ∀ ref ∈ before.entries,
    before.keyOf ref ≠ normalize before.caseSensitivity key →
      ∃ kept ∈ after.entries, after.keyOf kept = before.keyOf ref

/-- The entry that the capacity check of `flb_hash_table_add` removes. -/
def evicted (env : Env) (ht : Table) : Option Ref :=
  if ht.maxEntries > 0 ∧ ht.totalCount ≥ ht.maxEntries then
    match ht.evictMode with
    | .none => none
    | .older => ht.entries.head?
    | .lessUsed => lessUsed ht none ht.entries
    | .random => ht.entries[env.random % ht.totalCount.toNat]?
  else none

theorem checkCapacity_eq (env : Env) (ht : Table) :
    checkCapacity env ht =
      match evicted env ht with
      | none => ht
      | some ref => entryFree ht ref := by
  simp only [checkCapacity, evicted]
  split
  · cases ht.evictMode with
    | none | older | lessUsed | random => rfl
  · rfl

variable {ref : Ref} {key : List Byte}

theorem lessUsed_mem {best : Option Ref} {refs : List Ref}
    (chosen : lessUsed ht best refs = some ref) : best = some ref ∨ ref ∈ refs := by
  induction refs generalizing best with
  | nil =>
    cases best with
    | none | some _ => exact .inl chosen
  | cons first refs ih =>
    cases best with
    | none =>
      rcases ih chosen with same | later
      · cases same
        exact .inr mem_cons_self
      · exact .inr (mem_cons_of_mem _ later)
    | some best =>
      simp only [lessUsed] at chosen
      split at chosen
      · rcases ih chosen with same | later
        · cases same
          exact .inr mem_cons_self
        · exact .inr (mem_cons_of_mem _ later)
      · rcases ih chosen with same | later
        · exact .inl same
        · exact .inr (mem_cons_of_mem _ later)

theorem lessUsed_isSome (ht : Table) (best : Ref) (refs : List Ref) :
    ∃ ref, lessUsed ht (some best) refs = some ref := by
  induction refs generalizing best with
  | nil => exact ⟨best, rfl⟩
  | cons first refs ih =>
    simp only [lessUsed]
    split <;> apply ih

theorem evicted_mem {env : Env} (chosen : evicted env ht = some ref) : ref ∈ ht.entries := by
  simp only [evicted] at chosen
  split at chosen
  · cases mode : ht.evictMode with
    | none => simp [mode] at chosen
    | older =>
      simp only [mode] at chosen
      exact mem_of_head? chosen
    | lessUsed =>
      simp only [mode] at chosen
      rcases lessUsed_mem chosen with impossible | member
      · cases impossible
      · exact member
    | random =>
      simp only [mode] at chosen
      exact mem_of_getElem? chosen
  · cases chosen

section
variable (formed : WellFormed hash64 ht)
include formed

theorem exists_evicted (env : Env) (evicts : ht.evictMode ≠ .none)
    (positive : 0 < ht.maxEntries) (full : ht.maxEntries ≤ ht.totalCount) :
    ∃ ref, evicted env ht = some ref := by
  have total := formed.total
  have condition : ht.maxEntries > 0 ∧ ht.totalCount ≥ ht.maxEntries := ⟨positive, full⟩
  obtain ⟨first, rest, entries⟩ : ∃ first rest, ht.entries = first :: rest := by
    apply exists_cons_of_ne_nil
    intro empty
    rw [empty] at total
    simp only [length_nil] at total
    omega
  simp only [evicted, condition, and_self, if_true]
  cases mode : ht.evictMode with
  | none => exact absurd mode evicts
  | older => exact ⟨first, by simp [entries]⟩
  | lessUsed =>
    obtain ⟨ref, chosen⟩ := lessUsed_isSome ht first rest
    exact ⟨ref, by simp only [entries, lessUsed, chosen]⟩
  | random =>
    have inside : env.random % ht.totalCount.toNat < ht.entries.length := by
      have length : ht.totalCount.toNat = ht.entries.length := by omega
      rw [length]
      apply Nat.mod_lt
      simp [entries]
    exact ⟨_, List.getElem?_eq_getElem inside⟩

theorem length_entries :
    ht.entries.length = ∑ id ∈ Finset.range ht.size, (ht.table id).chains.length := by
  have fibres : ht.entries.toFinset.card =
      ∑ id ∈ Finset.range ht.size,
        (ht.entries.toFinset.filter fun ref => (ht.heap ref).table = id).card := by
    apply Finset.card_eq_sum_card_fiberwise
    intro ref member
    have listed : ref ∈ ht.entries := by simpa using member
    have inside : (ht.heap ref).table < ht.size := by
      rw [formed.placed ref listed]
      exact Nat.mod_lt _ formed.positive
    simpa using inside
  rw [← toFinset_card_of_nodup formed.nodup, fibres]
  apply Finset.sum_congr rfl
  intro id _
  rw [← toFinset_card_of_nodup (formed.chainNodup id)]
  congr 1
  ext ref
  simp [formed.chained id ref]

theorem consistent_of_wellFormed : Consistent hash64 ht := by
  constructor
  · exact formed.total
  · rw [formed.total, length_entries formed]
    simp [formed.counts]
  · intro id _
    exact formed.counts id
  · exact formed.hashed
  · intro ref member id _
    have placed := formed.placed ref member
    have chained := formed.chained id ref
    split
    · next same =>
      apply count_eq_one_of_mem (formed.chainNodup id)
      exact chained.mpr ⟨member, placed.trans same.symm⟩
    · next other =>
      apply count_eq_zero_of_not_mem
      intro linked
      exact other ((chained.mp linked).2.symm.trans placed)
  · intro ref member
    exact count_eq_one_of_mem formed.nodup member
  · intro id _ ref linked
    exact ((formed.chained id ref).mp linked).1
  · apply formed.nodup.map_on
    exact formed.distinct

end

structure Bounded (hash64 : List Byte → UInt64) (ht : Table) : Prop where
  formed : WellFormed hash64 ht
  keyed : ∀ ref ∈ ht.entries, ht.keyOf ref ≠ []
  within : WithinCapacity ht

section
variable (bounded : Bounded hash64 ht)
include bounded

theorem Bounded.entryFree (member : ref ∈ ht.entries) :
    Bounded hash64 (entryFree ht ref) := by
  constructor
  · exact bounded.formed.entryFree member
  · intro other kept
    exact bounded.keyed other ((mem_entryFree bounded.formed ref other).mp kept).2
  · intro evicts positive
    have within := bounded.within evicts positive
    simp only [HashTable.entryFree]
    omega

theorem Bounded.heap_update {entry : Entry} (key : entry.key = (ht.heap ref).key)
    (hash : entry.hash = (ht.heap ref).hash) (table : entry.table = (ht.heap ref).table) :
    Bounded hash64 { ht with heap := Function.update ht.heap ref entry } := by
  constructor
  · exact bounded.formed.heap_update key hash table
  · intro other member
    rw [keyOf_heap_update key]
    exact bounded.keyed other member
  · exact bounded.within

theorem Bounded.checkCapacity (env : Env) :
    Bounded hash64 (checkCapacity env ht) := by
  rw [checkCapacity_eq]
  cases chosen : evicted env ht with
  | none => exact bounded
  | some ref => exact bounded.entryFree (evicted_mem chosen)

theorem room_of_checkCapacity (env : Env) (evicts : (checkCapacity env ht).evictMode ≠ .none)
    (positive : 0 < (checkCapacity env ht).maxEntries) :
    (checkCapacity env ht).totalCount < (checkCapacity env ht).maxEntries := by
  rw [checkCapacity_eq] at evicts positive ⊢
  cases chosen : evicted env ht with
  | none =>
    simp only [chosen] at evicts positive ⊢
    by_contra full
    obtain ⟨ref, given⟩ := exists_evicted bounded.formed env evicts positive (by omega)
    rw [chosen] at given
    cases given
  | some ref =>
    simp only [chosen, HashTable.entryFree] at evicts positive ⊢
    have within := bounded.within evicts positive
    omega

end

theorem absent_of_hashGetEntry (formed : WellFormed hash64 ht) (positive : key ≠ [])
    (missing : hashGetEntry hash64 ht key = none) : ¬Present ht key := by
  rintro ⟨ref, member, same⟩
  rw [hashGetEntry_eq formed positive, Option.map_eq_none_iff] at missing
  have linked := formed.mem_chain_of_keyOf_eq member same
  have refused := List.find?_eq_none.mp missing ref linked
  exact refused (sameKey_of_keyOf_eq same)

theorem normalize_ne_nil (positive : key ≠ []) :
    normalize caseSensitivity key ≠ [] := by
  cases caseSensitivity with
  | true | false => simpa [normalize] using positive

section
variable (bounded : Bounded hash64 ht)
include bounded

theorem Bounded.add (env : Env) (key : List Byte) (value : Value) :
    Bounded hash64 (add hash64 env ht key value).1 := by
  simp only [HashTable.add]
  split
  · exact bounded
  · next length =>
    have positive : key ≠ [] := by simpa using length
    have checked := bounded.checkCapacity env
    have room := room_of_checkCapacity bounded env
    generalize HashTable.checkCapacity env ht = ht at checked room
    split
    · next id ref found => exact checked.heap_update rfl rfl rfl
    · next missing =>
      have absent := absent_of_hashGetEntry checked.formed positive missing
      constructor
      · apply checked.formed.linkEntry env key value
        intro ref member same
        exact absent ⟨ref, member, same⟩
      · intro ref member
        rcases (mem_linkEntry env key value ref).mp member with
          live | rfl
        · rw [keyOf_linkEntry_of_ne env key value (checked.formed.ne_next live)]
          exact checked.keyed ref live
        · rw [keyOf_linkEntry_next]
          exact normalize_ne_nil positive
      · intro evicts capacity
        have below := room evicts capacity
        simp only [linkEntry]
        omega

theorem Bounded.get (env : Env) (key : List Byte) : Bounded hash64 (get hash64 env ht key).1 := by
  simp only [HashTable.get]
  split
  · exact bounded
  · next id ref found =>
    split
    · have listed := (bounded.formed.chained _ _).mp (hashGetEntry_eq_some found).1
      exact bounded.entryFree listed.1
    · exact bounded.heap_update rfl rfl rfl

theorem Bounded.del (key : CString) : Bounded hash64 (del hash64 ht key).1 := by
  simp only [HashTable.del]
  split
  · exact bounded
  · rw [chainFind_eq_find? (bounded.formed.counts _)]
    split
    · exact bounded
    · next ref found =>
      apply bounded.entryFree
      exact ((bounded.formed.chained _ _).mp (mem_of_find?_eq_some found)).1

theorem Bounded.delPtr (key : List Byte) (ptr : Address) :
    Bounded hash64 (delPtr hash64 ht key ptr).1 := by
  simp only [HashTable.delPtr]
  split
  · exact bounded
  · next ref found =>
    apply bounded.entryFree
    exact ((bounded.formed.chained _ _).mp (mem_of_find?_eq_some found)).1

theorem Bounded.operate {operation : Operation} {next : Table}
    (taken : operate hash64 ht operation = some next) : Bounded hash64 next := by
  cases operation with
  | add env key value =>
    cases taken
    exact bounded.add env key value
  | get env key =>
    cases taken
    exact bounded.get env key
  | del key =>
    cases taken
    exact bounded.del key
  | delPtr key ptr =>
    cases taken
    exact bounded.delPtr key ptr

end

theorem bounded_create {cacheTtl maxEntries : Int} {evictMode : EvictMode}
    {size : Nat}
    (created : create cacheTtl evictMode size maxEntries caseSensitivity =
      some ht) : Bounded hash64 ht := by
  have formed : WellFormed hash64 ht := wellFormed_create created
  simp only [create] at created
  split at created
  · cases created
  · cases created
    constructor
    · exact formed
    · simp
    · intro _ positive
      exact Int.le_of_lt positive

theorem mem_add_of_checkCapacity (bounded : Bounded hash64 ht) (env : Env) (positive : key ≠ [])
    (value : Value) (ref : Ref) (member : ref ∈ (checkCapacity env ht).entries) :
    ref ∈ (add hash64 env ht key value).1.entries ∧
      (add hash64 env ht key value).1.keyOf ref = (checkCapacity env ht).keyOf ref := by
  have length : key.length ≠ 0 := by simpa using positive
  have checked := bounded.checkCapacity env
  simp only [add, length, if_false]
  generalize checkCapacity env ht = ht at checked member
  split
  · refine ⟨member, ?_⟩
    apply keyOf_heap_update
    rfl
  · constructor
    · exact (mem_linkEntry env key value ref).mpr (.inl member)
    · exact keyOf_linkEntry_of_ne env key value (checked.formed.ne_next member)

theorem mem_add (hash64 : List Byte → UInt64) (ht : Table) (env : Env) (positive : key ≠ [])
    (value : Value) (ref : Ref) (member : ref ∈ (add hash64 env ht key value).1.entries) :
    ref ∈ (checkCapacity env ht).entries ∨
      (add hash64 env ht key value).1.keyOf ref =
        normalize (checkCapacity env ht).caseSensitivity key := by
  have length : key.length ≠ 0 := by simpa using positive
  simp only [add, length, if_false] at member ⊢
  generalize checkCapacity env ht = ht at member
  split at member
  · exact .inl member
  · rcases (mem_linkEntry env key value ref).mp member with live | rfl
    · exact .inl live
    · right
      apply keyOf_linkEntry_next

theorem add_keepsOthers_iff (bounded : Bounded hash64 ht) (env : Env)
    (present : Present ht key) (value : Value) :
    KeepsOthers ht (add hash64 env ht key value).1 key ↔
      ∀ ref, evicted env ht = some ref → ht.keyOf ref = normalize ht.caseSensitivity key := by
  have positive : key ≠ [] := by
    rintro rfl
    obtain ⟨ref, member, same⟩ := present
    apply bounded.keyed ref member
    simpa [normalize] using same
  have kept := mem_add_of_checkCapacity bounded env positive value
  have origin := mem_add hash64 ht env positive value
  rw [checkCapacity_eq] at kept origin
  cases chosen : evicted env ht with
  | none =>
    simp only [chosen] at kept
    constructor
    · intro _ ref impossible
      cases impossible
    · intro _ ref member _
      exact ⟨ref, kept ref member⟩
  | some victim =>
    have listed := evicted_mem chosen
    simp only [chosen] at kept origin
    constructor
    · intro keeps ref same
      cases same
      by_contra other
      obtain ⟨still, member, same⟩ := keeps victim listed other
      rcases origin still member with left | new
      · -- the entry that holds the key of the victim is the victim
        obtain ⟨apart, live⟩ := (mem_entryFree bounded.formed victim still).mp left
        apply apart
        apply bounded.formed.distinct still live victim listed
        rw [← same, (kept still left).2]
        rfl
      · exact other (same.symm.trans new)
    · intro own ref member other
      have apart : ref ≠ victim := by
        rintro rfl
        exact other (own ref rfl)
      exact ⟨ref, kept ref ((mem_entryFree bounded.formed victim ref).mpr ⟨apart, member⟩)⟩

/-- In every state of a table the lists and counters are consistent and the
capacity is kept.  The addition of a key that is present removes no other key
exactly when the entry given up for it, if any, is the one of that key. -/
theorem consistent_within_capacity (hash64 : List Byte → UInt64) (cacheTtl maxEntries : Int)
    (evictMode : EvictMode) (size : Nat) (caseSensitivity : Bool) (start ht : Table)
    (created : create cacheTtl evictMode size maxEntries caseSensitivity = some start)
    (reached : Run.Reaches (operate hash64) (fun _ _ => True) start ht) :
    Consistent hash64 ht ∧ WithinCapacity ht ∧
      ∀ env key value, Present ht key →
        (KeepsOthers ht (add hash64 env ht key value).1 key ↔
          ∀ ref, evicted env ht = some ref → ht.keyOf ref = normalize ht.caseSensitivity key) := by
  have bounded : Bounded hash64 ht := by
    apply reached.invariant (bounded_create created)
    intro current next operation bounded _ taken
    exact bounded.operate taken
  refine ⟨consistent_of_wellFormed bounded.formed, bounded.within, ?_⟩
  intro env key value present
  exact add_keepsOthers_iff bounded env present value

def twoPlaces : Table :=
  { evictMode := .older, maxEntries := 2, totalCount := 0, cacheTtl := 0,
    caseSensitivity := true, size := 1, entries := [],
    table := fun _ => { count := 0, chains := [] },
    heap := fun _ =>
      { created := 0, hits := 0, hash := 0, key := [],
        value := { val := 0, copy := none }, table := 0 },
    next := 0 }

def addOne (byte : Byte) : Operation :=
  .add { time := 0, random := 0 } [byte] { val := 1, copy := none }

/-- The full cache, with the keys `a` and `b`. -/
def bothPlaces : Table :=
  ((operate (fun _ => 0) twoPlaces (addOne 97)).bind fun ht =>
    operate (fun _ => 0) ht (addOne 98)).getD twoPlaces

theorem consistent_within_capacity_full :
    create 0 .older 1 2 true = some twoPlaces ∧
      Run.Reaches (operate fun _ => 0) (fun _ _ => True) twoPlaces bothPlaces ∧
      Consistent (fun _ => 0) bothPlaces ∧ bothPlaces.totalCount = 2 ∧
      KeepsOthers bothPlaces
        (add (fun _ => 0) { time := 0, random := 0 } bothPlaces [97]
          { val := 1, copy := none }).1 [97] := by
  have reached : Run.Reaches (operate fun _ => 0) (fun _ _ => True) twoPlaces
      bothPlaces := by
    apply Run.Reaches.of_runGuarded .refl (show Run.runGuarded (operate fun _ => 0)
      (fun _ _ => True) twoPlaces [addOne 97, addOne 98] = some bothPlaces from rfl)
  have all := consistent_within_capacity (fun _ => 0) 0 2 .older 1 true
    twoPlaces bothPlaces rfl reached
  refine ⟨rfl, reached, all.1, rfl, ?_⟩
  refine (all.2.2 { time := 0, random := 0 } [97] { val := 1, copy := none }
    ⟨0, by decide, rfl⟩).mpr ?_
  intro ref chosen
  cases chosen
  rfl

/-- Adding `b` again to the full cache drops `a`. -/
theorem add_present_drops_oldest :
    create 0 .older 1 2 true = some twoPlaces ∧
      Run.run (operate fun _ => 0) twoPlaces [addOne 97, addOne 98] = some bothPlaces ∧
      Present bothPlaces [98] ∧
      ¬KeepsOthers bothPlaces
        (add (fun _ => 0) { time := 0, random := 0 } bothPlaces [98]
          { val := 1, copy := none }).1 [98] := by
  refine ⟨rfl, rfl, ⟨1, by decide, rfl⟩, ?_⟩
  intro keeps
  obtain ⟨kept, member, same⟩ := keeps 0 (by decide) (by decide)
  have only : kept = 1 := by
    apply mem_singleton.mp
    exact member
  subst kept
  exact absurd same (by decide)

end FluentBit.HashTable
