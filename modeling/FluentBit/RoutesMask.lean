import Mathlib.Data.BitVec
import Mathlib.Tactic

/-!
# Routes masks

An input chunk records the outputs it is routed to as a bit field over the
output ids, kept in an array of 64 bit elements.  The array length, the number
of usable slots, the bit positions and the number of bytes looked at by the
emptiness test are computed by separate formulas.
-/

namespace FluentBit.RoutesMask

open List BitVec

abbrev Element := BitVec 64

def elementBits : Nat := 64

/-- `flb_routes_empty_mask_create`: a zeroed array. -/
def emptyMaskCreate (routeMaskSize : Nat) : List Element := List.replicate routeMaskSize 0#64

/-- The fields of `flb_config` that describe routes masks.  They are only
written by `flb_routes_mask_set_size`. -/
structure Config where
  routeMaskSize : Nat
  routeMaskSlots : Nat
  routeEmptyMask : List Element
  slots_eq : routeMaskSlots = routeMaskSize * elementBits
  empty_eq : routeEmptyMask = emptyMaskCreate routeMaskSize

def setSize (maskSize : Nat) : Config :=
  let maskSize := if maskSize < 1 then 1 else maskSize
  let maskSize := maskSize / elementBits + maskSize % elementBits
  { routeMaskSize := maskSize
    routeMaskSlots := maskSize * elementBits
    routeEmptyMask := emptyMaskCreate maskSize
    slots_eq := rfl
    empty_eq := rfl }

/-- A routes mask: `route_mask_size` elements, as every chunk allocates. -/
structure Mask (config : Config) where
  elements : List Element
  length_eq : elements.length = config.routeMaskSize

variable {config : Config}

def zeroed (config : Config) : Mask config :=
  { elements := emptyMaskCreate config.routeMaskSize, length_eq := by simp [emptyMaskCreate] }

/-- The one-bit element `1ULL << (value % FLB_ROUTES_MASK_ELEMENT_BITS)`. -/
def bitOf (value : Nat) : Element := 1#64 <<< (value % elementBits)

/-- Apply `update` to element `index` of the array. -/
def Mask.modify (mask : Mask config) (index : Nat) (update : Element → Element) : Mask config :=
  { elements := mask.elements.modify index update
    length_eq := by rw [List.length_modify, mask.length_eq] }

def setBit (mask : Mask config) (value : Int) : Mask config :=
  if value < 0 ∨ value ≥ config.routeMaskSlots then mask
  else
    mask.modify (value.toNat / elementBits) (· ||| bitOf value.toNat)

def clearBit (mask : Mask config) (value : Int) : Mask config :=
  if value < 0 ∨ value ≥ config.routeMaskSlots then mask
  else
    mask.modify (value.toNat / elementBits) (· &&& ~~~bitOf value.toNat)

def getBit (mask : Mask config) (value : Int) : Bool :=
  if value < 0 ∨ value ≥ config.routeMaskSlots then false
  else
    mask.elements.getD (value.toNat / elementBits) 0#64 &&& bitOf value.toNat != 0#64

/-- Byte `index` of the memory image of an array, in little-endian order. -/
def elementByte (elements : List Element) (index : Nat) : BitVec 8 :=
  (elements.getD (index / 8) 0#64).extractLsb' (8 * (index % 8)) 8

/-- `memcmp(left, right, count) == 0` on the memory images of two arrays. -/
def memcmpEq (left right : List Element) (count : Nat) : Bool :=
  (List.range count).all fun index =>
    elementByte left index == elementByte right index

/-- `flb_routes_mask_is_empty`.  The third argument of `memcmp` is a number of
bytes; the source passes the number of elements. -/
def isEmpty (mask : Mask config) : Bool :=
  memcmpEq mask.elements config.routeEmptyMask config.routeMaskSize

def testBit (mask : Mask config) (value : Nat) : Bool :=
  (mask.elements.getD (value / elementBits) 0#64).getLsbD (value % elementBits)

theorem and_twoPow_ne_zero {width id : Nat} (small : id < width) (word : BitVec width) :
    (word &&& BitVec.twoPow width id != 0) = word.getLsbD id := by
  rw [and_twoPow]
  cases word.getLsbD id with
  | false => simp
  | true =>
    have bit : (twoPow width id).getLsbD id = true := by simp [small]
    rw [if_pos rfl, bne_iff_ne]
    intro zero
    simp [zero] at bit

theorem getLsbD_bitOf (value position : Nat) :
    (bitOf value).getLsbD position =
      decide (position = value % elementBits) := by
  have bound : value % elementBits < 64 := Nat.mod_lt _ (by decide)
  rw [bitOf, ← twoPow_eq, getLsbD_twoPow]
  simp [bound, eq_comm]

variable {value : Nat}

private theorem accepts (inside : value < config.routeMaskSlots) :
    ¬((value : Int) < 0 ∨ (value : Int) ≥ config.routeMaskSlots) := by
  omega

theorem getBit_eq_testBit (inside : value < config.routeMaskSlots) (mask : Mask config) :
    getBit mask value = testBit mask value := by
  simp only [getBit, accepts inside, if_false, Int.toNat_natCast, bitOf, ← twoPow_eq]
  exact and_twoPow_ne_zero (Nat.mod_lt _ (by decide)) _

theorem index_lt_length (inside : value < config.routeMaskSlots) (mask : Mask config) :
    value / elementBits < mask.elements.length := by
  apply Nat.div_lt_of_lt_mul
  rw [mask.length_eq, Nat.mul_comm, ← config.slots_eq]
  exact inside

private theorem getD_modify {elements : List Element} {index : Nat}
    (inside : index < elements.length) (position : Nat) (update : Element → Element) :
    (elements.modify index update).getD position 0#64 =
      if index = position then update (elements.getD position 0#64)
      else elements.getD position 0#64 := by
  by_cases same : index = position
  · subst position
    simp [inside]
  · simp [same]

/-- An update of one bit of an element is one of that bit of the mask. -/
private theorem testBit_modify (inside : value < config.routeMaskSlots) (mask : Mask config)
    (other : Nat) {change : Element → Element} {bit : Bool → Bool → Bool}
    (idle : ∀ old, bit false old = old)
    (bits : ∀ element, (change element).getLsbD (other % elementBits) =
      bit (decide (other % elementBits = value % elementBits))
        (element.getLsbD (other % elementBits))) :
    testBit (mask.modify (value / elementBits) change) other =
      bit (decide (other = value)) (testBit mask other) := by
  simp only [testBit, Mask.modify]
  rw [getD_modify (index_lt_length inside mask)]
  by_cases element : value / elementBits = other / elementBits
  · have same : other % elementBits = value % elementBits ↔ other = value := by
      unfold elementBits at *
      omega
    rw [if_pos element, bits, decide_eq_decide.mpr same]
  · have different : other ≠ value := by
      rintro rfl
      exact element rfl
    simp [element, different, idle]

theorem testBit_setBit (inside : value < config.routeMaskSlots) (mask : Mask config) (other : Nat) :
    testBit (setBit mask value) other = (decide (other = value) || testBit mask other) := by
  simp only [setBit, accepts inside, if_false, Int.toNat_natCast]
  apply testBit_modify inside mask other Bool.false_or
  simp [getLsbD_bitOf, Bool.or_comm]

theorem testBit_clearBit (inside : value < config.routeMaskSlots)
    (mask : Mask config) (other : Nat) :
    testBit (clearBit mask value) other = (!decide (other = value) && testBit mask other) := by
  have bound : other % elementBits < 64 := Nat.mod_lt _ (by decide)
  simp only [clearBit, accepts inside, if_false, Int.toNat_natCast]
  apply @testBit_modify _ _ inside mask other _ (fun same old => !same && old) Bool.true_and
  intro element
  rw [getLsbD_and, getLsbD_not, getLsbD_bitOf, decide_eq_true bound, Bool.true_and,
    Bool.and_comm]

theorem getBit_eq (mask : Mask config) (value : Nat) :
    getBit mask value = (decide (value < config.routeMaskSlots) && testBit mask value) := by
  by_cases inside : value < config.routeMaskSlots
  · simp [inside, getBit_eq_testBit inside]
  · have outside : (value : Int) ≥ config.routeMaskSlots := by omega
    simp [getBit, inside, outside]

theorem getBit_clearBit (mask : Mask config) (value other : Nat) :
    getBit (clearBit mask value) other = (!decide (other = value) && getBit mask other) := by
  by_cases inside : value < config.routeMaskSlots
  · rw [getBit_eq, getBit_eq, testBit_clearBit inside]
    cases decide (other < config.routeMaskSlots) <;> simp
  · have outside : (value : Int) ≥ config.routeMaskSlots := by omega
    have unchanged : clearBit mask value = mask := if_pos (.inr outside)
    rw [unchanged]
    by_cases same : other = value
    · simp [same, getBit_eq, inside]
    · simp [same]

@[simp] theorem testBit_zeroed (value : Nat) : testBit (zeroed config) value = false := by
  simp only [testBit, zeroed, emptyMaskCreate, getD_eq_getElem?_getD, List.getElem?_replicate]
  split <;> simp

theorem elementByte_emptyMask (size index : Nat) :
    elementByte (emptyMaskCreate size) index = 0#8 := by
  simp only [elementByte, emptyMaskCreate, getD_eq_getElem?_getD, List.getElem?_replicate]
  split <;> simp

theorem elementByte_eq_zero_iff (mask : Mask config) (index : Nat) :
    elementByte mask.elements index = 0#8 ↔
      ∀ offset, offset < 8 → testBit mask (8 * index + offset) = false := by
  rw [zero_iff_eq_false]
  simp only [elementByte, getLsbD_extractLsb', testBit, elementBits]
  constructor
  · intro zero offset inside
    have element : (8 * index + offset) / 64 = index / 8 := by omega
    have position : (8 * index + offset) % 64 = 8 * (index % 8) + offset := by omega
    rw [element, position]
    simpa [inside] using zero offset
  · intro clear offset
    by_cases inside : offset < 8
    · have element : (8 * index + offset) / 64 = index / 8 := by omega
      have position : (8 * index + offset) % 64 = 8 * (index % 8) + offset := by omega
      have bit := clear offset inside
      rw [element, position] at bit
      rw [bit, Bool.and_false]
    · simp [inside]

/-- The test looks at one byte per element: only ids below eight times the
number of elements are seen. -/
theorem isEmpty_iff (mask : Mask config) :
    isEmpty mask = true ↔
      ∀ value, value < 8 * config.routeMaskSize → testBit mask value = false := by
  simp only [isEmpty, memcmpEq, config.empty_eq, all_eq_true, mem_range, beq_iff_eq,
    elementByte_emptyMask, elementByte_eq_zero_iff]
  constructor
  · intro zero value inside
    have bit := zero (value / 8) (by omega) (value % 8) (by omega)
    rwa [Nat.div_add_mod] at bit
  · intro clear index inside offset small
    exact clear _ (by omega)

/-- A call of `flb_routes_mask_set_bit` or `flb_routes_mask_clear_bit` with an
id in `[0, outputs)`. -/
inductive Call (outputs : Nat) where
  | set (id : Fin outputs)
  | clear (id : Fin outputs)

variable {outputs : Nat}

def Call.id : Call outputs → Fin outputs
  | .set id => id
  | .clear id => id

def Call.apply (mask : Mask config) : Call outputs → Mask config
  | .set id => setBit mask (id : Nat)
  | .clear id => clearBit mask (id : Nat)

def run (calls : List (Call outputs)) : Mask (setSize outputs) :=
  calls.foldl Call.apply (zeroed (setSize outputs))

def lastIsSet (calls : List (Call outputs)) (id : Nat) : Bool :=
  calls.foldl (fun current call =>
    match call with
    | .set other => if (other : Nat) = id then true else current
    | .clear other => if (other : Nat) = id then false else current) false

theorem lt_slots_of_lt {id : Nat} (inside : id < outputs) :
    id < (setSize outputs).routeMaskSlots := by
  simp only [setSize, elementBits]
  split <;> omega

theorem testBit_apply (mask : Mask (setSize outputs)) (call : Call outputs) (id : Nat) :
    testBit (call.apply mask) id =
      match call with
      | .set other => if (other : Nat) = id then true else testBit mask id
      | .clear other => if (other : Nat) = id then false else testBit mask id := by
  cases call with
  | set other =>
    have bit := testBit_setBit (lt_slots_of_lt other.isLt) mask id
    by_cases same : (other : Nat) = id
    · simpa [Call.apply, same] using bit
    · have different : id ≠ (other : Nat) := fun equality => same equality.symm
      simpa [Call.apply, same, different] using bit
  | clear other =>
    have bit := testBit_clearBit (lt_slots_of_lt other.isLt) mask id
    by_cases same : (other : Nat) = id
    · simpa [Call.apply, same] using bit
    · have different : id ≠ (other : Nat) := fun equality => same equality.symm
      simpa [Call.apply, same, different] using bit

theorem testBit_run (calls : List (Call outputs)) (id : Nat) :
    testBit (run calls) id = lastIsSet calls id := by
  induction calls using List.reverseRecOn with
  | nil => simp [run, lastIsSet]
  | append_singleton calls call ih =>
    have step := testBit_apply (run calls) call id
    simp only [run, lastIsSet, foldl_append, foldl_cons, foldl_nil] at step ih ⊢
    rw [step, ih]

structure Faithful (outputs : Nat) (calls : List (Call outputs)) : Prop where
  reads : ∀ id : Fin outputs, getBit (run calls) (id : Nat) = lastIsSet calls id
  frame : ∀ (call : Call outputs) (id : Fin outputs), id ≠ call.id →
    getBit (call.apply (run calls)) (id : Nat) = getBit (run calls) (id : Nat)
  empty : isEmpty (run calls) = true ↔ ∀ id : Fin outputs, lastIsSet calls id = false

theorem getBit_apply_of_ne (mask : Mask (setSize outputs)) (call : Call outputs) (id : Fin outputs)
    (different : id ≠ call.id) : getBit (call.apply mask) (id : Nat) = getBit mask (id : Nat) := by
  have inside := lt_slots_of_lt id.isLt
  rw [getBit_eq_testBit inside, getBit_eq_testBit inside, testBit_apply]
  cases call with
  | set other | clear other =>
    have away : (other : Nat) ≠ id := fun same =>
      different (Fin.ext same.symm)
    simp [away]

theorem lt_of_lastIsSet {calls : List (Call outputs)} {id : Nat} (set : lastIsSet calls id = true) :
    id < outputs := by
  induction calls using List.reverseRecOn with
  | nil => simp [lastIsSet] at set
  | append_singleton calls call ih =>
    simp only [lastIsSet, foldl_append, foldl_cons, foldl_nil] at set ih
    cases call with
    | set other =>
      by_cases same : (other : Nat) = id
      · exact same ▸ other.isLt
      · exact ih (by simpa [same] using set)
    | clear other =>
      by_cases same : (other : Nat) = id
      · simp [same] at set
      · exact ih (by simpa [same] using set)

theorem routeMaskSize_setSize (positive : 0 < outputs) :
    (setSize outputs).routeMaskSize = outputs / elementBits + outputs % elementBits := by
  have large : ¬outputs < 1 := by omega
  simp [setSize, large]

/-- The first ids of the mask, those in the bytes the emptiness test reads. -/
def Seen (outputs id : Nat) : Prop := id < 8 * (outputs / elementBits + outputs % elementBits)

/-- After a history only the emptiness test can be wrong, and it is wrong
exactly when ids are set and all of them lie beyond the bytes it reads. -/
theorem faithful_iff_seen (calls : List (Call outputs)) :
    Faithful outputs calls ↔
      ∀ id, lastIsSet calls id = true →
        ∃ other, Seen outputs other ∧ lastIsSet calls other = true := by
  constructor
  · intro faithful id set
    have inside : id < outputs := lt_of_lastIsSet set
    have positive : 0 < outputs := by omega
    have notEmpty : ¬isEmpty (run calls) = true := by
      intro empty
      have clear := faithful.empty.mp empty ⟨id, inside⟩
      simp [set] at clear
    rw [isEmpty_iff] at notEmpty
    push Not at notEmpty
    obtain ⟨other, seen, bit⟩ := notEmpty
    rw [routeMaskSize_setSize positive] at seen
    refine ⟨other, seen, ?_⟩
    rw [testBit_run] at bit
    simpa using bit
  · intro visible
    refine ⟨fun id => ?_, getBit_apply_of_ne (run calls), ?_⟩
    · rw [getBit_eq_testBit (lt_slots_of_lt id.isLt), testBit_run]
    rw [isEmpty_iff]
    simp only [testBit_run]
    constructor
    · intro clear id
      by_contra set
      rw [Bool.not_eq_false] at set
      obtain ⟨other, seen, otherSet⟩ := visible id set
      have positive : 0 < outputs := Nat.zero_lt_of_lt id.isLt
      rw [Seen, ← routeMaskSize_setSize positive] at seen
      simp [clear other seen] at otherSet
    · intro clear id _
      by_contra set
      rw [Bool.not_eq_false] at set
      have off := clear ⟨id, lt_of_lastIsSet set⟩
      simp [set] at off

/-- The mask is a faithful set of output ids for every history when the
number of outputs leaves a large enough remainder, and otherwise exactly for
the histories that leave no id set or some id set among those seen. -/
theorem faithful_iff (outputs : Nat) (calls : List (Call outputs)) :
    Faithful outputs calls ↔
      8 * (outputs / elementBits) ≤ outputs % elementBits ∨
        (∀ id, lastIsSet calls id = false) ∨ ∃ id, Seen outputs id ∧ lastIsSet calls id = true := by
  rw [faithful_iff_seen]
  constructor
  · intro visible
    by_cases clear : ∀ id, lastIsSet calls id = false
    · exact .inr (.inl clear)
    · push Not at clear
      obtain ⟨id, set⟩ := clear
      exact .inr (.inr (visible id (by simpa using set)))
  · rintro (enough | clear | visible) id set
    · have inside := lt_of_lastIsSet set
      refine ⟨id, ?_, set⟩
      unfold Seen elementBits at *
      omega
    · simp [clear id] at set
    · exact visible

/-- With 64 outputs a chunk routed to output 8 alone is taken for route-less. -/
theorem not_faithful_sixtyFour :
    isEmpty (run [Call.set (8 : Fin 64)]) = true ∧
      getBit (run [Call.set (8 : Fin 64)]) 8 = true ∧ ¬Faithful 64 [Call.set (8 : Fin 64)] := by
  have empty : isEmpty (run [Call.set (8 : Fin 64)]) = true := by decide
  refine ⟨empty, by decide, ?_⟩
  intro faithful
  have clear := faithful.empty.mp empty 8
  exact absurd clear (by decide)

end FluentBit.RoutesMask
