import FluentBit.Lib.CString

/-!
# Chunks of bytes in vector registers

The operations of `flb_simd.h` for every way the library is built.  With vector
instructions a chunk has sixteen lanes.  Without them it is an integer, and
`flb_vector8_load` clears it instead of reading the memory.
-/

namespace FluentBit.Simd

/-- How `flb_vector8` is built: `none` is a platform without vector
instructions, `disabled` a library without `FLB_HAVE_SIMD`. -/
inductive Build where
  | sse2
  | neon
  | rvv
  | none
  | disabled
  deriving DecidableEq

def Build.instLen : Build → Nat
  | .sse2 => 16
  | .neon => 16
  | .rvv => 16
  | .none => 8
  | .disabled => 1

theorem Build.instLen_pos (build : Build) : 0 < build.instLen := by
  cases build <;> decide

section

def largest (lanes : List Byte) : Nat := lanes.foldr (fun lane largest => max lane.toNat largest) 0

/-- `flb_vector8_is_highbit_set`, which differs by build: a mask of the high
bits is not zero, the largest lane is above 0x7F, the largest lane is not
zero. -/
def isHighbitSet : Build → List Byte → Bool
  | .sse2, lanes => lanes.any fun lane => decide (0x80 ≤ lane)
  | .neon, lanes => decide (0x7F < largest lanes)
  | _, lanes => decide (largest lanes ≠ 0)

/-- `flb_vector8_eq` with a broadcast byte. -/
def eqLanes (lanes : List Byte) (c : Byte) : List Byte :=
  lanes.map fun lane => if lane = c then 0xFF else 0

/-- `flb_vector8_ssub` with a broadcast byte. -/
def ssubLanes (lanes : List Byte) (c : Byte) : List Byte :=
  lanes.map fun lane => if c ≤ lane then lane - c else 0

variable (build : Build)

/-- `flb_vector8_has`. -/
def hasLane (lanes : List Byte) (c : Byte) : Bool := isHighbitSet build (eqLanes lanes c)

/-- `flb_vector8_has_le`: saturation makes the lanes zero. -/
def hasLeLane (lanes : List Byte) (c : Byte) : Bool := hasLane build (ssubLanes lanes c) 0

end

section
variable {bits : Nat}

def broadcast (c : Byte) : BitVec bits := BitVec.ofNat bits (0x0101010101010101 * c.toNat)

/-- `flb_vector8_has_le`.  An integer of one byte is not negative. -/
def hasLeWord (v : BitVec bits) (c : Byte) : Bool :=
  if (bits < 64 ∨ v.msb = false) ∧ c < 0x80 then
    decide ((v - broadcast (c + 1)) &&& ~~~v &&& broadcast 0x80 ≠ 0)
  else
    (List.range (bits / 8)).any fun byte =>
      decide ((v.toNat >>> (8 * byte)) % 256 ≤ c.toNat)

/-- `flb_vector8_has`. -/
def hasWord (v : BitVec bits) (c : Byte) : Bool := hasLeWord (v ^^^ broadcast c) 0

def isHighbitSetWord (v : BitVec bits) : Bool :=
  decide (v &&& broadcast 0x80 ≠ 0)

end

/-- The test of the vector loops of the string writers, on the memory at the
address that is loaded. -/
def special (build : Build) (memory : List Byte) : Bool :=
  match build with
  | .none =>
    let v : BitVec 64 := 0
    hasLeWord v 0x1F || hasWord v 34 || hasWord v 92 || isHighbitSetWord v
  | .disabled =>
    let v : BitVec 8 := 0
    hasLeWord v 0x1F || hasWord v 34 || hasWord v 92 || isHighbitSetWord v
  | build =>
    hasLeLane build memory 0x1F || hasLane build memory 34 ||
      hasLane build memory 92 || isHighbitSet build memory

/-- A byte the loops look for nothing in: printable ASCII other than the quote
and the backslash, and 0x7F. -/
structure Ordinary (byte : Byte) : Prop where
  printable : 0x20 ≤ byte
  ascii : byte < 0x80
  notQuote : byte ≠ 34
  notBackslash : byte ≠ 92

theorem special_none (memory : List Byte) : special .none memory = true :=
  rfl

theorem special_disabled (memory : List Byte) : special .disabled memory = true :=
  rfl

variable {lanes : List Byte} {lane : Byte} {build : Build}

theorem le_largest (member : lane ∈ lanes) : lane.toNat ≤ largest lanes := by
  induction lanes with
  | nil => cases member
  | cons first lanes ih =>
    rcases List.mem_cons.mp member with rfl | later
    · exact Nat.le_max_left _ _
    · exact Nat.le_trans (ih later) (Nat.le_max_right _ _)

theorem isHighbitSet_of_mem (member : lane ∈ lanes) (high : 0x80 ≤ lane) :
    isHighbitSet build lanes = true := by
  have large : 128 ≤ largest lanes :=
    Nat.le_trans (UInt8.le_iff_toNat_le.mp high) (le_largest member)
  have notZero : largest lanes ≠ 0 := by omega
  cases build with
  | sse2 => exact List.any_eq_true.mpr ⟨lane, member, decide_eq_true high⟩
  | neon => exact decide_eq_true large
  | rvv | none | disabled => exact decide_eq_true notZero

theorem hasLane_of_mem {c : Byte} (member : c ∈ lanes) : hasLane build lanes c = true := by
  have found : (0xFF : Byte) ∈ eqLanes lanes c := List.mem_map.mpr ⟨c, member, if_pos rfl⟩
  exact isHighbitSet_of_mem found (by decide)

theorem hasLeLane_of_mem {c : Byte} (member : lane ∈ lanes) (small : lane ≤ c) :
    hasLeLane build lanes c = true := by
  apply hasLane_of_mem
  refine List.mem_map.mpr ⟨lane, member, ?_⟩
  split
  · next large =>
    rw [UInt8.le_antisymm small large]
    exact UInt8.sub_self c
  · rfl

theorem ordinary_of_not_special {memory : List Byte} (plain : special build memory = false)
    {byte : Byte} (member : byte ∈ memory) : Ordinary byte := by
  have lanes : (hasLeLane build memory 0x1F || hasLane build memory 34 ||
      hasLane build memory 92 || isHighbitSet build memory) = false := by
    cases build with
    | sse2 | neon | rvv => exact plain
    | none => exact absurd (special_none memory) (by rw [plain]; decide)
    | disabled => exact absurd (special_disabled memory) (by rw [plain]; decide)
  simp only [Bool.or_eq_false_iff] at lanes
  obtain ⟨⟨⟨noControl, noQuote⟩, noBackslash⟩, noHigh⟩ := lanes
  refine ⟨?_, ?_, ?_, ?_⟩
  · by_contra small
    have control : byte ≤ 0x1F := by
      change ¬ 32 ≤ byte.toNat at small
      change byte.toNat ≤ 31
      omega
    rw [hasLeLane_of_mem member control] at noControl
    cases noControl
  · by_contra large
    rw [isHighbitSet_of_mem member (UInt8.not_lt.mp large)] at noHigh
    cases noHigh
  · rintro rfl
    rw [hasLane_of_mem member] at noQuote
    cases noQuote
  · rintro rfl
    rw [hasLane_of_mem member] at noBackslash
    cases noBackslash

end FluentBit.Simd
