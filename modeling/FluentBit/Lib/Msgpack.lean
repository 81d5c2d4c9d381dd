import FluentBit.Lib.CString
import Mathlib.Data.BitVec
import Mathlib.Tactic

/-!
# MessagePack

The reader goes through the bytes token by token and keeps the open containers
on a stack, so that every token takes at least one byte.  It tells apart a
whole object, an object that goes on after the end of the bytes, and bytes that
begin no object.  Bytes encode an object when the reader takes exactly them for
it, whatever follows.  Every object is written with the shortest header that
holds its size or its number, which gives an encoding when sizes fit into 32
bits.  The nesting of containers is not bounded.
-/

namespace FluentBit.Msgpack

open List

/-- A MessagePack value.  Numbers are kept in 64 bits, floats as their bits. -/
inductive Object where
  | nil
  | boolean (value : Bool)
  | positiveInteger (u64 : BitVec 64)
  | negativeInteger (i64 : BitVec 64)
  | float32 (bits : BitVec 32)
  | float64 (bits : BitVec 64)
  | str (data : List Byte)
  | bin (data : List Byte)
  | ext (type : Byte) (data : List Byte)
  | array (items : List Object)
  | map (pairs : List (Object × Object))

/-- The outcome of reading: the bytes not read yet come with it. -/
inductive Unpacked (α : Type) where
  | done (value : α) (rest : List Byte)
  | more (rest : List Byte)
  | malformed (rest : List Byte)

/-- A whole value, or the header of a container. -/
inductive Token where
  | value (object : Object)
  | array (size : Nat)
  | map (size : Nat)

/-- The number that bytes stand for, most significant byte first. -/
def bigEndian (bytes : List Byte) : Nat :=
  bytes.foldl (fun number byte => number * 256 + byte.toNat) 0

def toBigEndian : Nat → Nat → List Byte
  | 0, _ => []
  | width + 1, number => toBigEndian width (number / 256) ++ [UInt8.ofNat number]

@[simp]
theorem length_toBigEndian (width number : Nat) : (toBigEndian width number).length = width := by
  induction width generalizing number with
  | zero => rfl
  | succ width ih => simp [toBigEndian, ih]

theorem bigEndian_toBigEndian (width number : Nat) :
    bigEndian (toBigEndian width number) = number % 256 ^ width := by
  induction width generalizing number with
  | zero => simp [toBigEndian, bigEndian, Nat.mod_one]
  | succ width ih =>
    have high := ih (number / 256)
    have power : 256 ^ (width + 1) = 256 * 256 ^ width := by rw [Nat.pow_succ, Nat.mul_comm]
    rw [bigEndian] at high
    rw [toBigEndian, bigEndian, foldl_append, high, foldl_cons,
      foldl_nil, UInt8.toNat_ofNat', power, Nat.mod_mul]
    omega

def signed (width : Nat) (bits : BitVec width) : Object :=
  if bits.msb then .negativeInteger (bits.signExtend 64)
  else .positiveInteger (bits.signExtend 64)

/-- Read a number of `width` bytes and go on with it. -/
def readNumber {α : Type} (width : Nat) (next : Nat → List Byte → Unpacked α) (bytes : List Byte) :
    Unpacked α :=
  if bytes.length < width then .more bytes
  else next (bigEndian (bytes.take width)) (bytes.drop width)

/-- Read the `length` bytes of a value. -/
def readBody (build : List Byte → Object) (length : Nat) (bytes : List Byte) : Unpacked Token :=
  if bytes.length < length then .more bytes
  else .done (.value (build (bytes.take length))) (bytes.drop length)

/-- The body of an extension starts with its type. -/
def extension : List Byte → Object
  | [] => .nil
  | type :: data => .ext type data

def readToken (width : Nat) (build : Nat → Token) : List Byte → Unpacked Token :=
  readNumber width fun number rest => .done (build number) rest

/-- What follows a first byte between `0xc0` and `0xdf`. -/
def unpackVariable (tag : Byte) : List Byte → Unpacked Token :=
  match tag with
  | 0xc0 => .done (.value .nil)
  | 0xc2 => .done (.value (.boolean false))
  | 0xc3 => .done (.value (.boolean true))
  | 0xc4 => readNumber 1 (readBody .bin)
  | 0xc5 => readNumber 2 (readBody .bin)
  | 0xc6 => readNumber 4 (readBody .bin)
  | 0xc7 => readNumber 1 fun size => readBody extension (size + 1)
  | 0xc8 => readNumber 2 fun size => readBody extension (size + 1)
  | 0xc9 => readNumber 4 fun size => readBody extension (size + 1)
  | 0xca => readToken 4 fun bits => .value (.float32 (.ofNat 32 bits))
  | 0xcb => readToken 8 fun bits => .value (.float64 (.ofNat 64 bits))
  | 0xcc => readToken 1 fun bits => .value (.positiveInteger (.ofNat 64 bits))
  | 0xcd => readToken 2 fun bits => .value (.positiveInteger (.ofNat 64 bits))
  | 0xce => readToken 4 fun bits => .value (.positiveInteger (.ofNat 64 bits))
  | 0xcf => readToken 8 fun bits => .value (.positiveInteger (.ofNat 64 bits))
  | 0xd0 => readToken 1 fun bits => .value (signed 8 (.ofNat 8 bits))
  | 0xd1 => readToken 2 fun bits => .value (signed 16 (.ofNat 16 bits))
  | 0xd2 => readToken 4 fun bits => .value (signed 32 (.ofNat 32 bits))
  | 0xd3 => readToken 8 fun bits => .value (signed 64 (.ofNat 64 bits))
  | 0xd4 => readBody extension 2
  | 0xd5 => readBody extension 3
  | 0xd6 => readBody extension 5
  | 0xd7 => readBody extension 9
  | 0xd8 => readBody extension 17
  | 0xd9 => readNumber 1 (readBody .str)
  | 0xda => readNumber 2 (readBody .str)
  | 0xdb => readNumber 4 (readBody .str)
  | 0xdc => readToken 2 .array
  | 0xdd => readToken 4 .array
  | 0xde => readToken 2 .map
  | 0xdf => readToken 4 .map
  | _ => fun bytes => .malformed (tag :: bytes)

/-- What follows the first byte of a token. -/
def unpackTrail (tag : Byte) : List Byte → Unpacked Token :=
  if tag.toNat < 0x80 then
    .done (.value (.positiveInteger (.ofNat 64 tag.toNat)))
  else if tag.toNat < 0x90 then .done (.map (tag.toNat - 0x80))
  else if tag.toNat < 0xa0 then .done (.array (tag.toNat - 0x90))
  else if tag.toNat < 0xc0 then readBody .str (tag.toNat - 0xa0)
  else if tag.toNat < 0xe0 then unpackVariable tag
  else .done (.value (signed 8 (.ofNat 8 tag.toNat)))

def unpackToken : List Byte → Unpacked Token
  | [] => .more []
  | tag :: bytes => unpackTrail tag bytes

/-- A reader that takes a certain number of bytes when it succeeds, and does
not look at what follows them. -/
def Exact {α : Type} (read : List Byte → Unpacked α) : Prop :=
  ∀ bytes value rest, read bytes = .done value rest →
    ∃ taken, bytes = taken ++ rest ∧ ∀ other, read (taken ++ other) = .done value other

variable {α : Type} {bytes rest : List Byte} {object : Object}

theorem Exact.done (value : α) : Exact (Unpacked.done value) := by
  intro bytes _ rest success
  cases success
  exact ⟨[], rfl, fun _ => rfl⟩

theorem Exact.malformed (place : List Byte → List Byte) :
    Exact fun bytes => (.malformed (place bytes) : Unpacked α) := by
  intro bytes value rest success
  cases success

theorem Exact.readNumber {next : Nat → List Byte → Unpacked α} (width : Nat)
    (exact : ∀ number, Exact (next number)) : Exact (readNumber width next) := by
  intro bytes value rest success
  rw [Msgpack.readNumber] at success
  split at success
  · cases success
  · next enough =>
    obtain ⟨taken, dropped, stable⟩ := exact _ _ _ _ success
    refine ⟨bytes.take width ++ taken, ?_, ?_⟩
    · rw [append_assoc, ← dropped, take_append_drop]
    · intro other
      have length : (bytes.take width).length = width := by
        rw [length_take]
        omega
      rw [append_assoc, Msgpack.readNumber, if_neg (by rw [length_append, length]; omega),
        take_append_of_le_length (le_of_eq length.symm), take_of_length_le (le_of_eq length),
        drop_append_of_le_length (le_of_eq length.symm), drop_of_length_le (le_of_eq length),
        nil_append]
      exact stable other

theorem Exact.readBody (build : List Byte → Object) (length : Nat) :
    Exact (readBody build length) := by
  intro bytes value rest success
  rw [Msgpack.readBody] at success
  split at success
  · cases success
  · next enough =>
    cases success
    refine ⟨bytes.take length, (take_append_drop length bytes).symm, ?_⟩
    intro other
    have taken : (bytes.take length).length = length := by
      rw [length_take]
      omega
    rw [Msgpack.readBody, if_neg (by rw [length_append, taken]; omega), take_append_of_le_length
      (le_of_eq taken.symm), take_of_length_le (le_of_eq taken), drop_append_of_le_length
      (le_of_eq taken.symm), drop_of_length_le (le_of_eq taken), nil_append]

theorem Exact.readToken (width : Nat) (build : Nat → Token) : Exact (readToken width build) :=
  .readNumber width fun number => .done (build number)

theorem Exact.unpackVariable (tag : Byte) : Exact (unpackVariable tag) := by
  unfold Msgpack.unpackVariable
  split
  all_goals first
    | exact .done _
    | exact .readToken _ _
    | exact .readBody _ _
    | exact .readNumber _ fun _ => .readBody _ _
    | exact .malformed _

theorem Exact.unpackTrail (tag : Byte) : Exact (unpackTrail tag) := by
  rw [Msgpack.unpackTrail]
  split
  · exact .done _
  split
  · exact .done _
  split
  · exact .done _
  split
  · exact .readBody _ _
  split
  · exact .unpackVariable tag
  · exact .done _

theorem unpackToken_done {token : Token} (success : unpackToken bytes = .done token rest) :
    ∃ taken, bytes = taken ++ rest ∧ taken ≠ [] ∧
      ∀ other, unpackToken (taken ++ other) = .done token other := by
  cases bytes with
  | nil => cases success
  | cons tag bytes =>
    obtain ⟨taken, split, stable⟩ := Exact.unpackTrail tag _ _ _ success
    refine ⟨tag :: taken, ?_, cons_ne_nil tag taken, stable⟩
    rw [split, cons_append]

theorem unpackToken_length_lt {token : Token} (success : unpackToken bytes = .done token rest) :
    rest.length < bytes.length := by
  obtain ⟨taken, split, nonempty, _⟩ := unpackToken_done success
  have positive := length_pos_iff.mpr nonempty
  rw [split, length_append]
  omega

/-- A reader that refuses some bytes refuses them whatever follows. -/
def Settled {α : Type} (read : List Byte → Unpacked α) : Prop :=
  ∀ bytes rest, read bytes = .malformed rest →
    ∀ other, ∃ left, read (bytes ++ other) = .malformed left

theorem Settled.done (value : α) : Settled (Unpacked.done value) := by
  intro bytes rest refused
  cases refused

theorem Settled.readBody (build : List Byte → Object) (length : Nat) :
    Settled (readBody build length) := by
  intro bytes rest refused
  rw [Msgpack.readBody] at refused
  split at refused
  all_goals cases refused

theorem Settled.readNumber {next : Nat → List Byte → Unpacked α} (width : Nat)
    (settled : ∀ number, Settled (next number)) : Settled (readNumber width next) := by
  intro bytes rest refused other
  rw [Msgpack.readNumber] at refused ⊢
  split at refused
  · cases refused
  · next enough =>
    have long : width ≤ bytes.length := Nat.le_of_not_lt enough
    rw [if_neg (by rw [length_append]; omega),
      take_append_of_le_length long, drop_append_of_le_length long]
    exact settled _ _ _ refused other

theorem Settled.unpackVariable (tag : Byte) : Settled (unpackVariable tag) := by
  unfold Msgpack.unpackVariable
  split
  all_goals first
    | exact .done _
    | exact .readNumber _ fun _ => .done _
    | exact .readBody _ _
    | exact .readNumber _ fun _ => .readBody _ _
    | exact fun bytes _ _ other => ⟨_, rfl⟩

theorem Settled.unpackTrail (tag : Byte) : Settled (unpackTrail tag) := by
  rw [Msgpack.unpackTrail]
  split
  · exact .done _
  split
  · exact .done _
  split
  · exact .done _
  split
  · exact .readBody _ _
  split
  · exact .unpackVariable tag
  · exact .done _

theorem Settled.unpackToken : Settled unpackToken := by
  intro bytes rest refused other
  cases bytes with
  | nil => cases refused
  | cons tag bytes => exact Settled.unpackTrail tag bytes rest refused other

/-- An open container: how many items are missing, and those read so far. -/
inductive Frame where
  | array (missing : Nat) (items : List Object)
  | mapKey (missing : Nat) (pairs : List (Object × Object))
  | mapValue (missing : Nat) (pairs : List (Object × Object)) (key : Object)

/-- Hand an object to the innermost container, and close the containers it
completes. -/
def push : Object → List Frame → Object ⊕ List Frame
  | object, [] => .inl object
  | object, .array missing items :: stack =>
    if missing ≤ 1 then push (.array (items ++ [object])) stack
    else .inr (.array (missing - 1) (items ++ [object]) :: stack)
  | object, .mapKey missing pairs :: stack => .inr (.mapValue missing pairs object :: stack)
  | object, .mapValue missing pairs key :: stack =>
    if missing ≤ 1 then push (.map (pairs ++ [(key, object)])) stack
    else .inr (.mapKey (missing - 1) (pairs ++ [(key, object)]) :: stack)

/-- A container without items is complete at once. -/
def Token.open (token : Token) (stack : List Frame) : Object ⊕ List Frame :=
  match token with
  | .value object => push object stack
  | .array 0 => push (.array []) stack
  | .array size => .inr (.array size [] :: stack)
  | .map 0 => push (.map []) stack
  | .map size => .inr (.mapKey size [] :: stack)

/-- The loop of the reader, with a bound on the number of tokens. -/
def execute : Nat → List Byte → List Frame → Unpacked Object
  | 0, bytes, _ => .more bytes
  | tokens + 1, bytes, stack =>
    match unpackToken bytes with
    | .more rest => .more rest
    | .malformed rest => .malformed rest
    | .done token rest =>
      match token.open stack with
      | .inl object => .done object rest
      | .inr stack => execute tokens rest stack

/-- The bound is never reached: every token takes a byte. -/
def resume (bytes : List Byte) (stack : List Frame) : Unpacked Object :=
  execute (bytes.length + 1) bytes stack

/-- `msgpack_unpack_next` on the bytes from the offset on. -/
def unpack (bytes : List Byte) : Unpacked Object := resume bytes []

theorem execute_eq_resume {tokens : Nat} (enough : bytes.length < tokens) (stack : List Frame) :
    execute tokens bytes stack = resume bytes stack := by
  -- The two runs read the same tokens; the bound of each is above the number
  -- of bytes left.
  suffices agree : ∀ tokens limit bytes stack, bytes.length < tokens → bytes.length < limit →
      execute tokens bytes stack = execute limit bytes stack from
    agree _ _ _ _ enough (Nat.lt_succ_self _)
  intro tokens
  induction tokens with
  | zero =>
    intro limit bytes stack enough
    exact absurd enough (Nat.not_lt_zero _)
  | succ tokens ih =>
    intro limit bytes stack enough enoughLimit
    cases limit with
    | zero => exact absurd enoughLimit (Nat.not_lt_zero _)
    | succ limit =>
      rw [execute, execute]
      cases read : unpackToken bytes with
      | more rest | malformed rest => rfl
      | done token rest =>
        have shorter := unpackToken_length_lt read
        dsimp only
        cases token.open stack with
        | inl object => rfl
        | inr stack => exact ih limit rest stack (by omega) (by omega)

/-- Go on after an object was handed over. -/
def deliver (pushed : Object ⊕ List Frame) (rest : List Byte) : Unpacked Object :=
  match pushed with
  | .inl object => .done object rest
  | .inr stack => resume rest stack

theorem resume_eq (bytes : List Byte) (stack : List Frame) :
    resume bytes stack =
      match unpackToken bytes with
      | .more rest => .more rest
      | .malformed rest => .malformed rest
      | .done token rest => deliver (token.open stack) rest := by
  rw [resume, execute]
  cases read : unpackToken bytes with
  | more rest | malformed rest => rfl
  | done token rest =>
    dsimp only
    cases token.open stack with
    | inl object => rfl
    | inr stack => exact execute_eq_resume (unpackToken_length_lt read) stack

/-- Containers under the ones that are read now wait for the whole object. -/
theorem push_append (object : Object) (inner outer : List Frame) :
    push object (inner ++ outer) =
      match push object inner with
      | .inl whole => push whole outer
      | .inr inner => .inr (inner ++ outer) := by
  induction inner generalizing object with
  | nil => rfl
  | cons frame inner ih =>
    cases frame with
    | array missing items | mapValue missing pairs key =>
      simp only [cons_append, push]
      split
      · exact ih _
      · rfl
    | mapKey missing pairs => rfl

theorem Token.open_append (token : Token) (inner outer : List Frame) :
    token.open (inner ++ outer) =
      match token.open inner with
      | .inl whole => push whole outer
      | .inr inner => .inr (inner ++ outer) := by
  unfold Token.open
  split
  · exact push_append ..
  · exact push_append ..
  · rfl
  · exact push_append ..
  · rfl

/-- What a success of the reader says about the bytes: those it took, and that
it takes them in front of anything. -/
theorem resume_done {stack : List Frame} (success : resume bytes stack = .done object rest) :
    ∃ taken, bytes = taken ++ rest ∧
      ∀ other, resume (taken ++ other) stack = .done object other := by
  induction total : bytes.length using Nat.strong_induction_on
    generalizing bytes stack with
  | _ size ih =>
    rw [resume_eq] at success
    cases read : unpackToken bytes with
    | more rest | malformed rest => simp [read] at success
    | done token left =>
      obtain ⟨taken, split, _, stable⟩ := unpackToken_done read
      simp only [read] at success
      cases opened : token.open stack with
      | inl whole =>
        simp only [opened, deliver] at success
        cases success
        refine ⟨taken, split, ?_⟩
        intro other
        simp only [resume_eq, stable, opened, deliver]
      | inr stack =>
        simp only [opened, deliver] at success
        have shorter := total ▸ unpackToken_length_lt read
        obtain ⟨following, splitLeft, stableLeft⟩ := ih left.length shorter success rfl
        refine ⟨taken ++ following, ?_, ?_⟩
        · rw [split, splitLeft, append_assoc]
        · intro other
          rw [resume_eq, append_assoc]
          simp only [stable, opened, deliver, stableLeft]

theorem resume_malformed {stack : List Frame} (refused : resume bytes stack = .malformed rest)
    (other : List Byte) : ∃ left, resume (bytes ++ other) stack = .malformed left := by
  induction total : bytes.length using Nat.strong_induction_on
    generalizing bytes stack with
  | _ size ih =>
    rw [resume_eq] at refused ⊢
    cases read : unpackToken bytes with
    | more rest => simp [read] at refused
    | malformed place =>
      obtain ⟨left, again⟩ := Settled.unpackToken bytes place read other
      exact ⟨left, by simp [again]⟩
    | done token left =>
      obtain ⟨taken, split, _, stable⟩ := unpackToken_done read
      rw [split, append_assoc, stable]
      simp only [read] at refused
      cases opened : token.open stack with
      | inl whole => simp [opened, deliver] at refused
      | inr stack =>
        simp only [opened, deliver] at refused ⊢
        have shorter := total ▸ unpackToken_length_lt read
        exact ih left.length shorter refused rfl

/-- An object that is read on its own is handed to the containers under it. -/
theorem resume_append {inner : List Frame} (success : resume bytes inner = .done object rest)
    (outer : List Frame) : resume bytes (inner ++ outer) = deliver (push object outer) rest := by
  induction total : bytes.length using Nat.strong_induction_on
    generalizing bytes inner with
  | _ size ih =>
    rw [resume_eq] at success ⊢
    cases read : unpackToken bytes with
    | more rest | malformed rest => simp [read] at success
    | done token left =>
      simp only [read, Token.open_append] at success ⊢
      cases opened : token.open inner with
      | inl whole =>
        simp only [opened, deliver] at success
        cases success
        rfl
      | inr inner =>
        simp only [opened, deliver] at success
        have shorter := total ▸ unpackToken_length_lt read
        exact ih left.length shorter success rfl

/-- The reader takes the bytes for the object, whatever follows them. -/
def Encodes (bytes : List Byte) (object : Object) : Prop :=
  ∀ rest, unpack (bytes ++ rest) = .done object rest

theorem unpack_nil : unpack [] = .more [] :=
  rfl

theorem unpack_done (success : unpack bytes = .done object rest) :
    ∃ taken, bytes = taken ++ rest ∧ Encodes taken object :=
  resume_done success

namespace Encodes

variable {bytes other : List Byte} {object : Object}

section
variable (encodes : Encodes bytes object)
include encodes

theorem ne_nil : bytes ≠ [] := by
  intro empty
  have read := encodes []
  rw [empty, nil_append, unpack_nil] at read
  cases read

theorem at_offset {data rest : List Byte} {offset : Nat}
    (begins : data.drop offset = bytes ++ rest) :
    0 < bytes.length ∧ offset + bytes.length + rest.length = data.length := by
  have nonempty := length_pos_iff.mpr encodes.ne_nil
  have length := congrArg List.length begins
  rw [length_drop, length_append] at length
  omega

theorem unpack_eq : unpack bytes = .done object [] := by
  simpa using encodes []

theorem unique {value : Object} {rest left : List Byte}
    (encodesOther : Encodes other value) (same : bytes ++ rest = other ++ left) :
    object = value ∧ bytes = other ∧ rest = left := by
  have read := encodes rest
  rw [same, encodesOther left] at read
  cases read
  exact ⟨rfl, append_cancel_right same, rfl⟩

end

theorem more_of_prefix {first second : List Byte} (encodes : Encodes (first ++ second) object)
    (proper : second ≠ []) : ∃ rest, unpack first = .more rest := by
  cases read : unpack first with
  | more rest => exact ⟨rest, rfl⟩
  | done value rest =>
    obtain ⟨taken, split, encodesTaken⟩ := unpack_done read
    have same : (first ++ second) ++ [] = taken ++ (rest ++ second) := by
      rw [append_nil, ← append_assoc, ← split]
    have left := (encodes.unique encodesTaken same).2.2
    exact absurd (append_eq_nil_iff.mp left.symm).2 proper
  | malformed rest =>
    obtain ⟨left, refused⟩ := resume_malformed read second
    have whole := encodes.unpack_eq
    rw [unpack, refused] at whole
    cases whole

theorem resume (encodes : Encodes bytes object) (stack : List Frame) (rest : List Byte) :
    resume (bytes ++ rest) stack = deliver (push object stack) rest := by
  have read := resume_append (encodes rest) stack
  rwa [nil_append] at read

theorem of_token
    (token : ∀ rest, unpackToken (bytes ++ rest) =
      .done (.value object) rest) : Encodes bytes object := by
  intro rest
  rw [unpack, resume_eq, token]
  rfl

end Encodes

theorem resume_items {parts : List (List Byte)} {items : List Object}
    (encoded : List.Forall₂ Encodes parts items) (nonempty : items ≠ [])
    (before : List Object) (stack : List Frame) (rest : List Byte) :
    resume (parts.flatten ++ rest) (.array items.length before :: stack) =
      deliver (push (.array (before ++ items)) stack) rest := by
  induction encoded generalizing before with
  | nil => exact absurd rfl nonempty
  | @cons part item parts items encodes encoded ih =>
    rw [flatten_cons, append_assoc, encodes.resume, push]
    cases encoded with
    | nil => rfl
    | cons second others =>
      rw [if_neg (by simp), length_cons, Nat.add_sub_cancel, deliver, ih (cons_ne_nil _ _),
        append_assoc, singleton_append]

theorem Encodes.array {header : List Byte} {parts : List (List Byte)} {items : List Object}
    (token : ∀ rest, unpackToken (header ++ rest) = .done (.array items.length) rest)
    (encoded : List.Forall₂ Encodes parts items) :
    Encodes (header ++ parts.flatten) (.array items) := by
  intro rest
  rw [unpack, append_assoc, resume_eq, token]
  cases encoded with
  | nil => rfl
  | cons first others => exact resume_items (.cons first others) (cons_ne_nil _ _) [] [] rest

def EncodesPair (part : List Byte × List Byte) (pair : Object × Object) : Prop :=
  Encodes part.1 pair.1 ∧ Encodes part.2 pair.2

theorem resume_pairs {parts : List (List Byte × List Byte)} {pairs : List (Object × Object)}
    (encoded : List.Forall₂ EncodesPair parts pairs) (nonempty : pairs ≠ [])
    (before : List (Object × Object)) (stack : List Frame) (rest : List Byte) :
    resume ((parts.flatMap fun part => part.1 ++ part.2) ++ rest)
        (.mapKey pairs.length before :: stack) =
      deliver (push (.map (before ++ pairs)) stack) rest := by
  induction encoded generalizing before with
  | nil => exact absurd rfl nonempty
  | @cons part pair parts pairs encodes encoded ih =>
    rw [flatMap_cons, append_assoc, append_assoc,
      encodes.1.resume, push, deliver, encodes.2.resume, push]
    cases encoded with
    | nil => rfl
    | cons second others =>
      rw [if_neg (by simp), length_cons, Nat.add_sub_cancel, deliver, ih (cons_ne_nil _ _),
        append_assoc, singleton_append]

theorem Encodes.map {header : List Byte}
    {parts : List (List Byte × List Byte)} {pairs : List (Object × Object)}
    (token : ∀ rest, unpackToken (header ++ rest) = .done (.map pairs.length) rest)
    (encoded : List.Forall₂ EncodesPair parts pairs) :
    Encodes (header ++ parts.flatMap fun part => part.1 ++ part.2) (.map pairs) := by
  intro rest
  rw [unpack, append_assoc, resume_eq, token]
  cases encoded with
  | nil => rfl
  | cons first others => exact resume_pairs (.cons first others) (cons_ne_nil _ _) [] [] rest

def packUint64 (u64 : BitVec 64) : List Byte :=
  if u64.toNat < 2 ^ 8 then
    if u64.toNat < 2 ^ 7 then toBigEndian 1 u64.toNat
    else 0xcc :: toBigEndian 1 u64.toNat
  else if u64.toNat < 2 ^ 16 then 0xcd :: toBigEndian 2 u64.toNat
  else if u64.toNat < 2 ^ 32 then 0xce :: toBigEndian 4 u64.toNat
  else 0xcf :: toBigEndian 8 u64.toNat

def packInt64 (i64 : BitVec 64) : List Byte :=
  if i64.toInt < -2 ^ 5 then
    if i64.toInt < -2 ^ 15 then
      if i64.toInt < -2 ^ 31 then 0xd3 :: toBigEndian 8 i64.toNat
      else 0xd2 :: toBigEndian 4 i64.toNat
    else if i64.toInt < -2 ^ 7 then 0xd1 :: toBigEndian 2 i64.toNat
    else 0xd0 :: toBigEndian 1 i64.toNat
  else if i64.toInt < 2 ^ 7 then toBigEndian 1 i64.toNat
  else packUint64 i64

def packArray (size : Nat) : List Byte :=
  if size < 16 then [UInt8.ofNat (0x90 + size)]
  else if size < 2 ^ 16 then 0xdc :: toBigEndian 2 size
  else 0xdd :: toBigEndian 4 size

def packMap (size : Nat) : List Byte :=
  if size < 16 then [UInt8.ofNat (0x80 + size)]
  else if size < 2 ^ 16 then 0xde :: toBigEndian 2 size
  else 0xdf :: toBigEndian 4 size

def packStr (length : Nat) : List Byte :=
  if length < 32 then [UInt8.ofNat (0xa0 + length)]
  else if length < 2 ^ 8 then 0xd9 :: toBigEndian 1 length
  else if length < 2 ^ 16 then 0xda :: toBigEndian 2 length
  else 0xdb :: toBigEndian 4 length

def packBin (length : Nat) : List Byte :=
  if length < 2 ^ 8 then 0xc4 :: toBigEndian 1 length
  else if length < 2 ^ 16 then 0xc5 :: toBigEndian 2 length
  else 0xc6 :: toBigEndian 4 length

def packExt (length : Nat) (type : Byte) : List Byte :=
  if length = 1 then [0xd4, type]
  else if length = 2 then [0xd5, type]
  else if length = 4 then [0xd6, type]
  else if length = 8 then [0xd7, type]
  else if length = 16 then [0xd8, type]
  else if length < 2 ^ 8 then 0xc7 :: (toBigEndian 1 length ++ [type])
  else if length < 2 ^ 16 then 0xc8 :: (toBigEndian 2 length ++ [type])
  else 0xc9 :: (toBigEndian 4 length ++ [type])

mutual

/-- `msgpack_pack_object`. -/
def pack : Object → List Byte
  | .nil => [0xc0]
  | .boolean value => [if value then 0xc3 else 0xc2]
  | .positiveInteger u64 => packUint64 u64
  | .negativeInteger i64 => packInt64 i64
  | .float32 bits => 0xca :: toBigEndian 4 bits.toNat
  | .float64 bits => 0xcb :: toBigEndian 8 bits.toNat
  | .str data => packStr data.length ++ data
  | .bin data => packBin data.length ++ data
  | .ext type data => packExt data.length type ++ data
  | .array items => packArray items.length ++ packItems items
  | .map pairs => packMap pairs.length ++ packPairs pairs

def packItems : List Object → List Byte
  | [] => []
  | item :: items => pack item ++ packItems items

def packPairs : List (Object × Object) → List Byte
  | [] => []
  | (key, value) :: pairs => pack key ++ (pack value ++ packPairs pairs)

end

mutual

/-- Sizes fit into 32 bits, and a negative integer is negative. -/
def Object.Fits : Object → Prop
  | .nil => True
  | .boolean _ => True
  | .positiveInteger _ => True
  | .negativeInteger i64 => i64.toInt < 0
  | .float32 _ => True
  | .float64 _ => True
  | .str data => data.length < 2 ^ 32
  | .bin data => data.length < 2 ^ 32
  | .ext _ data => data.length < 2 ^ 32
  | .array items => items.length < 2 ^ 32 ∧ FitItems items
  | .map pairs => pairs.length < 2 ^ 32 ∧ FitPairs pairs

def FitItems : List Object → Prop
  | [] => True
  | item :: items => item.Fits ∧ FitItems items

def FitPairs : List (Object × Object) → Prop
  | [] => True
  | (key, value) :: pairs => key.Fits ∧ value.Fits ∧ FitPairs pairs

end

theorem readNumber_append {α : Type} (width number : Nat)
    (next : Nat → List Byte → Unpacked α) (rest : List Byte) :
    readNumber width next (toBigEndian width number ++ rest) =
      next (number % 256 ^ width) rest := by
  have length := length_toBigEndian width number
  rw [readNumber, if_neg (by rw [length_append, length]; omega), take_append_of_le_length
    (le_of_eq length.symm), take_of_length_le (le_of_eq length), drop_append_of_le_length
    (le_of_eq length.symm), drop_of_length_le (le_of_eq length), nil_append, bigEndian_toBigEndian]

theorem readBody_append (build : List Byte → Object) (data rest : List Byte) :
    readBody build data.length (data ++ rest) = .done (.value (build data)) rest := by
  rw [readBody, if_neg (by rw [length_append]; omega), take_append_of_le_length (le_refl _),
    take_length, drop_append_of_le_length (le_refl _), drop_length, nil_append]

theorem readExtension_append (type : Byte) (data rest : List Byte) :
    readBody extension (data.length + 1) (type :: (data ++ rest)) =
      .done (.value (.ext type data)) rest := by
  have read := readBody_append extension (type :: data) rest
  rwa [length_cons, cons_append] at read

theorem toNat_ofNat_of_lt {number : Nat} (fits : number < 256) :
    (UInt8.ofNat number).toNat = number := by
  rw [UInt8.toNat_ofNat']
  omega

variable {tag : Byte} {width : Nat} {data : List Byte} {i64 : BitVec 64}

theorem unpackToken_number {number : Nat} {build : Nat → Token}
    (trail : unpackTrail tag = readToken width build)
    (fits : number < 256 ^ width) (rest : List Byte) :
    unpackToken (tag :: toBigEndian width number ++ rest) = .done (build number) rest := by
  rw [cons_append, unpackToken, trail, readToken, readNumber_append, Nat.mod_eq_of_lt fits]

theorem unpackToken_body {build : List Byte → Object}
    (trail : unpackTrail tag = readNumber width (readBody build))
    (fits : data.length < 256 ^ width) (rest : List Byte) :
    unpackToken (tag :: toBigEndian width data.length ++ (data ++ rest)) =
      .done (.value (build data)) rest := by
  rw [cons_append, unpackToken, trail, readNumber_append, Nat.mod_eq_of_lt fits, readBody_append]

theorem unpackToken_extension {type : Byte} (trail : unpackTrail tag =
      readNumber width fun size => readBody extension (size + 1))
    (fits : data.length < 256 ^ width) (rest : List Byte) :
    unpackToken (tag :: (toBigEndian width data.length ++ [type]) ++ (data ++ rest)) =
      .done (.value (.ext type data)) rest := by
  rw [cons_append, unpackToken, trail, append_assoc, readNumber_append, Nat.mod_eq_of_lt fits,
    singleton_append, readExtension_append]

theorem unpackToken_fixext {type : Byte}
    (trail : unpackTrail tag = readBody extension (data.length + 1)) (rest : List Byte) :
    unpackToken ([tag, type] ++ (data ++ rest)) = .done (.value (.ext type data)) rest := by
  rw [cons_append, unpackToken, trail, singleton_append, readExtension_append]

theorem unpackToken_packArray {size : Nat} (fits : size < 2 ^ 32) (rest : List Byte) :
    unpackToken (packArray size ++ rest) = .done (.array size) rest := by
  rw [packArray]
  split
  · have tag := toNat_ofNat_of_lt (by omega : 0x90 + size < 256)
    rw [singleton_append, unpackToken, unpackTrail, tag, if_neg (by omega), if_neg (by omega),
      if_pos (by omega), Nat.add_sub_cancel_left]
  · split
    · apply unpackToken_number rfl
      omega
    · apply unpackToken_number rfl
      omega

theorem unpackToken_packMap {size : Nat} (fits : size < 2 ^ 32) (rest : List Byte) :
    unpackToken (packMap size ++ rest) = .done (.map size) rest := by
  rw [packMap]
  split
  · have tag := toNat_ofNat_of_lt (by omega : 0x80 + size < 256)
    rw [singleton_append, unpackToken, unpackTrail, tag,
      if_neg (by omega), if_pos (by omega), Nat.add_sub_cancel_left]
  · split
    · apply unpackToken_number rfl
      omega
    · apply unpackToken_number rfl
      omega

theorem encodes_str (fits : data.length < 2 ^ 32) :
    Encodes (packStr data.length ++ data) (.str data) := by
  apply Encodes.of_token
  intro rest
  rw [append_assoc, packStr]
  split
  · have tag := toNat_ofNat_of_lt (by omega : 0xa0 + data.length < 256)
    rw [singleton_append, unpackToken, unpackTrail, tag, if_neg (by omega), if_neg (by omega),
      if_neg (by omega), if_pos (by omega), Nat.add_sub_cancel_left, readBody_append]
  · split
    · apply unpackToken_body rfl
      omega
    · split
      · apply unpackToken_body rfl
        omega
      · apply unpackToken_body rfl
        omega

theorem encodes_bin (fits : data.length < 2 ^ 32) :
    Encodes (packBin data.length ++ data) (.bin data) := by
  apply Encodes.of_token
  intro rest
  rw [append_assoc, packBin]
  split
  · apply unpackToken_body rfl
    omega
  · split
    · apply unpackToken_body rfl
      omega
    · apply unpackToken_body rfl
      omega

theorem encodes_ext (type : Byte) (fits : data.length < 2 ^ 32) :
    Encodes (packExt data.length type ++ data) (.ext type data) := by
  apply Encodes.of_token
  intro rest
  rw [append_assoc, packExt]
  split
  · next size => exact unpackToken_fixext (by rw [size]; rfl) rest
  split
  · next size => exact unpackToken_fixext (by rw [size]; rfl) rest
  split
  · next size => exact unpackToken_fixext (by rw [size]; rfl) rest
  split
  · next size => exact unpackToken_fixext (by rw [size]; rfl) rest
  split
  · next size => exact unpackToken_fixext (by rw [size]; rfl) rest
  split
  · apply unpackToken_extension rfl
    omega
  split
  · apply unpackToken_extension rfl
    omega
  · apply unpackToken_extension rfl
    omega

theorem encodes_positiveInteger (u64 : BitVec 64) :
    Encodes (packUint64 u64) (.positiveInteger u64) := by
  apply Encodes.of_token
  intro rest
  have number : BitVec.ofNat 64 u64.toNat = u64 := by simp
  have bound := u64.isLt
  have wide {tag : Byte} {width : Nat}
      (trail : unpackTrail tag = readToken width
        fun bits => .value (.positiveInteger (.ofNat 64 bits)))
      (fits : u64.toNat < 256 ^ width) :
      unpackToken (tag :: toBigEndian width u64.toNat ++ rest) =
        .done (.value (.positiveInteger u64)) rest := by
    rw [unpackToken_number trail fits, number]
  rw [packUint64]
  split
  · split
    · have tag := toNat_ofNat_of_lt (by omega : u64.toNat < 256)
      rw [toBigEndian, toBigEndian, nil_append, singleton_append,
        unpackToken, unpackTrail, tag, if_pos (by omega), number]
    · exact wide rfl (by omega)
  · split
    · exact wide rfl (by omega)
    · split <;> exact wide rfl (by omega)

section
variable (positive : 0 < width) (narrow : width ≤ 64) (negative : i64.toInt < 0)
  (fits : -2 ^ (width - 1) ≤ i64.toInt)
include positive narrow negative fits

theorem toInt_setWidth_of_fits : (i64.setWidth width).toInt = i64.toInt := by
  have whole : (i64.toNat : Int) =
      i64.toInt + (2 ^ width : Nat) * 2 ^ (64 - width) := by
    push_cast
    rw [← pow_add, Nat.add_sub_cancel' narrow]
    have value := BitVec.toInt_eq_toNat_cond i64
    split at value <;> omega
  have half : (2 : Int) ^ width = 2 ^ (width - 1) * 2 := by
    rw [← pow_succ, Nat.sub_add_cancel positive]
  rw [BitVec.toInt_setWidth, whole, Int.add_mul_bmod_self_left]
  apply Int.bmod_eq_of_le
  · push_cast
    omega
  · push_cast
    omega

theorem signed_ofNat : signed width (BitVec.ofNat width i64.toNat) = .negativeInteger i64 := by
  have value := toInt_setWidth_of_fits positive narrow negative fits
  have cut : BitVec.ofNat width i64.toNat = i64.setWidth width := by simp
  have sign : (i64.setWidth width).msb = true := by
    rw [BitVec.msb_eq_toInt, value]
    exact decide_eq_true negative
  have same : (i64.setWidth width).signExtend 64 = i64 := by
    apply BitVec.eq_of_toInt_eq
    rw [BitVec.toInt_signExtend_of_le narrow, value]
  rw [signed, cut, if_pos sign, same]

end

theorem encodes_negativeInteger (negative : i64.toInt < 0) :
    Encodes (packInt64 i64) (.negativeInteger i64) := by
  apply Encodes.of_token
  intro rest
  have lower := BitVec.le_toInt i64
  have wide {tag : Byte} {size width : Nat}
      (trail : unpackTrail tag = readToken size
        fun bits => .value (signed width (.ofNat width bits)))
      (bits : 256 ^ size = 2 ^ width) (positive : 0 < width)
      (narrow : width ≤ 64) (fits : -2 ^ (width - 1) ≤ i64.toInt) :
      unpackToken (tag :: toBigEndian size i64.toNat ++ rest) =
        .done (.value (.negativeInteger i64)) rest := by
    have cut : BitVec.ofNat width (i64.toNat % 2 ^ width) = BitVec.ofNat width i64.toNat := by
      apply BitVec.eq_of_toNat_eq
      simp
    rw [cons_append, unpackToken, trail, readToken, readNumber_append, bits, cut,
      signed_ofNat positive narrow negative fits]
  rw [packInt64]
  split
  · split
    · split
      · exact wide rfl rfl (by omega) (by omega) lower
      · exact wide rfl rfl (by omega) (by omega) (by omega)
    · split <;> exact wide rfl rfl (by omega) (by omega) (by omega)
  · rw [if_pos (by omega)]
    -- The last byte of the number is its own first byte.
    have value := BitVec.toInt_eq_toNat_cond i64
    have tag : (UInt8.ofNat i64.toNat).toNat = i64.toNat % 256 := UInt8.toNat_ofNat'
    have large : 0xe0 ≤ i64.toNat % 256 := by
      have bound := i64.isLt
      split at value <;> omega
    have cut : BitVec.ofNat 8 (i64.toNat % 256) = BitVec.ofNat 8 i64.toNat := by
      apply BitVec.eq_of_toNat_eq
      simp
    rw [toBigEndian, toBigEndian, nil_append, singleton_append, unpackToken, unpackTrail, tag,
      if_neg (by omega), if_neg (by omega), if_neg (by omega), if_neg (by omega), if_neg (by omega),
      cut, signed_ofNat (by omega) (by omega) negative (by omega)]

theorem packItems_eq (items : List Object) : packItems items = (items.map pack).flatten := by
  induction items with
  | nil => rfl
  | cons item items ih => rw [packItems, map_cons, flatten_cons, ih]

def pairParts (pairs : List (Object × Object)) : List (List Byte × List Byte) :=
  pairs.map fun pair => (pack pair.1, pack pair.2)

theorem packPairs_eq (pairs : List (Object × Object)) :
    packPairs pairs = (pairParts pairs).flatMap fun part => part.1 ++ part.2 := by
  induction pairs with
  | nil => rfl
  | cons pair pairs ih =>
    rw [packPairs, pairParts, map_cons, flatMap_cons, append_assoc, ih, pairParts]

mutual

theorem encodes_pack (object : Object) (fits : object.Fits) : Encodes (pack object) object := by
  cases object with
  | nil => exact .of_token fun _ => rfl
  | boolean value =>
    cases value with
    | false | true => exact .of_token fun _ => rfl
  | positiveInteger u64 =>
    exact encodes_positiveInteger u64
  | negativeInteger i64 =>
    exact encodes_negativeInteger fits
  | float32 bits =>
    have trail : unpackTrail 0xca = readToken 4
      fun bits => .value (.float32 (.ofNat 32 bits)) := rfl
    rw [pack]
    apply Encodes.of_token
    intro rest
    rw [unpackToken_number trail bits.isLt]
    simp
  | float64 bits =>
    have trail : unpackTrail 0xcb = readToken 8
      fun bits => .value (.float64 (.ofNat 64 bits)) := rfl
    rw [pack]
    apply Encodes.of_token
    intro rest
    rw [unpackToken_number trail bits.isLt]
    simp
  | str data =>
    exact encodes_str fits
  | bin data =>
    exact encodes_bin fits
  | ext type data =>
    exact encodes_ext type fits
  | array items =>
    rw [pack, packItems_eq]
    exact .array (unpackToken_packArray fits.1) (encodes_items items fits.2)
  | map pairs =>
    rw [pack, packPairs_eq]
    exact .map (unpackToken_packMap fits.1) (encodes_pairs pairs fits.2)

theorem encodes_items (items : List Object) (fits : FitItems items) :
    List.Forall₂ Encodes (items.map pack) items := by
  cases items with
  | nil => exact .nil
  | cons item items =>
    exact .cons (encodes_pack item fits.1) (encodes_items items fits.2)

theorem encodes_pairs (pairs : List (Object × Object)) (fits : FitPairs pairs) :
    List.Forall₂ EncodesPair (pairParts pairs) pairs := by
  cases pairs with
  | nil => exact .nil
  | cons pair pairs =>
    obtain ⟨key, value⟩ := pair
    exact .cons ⟨encodes_pack key fits.1, encodes_pack value fits.2.1⟩
      (encodes_pairs pairs fits.2.2)

end

end FluentBit.Msgpack
