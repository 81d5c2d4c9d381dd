import Mathlib.Data.List.Basic

/-!
# Byte strings and the C string functions

Memory areas are lists of bytes.  A NUL-terminated string is kept as the bytes
in front of its terminator, together with the fact that none of them is NUL;
reading past the listed bytes gives the terminator.
-/

namespace FluentBit

open List

abbrev Byte := UInt8

/-- A property of all bytes, decided for each of them. -/
@[elab_as_elim]
theorem forall_byte {P : Byte → Prop} (byte : Byte)
    (all : ∀ value : Fin 256, P (UInt8.ofNat value.val)) : P byte := by
  have one := all ⟨byte.toNat, byte.toNat_lt⟩
  rwa [UInt8.ofNat_toNat] at one

/-- The bytes of a NUL-terminated string, terminator excluded. -/
structure CString where
  bytes : List Byte
  noNul : (0 : Byte) ∉ bytes

/-- The value of a `char`, which has a sign on some machines. -/
def charValue (signedChar : Bool) (byte : Byte) : Int :=
  if signedChar ∧ 128 ≤ byte.toNat then (byte.toNat : Int) - 256
  else byte.toNat

/-- The conversion of an `int` to `unsigned char`. -/
def toUnsignedChar (value : Int) : Byte := UInt8.ofNat (value % 256).toNat

theorem toUnsignedChar_charValue (signedChar : Bool) (byte : Byte) :
    toUnsignedChar (charValue signedChar byte) = byte := by
  have bound := byte.toNat_lt
  have same : (charValue signedChar byte % 256).toNat = byte.toNat := by
    unfold charValue
    split <;> omega
  rw [toUnsignedChar, same, UInt8.ofNat_toNat]

theorem charValue_inj {signedChar : Bool} {left right : Byte} :
    charValue signedChar left = charValue signedChar right ↔ left = right := by
  constructor
  · intro same
    rw [← toUnsignedChar_charValue signedChar left, same, toUnsignedChar_charValue]
  · intro same
    rw [same]

/-- `memchr`: the area from the first occurrence of `wanted` on. -/
def memchr (area : List Byte) (wanted : Byte) : Option (List Byte) :=
  match area.dropWhile (· != wanted) with
  | [] => none
  | found => some found

variable {area found : List Byte} {wanted : Byte}

theorem memchr_eq_none_iff : memchr area wanted = none ↔ wanted ∉ area := by
  induction area with
  | nil => simp [memchr]
  | cons byte area ih =>
    by_cases same : byte = wanted
    · subst byte
      simp [memchr]
    · have different : wanted ≠ byte := fun equality => same equality.symm
      simpa [memchr, same, different] using ih

theorem memchr_eq_some (hit : memchr area wanted = some found) :
    ∃ skipped rest, area = skipped ++ wanted :: rest ∧
      found = wanted :: rest ∧ wanted ∉ skipped := by
  induction area with
  | nil => simp [memchr] at hit
  | cons byte area ih =>
    by_cases same : byte = wanted
    · subst byte
      refine ⟨[], area, rfl, ?_, by simp⟩
      simpa [memchr] using hit.symm
    · have tailHit : memchr area wanted = some found := by simpa [memchr, same] using hit
      obtain ⟨skipped, rest, rfl, rfl, absent⟩ := ih tailHit
      refine ⟨byte :: skipped, rest, rfl, rfl, ?_⟩
      have different : wanted ≠ byte := fun equality => same equality.symm
      simp [different, absent]

theorem memchr_append_of_notMem {skipped : List Byte} (absent : wanted ∉ skipped)
    (rest : List Byte) : memchr (skipped ++ rest) wanted = memchr rest wanted := by
  have passed : ∀ byte ∈ skipped, (byte != wanted) = true := by
    intro byte member
    rw [bne_iff_ne]
    intro same
    exact absent (same ▸ member)
  rw [memchr, dropWhile_append_of_pos passed, memchr]

theorem memchr_append {skipped : List Byte} (absent : wanted ∉ skipped) (rest : List Byte) :
    memchr (skipped ++ wanted :: rest) wanted = some (wanted :: rest) := by
  rw [memchr_append_of_notMem absent, memchr]
  simp only [dropWhile_cons, bne_self_eq_false, Bool.false_eq_true, if_false]

theorem length_le_of_memchr (hit : memchr area wanted = some found) :
    found.length ≤ area.length := by
  obtain ⟨skipped, rest, rfl, rfl, _⟩ := memchr_eq_some hit
  rw [length_append]
  omega

theorem length_tail_lt_of_memchr (hit : memchr area wanted = some found) :
    found.tail.length < area.length := by
  obtain ⟨skipped, rest, rfl, rfl, _⟩ := memchr_eq_some hit
  simp only [tail_cons, length_append, length_cons]
  omega

/-- `strstr`: the string from the first occurrence of `needle` on. -/
def strstr (needle : List Byte) : List Byte → Option (List Byte)
  | [] => if needle = [] then some [] else none
  | byte :: str =>
    if needle.isPrefixOf (byte :: str) then some (byte :: str)
    else strstr needle str

/-- A needle is not found in front of the first occurrence of its first byte. -/
theorem strstr_append {first : Byte} {before : List Byte}
    (absent : first ∉ before) (others rest : List Byte) :
    strstr (first :: others) (before ++ (first :: others ++ rest)) =
      some (first :: others ++ rest) := by
  induction before with
  | nil => simp [strstr, isPrefixOf_iff_prefix]
  | cons byte before ih =>
    have different : (first == byte) = false := by
      rw [beq_eq_false_iff_ne]
      intro same
      exact absent (same ▸ mem_cons_self)
    rw [cons_append, strstr, List.isPrefixOf, different, Bool.false_and, if_neg Bool.false_ne_true]
    exact ih fun member => absent (mem_cons_of_mem _ member)

/-- `strncmp(left, right, count) == 0`, up to a byte conversion.  Comparison
stops at the first NUL the two areas agree on. -/
def strncmpEqBy (convert : Byte → Byte) : Nat → List Byte → List Byte → Bool
  | 0, _, _ => true
  | count + 1, left, right =>
    convert (left.headD 0) == convert (right.headD 0) &&
      (left.headD 0 == 0 || strncmpEqBy convert count left.tail right.tail)

def strncmpEq : Nat → List Byte → List Byte → Bool := strncmpEqBy id

/-- `tolower` in the C locale. -/
def tolower (byte : Byte) : Byte := if 65 ≤ byte ∧ byte ≤ 90 then byte + 32 else byte

def strncasecmpEq : Nat → List Byte → List Byte → Bool := strncmpEqBy tolower

/-- `strcmp(left, right) == 0` on the bytes of two areas in front of their
first NUL. -/
def strcmpEq (left right : List Byte) : Bool :=
  left.takeWhile (· != 0) == right.takeWhile (· != 0)

/-- `strcmp`: the difference of the first two bytes that differ, unless a NUL
comes before them. -/
def strcmp : List Byte → List Byte → Int
  | [], right => -((right.headD 0).toNat : Int)
  | left :: _, [] => left.toNat
  | left :: lefts, right :: rights =>
    if left = right then if left = 0 then 0 else strcmp lefts rights
    else (left.toNat : Int) - right.toNat

theorem strncmpEqBy_of_map_eq {convert : Byte → Byte} {left right : List Byte}
    (same : left.map convert = right.map convert) (count : Nat) :
    strncmpEqBy convert count left right = true := by
  induction count generalizing left right with
  | zero => rfl
  | succ count ih =>
    cases left with
    | nil =>
      obtain rfl : right = [] := by simpa using same.symm
      simp [strncmpEqBy]
    | cons byte left =>
      cases right with
      | nil => simp at same
      | cons other right =>
        rw [map_cons, map_cons, List.cons.injEq] at same
        simp [strncmpEqBy, same.1, ih same.2]

end FluentBit
