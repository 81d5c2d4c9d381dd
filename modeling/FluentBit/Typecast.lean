import FluentBit.Lib.Msgpack
import FluentBit.Parser

/-!
# Conversions of the typecast rules

A string is taken for a number unless the number read from it is zero.
-/

namespace FluentBit.Typecast

open List Msgpack
open FluentBit.Parser (text text_of_lt text_of_ge)

inductive CastType where
  | number | int | uint | float | bool | str | hex | error

structure Rule where
  fromType : CastType
  toType : CastType

inductive Value where
  | int (iNum : BitVec 64)
  | uint (uiNum : BitVec 64)
  | float (dNum : BitVec 64)
  | boolean (boolean : Bool)
  | str (str : List Byte)
deriving DecidableEq

/-- Doubles of texts and of integers. -/
structure Doubles where
  atof : List Byte → BitVec 64
  ofInt : Int → BitVec 64

/-- The value of a digit, 16 for other bytes. -/
def digitValue (byte : Byte) : Nat :=
  if 48 ≤ byte ∧ byte ≤ 57 then byte.toNat - 48
  else if 97 ≤ tolower byte ∧ tolower byte ≤ 102 then (tolower byte).toNat - 87
  else 16

def readDigits (base : Nat) : Nat → List Byte → Nat
  | number, [] => number
  | number, byte :: rest =>
    if digitValue byte < base then readDigits base (number * base + digitValue byte) rest
    else number

def isspace (byte : Byte) : Bool := byte == 32 || (9 ≤ byte && byte ≤ 13)

/-- Whether a number is negative, and the text behind its sign. -/
def sign (str : List Byte) : Bool × List Byte :=
  let str := str.dropWhile isspace
  if str.head? = some 45 then (true, str.tail)
  else (false, if str.head? = some 43 then str.tail else str)

/-- `strtoimax` with base 10. -/
def strtoimax (str : List Byte) : BitVec 64 :=
  let magnitude : Int := readDigits 10 0 (sign str).2
  BitVec.ofInt 64 (if (sign str).1 then max (-2 ^ 63) (-magnitude) else min (2 ^ 63 - 1) magnitude)

/-- What stands behind `0x`, if that is a hexadecimal digit. -/
def hexDigits : List Byte → List Byte
  | 48 :: mark :: byte :: rest =>
    if tolower mark = 120 ∧ digitValue byte < 16 then byte :: rest else 48 :: mark :: byte :: rest
  | str => str

def strtoumax (base : Nat) (str : List Byte) : BitVec 64 :=
  let magnitude := readDigits base 0 (if base = 16 then hexDigits (sign str).2 else (sign str).2)
  if 2 ^ 64 ≤ magnitude then -1
  else if (sign str).1 then -BitVec.ofNat 64 magnitude
  else BitVec.ofNat 64 magnitude

/-- A value and what is packed for it. -/
abbrev Converted := Option (Value × List Byte)

def double (dNum : BitVec 64) : Converted := some (.float dNum, pack (.float64 dNum))

def boolean (value : Bool) : Converted := some (.boolean value, pack (.boolean value))

def string (str : List Byte) : Converted := some (.str str, packStr str.length ++ str)

def convStr (doubles : Doubles) (input : List Byte) (rule : Rule) : Converted :=
  let unsigned (uiNum : BitVec 64) : Converted :=
    if uiNum = 0 then none else some (.uint uiNum, packUint64 uiNum)
  match rule.fromType, rule.toType with
  | .str, .int =>
    if strtoimax input = 0 then none else some (.int (strtoimax input), packInt64 (strtoimax input))
  | .str, .uint => unsigned (strtoumax 10 input)
  | .str, .hex => unsigned (strtoumax 16 input)
  | .str, .float => double (doubles.atof input)
  | .str, .bool =>
    if 4 ≤ input.length ∧ strncasecmpEq 4 input [116, 114, 117, 101] then boolean true
    else if 5 ≤ input.length ∧ strncasecmpEq 5 input [102, 97, 108, 115, 101] then boolean false
    else none
  | _, _ => none

/-- What `snprintf` writes for a signed number. -/
def signedText (number : Int) : List Byte :=
  if number < 0 then 45 :: text number.natAbs else text number.natAbs

def convInt (doubles : Doubles) (input : BitVec 64) (rule : Rule) : Converted :=
  match rule.toType with
  | .str => string (signedText input.toInt)
  | .float => double (doubles.ofInt input.toInt)
  | .uint => some (.uint input, packUint64 input)
  | _ => none

def convUint (doubles : Doubles) (input : BitVec 64) (rule : Rule) : Converted :=
  match rule.toType with
  | .str => string (text input.toNat)
  | .float => double (doubles.ofInt input.toNat)
  | .int => some (.int input, packInt64 input)
  | _ => none

theorem read_text_append (number : Nat) : ∀ rest,
    sign (text number ++ rest) = (false, text number ++ rest) ∧
      readDigits 10 0 (text number ++ rest) = readDigits 10 number rest := by
  induction number using Nat.strong_induction_on with
  | h number ih =>
    intro rest
    by_cases small : number < 10
    · rw [text_of_lt small]
      interval_cases number <;> exact ⟨rfl, rfl⟩
    · obtain ⟨same, value⟩ := ih (number / 10) (by omega) (text (number % 10) ++ rest)
      have last : number % 10 < 10 := Nat.mod_lt _ (by decide)
      have whole := Nat.div_add_mod' number 10
      rw [text_of_ge (by omega), append_assoc]
      refine ⟨same, value.trans ?_⟩
      rw [text_of_lt last]
      generalize number / 10 = front, number % 10 = digit at last whole ⊢
      rw [← whole]
      interval_cases digit <;> rfl

theorem read_text (number : Nat) :
    sign (text number) = (false, text number) ∧ readDigits 10 0 (text number) = number := by
  simpa [readDigits] using read_text_append number []

theorem strtoumax_text (number : BitVec 64) : strtoumax 10 (text number.toNat) = number := by
  have fits := number.isLt
  simp [strtoumax, read_text]
  omega

theorem strtoimax_signedText (number : BitVec 64) :
    strtoimax (signedText number.toInt) = number := by
  have least := number.le_toInt
  have most := number.toInt_lt
  have minus : ∀ rest, sign (45 :: rest) = (true, rest) := fun _ => rfl
  rw [signedText]
  split
  next negative =>
    have same : max (-2 ^ 63) (-(number.toInt.natAbs : Int)) = number.toInt := by omega
    simp only [strtoimax, minus, read_text, if_true, same, BitVec.ofInt_toInt]
  next nonneg =>
    have same : min (2 ^ 63 - 1) (number.toInt.natAbs : Int) = number.toInt := by omega
    simp only [strtoimax, read_text, Bool.false_eq_true, if_false, same, BitVec.ofInt_toInt]

def integer (number : BitVec 64) : Object :=
  if number.toInt < 0 then .negativeInteger number else .positiveInteger number

theorem encodes_packInt64 (number : BitVec 64) : Encodes (packInt64 number) (integer number) := by
  rw [integer]
  split
  next negative => exact encodes_negativeInteger negative
  next nonneg =>
    have same : packInt64 number = packUint64 number := by
      have := BitVec.toInt_eq_toNat_cond number
      rw [packInt64, packUint64]
      split_ifs <;> first | rfl | omega
    rw [same]
    exact encodes_positiveInteger number

theorem length_text_le {number : Nat} (fits : number < 2 ^ 64) : (text number).length ≤ 20 := by
  rw [text, length_map]
  exact Nat.toDigits_length _ _ _ (by decide) (by omega)

/-- Only zero is not got back from its text. -/
theorem numbers_are_converted_back (doubles : Doubles) (number : BitVec 64) :
    (∃ str packed, convInt doubles number ⟨.int, .str⟩ = some (.str str, packed) ∧
      Encodes packed (.str str) ∧
      ((∃ back, convStr doubles str ⟨.str, .int⟩ = some (.int number, back) ∧
        Encodes back (integer number)) ↔ number ≠ 0)) ∧
    ∃ str packed, convUint doubles number ⟨.uint, .str⟩ = some (.str str, packed) ∧
      Encodes packed (.str str) ∧
      ((∃ back, convStr doubles str ⟨.str, .uint⟩ = some (.uint number, back) ∧
        Encodes back (.positiveInteger number)) ↔ number ≠ 0) := by
  constructor
  · have least := number.le_toInt
    have most := number.toInt_lt
    have digits := @length_text_le number.toInt.natAbs (by omega)
    have short : (signedText number.toInt).length < 2 ^ 32 := by
      rw [signedText]
      split
      · rw [length_cons]
        omega
      · omega
    refine ⟨_, _, rfl, encodes_str short, ?_⟩
    simp only [convStr, strtoimax_signedText]
    split
    next zero => simp [zero]
    next other => simpa [encodes_packInt64] using other
  · have short := length_text_le number.isLt
    refine ⟨_, _, rfl, encodes_str (by omega), ?_⟩
    simp only [convStr, strtoumax_text]
    split
    next zero => simp [zero]
    next other => simpa [encodes_positiveInteger] using other

theorem zero_not_converted_back :
    convInt ⟨fun _ => 0, fun _ => 0⟩ 0 ⟨.int, .str⟩ = some (.str [48], [161, 48]) ∧
      convStr ⟨fun _ => 0, fun _ => 0⟩ [48] ⟨.str, .int⟩ = none := by
  decide

end FluentBit.Typecast
