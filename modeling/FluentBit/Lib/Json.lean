import Mathlib.Data.List.Basic

/-!
# The body of a JSON string

What stands between the quotes of a JSON string, and the text it stands for.
Quotes, backslashes and the characters below U+0020 are escaped; a character
above U+FFFF can be escaped as a pair of surrogates.
-/

namespace FluentBit.Json

def hexValue (digit : Char) : Option Nat :=
  if '0' ≤ digit ∧ digit ≤ '9' then some (digit.toNat - 48)
  else if 'a' ≤ digit ∧ digit ≤ 'f' then some (digit.toNat - 87)
  else if 'A' ≤ digit ∧ digit ≤ 'F' then some (digit.toNat - 55)
  else none

def hexFour (a b c d : Char) : Option Nat := do
  let a ← hexValue a
  let b ← hexValue b
  let c ← hexValue c
  let d ← hexValue d
  return ((a * 16 + b) * 16 + c) * 16 + d

def shortEscape (char : Char) : Option Char :=
  if char = '"' then some '"'
  else if char = '\\' then some '\\'
  else if char = '/' then some '/'
  else if char = 'b' then some (Char.ofNat 8)
  else if char = 'f' then some (Char.ofNat 12)
  else if char = 'n' then some (Char.ofNat 10)
  else if char = 'r' then some (Char.ofNat 13)
  else if char = 't' then some (Char.ofNat 9)
  else none

def isHigh (unit : Nat) : Bool :=
  decide (0xD800 ≤ unit ∧ unit < 0xDC00)

def isLow (unit : Nat) : Bool :=
  decide (0xDC00 ≤ unit ∧ unit < 0xE000)

def isPlain (char : Char) : Bool :=
  decide (char ≠ '"' ∧ char ≠ '\\' ∧ 0x20 ≤ char.toNat)

/-- The text that a body stands for, if it is well formed. -/
def unescape : List Char → Option (List Char)
  | [] => some []
  | '\\' :: 'u' :: a :: b :: c :: d :: rest => do
      let unit ← hexFour a b c d
      if isHigh unit then
        match rest with
        | '\\' :: 'u' :: e :: f :: g :: h :: rest =>
          let low ← hexFour e f g h
          if isLow low then
            let text ← unescape rest
            return Char.ofNat (0x10000 + (unit - 0xD800) * 0x400 + (low - 0xDC00)) :: text
          else none
        | _ => none
      else if isLow unit then none
      else
        let text ← unescape rest
        return Char.ofNat unit :: text
  | '\\' :: char :: rest => do
      let char ← shortEscape char
      let text ← unescape rest
      return char :: text
  | char :: rest =>
    if isPlain char then do
      let text ← unescape rest
      return char :: text
    else none

def Unescapes (part text : List Char) : Prop :=
  ∀ body later : List Char, unescape body = some later →
    unescape (part ++ body) = some (text ++ later)

theorem Unescapes.nil : Unescapes [] [] := by
  intro body later read
  exact read

theorem Unescapes.append {first second firstText secondText : List Char}
    (begins : Unescapes first firstText) (ends : Unescapes second secondText) :
    Unescapes (first ++ second) (firstText ++ secondText) := by
  intro body later read
  rw [List.append_assoc, List.append_assoc]
  exact begins _ _ (ends _ _ read)

theorem Unescapes.plain {char : Char} (plain : isPlain char = true) : Unescapes [char] [char] := by
  intro body later read
  have notBackslash : char ≠ '\\' := by
    rintro rfl
    exact absurd plain (by decide)
  rw [List.singleton_append, unescape, if_pos plain, read]
  · rfl
  all_goals
    intros
    exact notBackslash ‹_›

theorem Unescapes.short {escape char : Char} (stands : shortEscape escape = some char) :
    Unescapes ['\\', escape] [char] := by
  intro body later read
  have notUnicode : escape ≠ 'u' := by
    rintro rfl
    have none : shortEscape 'u' = none := rfl
    cases stands
  change unescape ('\\' :: escape :: body) = _
  rw [unescape, stands, read]
  · rfl
  · intros
    exact notUnicode ‹_›

theorem Unescapes.unicode {a b c d : Char} {unit : Nat} (value : hexFour a b c d = some unit)
    (alone : unit < 0xD800) : Unescapes ['\\', 'u', a, b, c, d] [Char.ofNat unit] := by
  intro body later read
  have notHigh : isHigh unit = false := by
    rw [isHigh, decide_eq_false_iff_not]
    omega
  have notLow : isLow unit = false := by
    rw [isLow, decide_eq_false_iff_not]
    omega
  change unescape ('\\' :: 'u' :: a :: b :: c :: d :: body) = _
  rw [unescape, value]
  change (if isHigh unit = true then _ else _) = _
  rw [notHigh, if_neg Bool.false_ne_true, notLow, if_neg Bool.false_ne_true, read]
  rfl

theorem unescapes_of_plain {chars : List Char} (plain : ∀ char ∈ chars, isPlain char = true) :
    Unescapes chars chars := by
  induction chars with
  | nil => exact .nil
  | cons char chars ih =>
    rw [List.forall_mem_cons] at plain
    exact (Unescapes.plain plain.1).append (ih plain.2)

end FluentBit.Json
