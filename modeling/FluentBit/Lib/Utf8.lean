import Mathlib.Data.List.Infix
import FluentBit.Lib.CString

/-!
# UTF-8

A byte string is well formed if it is the encoding of a list of characters.  A
byte string is read by taking the characters it starts with; a byte that starts
no character is read as U+FFFD.
-/

namespace FluentBit.Utf8

open List
open String (utf8EncodeChar)

def encode (chars : List Char) : List Byte := chars.flatMap utf8EncodeChar

@[simp]
theorem encode_nil : encode [] = [] :=
  rfl

@[simp]
theorem encode_cons (char : Char) (chars : List Char) :
    encode (char :: chars) = utf8EncodeChar char ++ encode chars :=
  rfl

@[simp]
theorem encode_append (first second : List Char) :
    encode (first ++ second) = encode first ++ encode second :=
  flatMap_append

theorem utf8EncodeChar_ne_nil (char : Char) : utf8EncodeChar char ≠ [] := by
  rw [← length_pos_iff, String.length_utf8EncodeChar]
  exact Char.utf8Size_pos char

theorem utf8EncodeChar_append_inj {first second : Char} {left right : List Byte}
    (same : utf8EncodeChar first ++ left = utf8EncodeChar second ++ right) :
    first = second ∧ left = right := by
  have chars : first = second := by
    have decoded := congrArg (fun bytes => bytes.toByteArray.utf8DecodeChar? 0) same
    simp only [toByteArray_append] at decoded
    rw [ByteArray.utf8DecodeChar?_utf8EncodeChar_append,
      ByteArray.utf8DecodeChar?_utf8EncodeChar_append] at decoded
    exact Option.some.inj decoded
  subst chars
  exact ⟨rfl, append_cancel_left same⟩

theorem encode_injective {first second : List Char} (same : encode first = encode second) :
    first = second := by
  induction first generalizing second with
  | nil =>
    cases second with
    | nil => rfl
    | cons char second =>
      exact absurd (append_eq_nil_iff.mp same.symm).1 (utf8EncodeChar_ne_nil char)
  | cons char first ih =>
    cases second with
    | nil =>
      exact absurd (append_eq_nil_iff.mp same).1 (utf8EncodeChar_ne_nil char)
    | cons other second =>
      obtain ⟨rfl, rest⟩ := utf8EncodeChar_append_inj same
      rw [ih rest]

/-- No character is encoded at the beginning. -/
def StartsNone (bytes : List Byte) : Prop := ∀ char, ¬ utf8EncodeChar char <+: bytes

inductive Reads : List Byte → List Char → Prop where
  | nil : Reads [] []
  | char (char : Char) {bytes : List Byte} {read : List Char} (later : Reads bytes read) :
      Reads (utf8EncodeChar char ++ bytes) (char :: read)
  | replaced {byte : Byte} {bytes : List Byte} {read : List Char}
      (none : StartsNone (byte :: bytes)) (later : Reads bytes read) :
      Reads (byte :: bytes) (Char.ofNat 0xFFFD :: read)

theorem Reads.encode_append {chars read : List Char} {bytes : List Byte}
    (later : Reads bytes read) : Reads (encode chars ++ bytes) (chars ++ read) := by
  induction chars with
  | nil => exact later
  | cons char chars ih =>
    rw [encode_cons, append_assoc]
    exact .char char ih

theorem Reads.unique {bytes : List Byte} {first second : List Char} (one : Reads bytes first)
    (other : Reads bytes second) : first = second := by
  induction one generalizing second with
  | nil =>
    generalize empty : [] = bytes at other
    cases other with
    | nil => rfl
    | char char _ => exact absurd (append_eq_nil_iff.mp empty.symm).1 (utf8EncodeChar_ne_nil char)
    | replaced _ _ => cases empty
  | char char later ih =>
    rename_i bytes read
    generalize same : utf8EncodeChar char ++ bytes = all at other
    cases other with
    | nil => exact absurd (append_eq_nil_iff.mp same).1 (utf8EncodeChar_ne_nil char)
    | char next next_later =>
      obtain ⟨rfl, rfl⟩ := utf8EncodeChar_append_inj same
      rw [ih next_later]
    | replaced none _ => exact absurd ⟨bytes, same⟩ (none char)
  | replaced none later ih =>
    rename_i byte bytes read
    generalize same : byte :: bytes = all at other
    cases other with
    | nil => cases same
    | char next _ => exact absurd ⟨_, same.symm⟩ (none next)
    | replaced _ other_later =>
      cases same
      rw [ih other_later]

end FluentBit.Utf8
