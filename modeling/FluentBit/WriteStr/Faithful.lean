import FluentBit.Lib.Json
import FluentBit.Lib.Utf8
import FluentBit.WriteStr
import Mathlib.Data.List.GetD

/-!
# Raw strings are valid and faithful

What `flb_utils_write_str_raw` writes is well-formed UTF-8 and the body of a JSON
string.  It stands for the text that is read from the string, with U+FFFD for a
byte that starts no character, as long as no chunk that the vector loop takes
over reaches behind the end of the string.  `flb_utf8_validate_char` checks that
a sequence is the shortest one; `flb_utf8_decode`, byte by byte, does not.
-/

namespace FluentBit.WriteStr

open Simd Utf8 Json List Char Option
open String (utf8EncodeChar)

variable {value maxLen i : Nat} {bytes more str : List Byte} {c : Byte}

theorem ofNat_eq (byte : Byte) (same : value = byte.toNat) : UInt8.ofNat value = byte := by
  rw [same, UInt8.ofNat_toNat]

theorem toNat_ofNat (small : value < 256) : (UInt8.ofNat value).toNat = value :=
  UInt8.toNat_ofNat_of_lt small

theorem leadsTwo_iff (byte : Byte) : byte &&& 0xE0 = 0xC0 ↔ 192 ≤ byte.toNat ∧ byte.toNat < 224 :=
  forall_byte byte (by decide +kernel)

theorem leadsThree_iff (byte : Byte) : byte &&& 0xF0 = 0xE0 ↔ 224 ≤ byte.toNat ∧ byte.toNat < 240 :=
  forall_byte byte (by decide +kernel)

theorem leadsFour_iff (byte : Byte) : byte &&& 0xF8 = 0xF0 ↔ 240 ≤ byte.toNat ∧ byte.toNat < 248 :=
  forall_byte byte (by decide +kernel)

theorem isContinuation_iff (byte : Byte) :
    isContinuation byte = true ↔ 128 ≤ byte.toNat ∧ byte.toNat < 192 := by
  exact forall_byte byte (by decide +kernel)

/-- The sequences of two to four bytes that encode a character. -/
inductive Sequence : List Byte → Prop where
  | two {a b : Byte} (lead : 194 ≤ a.toNat ∧ a.toNat < 224)
      (second : isContinuation b = true) : Sequence [a, b]
  | three {a b c : Byte} (lead : 224 ≤ a.toNat ∧ a.toNat < 240)
      (overlong : a.toNat = 224 → 160 ≤ b.toNat)
      (surrogate : a.toNat = 237 → b.toNat < 160)
      (second : isContinuation b = true) (third : isContinuation c = true) :
      Sequence [a, b, c]
  | four {a b c d : Byte} (lead : 240 ≤ a.toNat ∧ a.toNat < 245)
      (overlong : a.toNat = 240 → 144 ≤ b.toNat)
      (range : a.toNat = 244 → b.toNat < 144)
      (second : isContinuation b = true) (third : isContinuation c = true)
      (fourth : isContinuation d = true) : Sequence [a, b, c, d]

theorem exists_char (valid : value.isValidChar) : ∃ char : Char, char.toNat = value := by
  refine ⟨ofNat value, ?_⟩
  rw [ofNat, dif_pos valid]
  rfl

theorem utf8EncodeChar_eq (char : Char) :
    utf8EncodeChar char = if char.toNat ≤ 127 then [UInt8.ofNat char.toNat]
      else if char.toNat ≤ 2047 then
        [UInt8.ofNat (char.toNat / 64 % 32 + 192), UInt8.ofNat (char.toNat % 64 + 128)]
      else if char.toNat ≤ 65535 then
        [UInt8.ofNat (char.toNat / 4096 % 16 + 224), UInt8.ofNat (char.toNat / 64 % 64 + 128),
          UInt8.ofNat (char.toNat % 64 + 128)]
      else
        [UInt8.ofNat (char.toNat / 262144 % 8 + 240), UInt8.ofNat (char.toNat / 4096 % 64 + 128),
          UInt8.ofNat (char.toNat / 64 % 64 + 128),
          UInt8.ofNat (char.toNat % 64 + 128)] :=
  rfl

theorem Sequence.encodes (sequence : Sequence bytes) :
    ∃ char, utf8EncodeChar char = bytes ∧ 128 ≤ char.toNat := by
  cases sequence with
  | @two a b lead second =>
    rw [isContinuation_iff] at second
    obtain ⟨char, value⟩ := @exists_char ((a.toNat - 192) * 64 + (b.toNat - 128)) (.inl (by omega))
    refine ⟨char, ?_, by omega⟩
    rw [utf8EncodeChar_eq, if_neg (by omega), if_pos (by omega),
      ofNat_eq a (by omega), ofNat_eq b (by omega)]
  | @three a b c lead overlong surrogate second third =>
    rw [isContinuation_iff] at second third
    obtain ⟨char, value⟩ := @exists_char ((a.toNat - 224) * 4096 +
      (b.toNat - 128) * 64 + (c.toNat - 128)) (by
        omega)
    refine ⟨char, ?_, by omega⟩
    rw [utf8EncodeChar_eq, if_neg (by omega), if_neg (by omega), if_pos (by omega), ofNat_eq a
      (by omega), ofNat_eq b (by omega), ofNat_eq c (by omega)]
  | @four a b c d lead overlong range second third fourth =>
    rw [isContinuation_iff] at second third fourth
    obtain ⟨char, value⟩ := @exists_char ((a.toNat - 240) * 262144 + (b.toNat - 128) * 4096 +
      (c.toNat - 128) * 64 + (d.toNat - 128)) (.inr (by omega))
    refine ⟨char, ?_, by omega⟩
    rw [utf8EncodeChar_eq, if_neg (by omega), if_neg (by omega), if_neg (by omega), ofNat_eq a
      (by omega), ofNat_eq b (by omega), ofNat_eq c (by omega), ofNat_eq d (by omega)]

theorem sequence_utf8EncodeChar {char : Char} (large : 128 ≤ char.toNat) :
    Sequence (utf8EncodeChar char) := by
  have valid := char.valid
  have value : char.val.toNat = char.toNat := rfl
  have continues : ∀ value, value < 64 →
      isContinuation (UInt8.ofNat (value + 128)) = true := by
    intro value small
    rw [isContinuation_iff, toNat_ofNat (by omega)]
    omega
  rw [utf8EncodeChar_eq, if_neg (by omega)]
  split
  · apply Sequence.two
    · rw [toNat_ofNat (by omega)]
      omega
    · exact continues _ (by omega)
  · split
    · apply Sequence.three
      · rw [toNat_ofNat (by omega)]
        omega
      · rw [toNat_ofNat (by omega), toNat_ofNat (by omega)]
        omega
      · rw [toNat_ofNat (by omega), toNat_ofNat (by omega)]
        omega
      all_goals exact continues _ (by omega)
    · apply Sequence.four
      · rw [toNat_ofNat (by omega)]
        omega
      · rw [toNat_ofNat (by omega), toNat_ofNat (by omega)]
        omega
      · rw [toNat_ofNat (by omega), toNat_ofNat (by omega)]
        omega
      all_goals exact continues _ (by omega)

theorem announced_eq (c second : Byte) (more : List Byte) (long : 1 < maxLen) :
    announced (c :: second :: more) maxLen =
      if 192 ≤ c.toNat ∧ c.toNat < 224 then
        if c.toNat < 194 then 0 else 2
      else if 224 ≤ c.toNat ∧ c.toNat < 240 then
        if c.toNat = 224 ∧ second.toNat < 160 then 0
        else if c.toNat = 237 ∧ 160 ≤ second.toNat then 0
        else 3
      else if 240 ≤ c.toNat ∧ c.toNat < 248 then
        if c.toNat = 240 ∧ second.toNat < 144 then 0
        else if 244 < c.toNat then 0
        else if c.toNat = 244 ∧ 143 < second.toNat then 0
        else 4
      else 0 := by
  rw [announced, getD_cons_zero, getD_cons_succ, getD_cons_zero]
  simp only [leadsTwo_iff, leadsThree_iff, leadsFour_iff, long, true_and]
  simp only [UInt8.lt_iff_toNat_lt, UInt8.le_iff_toNat_le, ← UInt8.toNat_inj, UInt8.reduceToNat]

/-- The lead byte of a sequence and the byte behind it announce its length. -/
theorem Sequence.announced (sequence : Sequence bytes) (rest : List Byte) (long : 1 < maxLen) :
    WriteStr.announced (bytes ++ rest) maxLen = bytes.length := by
  cases sequence with
  | two lead second =>
    change WriteStr.announced (_ :: _ :: rest) maxLen = 2
    rw [announced_eq _ _ _ long, if_pos (by omega), if_neg (by omega)]
  | @three a b c lead overlong surrogate second third =>
    change WriteStr.announced (_ :: _ :: c :: rest) maxLen = 3
    rw [announced_eq _ _ _ long, if_neg (by omega), if_pos (by omega),
      if_neg (by omega), if_neg (by omega)]
  | @four a b c d lead overlong range second third fourth =>
    change WriteStr.announced (_ :: _ :: c :: d :: rest) maxLen = 4
    rw [announced_eq _ _ _ long, if_neg (by omega), if_neg (by omega), if_pos (by omega), if_neg
      (by omega), if_neg (by omega), if_neg (by omega)]

theorem Sequence.continues (sequence : Sequence bytes) :
    2 ≤ bytes.length ∧ 128 ≤ (bytes.getD 0 0).toNat ∧ (bytes.drop 1).all isContinuation = true := by
  cases sequence with
  | two lead second =>
    refine ⟨Nat.le_refl 2, ?_, by simp [second]⟩
    rw [getD_cons_zero]
    omega
  | three lead _ _ second third =>
    refine ⟨Nat.le_succ 2, ?_, by simp [second, third]⟩
    rw [getD_cons_zero]
    omega
  | four lead _ _ second third fourth =>
    refine ⟨Nat.le_add_right 2 2, ?_, by simp [second, third, fourth]⟩
    rw [getD_cons_zero]
    omega

theorem Sequence.validated (sequence : Sequence bytes) (rest : List Byte) :
    utf8ValidateChar (bytes ++ rest) (bytes.length + rest.length) = bytes.length := by
  obtain ⟨two, high, continues⟩ := sequence.continues
  have first : ¬ (bytes ++ rest).getD 0 0 ≤ 0x7F := by
    rw [getD_append _ _ _ _ (by omega), UInt8.le_iff_toNat_le]
    change ¬ _ ≤ 127
    omega
  rw [utf8ValidateChar, if_neg (by omega), if_neg first]
  rw [sequence.announced rest (by omega), if_neg (by omega), take_left, if_pos continues]

theorem announced_short (c : Byte) (maxLen : Nat) :
    WriteStr.announced [c] maxLen = 0 ∨ 2 ≤ WriteStr.announced [c] maxLen := by
  rw [announced]
  split_ifs <;> simp

theorem announced_cases (c second : Byte) (more : List Byte) (long : 1 < maxLen) :
    announced (c :: second :: more) maxLen = 0 ∨
      announced (c :: second :: more) maxLen = 2 ∧ (194 ≤ c.toNat ∧ c.toNat < 224) ∨
      announced (c :: second :: more) maxLen = 3 ∧ (224 ≤ c.toNat ∧ c.toNat < 240) ∧
        (c.toNat = 224 → 160 ≤ second.toNat) ∧
        (c.toNat = 237 → second.toNat < 160) ∨
      announced (c :: second :: more) maxLen = 4 ∧ (240 ≤ c.toNat ∧ c.toNat < 245) ∧
        (c.toNat = 240 → 144 ≤ second.toNat) ∧
        (c.toNat = 244 → second.toNat < 144) := by
  rw [announced_eq c second more long]
  split_ifs <;> omega

theorem sequence_of_validated (high : 128 ≤ c.toNat)
    (valid : utf8ValidateChar (c :: more) (more.length + 1) ≠ 0) :
    utf8ValidateChar (c :: more) (more.length + 1) ≤ more.length + 1 ∧
      Sequence ((c :: more).take (utf8ValidateChar (c :: more) (more.length + 1))) := by
  have first : ¬ (c :: more).getD 0 0 ≤ 0x7F := by
    rw [getD_cons_zero, UInt8.le_iff_toNat_le]
    change ¬ _ ≤ 127
    omega
  rw [utf8ValidateChar, if_neg (by omega), if_neg first] at valid ⊢
  by_cases cut : announced (c :: more) (more.length + 1) = 0 ∨
      more.length + 1 < announced (c :: more) (more.length + 1)
  · rw [if_pos cut] at valid
    exact absurd rfl valid
  · rw [if_neg cut] at valid ⊢
    by_cases continues : (((c :: more).take
        (announced (c :: more) (more.length + 1))).drop 1).all isContinuation = true
    · rw [if_pos continues] at valid ⊢
      refine ⟨by omega, ?_⟩
      cases more with
      | nil =>
        have short := announced_short c 1
        change ¬ (announced [c] 1 = 0 ∨ 1 < announced [c] 1) at cut
        omega
      | cons second more =>
        have long : 1 < (second :: more).length + 1 := by
          rw [length_cons]
          omega
        rcases announced_cases c second more long with
          none | ⟨two, lead⟩ | ⟨three, lead, overlong, surrogate⟩ | ⟨four, lead, overlong, range⟩
        · exact absurd (.inl none) cut
        · rw [two] at continues ⊢
          simp only [take_succ_cons, take_zero, drop_succ_cons, drop_zero, all_cons, all_nil,
            Bool.and_true] at continues ⊢
          exact .two lead continues
        · rw [three] at cut continues ⊢
          cases more with
          | nil => exact absurd (.inr (Nat.lt_succ_self 2)) cut
          | cons third more =>
            simp only [take_succ_cons, take_zero, drop_succ_cons, drop_zero, all_cons, all_nil,
              Bool.and_true, Bool.and_eq_true] at continues ⊢
            exact .three lead overlong surrogate continues.1 continues.2
        · rw [four] at cut continues ⊢
          cases more with
          | nil => exact absurd (.inr (Nat.lt_add_of_pos_right Nat.two_pos)) cut
          | cons third more =>
            cases more with
            | nil => exact absurd (.inr (Nat.lt_succ_self 3)) cut
            | cons fourth more =>
              simp only [take_succ_cons, take_zero, drop_succ_cons, drop_zero, all_cons, all_nil,
                Bool.and_true, Bool.and_eq_true] at continues ⊢
              exact .four lead overlong range continues.1 continues.2.1 continues.2.2
    · rw [if_neg continues] at valid
      exact absurd rfl valid

/-- A byte that is not ASCII starts a character exactly if the validator
accepts it. -/
theorem startsNone_of_not_validated (high : 128 ≤ c.toNat)
    (invalid : utf8ValidateChar (c :: more) (more.length + 1) = 0) : StartsNone (c :: more) := by
  intro char begins
  obtain ⟨rest, whole⟩ := begins
  have large : 128 ≤ char.toNat := by
    by_contra small
    rw [utf8EncodeChar_eq, if_pos (by omega), singleton_append, List.cons.injEq] at whole
    rw [← whole.1, toNat_ofNat (by omega)] at high
    omega
  have sequence := sequence_utf8EncodeChar large
  have accepted := sequence.validated rest
  rw [whole, ← length_append, whole, length_cons, invalid] at accepted
  have two := sequence.continues.1
  omega

/-- What is written between two indexes is the beginning of a body that stands
for what is read there. -/
def Piece (str : List Byte) (text : List Byte) (i j : Nat) : Prop :=
  ∃ part value, text = encode part ∧ Unescapes part value ∧
    ∀ later, Reads (str.drop j) later → Reads (str.drop i) (value ++ later)

theorem Piece.refl (str : List Byte) (i : Nat) : Piece str [] i i :=
  ⟨[], [], rfl, .nil, fun _ read => read⟩

theorem Piece.trans {first second : List Byte} {j k : Nat} (begins : Piece str first i j)
    (ends : Piece str second j k) : Piece str (first ++ second) i k := by
  obtain ⟨part, value, text, stands, reads⟩ := begins
  obtain ⟨nextPart, nextValue, nextText, nextStands, nextReads⟩ := ends
  refine ⟨part ++ nextPart, value ++ nextValue, ?_, stands.append nextStands, ?_⟩
  · rw [text, nextText, encode_append]
  · intro later read
    rw [append_assoc]
    exact reads _ (nextReads _ read)

theorem Piece.char {j : Nat} {char : Char} {part : List Char} (stands : Unescapes part [char])
    (there : str.drop i = utf8EncodeChar char ++ str.drop j) : Piece str (encode part) i j := by
  refine ⟨part, [char], rfl, stands, ?_⟩
  intro later read
  rw [there]
  exact .char char read

theorem ascii_char (ascii : c < 0x80) :
    ∃ char : Char, char.toNat = c.toNat ∧ utf8EncodeChar char = [c] := by
  have small : c.toNat < 128 := UInt8.lt_iff_toNat_lt.mp ascii
  obtain ⟨char, value⟩ := @exists_char c.toNat (.inl (by omega))
  refine ⟨char, value, ?_⟩
  rw [utf8EncodeChar_eq, if_pos (by omega), ofNat_eq c value]

theorem drop_succ_of_drop (found : str.drop i = c :: more) : str.drop (i + 1) = more := by
  rw [← tail_drop, found, tail_cons]

theorem isPlain_of_ordinary (ordinary : Ordinary c) {char : Char} (value : char.toNat = c.toNat) :
    isPlain char = true := by
  obtain ⟨printable, _, notQuote, notBackslash⟩ := ordinary
  rw [isPlain, decide_eq_true_eq]
  refine ⟨?_, ?_, ?_⟩
  · rintro rfl
    exact notQuote (UInt8.toNat_inj.mp value.symm)
  · rintro rfl
    exact notBackslash (UInt8.toNat_inj.mp value.symm)
  · rw [value]
    exact UInt8.le_iff_toNat_le.mp printable

theorem isPlain_of_large {char : Char} (large : 128 ≤ char.toNat) : isPlain char = true := by
  rw [isPlain, decide_eq_true_eq]
  refine ⟨?_, ?_, by omega⟩
  · rintro rfl
    exact absurd large (by decide)
  · rintro rfl
    exact absurd large (by decide)

theorem Piece.ordinary (found : str.drop i = c :: more) (ordinary : Ordinary c) :
    Piece str [c] i (i + 1) := by
  obtain ⟨char, value, encoded⟩ := ascii_char ordinary.ascii
  have piece := @Piece.char i str (i + 1) char [char]
    (.plain (isPlain_of_ordinary ordinary value)) (by
      rw [found, encoded, drop_succ_of_drop found, singleton_append])
  rwa [encode_cons, encoded, encode_nil] at piece

theorem hexDigits (value : Fin 128) :
    let high := Char.ofNat (hexDigit (value.val / 16)).toNat
    let low := Char.ofNat (hexDigit (value.val % 16)).toNat
    utf8EncodeChar high = [hexDigit (value.val / 16)] ∧
      utf8EncodeChar low = [hexDigit (value.val % 16)] ∧
      hexFour '0' '0' high low = some value.val := by
  revert value
  decide +kernel

theorem unescapes_unicode (ascii : c < 0x80) :
    ∃ part, [92, 117, 48, 48, hexDigit (c.toNat / 16), hexDigit (c.toNat % 16)] = encode part ∧
      Unescapes part [Char.ofNat c.toNat] := by
  have small : c.toNat < 128 := UInt8.lt_iff_toNat_lt.mp ascii
  obtain ⟨high, low, value⟩ := hexDigits ⟨c.toNat, small⟩
  refine ⟨['\\', 'u', '0', '0', ofNat (hexDigit (c.toNat / 16)).toNat, ofNat (hexDigit
    (c.toNat % 16)).toNat], ?_, .unicode value (by omega)⟩
  simp only [encode_cons, encode_nil, high, low]
  rfl

theorem unescapes_jsonEscapeTable {seq : List Byte} (escaped : jsonEscapeTable c = some seq) :
    c < 0x80 ∧ ∃ part, seq = encode part ∧ Unescapes part [Char.ofNat c.toNat] := by
  rw [jsonEscapeTable] at escaped
  split_ifs at escaped with quote backslash newline carriage tab backspace formfeed control
  all_goals cases escaped
  · subst quote
    exact ⟨by decide, ['\\', '"'], rfl, .short rfl⟩
  · subst backslash
    exact ⟨by decide, ['\\', '\\'], rfl, .short rfl⟩
  · subst newline
    exact ⟨by decide, ['\\', 'n'], rfl, .short rfl⟩
  · subst carriage
    exact ⟨by decide, ['\\', 'r'], rfl, .short rfl⟩
  · subst tab
    exact ⟨by decide, ['\\', 't'], rfl, .short rfl⟩
  · subst backspace
    exact ⟨by decide, ['\\', 'b'], rfl, .short rfl⟩
  · subst formfeed
    exact ⟨by decide, ['\\', 'f'], rfl, .short rfl⟩
  · have ascii : c < 0x80 := by
      rcases control with small | delete
      · exact UInt8.lt_trans small (by decide)
      · subst delete
        decide
    exact ⟨ascii, unescapes_unicode ascii⟩

theorem ordinary_of_not_escaped (ascii : c < 0x80) (plain : jsonEscapeTable c = none) :
    Ordinary c := by
  rw [jsonEscapeTable] at plain
  split_ifs at plain with quote backslash _ _ _ _ _ control
  exact ⟨UInt8.not_lt.mp fun small => control (.inl small), ascii, quote, backslash⟩

theorem rawChar_piece (found : str.drop i = c :: more) (b : Nat) :
    Piece str (rawChar c more b).text i (i + (rawChar c more b).used) := by
  have next := drop_succ_of_drop found
  cases escaped : jsonEscapeTable c with
  | some seq =>
    obtain ⟨ascii, part, text, stands⟩ := unescapes_jsonEscapeTable escaped
    obtain ⟨char, value, encoded⟩ := ascii_char ascii
    rw [← value, ofNat_toNat] at stands
    rw [rawChar, escaped]
    dsimp only [single]
    rw [text]
    apply Piece.char stands
    rw [found, encoded, next, singleton_append]
  | none =>
    rw [rawChar, escaped]
    by_cases ascii : c < 0x80
    · rw [if_pos ascii]
      exact Piece.ordinary found (ordinary_of_not_escaped ascii escaped)
    · rw [if_neg ascii]
      have high : 128 ≤ c.toNat := UInt8.le_iff_toNat_le.mp (UInt8.not_lt.mp ascii)
      by_cases invalid : utf8ValidateChar (c :: more) (more.length + 1) = 0
      · rw [dif_pos (.inl invalid)]
        refine ⟨[ofNat 0xFFFD], [ofNat 0xFFFD], rfl, .plain (by decide), ?_⟩
        intro later read
        rw [found]
        dsimp only [single] at read
        rw [next] at read
        exact .replaced (startsNone_of_not_validated high invalid) read
      · obtain ⟨within, sequence⟩ := sequence_of_validated high invalid
        obtain ⟨char, encoded, large⟩ := sequence.encodes
        rw [dif_neg (by omega)]
        have piece := @Piece.char i str
          (i + utf8ValidateChar (c :: more) (more.length + 1)) char [char]
          (.plain (isPlain_of_large large)) (by rw [encoded, ← drop_drop, found, take_append_drop])
        rwa [encode_cons, encoded, encode_nil, append_nil] at piece

section
variable {build : Build} {str : List Byte} {after : Nat → Byte}

theorem Piece.at_end {i j : Nat} (ended : str.length ≤ i) (last : str.length ≤ j) :
    Piece str [] i j := by
  refine ⟨[], [], rfl, .nil, ?_⟩
  intro later read
  rw [drop_eq_nil_of_le last] at read
  rwa [drop_eq_nil_of_le ended]

/-- Ordinary bytes are the encoding of characters that stand for themselves. -/
theorem exists_plain_chars {bytes : List Byte} (ordinary : ∀ byte ∈ bytes, Ordinary byte) :
    ∃ chars, bytes = encode chars ∧ ∀ char ∈ chars, isPlain char = true := by
  induction bytes with
  | nil => exact ⟨[], rfl, by simp⟩
  | cons byte bytes ih =>
    rw [forall_mem_cons] at ordinary
    obtain ⟨char, value, encoded⟩ := ascii_char ordinary.1.ascii
    obtain ⟨chars, same, plain⟩ := ih ordinary.2
    refine ⟨char :: chars, ?_, ?_⟩
    · rw [encode_cons, encoded, same, singleton_append]
    · rw [forall_mem_cons]
      exact ⟨isPlain_of_ordinary ordinary.1 value, plain⟩

theorem block_piece (chars b i : Nat) :
    Piece str (block rawChar build str chars b i).1 i (block rawChar build str chars b i).2.1 := by
  induction chars generalizing b i with
  | zero => exact .refl str i
  | succ chars ih =>
    rw [block]
    split
    · split
      · exact .refl str i
      · next c more found =>
        have first := rawChar_piece found b
        dsimp only
        split
        · exact first
        · exact first.trans (ih _ _)
    · exact .refl str i

theorem memoryAt_piece (length : Nat) {i : Nat} (inside : i ≤ str.length)
    (plain : ∀ byte ∈ memoryAt str after i length, Ordinary byte) :
    ∃ text extra, memoryAt str after i length = text ++ encode extra ∧
      Piece str text i (i + length) ∧
      (∀ char ∈ extra, isPlain char = true) ∧
      (extra = [] ↔ i + length ≤ str.length) := by
  induction length generalizing i with
  | zero => exact ⟨[], [], rfl, .refl str i, by simp, by simp [inside]⟩
  | succ length ih =>
    cases found : str.drop i with
    | nil =>
      have ended := drop_eq_nil_iff.mp found
      obtain ⟨extra, same, stands⟩ := exists_plain_chars plain
      refine ⟨[], extra, same, .at_end ended (by omega), stands, ?_⟩
      constructor
      · rintro rfl
        rw [memoryAt_succ, encode_nil] at same
        cases same
      · intro within
        omega
    | cons c more =>
      have within : i < str.length :=
        Nat.not_le.mp fun ended => by simp [drop_eq_nil_of_le ended] at found
      rw [memoryAt_succ, byteAt_of_drop found] at plain ⊢
      rw [forall_mem_cons] at plain
      obtain ⟨text, extra, same, piece, stands, whole⟩ := ih within plain.2
      have next : i + (length + 1) = i + 1 + length := by omega
      rw [next]
      refine ⟨[c] ++ text, extra, ?_, (Piece.ordinary found plain.1).trans piece, stands, whole⟩
      rw [same]
      rfl

/-- What is written from an index on is what is read there, and behind it the
bytes that the last chunk has too much. -/
theorem writtenFrom_piece (i : Nat) :
    ∃ text extra, writtenFrom rawChar build str after i = text ++ encode extra ∧
      Piece str text i str.length ∧
      (∀ char ∈ extra, isPlain char = true) ∧
      (extra = [] ↔ ∀ tests, Inside build str after
        ((scanNext rawChar build str after)^[tests] i)) := by
  induction left : str.length - i using Nat.strongRecOn
    generalizing i with
  | ind left ih =>
    by_cases ended : str.length ≤ i
    · rw [writtenFrom_end ended]
      refine ⟨[], [], rfl, .at_end ended (Nat.le_refl _), by simp, ?_⟩
      refine ⟨fun _ tests taken => ?_, fun _ => rfl⟩
      exact absurd taken (not_takesOver_end ended tests)
    · rw [forall_scanNext]
      by_cases taken : takesOver build str after i = true
      · have next : scanNext rawChar build str after i = i + build.instLen := by
          rw [scanNext, if_pos taken]
        have advances := build.instLen_pos
        obtain ⟨text, extra, same, piece, stands, whole⟩ :=
          @memoryAt_piece str after build.instLen i (by omega) (ordinary_of_takesOver taken)
        by_cases within : i + build.instLen ≤ str.length
        · obtain ⟨laterText, laterExtra, laterSame, laterPiece, laterStands,
            laterWhole⟩ := ih _ (by omega) (i + build.instLen) rfl
          rw [writtenFrom_taken taken, same, laterSame, next, ← laterWhole, whole.mpr within,
            encode_nil, append_nil, ← append_assoc]
          refine ⟨_, laterExtra, rfl, piece.trans laterPiece, laterStands, ?_⟩
          exact ⟨fun none => ⟨fun _ => within, none⟩, fun both => both.2⟩
        · have last := @Piece.at_end str (i + build.instLen) str.length (by omega) (Nat.le_refl _)
          have ends := piece.trans last
          rw [append_nil] at ends
          rw [writtenFrom_taken taken, writtenFrom_end (by omega), append_nil]
          refine ⟨text, extra, same, ends, stands, ?_⟩
          exact ⟨fun none => absurd (whole.mp none) within,
            fun both => absurd (both.1 taken) within⟩
      · have next : scanNext rawChar build str after i = blockEnd rawChar build str i := by
          rw [scanNext, if_neg taken]
        have advances := @lt_blockEnd rawChar build str i (by omega)
        obtain ⟨text, extra, same, piece, stands, whole⟩ :=
          ih _ (by omega) (blockEnd rawChar build str i) rfl
        rw [writtenFrom_block (Bool.eq_false_iff.mpr taken), same, next, ← whole, ← append_assoc]
        refine ⟨_, extra, rfl, (block_piece (str.length + 1) 0 i).trans piece, stands, ?_⟩
        exact ⟨fun none => ⟨fun never => absurd never taken, none⟩, fun both => both.2⟩

end

/-- Whenever a raw string is written, it is well-formed UTF-8 and the body of a
JSON string that stands for what is read from the string, exactly when every
chunk that is taken over ends within the string. -/
theorem raw_output_is_faithful (build : Build) (str : List Byte)
    (after : Nat → Byte) (size off : Nat) (signedChar : Bool) (out : List Byte)
    (written : writeStr build str after size off signedChar false = some out) :
    (∃ body text, out = encode body ∧ unescape body = some text ∧
        Reads str text ∧ ∀ exact, str = encode exact → text = exact) ↔
      ∀ tests, Inside build str after ((scanNext rawChar build str after)^[tests] 0) := by
  obtain ⟨text, extra, same, ⟨part, value, partText, stands, reads⟩, plain,
    whole⟩ := @writtenFrom_piece build str after 0
  have bytes : out = encode (part ++ extra) := by
    rw [writeStr_eq] at written
    dsimp only at written
    split at written
    · cases written
    · rw [← Option.some.inj written, encode_append, ← partText]
      exact same
  have read : Reads str value := by
    have all := reads [] (by rw [drop_length]; exact .nil)
    rwa [append_nil, drop_zero] at all
  have value_extra : unescape (part ++ extra) = some (value ++ extra) := by
    have last := unescapes_of_plain plain [] [] rfl
    rw [append_nil] at last
    exact stands _ _ last
  rw [← whole]
  constructor
  · intro faithful
    obtain ⟨body, read_text, encoded, unescaped, reads_text, _⟩ := faithful
    have bodies := encode_injective (encoded.symm.trans bytes)
    rw [bodies, value_extra] at unescaped
    have texts := reads_text.unique read
    rw [← Option.some.inj unescaped] at texts
    exact append_right_eq_self.mp texts
  · rintro rfl
    rw [append_nil] at bytes value_extra
    rw [append_nil] at value_extra
    refine ⟨part, value, bytes, value_extra, read, ?_⟩
    intro exact valid
    have exactly := @Reads.encode_append exact [] [] .nil
    rw [append_nil, append_nil, ← valid] at exactly
    exact read.unique exactly

/-- A character of two bytes, a quote, and a byte that starts no character. -/
theorem raw_output_is_faithful_mixed :
    writeStr .sse2 [0xC3, 0xA9, 34, 0xFF] (fun _ => 88) 100 0 true false =
        some [0xC3, 0xA9, 92, 34, 0xEF, 0xBF, 0xBD] ∧
      ∃ body text, [0xC3, 0xA9, 92, 34, 0xEF, 0xBF, 0xBD] = encode body ∧
        unescape body = some text ∧ Reads [0xC3, 0xA9, 34, 0xFF] text ∧
        ∀ exact, [0xC3, 0xA9, 34, 0xFF] = encode exact → text = exact := by
  have written :
      writeStr .sse2 [0xC3, 0xA9, 34, 0xFF] (fun _ => 88) 100 0 true false =
        some [0xC3, 0xA9, 92, 34, 0xEF, 0xBF, 0xBD] := by
    decide
  refine ⟨written, (raw_output_is_faithful _ _ _ _ _ _ _ written).mpr ?_⟩
  intro tests taken
  -- A string of four bytes has no whole chunk.
  rw [takesOver, Bool.and_eq_true, decide_eq_true_eq] at taken
  exact absurd taken.1 (Nat.not_lt_zero _)

/-- The byte behind the string is written as if it were part of it. -/
theorem raw_output_has_more :
    writeStr .sse2 overrunning (fun _ => 88) 200 0 true false = some (overrunning ++ [88]) ∧
      ¬ ∃ body text, overrunning ++ [88] = encode body ∧
        unescape body = some text ∧ Reads overrunning text ∧
        ∀ exact, overrunning = encode exact → text = exact := by
  refine ⟨by decide, ?_⟩
  rintro ⟨body, text, encoded, unescaped, _, exactly⟩
  have same : text = Char.ofNat 0xE9 :: List.replicate 30 'a' := exactly _ rfl
  have bodies : body = Char.ofNat 0xE9 :: List.replicate 30 'a' ++ ['X'] :=
    encode_injective (encoded.symm.trans rfl)
  rw [same, bodies] at unescaped
  exact absurd unescaped (by decide)

/-- The bytes are fed one by one: the code points that are accepted, if no byte is rejected and
the last state is 0. -/
def feed (decoder : Decoder) : List Byte → Option (List Nat)
  | [] => if decoder.state = 0 then some [] else none
  | byte :: bytes =>
    match utf8Decode decoder byte with
    | (.accept, next) => (feed next bytes).map (next.codep :: ·)
    | (.reject, _) => none
    | (.continue, next) => feed next bytes

/-- The bytes are fed until one is accepted: the code point and the bytes behind it. -/
def feedOne (decoder : Decoder) : List Byte → Option (Nat × List Byte)
  | [] => none
  | byte :: bytes =>
    match utf8Decode decoder byte with
    | (.accept, next) => some (next.codep, bytes)
    | (.reject, _) => none
    | (.continue, next) => feedOne next bytes

/-- How many bytes belong to a lead byte, and the bits it gives. -/
def leadBits (byte : Byte) : Option (Nat × Nat) :=
  if byte.toNat < 128 then some (0, byte.toNat)
  else if byte.toNat < 192 then none
  else if byte.toNat < 224 then some (1, byte.toNat - 192)
  else if byte.toNat < 240 then some (2, byte.toNat - 224)
  else if byte.toNat < 248 then some (3, byte.toNat - 240)
  else none

/-- So many continuation bytes add their bits to those in front of them. -/
inductive Extends : Nat → Nat → List Byte → Nat → Prop where
  | done {bits : Nat} : Extends 0 bits [] bits
  | next {count bits value : Nat} {byte : Byte} {seq : List Byte}
      (continuation : isContinuation byte = true)
      (later : Extends count (bits * 64 + (byte.toNat - 128)) seq value) :
      Extends (count + 1) bits (byte :: seq) value

/-- A sequence with the bit pattern of UTF-8 and the code point that it gives. -/
inductive Shaped : List Byte → Nat → Prop where
  | intro {byte : Byte} {seq : List Byte} {count bits value : Nat}
      (lead : leadBits byte = some (count, bits)) (more : Extends count bits seq value) :
      Shaped (byte :: seq) value

/-- The bytes give the characters, each by a sequence that may be longer than needed. -/
inductive Gives : List Byte → List Char → Prop where
  | nil : Gives [] []
  | cons {seq bytes : List Byte} {char : Char} {text : List Char}
      (shaped : Shaped seq char.toNat) (later : Gives bytes text) :
      Gives (seq ++ bytes) (char :: text)

variable {bytes rest seq : List Byte} {count bits value codep : Nat} {decoder : Decoder}
  {text : List Char}

theorem Extends.unique {other : Nat} (extension : Extends count bits seq value)
    (second : Extends count bits seq other) : value = other := by
  induction extension with
  | done =>
    cases second
    rfl
  | next _ _ ih =>
    cases second with
    | next _ later => exact ih later

theorem Shaped.unique {other : Nat} (shaped : Shaped seq value) (second : Shaped seq other) :
    value = other := by
  obtain ⟨lead, more⟩ := shaped
  obtain ⟨again, others⟩ := second
  rw [lead] at again
  cases again
  exact more.unique others

theorem extends_byte (small : value < 64) {later : List Byte} {result : Nat}
    (more : Extends count (bits * 64 + value) later result) :
    Extends (count + 1) bits (UInt8.ofNat (value + 128) :: later) result := by
  have byte : (UInt8.ofNat (value + 128)).toNat = value + 128 := toNat_ofNat (by omega)
  refine .next ((isContinuation_iff _).mpr (by omega)) ?_
  rwa [byte, Nat.add_sub_cancel]

theorem shaped_utf8EncodeChar (char : Char) : Shaped (utf8EncodeChar char) char.toNat := by
  have range := char.valid
  have same : char.val.toNat = char.toNat := rfl
  have done : ∀ {bits}, bits = char.toNat → Extends 0 bits [] char.toNat := by
    rintro _ rfl
    exact .done
  rw [utf8EncodeChar_eq]
  split
  · refine @Shaped.intro _ _ 0 char.toNat _ ?_ .done
    rw [leadBits, toNat_ofNat (by omega), if_pos (by omega)]
  · split
    · refine @Shaped.intro _ _ 1 (char.toNat / 64) _ ?_ (extends_byte ?_ (done ?_))
      · rw [leadBits, toNat_ofNat (by omega), if_neg (by omega), if_neg (by omega),
          if_pos (by omega), Nat.add_sub_cancel, Nat.mod_eq_of_lt (by omega)]
      all_goals omega
    · split
      · refine @Shaped.intro _ _ 2 (char.toNat / 4096) _ ?_
          (extends_byte ?_ (extends_byte ?_ (done ?_)))
        · rw [leadBits, toNat_ofNat (by omega), if_neg (by omega), if_neg (by omega),
            if_neg (by omega), if_pos (by omega), Nat.add_sub_cancel, Nat.mod_eq_of_lt (by omega)]
        all_goals omega
      · refine @Shaped.intro _ _ 3 (char.toNat / 262144) _ ?_
          (extends_byte ?_ (extends_byte ?_ (extends_byte ?_ (done ?_))))
        · rw [leadBits, toNat_ofNat (by omega), if_neg (by omega), if_neg (by omega),
            if_neg (by omega), if_neg (by omega), if_pos (by omega), Nat.add_sub_cancel,
            Nat.mod_eq_of_lt (by omega)]
        all_goals omega

theorem gives_encode (text : List Char) : Gives (encode text) text := by
  induction text with
  | nil => exact .nil
  | cons char text ih => exact .cons (shaped_utf8EncodeChar char) ih

theorem answer_complete :
    (bits.isValidChar → Decoder.answer { state := 0, codep := bits } =
      (.accept, { state := 0, codep := bits })) ∧
    (¬bits.isValidChar → Decoder.answer { state := 0, codep := bits } =
      (.reject, { state := 1, codep := bits })) := by
  simp only [Nat.isValidChar, Decoder.answer, if_true]
  constructor
  · intro valid
    rw [if_neg (by omega), if_neg (by omega)]
  · intro invalid
    split
    · rfl
    · rw [if_pos (by omega)]

theorem utf8Decode_first (byte : Byte) :
    utf8Decode { state := 0, codep := codep } byte =
      match leadBits byte with
      | none => (.reject, { state := 1, codep := codep })
      | some (count, bits) => Decoder.answer { state := count, codep := bits } := by
  have bits : ∀ mask : Byte, (byte &&& mask).toNat = byte.toNat &&& mask.toNat :=
    UInt8.toNat_and byte
  have two : byte.toNat &&& 31 = byte.toNat % 32 := Nat.and_two_pow_sub_one_eq_mod _ 5
  have three : byte.toNat &&& 15 = byte.toNat % 16 := Nat.and_two_pow_sub_one_eq_mod _ 4
  have four : byte.toNat &&& 7 = byte.toNat % 8 := Nat.and_two_pow_sub_one_eq_mod _ 3
  simp only [utf8Decode, leadsTwo_iff, leadsThree_iff, leadsFour_iff, UInt8.le_iff_toNat_le,
    UInt8.reduceToNat, bits, two, three, four, leadBits, if_true]
  split_ifs <;> try omega
  · exact (answer_complete.1 (.inl (by omega))).symm
  · rw [show byte.toNat % 32 = byte.toNat - 192 by omega]
  · rw [show byte.toNat % 16 = byte.toNat - 224 by omega]
  · rw [show byte.toNat % 8 = byte.toNat - 240 by omega]
  all_goals rfl

theorem utf8Decode_next (byte : Byte) :
    utf8Decode { state := count + 1, codep := bits } byte =
      if isContinuation byte then
        Decoder.answer { state := count, codep := bits * 64 + (byte.toNat - 128) }
      else (.reject, { state := 1, codep := bits }) := by
  have low : (byte &&& 0x3F).toNat = byte.toNat % 64 := by
    exact Nat.and_two_pow_sub_one_eq_mod _ 6
  rw [utf8Decode, if_neg (Nat.succ_ne_zero count)]
  by_cases continuation : isContinuation byte = true
  · have range := (isContinuation_iff byte).mp continuation
    have value : byte.toNat % 64 = byte.toNat - 128 := by omega
    rw [if_pos continuation, if_pos (of_decide_eq_true continuation), low, value]
    rfl
  · rw [if_neg continuation, if_neg fun same => continuation (decide_eq_true same)]

def afterAnswer (answer : Utf8Result × Decoder) (bytes : List Byte) : Option (Nat × List Byte) :=
  match answer with
  | (.accept, next) => some (next.codep, bytes)
  | (.reject, _) => none
  | (.continue, next) => feedOne next bytes

theorem feedOne_cons (byte : Byte) :
    feedOne decoder (byte :: bytes) = afterAnswer (utf8Decode decoder byte) bytes :=
  rfl

theorem afterAnswer_iff :
    afterAnswer (Decoder.answer { state := count, codep := bits }) bytes = some (value, rest) ↔
      ∃ seq, bytes = seq ++ rest ∧ Extends count bits seq value ∧ value.isValidChar := by
  induction count generalizing bits bytes with
  | zero =>
    by_cases valid : bits.isValidChar
    · rw [answer_complete.1 valid, afterAnswer, some.injEq, Prod.mk.injEq]
      constructor
      · rintro ⟨rfl, rfl⟩
        exact ⟨[], rfl, .done, valid⟩
      · rintro ⟨_, same, ⟨⟩, _⟩
        exact ⟨rfl, same⟩
    · rw [answer_complete.2 valid, afterAnswer]
      refine iff_of_false (by rintro ⟨⟩) ?_
      rintro ⟨_, _, ⟨⟩, other⟩
      exact valid other
  | succ count ih =>
    change feedOne { state := count + 1, codep := bits } bytes = _ ↔ _
    cases bytes with
    | nil =>
      refine iff_of_false (by rintro ⟨⟩) ?_
      rintro ⟨_, same, ⟨⟩, _⟩
      cases same
    | cons byte bytes =>
      rw [feedOne_cons, utf8Decode_next]
      split
      · next continuation =>
        rw [ih]
        constructor
        · rintro ⟨seq, rfl, more, valid⟩
          exact ⟨byte :: seq, rfl, .next continuation more, valid⟩
        · rintro ⟨_, same, _ | ⟨_, more⟩, valid⟩
          cases same
          exact ⟨_, rfl, more, valid⟩
      · next other =>
        refine iff_of_false (by rintro ⟨⟩) ?_
        rintro ⟨_, same, _ | ⟨continuation, _⟩, _⟩
        cases same
        exact other continuation

theorem feedOne_iff :
    feedOne { state := 0, codep := codep } bytes = some (value, rest) ↔
      ∃ seq, bytes = seq ++ rest ∧ Shaped seq value ∧ value.isValidChar := by
  cases bytes with
  | nil =>
    refine iff_of_false (by rintro ⟨⟩) ?_
    rintro ⟨_, same, ⟨_, _⟩, _⟩
    cases same
  | cons byte bytes =>
    rw [feedOne_cons, utf8Decode_first]
    cases lead : leadBits byte with
    | none =>
      refine iff_of_false (by rintro ⟨⟩) ?_
      rintro ⟨_, same, ⟨found, _⟩, _⟩
      cases same
      rw [lead] at found
      cases found
    | some pair =>
      rw [afterAnswer_iff]
      constructor
      · rintro ⟨seq, rfl, more, valid⟩
        exact ⟨byte :: seq, rfl, .intro lead more, valid⟩
      · rintro ⟨_, same, ⟨found, more⟩, valid⟩
        cases same
        rw [lead] at found
        cases found
        exact ⟨_, rfl, more, valid⟩

theorem utf8Decode_state (byte : Byte) :
    ((utf8Decode decoder byte).1 = .accept → (utf8Decode decoder byte).2.state = 0) ∧
      ((utf8Decode decoder byte).1 = .continue → (utf8Decode decoder byte).2.state ≠ 0) := by
  rw [utf8Decode]
  simp only [Decoder.answer]
  split_ifs <;> simp_all

theorem feed_eq (unfinished : decoder.state ≠ 0 ∨ bytes ≠ []) :
    feed decoder bytes = (feedOne decoder bytes).bind fun found =>
      (feed { state := 0, codep := found.1 } found.2).map (found.1 :: ·) := by
  induction bytes generalizing decoder with
  | nil =>
    rw [feed, if_neg (unfinished.resolve_right fun some => some rfl)]
    rfl
  | cons byte bytes ih =>
    have states := @utf8Decode_state decoder byte
    rw [feed, feedOne]
    generalize utf8Decode decoder byte = answer at states ⊢
    rcases answer with ⟨_ | _ | _, next⟩
    · have zero : next.state = 0 := states.1 rfl
      rw [bind_some, ← zero]
    · rfl
    · exact ih (.inl (states.2 rfl))

theorem Shaped.ne_nil (shaped : Shaped seq value) : seq ≠ [] := by
  cases shaped
  exact cons_ne_nil _ _

theorem feed_of_gives (gives : Gives bytes text) (codep : Nat) :
    feed { state := 0, codep := codep } bytes = some (text.map Char.toNat) := by
  induction gives generalizing codep with
  | nil => rfl
  | @cons seq bytes char text shaped _ ih =>
    have found : feedOne { state := 0, codep := codep } (seq ++ bytes) = some (char.toNat, bytes) :=
      feedOne_iff.mpr ⟨seq, rfl, shaped, char.valid⟩
    rw [feed_eq (.inr (append_ne_nil_of_left_ne_nil shaped.ne_nil _)), found, bind_some, ih]
    rfl

theorem gives_of_feed {points : List Nat}
    (fed : feed { state := 0, codep := codep } bytes = some points) :
    ∃ text, Gives bytes text ∧ points = text.map Char.toNat := by
  induction size : bytes.length using Nat.strong_induction_on generalizing bytes codep points with
  | _ size ih =>
    by_cases empty : bytes = []
    · subst bytes
      cases fed
      exact ⟨[], .nil, rfl⟩
    · rw [feed_eq (.inr empty)] at fed
      obtain ⟨⟨value, rest⟩, found, mapped⟩ := bind_eq_some_iff.mp fed
      obtain ⟨later, fedLater, rfl⟩ := map_eq_some_iff.mp mapped
      obtain ⟨seq, rfl, shaped, valid⟩ := feedOne_iff.mp found
      obtain ⟨char, rfl⟩ := exists_char valid
      have positive := length_pos_of_ne_nil shaped.ne_nil
      rw [length_append] at size
      obtain ⟨text, gives, rfl⟩ := ih rest.length (by omega) fedLater rfl
      exact ⟨char :: text, .cons shaped gives, rfl⟩

theorem validated_iff (some : seq ≠ []) :
    utf8ValidateChar (seq ++ rest) (seq ++ rest).length = seq.length ↔
      ∃ char, utf8EncodeChar char = seq := by
  constructor
  · intro valid
    cases seq with
    | nil => exact absurd rfl some
    | cons c more =>
      by_cases high : 128 ≤ c.toNat
      · have length : utf8ValidateChar (c :: (more ++ rest)) ((more ++ rest).length + 1) =
            (c :: more).length := valid
        obtain ⟨_, sequence⟩ :=
          sequence_of_validated high (by rw [length]; exact Nat.succ_ne_zero _)
        rw [length, ← cons_append, take_left] at sequence
        obtain ⟨char, same, _⟩ := sequence.encodes
        exact ⟨char, same⟩
      · have one : utf8ValidateChar (c :: more ++ rest) (c :: more ++ rest).length = 1 := by
          rw [utf8ValidateChar, if_neg (by simp), if_pos]
          exact Nat.le_of_lt_succ (Nat.lt_of_not_le high)
        obtain rfl : more = [] := by
          rw [one, length_cons] at valid
          exact eq_nil_of_length_eq_zero (by omega)
        obtain ⟨char, value⟩ := @exists_char c.toNat (.inl (by omega))
        refine ⟨char, ?_⟩
        rw [utf8EncodeChar_eq, if_pos (by omega), ofNat_eq c value]
  · rintro ⟨char, rfl⟩
    by_cases large : 128 ≤ char.toNat
    · rw [length_append]
      exact (sequence_utf8EncodeChar large).validated rest
    · rw [utf8EncodeChar_eq, if_pos (by omega), utf8ValidateChar, if_neg (by simp), if_pos]
      · rfl
      · rw [singleton_append, getD_cons_zero, UInt8.le_iff_toNat_le, toNat_ofNat (by omega)]
        exact Nat.le_of_lt_succ (Nat.lt_of_not_le large)

/-- The decoder accepts exactly the well-formed strings, with the code points they encode, among
those in which every character has its shortest sequence; and both functions accept the same
sequence at a place exactly when it is the shortest one. -/
theorem decodes_iff_shortest (codep : Nat) (bytes : List Byte) :
    ((∀ points, feed { state := 0, codep := codep } bytes = some points ↔
        ∃ text, encode text = bytes ∧ points = text.map Char.toNat) ↔
      ∀ text, Gives bytes text → encode text = bytes) ∧
    ((∀ seq rest, seq ≠ [] → bytes = seq ++ rest →
        (utf8ValidateChar bytes bytes.length = seq.length ↔
          ∃ value, feedOne { state := 0, codep := codep } bytes = some (value, rest))) ↔
      ∀ seq rest char, bytes = seq ++ rest → Shaped seq char.toNat →
        utf8EncodeChar char = seq) := by
  constructor
  · constructor
    · intro decodes text gives
      obtain ⟨other, whole, same⟩ := (decodes _).mp (feed_of_gives gives codep)
      rwa [map_injective_iff.mpr (fun _ _ => Char.toNat_inj.mp) same]
    · intro shortest points
      constructor
      · intro fed
        obtain ⟨text, gives, same⟩ := gives_of_feed fed
        exact ⟨text, shortest text gives, same⟩
      · rintro ⟨text, rfl, rfl⟩
        exact feed_of_gives (gives_encode text) codep
  · constructor
    · intro agree seq rest char split shaped
      have accepted := (agree seq rest shaped.ne_nil split).mpr
        ⟨_, feedOne_iff.mpr ⟨seq, split, shaped, char.valid⟩⟩
      subst split
      obtain ⟨other, rfl⟩ := (validated_iff shaped.ne_nil).mp accepted
      rw [Char.toNat_inj.mp (shaped.unique (shaped_utf8EncodeChar other))]
    · intro shortest seq rest some split
      subst split
      rw [validated_iff some]
      constructor
      · rintro ⟨char, rfl⟩
        exact ⟨_, feedOne_iff.mpr ⟨_, rfl, shaped_utf8EncodeChar char, char.valid⟩⟩
      · rintro ⟨value, found⟩
        obtain ⟨_, same, shaped, valid⟩ := feedOne_iff.mp found
        cases append_cancel_right same
        obtain ⟨char, rfl⟩ := exists_char valid
        exact ⟨char, shortest seq rest char rfl shaped⟩

/-- The two bytes C0 80 are no encoding of a text, but the decoder takes them for U+0000. -/
theorem overlong_is_decoded :
    feed { state := 0, codep := 0 } [0xC0, 0x80] = some [0] ∧
      utf8ValidateChar [0xC0, 0x80] 2 = 0 ∧ ¬∃ text, encode text = [0xC0, 0x80] := by
  refine ⟨by decide, by decide, ?_⟩
  rintro ⟨text, same⟩
  cases text with
  | nil => cases same
  | cons char text =>
    have none : StartsNone [0xC0, 0x80] := startsNone_of_not_validated (by decide) (by decide)
    exact none char ⟨encode text, same⟩

end FluentBit.WriteStr
