import FluentBit.Simd
import Mathlib.Order.Iterate

/-!
# Writing JSON strings

`flb_utils_write_str`: the bytes of a string are written to a buffer with the
escapes of JSON.  A vector loop takes over whole chunks as long as it finds no
special byte; then a block of characters is written one by one, and the vector
loop starts again where the block ends.  It writes what the characters would as
long as the chunks it takes over end within the string and have no byte 0x7F:
its test does not look for that byte, and behind a character of several bytes a
chunk can reach over the end.
-/

namespace FluentBit.WriteStr

open Simd

def hexDigit (value : Nat) : Byte := UInt8.ofNat (if value < 10 then 48 + value else 87 + value)

/-- What `"\\u%.4x"` prints: at least four digits. -/
def unicodeEscape (codepoint : Nat) : List Byte :=
  let digits := (Nat.toDigits 16 codepoint).map fun digit =>
    UInt8.ofNat digit.toNat
  [92, 117] ++ List.replicate (4 - digits.length) 48 ++ digits

def jsonEscapeTable (c : Byte) : Option (List Byte) :=
  if c = 34 then some [92, 34]
  else if c = 92 then some [92, 92]
  else if c = 10 then some [92, 110]
  else if c = 13 then some [92, 114]
  else if c = 9 then some [92, 116]
  else if c = 8 then some [92, 98]
  else if c = 12 then some [92, 102]
  else if c < 0x20 ∨ c = 0x7F then
    some [92, 117, 48, 48, hexDigit (c.toNat / 16), hexDigit (c.toNat % 16)]
  else none

def replacement : List Byte := [0xEF, 0xBF, 0xBD]

/-- What is done for a character: what is written, by how much `i` grows, the
counter of the block, and whether the block is left. -/
structure Step where
  text : List Byte
  used : Nat
  counter : Nat
  leave : Bool
  advances : 0 < used

/-- A byte that is written in one way or the other. -/
def single (text : List Byte) (counter : Nat) : Step :=
  { text := text, used := 1, counter := counter, leave := false, advances := Nat.one_pos }

def isContinuation (byte : Byte) : Bool :=
  decide (byte &&& 0xC0 = 0x80)

/-- The length that the first byte announces, 0 when it or the second one rules
a character out. -/
def announced (str : List Byte) (maxLen : Nat) : Nat :=
  let c := str.getD 0 0
  let second := str.getD 1 0
  if c &&& 0xE0 = 0xC0 then
    if c < 0xC2 then 0 else 2
  else if c &&& 0xF0 = 0xE0 then
    if 1 < maxLen ∧ c = 0xE0 ∧ second < 0xA0 then 0
    else if 1 < maxLen ∧ c = 0xED ∧ 0xA0 ≤ second then 0
    else 3
  else if c &&& 0xF8 = 0xF0 then
    if 1 < maxLen ∧ c = 0xF0 ∧ second < 0x90 then 0
    else if 0xF4 < c then 0
    else if 1 < maxLen ∧ c = 0xF4 ∧ 0x8F < second then 0
    else 4
  else 0

def utf8ValidateChar (str : List Byte) (maxLen : Nat) : Nat :=
  if maxLen < 1 then 0
  else if str.getD 0 0 ≤ 0x7F then 1
  else
    let len := announced str maxLen
    if len = 0 ∨ maxLen < len then 0
    else if ((str.take len).drop 1).all isContinuation then len
    else 0

/-- A round of the character loop of `flb_utils_write_str_raw`, for the byte at
`i` and those behind it. -/
def rawChar (c : Byte) (more : List Byte) (b : Nat) : Step :=
  match jsonEscapeTable c with
  | some seq => single seq b
  | none =>
    if c < 0x80 then single [c] b
    else
      let utfLen := utf8ValidateChar (c :: more) (more.length + 1)
      if valid : utfLen = 0 ∨ more.length + 1 < utfLen then
        single replacement b
      else
        { text := (c :: more).take utfLen
          used := utfLen
          counter := b
          leave := false
          advances := Nat.pos_of_ne_zero fun zero => valid (.inl zero) }

inductive Utf8Result where
  | accept
  | reject
  | continue
  deriving DecidableEq

def utf8Len (c : Byte) : Nat :=
  if c < 0xC0 then 1
  else if c < 0xE0 then 2
  else if c < 0xF0 then 3
  else if c < 0xF8 then 4
  else if c < 0xFC then 5
  else 6

/-- The variables `state` and `codep` of the decoder. -/
structure Decoder where
  state : Nat
  codep : Nat

/-- What `flb_utf8_decode` answers once the bytes are counted. -/
def Decoder.answer (decoder : Decoder) : Utf8Result × Decoder :=
  if decoder.state = 0 then
    if 0xD800 ≤ decoder.codep ∧ decoder.codep ≤ 0xDFFF then
      (.reject, { decoder with state := 1 })
    else if 0x10FFFF < decoder.codep then
      (.reject, { decoder with state := 1 })
    else (.accept, decoder)
  else (.continue, decoder)

def utf8Decode (decoder : Decoder) (byte : Byte) : Utf8Result × Decoder :=
  if decoder.state = 0 then
    if byte ≤ 0x7F then (.accept, { decoder with codep := byte.toNat })
    else if byte &&& 0xE0 = 0xC0 then
      Decoder.answer { state := 1, codep := (byte &&& 0x1F).toNat }
    else if byte &&& 0xF0 = 0xE0 then
      Decoder.answer { state := 2, codep := (byte &&& 0x0F).toNat }
    else if byte &&& 0xF8 = 0xF0 then
      Decoder.answer { state := 3, codep := (byte &&& 0x07).toNat }
    else (.reject, { decoder with state := 1 })
  else if byte &&& 0xC0 = 0x80 then
    Decoder.answer
      { state := decoder.state - 1, codep := decoder.codep * 64 + (byte &&& 0x3F).toNat }
  else (.reject, { decoder with state := 1 })

/-- The decoding loop where `char` is unsigned.  Its counter is the counter `b`
of the block: the decoder, the number of bytes and `b` at the end. -/
def decodeCounting (hexBytes : Nat) : Nat → Decoder → List Byte → Decoder × Nat × Nat
  | b, decoder, [] => (decoder, b, b)
  | b, decoder, byte :: bytes =>
    match utf8Decode decoder byte with
    | (.accept, decoder) =>
      if b + 1 = hexBytes then (decoder, b + 1, b)
      else decodeCounting hexBytes (b + 1) decoder bytes
    | (.reject, decoder) => (decoder, b + 1, b)
    | (.continue, decoder) => decodeCounting hexBytes (b + 1) decoder bytes

/-- A byte from 0x80 on where `char` is unsigned.  Behind a sequence `i` grows
by one more than its bytes. -/
def escapedUnsigned (c : Byte) (more : List Byte) (b : Nat) : Step :=
  let hexBytes := utf8Len c
  if hexBytes = 0 ∨ more.length + 1 < hexBytes then single replacement b
  else
    let (decoder, processed, counter) :=
      decodeCounting hexBytes 0 { state := 0, codep := 0 } ((c :: more).take hexBytes)
    { text := if decoder.state = 0 then unicodeEscape decoder.codep else []
      used := processed + 1
      counter := counter
      leave := false
      advances := Nat.succ_pos processed }

/-- The decoding loop where `char` is signed: the code point of a valid sequence
or nothing, and the bytes in front of the one that was rejected. -/
def decodeSequence : Decoder → List Byte → Option Nat × List Byte
  | decoder, [] => (some decoder.codep, [])
  | decoder, byte :: bytes =>
    match utf8Decode decoder byte with
    | (.reject, _) => (none, [])
    | (_, decoder) =>
      let (codepoint, read) := decodeSequence decoder bytes
      (codepoint, byte :: read)

/-- `FLB_UTILS_FRAGMENT_PRIVATE_BLOCK_DESCRIPTOR`. -/
def privateBlock : Byte := 0xE0

/-- A fragment of an invalid sequence, as a code point from U+E000 on. -/
def privateFragment (byte : Byte) : List Byte :=
  [(0xE0 : Byte) ||| (privateBlock >>> 4),
    (0x80 : Byte) ||| ((privateBlock <<< 2) &&& (0x3F : Byte)) ||| ((byte >>> 6) &&& (0x03 : Byte)),
    (0x80 : Byte) ||| (byte &&& 0x3F)]

/-- Code points above 0xFFFF are two surrogates. -/
def codepointEscape (codepoint : Nat) : List Byte :=
  if 0xFFFF < codepoint then
    unicodeEscape (0xD800 + (codepoint - 0x10000) / 1024) ++
      unicodeEscape (0xDC00 + (codepoint - 0x10000) % 1024)
  else unicodeEscape codepoint

/-- A byte from 0x80 on where `char` is signed.  A truncated sequence leaves the
block; the fragments of an invalid one are counted with the counter of the
block, and the byte that was rejected is looked at again unless it was the
first.  The check for `utf_sequence_length` bytes of room in front of the
escapes asks for less than the check behind it. -/
def escapedSigned (c : Byte) (more : List Byte) (b : Nat) : Step :=
  let length := utf8Len c
  if more.length + 1 < length then
    { text := [], used := 1, counter := b, leave := true, advances := Nat.one_pos }
  else
    match utf8Decode { state := 0, codep := 0 } c with
    | (.reject, _) => single (privateFragment c) 1
    | (_, decoder) =>
      let (codepoint, read) := decodeSequence decoder (more.take (length - 1))
      match codepoint with
      | some codepoint =>
        { text := codepointEscape codepoint
          used := read.length + 1
          counter := b
          leave := false
          advances := Nat.succ_pos _ }
      | none =>
        { text := (c :: read).flatMap privateFragment
          used := read.length + 1
          counter := read.length + 1
          leave := false
          advances := Nat.succ_pos _ }

/-- A round of the character loop of `flb_utils_write_str_escaped`.  `c` is a
`char` converted to 32 bits: a byte from 0x80 on is above 0xFFFF where `char` is
signed. -/
def escapedChar (signedChar : Bool) (c : Byte) (more : List Byte) (b : Nat) : Step :=
  match jsonEscapeTable c with
  | some seq => single seq b
  | none =>
    if c < 0x80 then single [c] b
    else if signedChar then escapedSigned c more b
    else escapedUnsigned c more b

/-- What was written, and the room that is left. -/
structure Output where
  written : List Byte
  available : Nat

def put (output : Output) (text : List Byte) : Option Output :=
  if output.available < text.length then none
  else
    some
      { written := output.written ++ text, available := output.available - text.length }

def byteAt (str : List Byte) (after : Nat → Byte) (index : Nat) : Byte :=
  match str[index]? with
  | some byte => byte
  | none => after (index - str.length)

def memoryAt (str : List Byte) (after : Nat → Byte) (i length : Nat) : List Byte :=
  (List.range length).map fun k => byteAt str after (i + k)

section
variable (char : Byte → List Byte → Nat → Step) (build : Build)
  (str : List Byte) (after : Nat → Byte)

/-- The length rounded down to whole chunks. -/
def vlen : Nat := str.length - str.length % build.instLen

/-- The chunk at `i` is taken over by the vector loop. -/
def takesOver (i : Nat) : Bool :=
  decide (i < vlen build str) && !special build (memoryAt str after i build.instLen)

/-- The vector loop, with a bound on the number of chunks. -/
def vectorLoop : Nat → Nat → Nat
  | 0, i => i
  | chunks + 1, i =>
    if takesOver build str after i then vectorLoop chunks (i + build.instLen)
    else i

/-- The loop over the characters of a block, with a bound on their number: the
flag is set at the end of the string. -/
def charLoop : Nat → Nat → Nat → Output → Option (Bool × Nat × Output)
  | 0, _, i, output => some (false, i, output)
  | chars + 1, b, i, output =>
    if b < build.instLen then
      match str.drop i with
      | [] => some (true, i, output)
      | c :: more =>
        let step := char c more b
        match put output step.text with
        | none => none
        | some output =>
          if step.leave then some (false, i + step.used, output)
          else charLoop chars (step.counter + 1) (i + step.used) output
    else some (false, i, output)

/-- The outer loop, with a bound on the number of blocks.  `copypos` is `i` at
the beginning of each round. -/
def writeLoop : Nat → Nat → Output → Option Output
  | 0, _, output => some output
  | blocks + 1, copypos, output =>
    let i := vectorLoop build str after str.length copypos
    match put output (memoryAt str after copypos (i - copypos)) with
    | none => none
    | some output =>
      match charLoop char build str (str.length + 1) 0 i output with
      | none => none
      | some (true, _, output) => some output
      | some (false, i, output) => writeLoop blocks i output

end

section
variable (build : Build) (str : List Byte) (after : Nat → Byte) (size off : Nat)

/-- `flb_utils_write_str_raw`: the bytes written at `off`, or nothing when it
returns false.  Every block has a byte of the string, so the bounds of the loops
are not reached.  The indexes are naturals: the string is shorter than 2^31
bytes, as the `int` indexes of the source need it. -/
def writeStrRaw : Option (List Byte) :=
  (writeLoop rawChar build str after (str.length + 1) 0
    { written := [], available := size - off }).map Output.written

/-- `flb_utils_write_str_escaped`, for strings of the same lengths. -/
def writeStrEscaped (signedChar : Bool) : Option (List Byte) :=
  if size - off < str.length then none
  else
    (writeLoop (escapedChar signedChar) build str after (str.length + 1) 0
      { written := [], available := size - off }).map Output.written

def writeStr (signedChar escapeUnicode : Bool) : Option (List Byte) :=
  if escapeUnicode then writeStrEscaped build str after size off signedChar
  else writeStrRaw build str after size off

end

open List

section
variable (str : List Byte) (after : Nat → Byte)

theorem memoryAt_succ (i length : Nat) :
    memoryAt str after i (length + 1) =
      byteAt str after i :: memoryAt str after (i + 1) length := by
  rw [memoryAt, range_succ_eq_map, map_cons, map_map, memoryAt]
  congr 1
  apply map_congr_left
  intro k _
  rw [Function.comp_apply, Nat.succ_eq_add_one, Nat.add_assoc, Nat.add_comm 1]

theorem memoryAt_append (i first second : Nat) :
    memoryAt str after i (first + second) =
      memoryAt str after i first ++ memoryAt str after (i + first) second := by
  induction first generalizing i with
  | zero => rw [Nat.zero_add]; rfl
  | succ first ih =>
    rw [Nat.succ_add_eq_add_succ, Nat.add_succ, memoryAt_succ, ih,
      memoryAt_succ, cons_append, Nat.add_right_comm, Nat.add_assoc]

variable {str after}

theorem byteAt_of_drop {i : Nat} {c : Byte} {more : List Byte} (found : str.drop i = c :: more) :
    byteAt str after i = c := by
  have there : str[i]? = some c := by rw [← List.head?_drop, found, List.head?_cons]
  rw [byteAt, there]

end

/-- What the writers have in common: a character does not depend on the counter
of the block, and only ordinary bytes other than 0x7F are written as they
are. -/
structure Uniform (char : Byte → List Byte → Nat → Step) : Prop where
  fixed : ∀ c more b, (char c more b).text = (char c more 0).text ∧
    (char c more b).used = (char c more 0).used
  ordinary : ∀ c more b, Ordinary c → c ≠ 0x7F →
    (char c more b).text = [c] ∧ (char c more b).used = 1
  delete : ∀ more b, (char 0x7F more b).text.head? = some 92

section
variable (char : Byte → List Byte → Nat → Step) (build : Build)
  (str : List Byte) (after : Nat → Byte)

/-- What the characters from an index on write. -/
def textFrom (i : Nat) : List Byte :=
  if inside : i < str.length then
    let step := char str[i] (str.drop (i + 1)) 0
    step.text ++ textFrom (i + step.used)
  else []
termination_by str.length - i
decreasing_by
  have advances := (char str[i] (str.drop (i + 1)) 0).advances
  omega

/-- A block: what it writes, where it ends, and whether this is the end of the
string. -/
def block : Nat → Nat → Nat → List Byte × Nat × Bool
  | 0, _, i => ([], i, false)
  | chars + 1, b, i =>
    if b < build.instLen then
      match str.drop i with
      | [] => ([], i, true)
      | c :: more =>
        let step := char c more b
        if step.leave then (step.text, i + step.used, false)
        else
          let (text, last, ended) := block chars (step.counter + 1) (i + step.used)
          (step.text ++ text, last, ended)
    else ([], i, false)

def blockText (i : Nat) : List Byte := (block char build str (str.length + 1) 0 i).1

def blockEnd (i : Nat) : Nat := (block char build str (str.length + 1) 0 i).2.1

/-- Where the vector test is made next. -/
def scanNext (i : Nat) : Nat :=
  if takesOver build str after i then i + build.instLen
  else blockEnd char build str i

/-- The chunk at an index ends within the string, if it is taken over. -/
def Inside (i : Nat) : Prop := takesOver build str after i = true → i + build.instLen ≤ str.length

/-- And it does not have the byte 0x7F. -/
def Exact (i : Nat) : Prop :=
  takesOver build str after i = true → i + build.instLen ≤ str.length ∧
    (0x7F : Byte) ∉ memoryAt str after i build.instLen

variable {char build str after} {i : Nat}

theorem textFrom_end (ended : str.length ≤ i) : textFrom char str i = [] := by
  rw [textFrom, dif_neg (Nat.not_lt.mpr ended)]

theorem textFrom_cons {c : Byte} {more : List Byte} (found : str.drop i = c :: more) :
    textFrom char str i = (char c more 0).text ++ textFrom char str (i + (char c more 0).used) := by
  have inside : i < str.length :=
    Nat.not_le.mp fun ended => by simp [drop_eq_nil_of_le ended] at found
  rw [drop_eq_getElem_cons inside] at found
  cases found
  rw [textFrom, dif_pos inside]

theorem put_nil (output : Output) : put output [] = some output := by
  rw [put, length_nil, if_neg (Nat.not_lt_zero _), append_nil]
  rfl

theorem put_append (output : Output) (first second : List Byte) :
    put output (first ++ second) = (put output first).bind fun output => put output second := by
  rw [put, put, length_append]
  by_cases short : output.available < first.length
  · rw [if_pos short, if_pos (by omega), Option.bind_none]
  · rw [if_neg short, Option.bind_some, put]
    dsimp only
    by_cases shorter : output.available < first.length + second.length
    · rw [if_pos shorter, if_pos (by omega)]
    · rw [if_neg shorter, if_neg (by omega), append_assoc, Nat.sub_sub]

theorem charLoop_eq (chars b i : Nat) (output : Output) :
    charLoop char build str chars b i output =
      (put output (block char build str chars b i).1).map fun output =>
        ((block char build str chars b i).2.2, (block char build str chars b i).2.1, output) := by
  induction chars generalizing b i output with
  | zero =>
    rw [charLoop, block, put_nil]
    rfl
  | succ chars ih =>
    rw [charLoop, block]
    by_cases counted : b < build.instLen
    · rw [if_pos counted, if_pos counted]
      cases str.drop i with
      | nil =>
        rw [put_nil]
        rfl
      | cons c more =>
        dsimp only
        by_cases leave : (char c more b).leave = true
        · rw [if_pos leave]
          cases put output (char c more b).text with
          | none => rfl
          | some output =>
            dsimp only
            rw [if_pos leave]
            rfl
        · rw [if_neg leave, put_append]
          cases put output (char c more b).text with
          | none => rfl
          | some output =>
            dsimp only
            rw [if_neg leave, ih, Option.bind_some]
    · rw [if_neg counted, if_neg counted, put_nil]
      rfl

theorem le_block (chars b i : Nat) : i ≤ (block char build str chars b i).2.1 := by
  induction chars generalizing b i with
  | zero => exact Nat.le_refl i
  | succ chars ih =>
    rw [block]
    split
    · split
      · exact Nat.le_refl i
      · next c more _ =>
        dsimp only
        split
        · exact Nat.le_add_right _ _
        · exact Nat.le_trans (Nat.le_add_right _ _) (ih _ _)
    · exact Nat.le_refl i

theorem lt_blockEnd (inside : i < str.length) : i < blockEnd char build str i := by
  rw [blockEnd, block, if_pos build.instLen_pos]
  split
  · next ended => exact absurd (drop_eq_nil_iff.mp ended) (Nat.not_le.mpr inside)
  · next c more _ =>
    have advances : i < i + (char c more 0).used := Nat.lt_add_of_pos_right (char c more 0).advances
    dsimp only
    split
    · exact advances
    · exact Nat.lt_of_lt_of_le advances (le_block _ _ _)

theorem block_ended (chars b i : Nat) (ended : (block char build str chars b i).2.2 = true) :
    str.length ≤ (block char build str chars b i).2.1 := by
  induction chars generalizing b i with
  | zero => cases ended
  | succ chars ih =>
    rw [block] at ended ⊢
    split at ended
    · next counted =>
      rw [if_pos counted]
      split at ended
      · next none => exact drop_eq_nil_iff.mp none
      · dsimp only at ended ⊢
        split at ended
        · cases ended
        · next stays =>
          rw [if_neg stays]
          exact ih _ _ ended
    · cases ended

theorem textFrom_block (uniform : Uniform char) (chars b i : Nat) :
    textFrom char str i = (block char build str chars b i).1 ++
      textFrom char str (block char build str chars b i).2.1 := by
  induction chars generalizing b i with
  | zero => rfl
  | succ chars ih =>
    rw [block]
    split
    · split
      · rfl
      · next c more found =>
        dsimp only
        obtain ⟨text, used⟩ := uniform.fixed c more b
        rw [textFrom_cons found, ← text, ← used]
        split
        · rfl
        · rw [append_assoc, ← ih]
    · rfl

variable (char build str after)

/-- What is written from an index on, if there is room. -/
def writtenFrom (i : Nat) : List Byte :=
  if str.length ≤ i then []
  else if takesOver build str after i then
    memoryAt str after i build.instLen ++ writtenFrom (i + build.instLen)
  else blockText char build str i ++ writtenFrom (blockEnd char build str i)
termination_by str.length - i
decreasing_by
  · have := build.instLen_pos
    omega
  · have := @lt_blockEnd char build str i (by omega)
    omega

variable {char build str after}

theorem inside_of_takesOver (taken : takesOver build str after i = true) : i < str.length := by
  rw [takesOver, Bool.and_eq_true, decide_eq_true_eq] at taken
  exact Nat.lt_of_lt_of_le taken.1 (Nat.sub_le _ _)

theorem writtenFrom_end (ended : str.length ≤ i) : writtenFrom char build str after i = [] := by
  rw [writtenFrom, if_pos ended]

theorem writtenFrom_taken (taken : takesOver build str after i = true) :
    writtenFrom char build str after i =
      memoryAt str after i build.instLen ++
        writtenFrom char build str after (i + build.instLen) := by
  rw [writtenFrom, if_neg (Nat.not_le.mpr (inside_of_takesOver taken)), if_pos taken]

theorem block_at_end (ended : str.length ≤ i) :
    block char build str (str.length + 1) 0 i = ([], i, true) := by
  rw [block, if_pos build.instLen_pos, drop_eq_nil_of_le ended]

theorem writtenFrom_block (stops : takesOver build str after i = false) :
    writtenFrom char build str after i =
      blockText char build str i ++
        writtenFrom char build str after (blockEnd char build str i) := by
  by_cases ended : str.length ≤ i
  · rw [blockText, blockEnd, block_at_end ended]
    rfl
  · conv => lhs; rw [writtenFrom, if_neg ended, stops]
    rfl

/-- The vector loop goes on to a chunk that is not taken over. -/
theorem vectorLoop_spec (chunks i : Nat) (enough : str.length ≤ i + chunks) :
    takesOver build str after (vectorLoop build str after chunks i) = false ∧
      i ≤ vectorLoop build str after chunks i ∧
      writtenFrom char build str after i =
        memoryAt str after i (vectorLoop build str after chunks i - i) ++
          writtenFrom char build str after (vectorLoop build str after chunks i) := by
  induction chunks generalizing i with
  | zero =>
    rw [vectorLoop, Nat.sub_self]
    refine ⟨?_, Nat.le_refl i, rfl⟩
    by_contra taken
    have := inside_of_takesOver (Bool.not_eq_false _ ▸ taken)
    omega
  | succ chunks ih =>
    rw [vectorLoop]
    by_cases taken : takesOver build str after i = true
    · have := build.instLen_pos
      obtain ⟨stops, ahead, rest⟩ := ih (i + build.instLen) (by omega)
      rw [if_pos taken]
      refine ⟨stops, by omega, ?_⟩
      have split : vectorLoop build str after chunks (i + build.instLen) - i =
          build.instLen + (vectorLoop build str after chunks
            (i + build.instLen) - (i + build.instLen)) := by
        omega
      rw [writtenFrom_taken taken, rest, split, memoryAt_append, append_assoc]
    · rw [if_neg taken, Nat.sub_self]
      exact ⟨Bool.eq_false_iff.mpr taken, Nat.le_refl i, rfl⟩

/-- The writer writes these texts, or nothing if they do not fit. -/
theorem writeLoop_eq (blocks i : Nat) (enough : str.length < i + blocks) (output : Output) :
    writeLoop char build str after blocks i output =
      put output (writtenFrom char build str after i) := by
  induction blocks generalizing i output with
  | zero => rw [writeLoop, writtenFrom_end (by omega), put_nil]
  | succ blocks ih =>
    obtain ⟨stops, ahead, rest⟩ := @vectorLoop_spec char build str after
      str.length i (Nat.le_add_left _ _)
    rw [writeLoop, rest, put_append]
    generalize vectorLoop build str after str.length i = j at *
    cases put output (memoryAt str after i (j - i)) with
    | none => rfl
    | some output =>
      dsimp only
      rw [Option.bind_some, charLoop_eq, writtenFrom_block stops, put_append, blockText, blockEnd]
      cases put output (block char build str (str.length + 1) 0 j).1 with
      | none => rfl
      | some output =>
        rw [Option.map_some, Option.bind_some]
        cases last : (block char build str (str.length + 1) 0 j).2.2 with
        | true => rw [writtenFrom_end (block_ended _ _ _ last), put_nil]
        | false =>
          have inside : j < str.length := by
            by_contra outside
            rw [block_at_end (Nat.not_lt.mp outside)] at last
            cases last
          have further := @lt_blockEnd char build str j inside
          rw [blockEnd] at further
          exact ih _ (by omega) output

/-- Ordinary bytes of the memory are what the characters write exactly when they
are all of the string and none is 0x7F. -/
theorem memoryAt_append_eq_textFrom (uniform : Uniform char) (length : Nat) (rest : List Byte)
    (inside : i ≤ str.length) (plain : ∀ byte ∈ memoryAt str after i length, Ordinary byte) :
    memoryAt str after i length ++ rest = textFrom char str i ↔
      (i + length ≤ str.length ∧ (0x7F : Byte) ∉ memoryAt str after i length) ∧
        rest = textFrom char str (i + length) := by
  induction length generalizing i with
  | zero => simp [memoryAt, inside]
  | succ length ih =>
    rw [memoryAt_succ] at plain ⊢
    rw [forall_mem_cons] at plain
    cases found : str.drop i with
    | nil =>
      have ended := drop_eq_nil_iff.mp found
      rw [textFrom_end ended]
      constructor
      · intro same
        cases same
      · intro within
        omega
    | cons c more =>
      have within : i < str.length :=
        Nat.not_le.mp fun ended => by simp [drop_eq_nil_of_le ended] at found
      rw [byteAt_of_drop found] at plain ⊢
      rw [textFrom_cons found, cons_append]
      by_cases delete : c = 0x7F
      · have first := uniform.delete more 0
        rw [delete]
        constructor
        · intro same
          have heads := congrArg List.head? same
          rw [List.head?_append, first] at heads
          cases heads
        · intro exact
          exact absurd mem_cons_self exact.1.2
      · obtain ⟨text, used⟩ := uniform.ordinary c more 0 plain.1 delete
        rw [text, used, singleton_append, List.cons.injEq, ih within plain.2, mem_cons, not_or,
          Nat.succ_add_eq_add_succ]
        have other : (0x7F : Byte) ≠ c := Ne.symm delete
        simp only [true_and, other, not_false_eq_true]

theorem ordinary_of_takesOver (taken : takesOver build str after i = true) :
    ∀ byte ∈ memoryAt str after i build.instLen, Ordinary byte := by
  rw [takesOver, Bool.and_eq_true, Bool.not_eq_true'] at taken
  intro byte member
  exact ordinary_of_not_special taken.2 member

theorem le_scanNext (i : Nat) : i ≤ scanNext char build str after i := by
  rw [scanNext]
  split
  · exact Nat.le_add_right _ _
  · exact le_block _ _ i

/-- What holds where the vector test is made is what holds at the first place
and from the next one on. -/
theorem forall_scanNext {property : Nat → Prop} :
    (∀ tests, property ((scanNext char build str after)^[tests] i)) ↔
      property i ∧ ∀ tests, property
        ((scanNext char build str after)^[tests] (scanNext char build str after i)) := by
  constructor
  · intro all
    exact ⟨all 0, fun tests => all (tests + 1)⟩
  · intro both tests
    cases tests with
    | zero => exact both.1
    | succ tests => exact both.2 tests

theorem not_takesOver_end (ended : str.length ≤ i) (tests : Nat) :
    takesOver build str after ((scanNext char build str after)^[tests] i) ≠ true := by
  intro taken
  have inside := inside_of_takesOver taken
  have ahead : i ≤ (scanNext char build str after)^[tests] i :=
    Function.id_le_iterate_of_id_le (fun i => le_scanNext i) tests i
  omega

/-- The vector loop writes what the characters write exactly when every chunk
that is taken over ends within the string and has no byte 0x7F. -/
theorem writtenFrom_eq_textFrom (uniform : Uniform char) (i : Nat) :
    writtenFrom char build str after i = textFrom char str i ↔
      ∀ tests, Exact build str after ((scanNext char build str after)^[tests] i) := by
  induction left : str.length - i using Nat.strongRecOn
    generalizing i with
  | ind left ih =>
    by_cases ended : str.length ≤ i
    · rw [writtenFrom_end ended, textFrom_end ended]
      refine ⟨fun _ tests taken => ?_, fun _ => rfl⟩
      exact absurd taken (not_takesOver_end ended tests)
    · rw [forall_scanNext]
      by_cases taken : takesOver build str after i = true
      · have next : scanNext char build str after i = i + build.instLen := by
          rw [scanNext, if_pos taken]
        have advances := build.instLen_pos
        rw [writtenFrom_taken taken, memoryAt_append_eq_textFrom uniform _ _ (by omega)
          (ordinary_of_takesOver taken), ih _ (by omega) (i + build.instLen) rfl, next]
        rw [Exact]
        simp only [taken, forall_const]
      · have next : scanNext char build str after i = blockEnd char build str i := by
          rw [scanNext, if_neg taken]
        have advances := @lt_blockEnd char build str i (by omega)
        rw [writtenFrom_block (Bool.eq_false_iff.mpr taken), @textFrom_block char build str uniform
          (str.length + 1) 0 i, next, blockText, append_cancel_left_eq]
        rw [← ih _ (by omega) (blockEnd char build str i) rfl, blockEnd]
        constructor
        · intro same
          exact ⟨fun never => absurd never taken, same⟩
        · intro both
          exact both.2

theorem writtenFrom_disabled (uniform : Uniform char) (i : Nat) :
    writtenFrom char .disabled str after i = textFrom char str i := by
  rw [writtenFrom_eq_textFrom uniform]
  intro tests taken
  rw [takesOver, special_disabled, Bool.not_true, Bool.and_false] at taken
  cases taken

end

theorem jsonEscapeTable_ordinary {c : Byte} (ordinary : Ordinary c) (kept : c ≠ 0x7F) :
    jsonEscapeTable c = none := by
  obtain ⟨printable, _, notQuote, notBackslash⟩ := ordinary
  have large : ∀ control : Byte, control < 0x20 → c ≠ control := by
    intro control small same
    subst same
    exact absurd printable (UInt8.not_le.mpr small)
  rw [jsonEscapeTable, if_neg notQuote, if_neg notBackslash, if_neg (large 10 (by decide)), if_neg
    (large 13 (by decide)), if_neg (large 9 (by decide)), if_neg (large 8 (by decide)), if_neg
    (large 12 (by decide)), if_neg]
  rintro (small | delete)
  · exact absurd printable (UInt8.not_le.mpr small)
  · exact kept delete

def charOf (signedChar escapeUnicode : Bool) : Byte → List Byte → Nat → Step :=
  if escapeUnicode then escapedChar signedChar else rawChar

theorem uniform_rawChar : Uniform rawChar where
  fixed := by
    intro c more b
    rw [rawChar, rawChar]
    cases jsonEscapeTable c with
    | some seq => exact ⟨rfl, rfl⟩
    | none =>
      dsimp only
      split
      · exact ⟨rfl, rfl⟩
      · split <;> exact ⟨rfl, rfl⟩
  ordinary := by
    intro c more b ordinary kept
    rw [rawChar, jsonEscapeTable_ordinary ordinary kept]
    rw [if_pos ordinary.ascii]
    exact ⟨rfl, rfl⟩
  delete := by
    intro more b
    rfl

theorem escapedSigned_fixed (c : Byte) (more : List Byte) (b : Nat) :
    (escapedSigned c more b).text = (escapedSigned c more 0).text ∧
      (escapedSigned c more b).used = (escapedSigned c more 0).used := by
  rw [escapedSigned, escapedSigned]
  dsimp only
  split
  · exact ⟨rfl, rfl⟩
  · split
    · exact ⟨rfl, rfl⟩
    · split <;> exact ⟨rfl, rfl⟩

theorem escapedUnsigned_fixed (c : Byte) (more : List Byte) (b : Nat) :
    (escapedUnsigned c more b).text = (escapedUnsigned c more 0).text ∧
      (escapedUnsigned c more b).used = (escapedUnsigned c more 0).used := by
  rw [escapedUnsigned, escapedUnsigned]
  split <;> exact ⟨rfl, rfl⟩

theorem uniform_escapedChar (signedChar : Bool) : Uniform (escapedChar signedChar) where
  fixed := by
    intro c more b
    rw [escapedChar, escapedChar]
    cases jsonEscapeTable c with
    | some seq => exact ⟨rfl, rfl⟩
    | none =>
      dsimp only
      split
      · exact ⟨rfl, rfl⟩
      · split
        · exact escapedSigned_fixed c more b
        · exact escapedUnsigned_fixed c more b
  ordinary := by
    intro c more b ordinary kept
    rw [escapedChar, jsonEscapeTable_ordinary ordinary kept]
    rw [if_pos ordinary.ascii]
    exact ⟨rfl, rfl⟩
  delete := by
    intro more b
    rfl

theorem uniform_charOf (signedChar escapeUnicode : Bool) :
    Uniform (charOf signedChar escapeUnicode) := by
  cases escapeUnicode with
  | true => exact uniform_escapedChar signedChar
  | false => exact uniform_rawChar

section
variable (build : Build) (str : List Byte) (after : Nat → Byte) (signedChar escapeUnicode : Bool)

theorem writeStr_eq (size off : Nat) :
    writeStr build str after size off signedChar escapeUnicode =
      let text := writtenFrom (charOf signedChar escapeUnicode) build str after 0
      if size - off < text.length ∨ escapeUnicode = true ∧ size - off < str.length then none
      else some text := by
  have whole : ∀ char, (writeLoop char build str after (str.length + 1) 0
      { written := [], available := size - off }).map Output.written =
        let text := writtenFrom char build str after 0
        if size - off < text.length then none else some text := by
    intro char
    rw [writeLoop_eq _ _ (by omega), put]
    dsimp only
    split <;> rfl
  cases escapeUnicode with
  | false =>
    rw [writeStr, if_neg Bool.false_ne_true, writeStrRaw, whole]
    simp [charOf]
  | true =>
    rw [writeStr, if_pos rfl, writeStrEscaped, whole]
    by_cases short : size - off < str.length
    · rw [if_pos short]
      rw [if_pos (.inr ⟨rfl, short⟩)]
    · simp [charOf, short]

/-- The loop of `flb_utils_write_str_buf`, with the calls of `flb_realloc` that
succeed. -/
def writeStrBufLoop : Nat → Nat → Option (List Byte)
  | 0, size => writeStr build str after size 0 signedChar escapeUnicode
  | grants + 1, size =>
    match writeStr build str after size 0 signedChar escapeUnicode with
    | some text => some text
    | none => writeStrBufLoop grants (size + 256)

/-- `flb_utils_write_str_buf`, with the number of allocations that succeed. -/
def writeStrBuf : Nat → Option (List Byte)
  | 0 => none
  | grants + 1 => writeStrBufLoop build str after signedChar escapeUnicode grants (str.length + 1)

theorem writeStr_zero {size : Nat} (above : str.length ≤ size) :
    writeStr build str after size 0 signedChar escapeUnicode =
      let text := writtenFrom (charOf signedChar escapeUnicode) build str after 0
      if text.length ≤ size then some text else none := by
  rw [writeStr_eq, Nat.sub_zero, ← ite_not]
  simp [above]

theorem writeStrBufLoop_eq (grants : Nat) {size : Nat} (above : str.length ≤ size) :
    writeStrBufLoop build str after signedChar escapeUnicode grants size =
      let text := writtenFrom (charOf signedChar escapeUnicode) build str after 0
      if text.length ≤ size + 256 * grants then some text else none := by
  induction grants generalizing size with
  | zero => exact writeStr_zero build str after signedChar escapeUnicode above
  | succ grants ih =>
    rw [writeStrBufLoop, writeStr_zero _ _ _ _ _ above, ih (by omega)]
    generalize writtenFrom (charOf signedChar escapeUnicode) build str after 0 = text
    dsimp only
    by_cases fits : text.length ≤ size
    · rw [if_pos fits]
      exact (if_pos (by omega)).symm
    · rw [if_neg fits, Nat.mul_succ, Nat.add_comm (256 * grants), Nat.add_assoc]

/-- The buffer grows until it holds the text that a single call with room enough
writes; with too few allocations the call fails. -/
theorem grown_buffer_holds_text :
    ∃ text, (∃ enough, ∀ size, enough ≤ size →
        writeStr build str after size 0 signedChar escapeUnicode = some text) ∧
      ∀ grants, writeStrBuf build str after signedChar escapeUnicode grants =
        if 0 < grants ∧ text.length ≤ str.length + 1 + 256 * (grants - 1) then some text
        else none := by
  generalize whole : writtenFrom (charOf signedChar escapeUnicode) build str after 0 = text
  refine ⟨text, ⟨max str.length text.length, ?_⟩, ?_⟩
  · intro size enough
    rw [writeStr_zero _ _ _ _ _ (by omega), whole]
    exact if_pos (by omega)
  · intro grants
    cases grants with
    | zero => rfl
    | succ grants =>
      rw [writeStrBuf, writeStrBufLoop_eq _ _ _ _ _ _ (by omega), whole]
      simp

end

/-- With room enough, what is written with vectors is what the characters write
one by one, whatever is behind the string, exactly when every chunk that is
taken over ends within the string and has no byte 0x7F. -/
theorem vector_path_equals_scalar (build : Build) (str : List Byte)
    (after other : Nat → Byte) (off : Nat) (signedChar escapeUnicode : Bool) :
    ∃ enough, ∀ size, off + enough ≤ size → ∃ vector scalar,
      writeStr build str after size off signedChar escapeUnicode = some vector ∧
      writeStr .disabled str other size off signedChar escapeUnicode = some scalar ∧
      (vector = scalar ↔ ∀ tests, Exact build str after
        ((scanNext (charOf signedChar escapeUnicode) build str after)^[tests] 0)) := by
  have uniform := uniform_charOf signedChar escapeUnicode
  refine ⟨(writtenFrom (charOf signedChar escapeUnicode) build str after 0).length +
    (writtenFrom (charOf signedChar escapeUnicode) .disabled str other 0).length + str.length, ?_⟩
  intro size enough
  rw [writeStr_eq, writeStr_eq]
  rw [if_neg (by omega), if_neg (by omega)]
  refine ⟨_, _, rfl, rfl, ?_⟩
  rw [writtenFrom_disabled uniform, writtenFrom_eq_textFrom uniform]

/-- A character of two bytes and thirty letters: the chunk behind the first
block reaches over the end by a byte. -/
def overrunning : List Byte := [0xC3, 0xA9] ++ List.replicate 30 97

def deleting : List Byte := 0x7F :: List.replicate 15 97

/-- The byte behind the string is written, and 0x7F is not escaped. -/
def PathsDiffer (escapeUnicode : Bool) : Prop :=
  writeStr .sse2 overrunning (fun _ => 88) 200 0 true escapeUnicode ≠
      writeStr .sse2 overrunning (fun _ => 89) 200 0 true escapeUnicode ∧
    writeStr .sse2 overrunning (fun _ => 88) 200 0 true escapeUnicode ≠
      writeStr .disabled overrunning (fun _ => 88) 200 0 true escapeUnicode ∧
    writeStr .sse2 deleting (fun _ => 88) 200 0 true escapeUnicode ≠
      writeStr .disabled deleting (fun _ => 88) 200 0 true escapeUnicode

theorem vector_path_differs : PathsDiffer true ∧ PathsDiffer false := by
  constructor
  · unfold PathsDiffer
    decide
  · unfold PathsDiffer
    decide

end FluentBit.WriteStr
