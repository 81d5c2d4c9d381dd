import FluentBit.Lib.CString
import Mathlib.Tactic

/-!
# The decimal writer of the parser

The digits are written backwards, two at a time from a table.
-/

namespace FluentBit.Parser

open List Function

def digits10 (v : Nat) : Nat :=
  if v < 10 then 1
  else if v < 100 then 2
  else if v < 1000 then 3
  else if v < 1000000000000 then
    if v < 100000000 then
      if v < 1000000 then
        if v < 10000 then 4
        else 5 + (if 100000 ≤ v then 1 else 0)
      else 7 + (if 10000000 ≤ v then 1 else 0)
    else if v < 10000000000 then 9 + (if 1000000000 ≤ v then 1 else 0)
    else 11 + (if 100000000000 ≤ v then 1 else 0)
  else 12 + digits10 (v / 1000000000000)
termination_by v

def byteOf (character : Char) : Byte := UInt8.ofNat character.toNat

def digits : List Byte :=
  ("0001020304050607080910111213141516171819" ++
    "2021222324252627282930313233343536373839" ++
    "4041424344454647484950515253545556575859" ++
    "6061626364656667686970717273747576777879" ++
    "8081828384858687888990919293949596979899").toList.map byteOf

abbrev Memory := Nat → Byte

/-- The two digits of a number below 100, at `next` and the place before it. -/
def writePair (pair dst next : Nat) (memory : Memory) : Memory :=
  let memory := update memory (dst + next) (digits.getD (pair * 2 + 1) 0)
  update memory (dst + (next + 2 ^ 32 - 1) % 2 ^ 32) (digits.getD (pair * 2) 0)

/-- The loop of `u64_to_str` and what follows it. -/
def writeLoop (value dst next : Nat) (memory : Memory) : Memory :=
  if 100 ≤ value then
    writeLoop (value / 100) dst ((next + 2 ^ 32 - 2) % 2 ^ 32)
      (writePair (value % 100) dst next memory)
  else if value < 10 then update memory (dst + next) (UInt8.ofNat (48 + value))
  else writePair value dst next memory
termination_by value

def u64ToStr (value : UInt64) (dst : Nat) (memory : Memory) : Nat × Memory :=
  let length := digits10 value.toNat
  (length, writeLoop value.toNat dst (length - 1) memory)

def text (number : Nat) : List Byte := (Nat.toDigits 10 number).map byteOf

variable {number : Nat}

theorem text_of_lt (small : number < 10) : text number = [UInt8.ofNat (48 + number)] := by
  rw [text, Nat.toDigits_of_lt_base small, map_singleton, byteOf,
    Nat.toNat_digitChar_of_lt_ten small]

theorem text_of_ge (large : 10 ≤ number) :
    text number = text (number / 10) ++ text (number % 10) := by
  rw [text, Nat.toDigits_of_base_le (by decide) large, map_append, text, text,
    Nat.toDigits_of_lt_base (Nat.mod_lt number (by decide))]

theorem length_text_pos (number : Nat) : 0 < (text number).length := by
  rw [text, length_map]
  exact Nat.length_toDigits_pos

theorem length_toDigits_of {count : Nat} (positive : 0 < count)
    (large : count = 1 ∨ 10 ^ count ≤ 10 * number) (small : number < 10 ^ count) :
    (Nat.toDigits 10 number).length = count := by
  have upper := (Nat.length_toDigits_le_iff (by decide) positive).mpr small
  have first := @Nat.length_toDigits_pos 10 number
  obtain ⟨front, rfl⟩ := Nat.exists_eq_add_one_of_ne_zero positive.ne'
  by_cases one : front = 0
  · omega
  · have lower := @Nat.length_toDigits_le_iff 10 number front (by decide) (by omega)
    rw [Nat.pow_succ] at large
    omega

theorem length_text (fits : number < 2 ^ 64) : (text number).length = digits10 number := by
  rw [text, length_map, digits10]
  by_cases one : number < 10
  · rw [if_pos one]
    exact length_toDigits_of (by decide) (.inl rfl) (by simpa)
  rw [if_neg one]
  by_cases once : number < 1000000000000
  · rw [if_pos once]
    repeat' split
    all_goals exact length_toDigits_of (by decide) (by omega) (by omega)
  · rw [if_neg (by omega), if_neg (by omega), if_neg once, digits10]
    repeat' split
    all_goals first
      | omega
      | exact length_toDigits_of (by decide) (by omega) (by omega)

theorem digits_pair : ∀ pair < 100, digits.getD (pair * 2) 0 = UInt8.ofNat (48 + pair / 10) ∧
    digits.getD (pair * 2 + 1) 0 = UInt8.ofNat (48 + pair % 10) := by
  decide +kernel

/-- The memory with some bytes written from `dst` on. -/
def overlay (dst : Nat) (bytes : List Byte) (memory : Memory) : Memory := fun address =>
  if dst ≤ address then bytes.getD (address - dst) (memory address) else memory address

theorem overlay_snoc (dst : Nat) (bytes : List Byte) (byte : Byte) (memory : Memory) :
    overlay dst (bytes ++ [byte]) memory =
      overlay dst bytes (update memory (dst + bytes.length) byte) := by
  funext address
  simp only [overlay, update_apply, getD_eq_getElem?_getD, getElem?_append]
  grind

theorem overlay_nil (dst : Nat) (memory : Memory) : overlay dst [] memory = memory := by
  funext address
  simp [overlay]

theorem overlay_writePair {pair next : Nat} (bytes : List Byte) (small : pair < 100)
    (place : next = bytes.length + 1) (fits : next < 2 ^ 32) (dst : Nat) (memory : Memory) :
    overlay dst bytes (writePair pair dst next memory) =
      overlay dst (bytes ++ text (pair / 10) ++ text (pair % 10)) memory := by
  have before : (next + 2 ^ 32 - 1) % 2 ^ 32 = bytes.length := by omega
  obtain ⟨tens, ones⟩ := digits_pair pair small
  rw [writePair, tens, ones, before, place, text_of_lt (by omega), text_of_lt (by omega),
    overlay_snoc, overlay_snoc, length_append, length_singleton]

theorem writeLoop_eq (value dst next : Nat) (memory : Memory)
    (place : next + 1 = (text value).length) (fits : next < 2 ^ 32) :
    writeLoop value dst next memory = overlay dst (text value) memory := by
  induction value using Nat.strong_induction_on generalizing next memory with
  | h value ih =>
    rw [writeLoop]
    split_ifs with large small
    · have tens : value / 10 % 10 = value % 100 / 10 := by omega
      have ones : value % 10 = value % 100 % 10 := by omega
      have front : text value =
          text (value / 100) ++ text (value % 100 / 10) ++ text (value % 100 % 10) := by
        rw [text_of_ge (by omega), text_of_ge (by omega), Nat.div_div_eq_div_mul, tens, ones]
      have room : next + 1 = (text (value / 100)).length + 1 + 1 := by
        rw [place, front, length_append, length_append, @text_of_lt (value % 100 / 10) (by omega),
          @text_of_lt (value % 100 % 10) (by omega), length_singleton, length_singleton]
      have positive := length_text_pos (value / 100)
      rw [ih _ (by omega) _ _ (by omega) (by omega), overlay_writePair _ (by omega) (by omega) fits,
        front]
    · rw [text_of_lt small] at place ⊢
      obtain rfl : next = 0 := by simpa using place
      rw [← nil_append [_], overlay_snoc, overlay_nil, length_nil]
    · have pair : text value = [] ++ text (value / 10) ++ text (value % 10) := text_of_ge (by omega)
      rw [pair, text_of_lt (by omega), text_of_lt (by omega)] at place
      rw [pair, ← overlay_writePair [] (by omega) (by simpa using place) fits, overlay_nil]

/-- The digits of a number are written from `dst` on, and nothing else is; no
shorter text has its value. -/
theorem u64_to_str_writes_decimal (value : UInt64) (dst : Nat) (memory : Memory) :
    u64ToStr value dst memory = (digits10 value.toNat, overlay dst (text value.toNat) memory) ∧
      (text value.toNat).length = digits10 value.toNat ∧
      ∀ count, 0 < count → (digits10 value.toNat ≤ count ↔ value.toNat < 10 ^ count) := by
  have length := length_text value.toNat_lt
  have shortest : ∀ count, 0 < count →
      (digits10 value.toNat ≤ count ↔ value.toNat < 10 ^ count) := by
    intro count positive
    rw [← length, text, length_map]
    exact Nat.length_toDigits_le_iff (by decide) positive
  refine ⟨?_, length, shortest⟩
  have few := (shortest 20 (by decide)).mpr (Nat.lt_trans value.toNat_lt (by norm_num))
  have positive := length_text_pos value.toNat
  rw [u64ToStr, writeLoop_eq _ _ _ _ (by omega) (by omega)]

end FluentBit.Parser
