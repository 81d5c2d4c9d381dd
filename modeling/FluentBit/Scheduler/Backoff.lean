import Mathlib.Tactic

/-!
# The wait before a retry

`backoff_full_jitter` draws a number between the base and the base times a
power of two, which is capped.  An operation whose result is no `int` is an
error.  The powers are exact, also as doubles, until they exceed every cap.
-/

namespace FluentBit.Backoff

inductive Fault where
  | overflow
  | divisionByZero
deriving DecidableEq

def intMax : Int := 2147483647

/-- `RAND_MAX` of glibc. -/
def randMax : Int := 2147483647

/-- The result of an operation on values of the type `int`. -/
def int (value : Int) : Except Fault Int :=
  if -intMax - 1 ≤ value ∧ value ≤ intMax then .ok value else .error .overflow

def divide (left right : Int) : Except Fault Int :=
  if right = 0 then .error .divisionByZero else int (left.tdiv right)

/-- `random_uniform` with the numbers that `rand` gives; no result when the loop
does not end within them. -/
def randomUniform (rands : List Int) (min max : Int) : Except Fault (Option Int) := do
  let difference ← int (max - min)
  let range ← int (difference + 1)
  let copies ← divide randMax range
  let limit ← int (range * copies)
  match rands.find? fun ra => !(ra < 0 || ra ≥ limit) with
  | none => return none
  | some ra =>
    let quotient ← divide ra copies
    let sum ← int (quotient + min)
    return some sum

def ipowLoop (result base : Int) (exp : Nat) : Int :=
  let result := if exp % 2 = 1 then result * base else result
  if half : exp / 2 = 0 then result else ipowLoop result (base * base) (exp / 2)
termination_by exp
decreasing_by omega

def ipow (base : Int) (exp : Nat) : Int := ipowLoop 1 base exp

def backoffFullJitter (rands : List Int) (base cap : Int) (n : Nat) : Except Fault (Option Int) :=
  let temp := if cap < base * ipow 2 n then cap else base * ipow 2 n
  randomUniform rands base temp

theorem ipowLoop_eq (result base : Int) (exp : Nat) :
    ipowLoop result base exp = result * base ^ exp := by
  induction exp using Nat.strongRecOn generalizing result base with
  | ind exp ih =>
    have parts := Nat.div_add_mod exp 2
    have power : base ^ exp = (base * base) ^ (exp / 2) * base ^ (exp % 2) := by
      rw [← sq, ← pow_mul, ← pow_add, parts]
    rw [ipowLoop, power]
    rcases Nat.mod_two_eq_zero_or_one exp with even | odd
    · split
      · next half => simp [even, half]
      · next more => rw [ih _ (by omega), even, if_neg (by decide), pow_zero, mul_one]
    · split
      · next half => simp [odd, half]
      · next more =>
        rw [ih _ (by omega), odd]
        ring

theorem ipow_eq (base : Int) (exp : Nat) : ipow base exp = base ^ exp := by
  rw [ipow, ipowLoop_eq, one_mul]

theorem int_ok {value : Int} (least : -intMax - 1 ≤ value) (most : value ≤ intMax) :
    int value = .ok value := if_pos ⟨least, most⟩

theorem divide_ok {left right : Int} (nonneg : 0 ≤ left) (fits : left ≤ intMax)
    (positive : 0 < right) : divide left right = .ok (left / right) := by
  have least := Int.ediv_nonneg nonneg positive.le
  have most := (Int.ediv_le_self right nonneg).trans fits
  rw [divide, if_neg positive.ne', Int.tdiv_eq_ediv_of_nonneg nonneg, int_ok _ most]
  simp only [intMax]
  omega

/-- In a range that is not empty every number that is accepted falls into it. -/
theorem randomUniform_ok (rands : List Int) {min max : Int} (positive : 0 < min) (le : min ≤ max)
    (fits : max ≤ intMax) :
    ∃ result, randomUniform rands min max = .ok result ∧
      ∀ value ∈ result, min ≤ value ∧ value ≤ max := by
  have same : randMax = intMax := rfl
  have large : 0 < intMax := by decide
  have difference : int (max - min) = .ok (max - min) := int_ok (by omega) (by omega)
  obtain ⟨range, rangeEq⟩ : ∃ range, max - min + 1 = range := ⟨_, rfl⟩
  have sum : int range = .ok range := int_ok (by omega) (by omega)
  have quotient : divide randMax range = .ok (randMax / range) :=
    divide_ok (by omega) (by omega) (by omega)
  have some : 0 < randMax / range :=
    Int.lt_of_lt_of_le Int.one_pos ((Int.le_ediv_iff_mul_le (by omega)).mpr (by omega))
  have below : range * (randMax / range) ≤ randMax := Int.mul_ediv_self_le (by omega)
  have above := Int.mul_pos (by omega : 0 < range) some
  generalize randMax / range = copies at quotient some above below
  have limit : int (range * copies) = .ok (range * copies) := int_ok (by omega) (by omega)
  simp only [randomUniform, difference, rangeEq, sum, quotient, limit, bind, Except.bind]
  cases found : rands.find? fun ra => !(ra < 0 || ra ≥ range * copies) with
  | none => exact ⟨none, rfl, by simp⟩
  | some ra =>
    obtain ⟨least, most⟩ : 0 ≤ ra ∧ ra < range * copies := by simpa using List.find?_some found
    have inside : 0 ≤ ra / copies ∧ ra / copies < range :=
      ⟨Int.ediv_nonneg least some.le, Int.ediv_lt_of_lt_mul some most⟩
    have drawn : divide ra copies = .ok (ra / copies) := divide_ok least (by omega) some
    have moved : int (ra / copies + min) = .ok (ra / copies + min) :=
      int_ok (by omega) (by omega)
    refine ⟨ra / copies + min, ?_, ?_⟩
    · simp only [drawn, moved]
      rfl
    · rintro value ⟨⟩
      omega

/-- In a range the wrong way round the division is by zero, or a random number
of zero gives the lower bound. -/
theorem randomUniform_reversed {min max : Int} (positive : 0 < max) (lt : max < min)
    (fits : min ≤ intMax) :
    randomUniform [0] min max = .error .divisionByZero ∨
      randomUniform [0] min max = .ok (some min) := by
  have same : randMax = intMax := rfl
  have difference : int (max - min) = .ok (max - min) := int_ok (by omega) (by omega)
  obtain ⟨missing, missingEq⟩ : ∃ missing, max - min + 1 = -missing := ⟨_, (neg_neg _).symm⟩
  have sum : int (-missing) = .ok (-missing) := int_ok (by omega) (by omega)
  rcases (show 0 ≤ missing by omega).eq_or_lt with none | some
  · subst none
    have zero : divide randMax (-0) = .error .divisionByZero := rfl
    refine .inl ?_
    simp only [randomUniform, difference, missingEq, sum, zero, bind, Except.bind]
  · have least : 0 < randMax / missing :=
      Int.lt_of_lt_of_le Int.one_pos ((Int.le_ediv_iff_mul_le some).mpr (by omega))
    have below : missing * (randMax / missing) ≤ randMax := Int.mul_ediv_self_le some.ne'
    have above := Int.mul_pos some least
    have small : randMax / missing ≤ randMax := Int.ediv_le_self _ (by decide)
    have quotient : divide randMax (-missing) = .ok (-(randMax / missing)) := by
      rw [divide, if_neg (by omega), Int.tdiv_neg, Int.tdiv_eq_ediv_of_nonneg (by decide)]
      exact int_ok (by omega) (by omega)
    generalize randMax / missing = copies at quotient least below above small
    have limit : int (-missing * -copies) = .ok (missing * copies) := by
      rw [neg_mul_neg]
      exact int_ok (by omega) (by omega)
    have accepted : (!(decide ((0 : Int) < 0) || decide ((0 : Int) ≥ missing * copies))) = true :=
      by simp [above]
    have drawn : divide 0 (-copies) = .ok 0 := by
      rw [divide, if_neg (by omega), Int.zero_tdiv]
      decide
    have moved : int (0 + min) = .ok min := by
      rw [zero_add]
      exact int_ok (by omega) fits
    refine .inr ?_
    simp only [randomUniform, difference, missingEq, sum, quotient, limit, bind, Except.bind,
      List.find?, accepted, drawn, moved]
    rfl

/-- The wait is defined and between its bounds for all random numbers exactly
when the base is not larger than the cap. -/
theorem backoff_within_bounds {base cap : Int} (positive : 0 < base) (some : 0 < cap)
    (fits : base ≤ intMax ∧ cap ≤ intMax) (n : Nat) :
    (∀ rands, ∃ wait, backoffFullJitter rands base cap n = .ok wait ∧
      ∀ seconds ∈ wait, base ≤ seconds ∧ seconds ≤ min cap (base * 2 ^ n)) ↔ base ≤ cap := by
  have grows : base ≤ base * 2 ^ n := le_mul_of_one_le_right positive.le (one_le_pow₀ (by decide))
  have temp : (if cap < base * ipow 2 n then cap else base * ipow 2 n) =
      min cap (base * 2 ^ n) := by
    rw [ipow_eq, min_def]
    split <;> split <;> omega
  simp only [backoffFullJitter, temp]
  constructor
  · intro bounded
    by_contra small
    obtain ⟨wait, drawn, within⟩ := bounded [0]
    rw [min_eq_left (by omega)] at drawn within
    rcases randomUniform_reversed some (by omega) fits.1 with fails | base
    · rw [fails] at drawn
      cases drawn
    · rw [base] at drawn
      cases drawn
      exact small (within _ rfl).2
  · intro le rands
    exact randomUniform_ok rands positive (le_min le grows) (min_le_of_left_le fits.2)

theorem backoff_within_bounds_third :
    ∃ wait, backoffFullJitter [2000000000] 5 2000 3 = .ok wait ∧
      ∀ seconds ∈ wait, 5 ≤ seconds ∧ seconds ≤ 40 :=
  (backoff_within_bounds (by decide) (by decide) (by decide) 3).mpr (by decide) [2000000000]

/-- A cap below the base divides by zero, or is exceeded by the wait. -/
theorem backoff_with_small_cap :
    backoffFullJitter [] 2 1 1 = .error .divisionByZero ∧
      backoffFullJitter [0] 3 1 1 = .ok (some 3) := by
  simp only [backoffFullJitter, ipow_eq]
  decide

end FluentBit.Backoff
