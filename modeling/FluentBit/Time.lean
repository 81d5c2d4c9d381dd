import FluentBit.LogEvent.Encoder

/-!
# Sums and differences of times

A sum carries only above one second of nanoseconds, so nanoseconds that add up
to exactly one second stay as they are.
-/

namespace FluentBit.LogEvent

/-- `ONESEC_IN_NSEC`. -/
def onesecInNsec : Int := 1000000000

/-- `flb_time_add`, for seconds whose sum does not overflow. -/
def timeAdd (base duration : Time) : Time :=
  let sec := base.sec + duration.sec
  let nsec := base.nsec + duration.nsec
  if onesecInNsec < nsec then { sec := sec + 1, nsec := nsec - onesecInNsec }
  else if nsec < 0 then { sec := sec - 1, nsec := nsec + onesecInNsec }
  else { sec := sec, nsec := nsec }

/-- `flb_time_diff`; an error is the number that is returned. -/
def timeDiff (time1 time0 : Time) : Except Int Time :=
  if time0.sec ≤ time1.sec then
    let sec := time1.sec - time0.sec
    if time0.nsec ≤ time1.nsec then .ok { sec := sec, nsec := time1.nsec - time0.nsec }
    else if sec = 0 then .error (-2)
    else .ok { sec := sec - 1, nsec := onesecInNsec + time1.nsec - time0.nsec }
  else .error (-3)

def Time.Proper (time : Time) : Prop := 0 ≤ time.nsec ∧ time.nsec < onesecInNsec

instance (time : Time) : Decidable time.Proper := inferInstanceAs (Decidable (_ ∧ _))

def Time.total (time : Time) : Int := time.sec * onesecInNsec + time.nsec

variable {left right : Time}

section
variable (properLeft : left.Proper) (properRight : right.Proper)
include properLeft properRight

theorem timeAdd_cases :
    (onesecInNsec < left.nsec + right.nsec ∧ timeAdd left right =
      { sec := left.sec + right.sec + 1, nsec := left.nsec + right.nsec - onesecInNsec }) ∨
    (left.nsec + right.nsec ≤ onesecInNsec ∧ timeAdd left right =
      { sec := left.sec + right.sec, nsec := left.nsec + right.nsec }) := by
  have nonneg : ¬ left.nsec + right.nsec < 0 := by
    simp only [Time.Proper] at *
    omega
  by_cases above : onesecInNsec < left.nsec + right.nsec
  · exact .inl ⟨above, by simp only [timeAdd, if_pos above]⟩
  · exact .inr ⟨Int.not_lt.mp above, by simp only [timeAdd, if_neg above, if_neg nonneg]⟩

theorem timeDiff_cases :
    (right.total ≤ left.total ∧ ∃ result, timeDiff left right = .ok result ∧ result.Proper ∧
      result.total = left.total - right.total) ∨
    (left.total < right.total ∧ ∃ code, timeDiff left right = .error code) := by
  simp only [Time.Proper, Time.total, timeDiff, onesecInNsec] at *
  split_ifs with later enough same
  · exact .inl ⟨by omega, _, rfl, by dsimp only; omega, by dsimp only; ring⟩
  · exact .inr ⟨by omega, _, rfl⟩
  · exact .inl ⟨by omega, _, rfl, by dsimp only; omega, by dsimp only; ring⟩
  · exact .inr ⟨by omega, _, rfl⟩

theorem timeDiff_timeAdd_iff : timeDiff (timeAdd left right) right = .ok left ↔ 0 ≤ left.sec := by
  rcases timeAdd_cases properLeft properRight with ⟨above, sum⟩ | ⟨within, sum⟩
  all_goals
    simp only [sum, timeDiff, Time.Proper, onesecInNsec] at *
    split_ifs <;> grind

end

/-- Sums and differences are exact, but a sum is proper only if the nanoseconds
do not add up to one second, and only a time that is not negative is got back. -/
theorem time_arithmetic_is_exact (properLeft : left.Proper) (properRight : right.Proper) :
    ((timeAdd left right).total = left.total + right.total ∧ (timeAdd left right).Proper ∧
      ((∃ result, timeDiff left right = .ok result) ↔ right.total ≤ left.total) ∧
      (∀ result, timeDiff left right = .ok result →
        result.total = left.total - right.total ∧ result.Proper) ∧
      timeDiff (timeAdd left right) right = .ok left) ↔
    left.nsec + right.nsec ≠ onesecInNsec ∧ 0 ≤ left.sec := by
  have sum := timeAdd_cases properLeft properRight
  have difference := timeDiff_cases properLeft properRight
  rw [timeDiff_timeAdd_iff properLeft properRight]
  constructor
  · rintro ⟨-, proper, -, -, nonneg⟩
    simp only [Time.Proper, onesecInNsec] at *
    grind
  · rintro ⟨apart, nonneg⟩
    refine ⟨?_, ?_, ?_, ?_, nonneg⟩
    · simp only [Time.total, onesecInNsec] at *
      grind
    · simp only [Time.Proper, onesecInNsec] at *
      grind
    · grind
    · grind

def halfSecond : Time := { sec := 0, nsec := 500000000 }

theorem time_arithmetic_is_exact_carry :
    halfSecond.Proper ∧ (timeAdd { sec := 1, nsec := 600000000 } halfSecond).Proper :=
  ⟨by decide, ((time_arithmetic_is_exact (by decide) (by decide)).mpr (by decide)).2.1⟩

/-- Two half seconds are no second and a thousand million nanoseconds. -/
theorem sum_of_halves_not_carried :
    halfSecond.Proper ∧ ¬ (timeAdd halfSecond halfSecond).Proper := by
  decide

end FluentBit.LogEvent
