import Mathlib.Data.List.Basic

/-!
# Languages of star patterns

A pattern is a word over an alphabet with one distinguished symbol, the star.
Every other symbol stands for itself and the star for any, possibly empty,
word.
-/

namespace FluentBit.Glob

variable {α : Type*} {star : α}

/-- `Matches star pattern word`: the word is in the language of the pattern. -/
inductive Matches (star : α) : List α → List α → Prop where
  | nil : Matches star [] []
  | literal {symbol : α} {pattern word : List α} : symbol ≠ star → Matches star pattern word →
      Matches star (symbol :: pattern) (symbol :: word)
  | star {pattern word : List α} (skipped : List α) : Matches star pattern word →
      Matches star (star :: pattern) (skipped ++ word)

variable {word pattern : List α}

@[simp] theorem matches_nil_iff : Matches star [] word ↔ word = [] := by
  constructor
  · intro matched
    cases matched
    rfl
  · rintro rfl
    exact .nil

theorem matches_star_iff :
    Matches star (star :: pattern) word ↔ ∃ rest, rest <:+ word ∧ Matches star pattern rest := by
  constructor
  · intro matched
    cases matched with
    | literal different => exact (different rfl).elim
    | @star _ rest skipped tail => exact ⟨rest, List.suffix_append skipped rest, tail⟩
  · rintro ⟨rest, ⟨skipped, rfl⟩, tail⟩
    exact .star skipped tail

theorem matches_literal_iff {symbol : α} (different : symbol ≠ star) :
    Matches star (symbol :: pattern) word ↔
      ∃ rest, word = symbol :: rest ∧ Matches star pattern rest := by
  constructor
  · intro matched
    cases matched with
    | literal _ tail => exact ⟨_, rfl, tail⟩
    | star => exact (different rfl).elim
  · rintro ⟨rest, rfl, tail⟩
    exact .literal different tail

@[simp] theorem matches_star_only (word : List α) : Matches star [star] word :=
  matches_star_iff.mpr ⟨[], List.nil_suffix, .nil⟩

theorem matches_star_star_iff :
    Matches star (star :: star :: pattern) word ↔ Matches star (star :: pattern) word := by
  constructor
  · intro matched
    obtain ⟨middle, middleSuffix, inner⟩ := matches_star_iff.mp matched
    obtain ⟨rest, restSuffix, tail⟩ := matches_star_iff.mp inner
    exact matches_star_iff.mpr ⟨rest, restSuffix.trans middleSuffix, tail⟩
  · intro matched
    exact matches_star_iff.mpr ⟨word, List.suffix_rfl, matched⟩

theorem matches_star_dropWhile [DecidableEq α] :
    Matches star (star :: pattern.dropWhile (· == star)) word ↔
      Matches star (star :: pattern) word := by
  induction pattern with
  | nil => simp
  | cons symbol pattern ih =>
    by_cases same : symbol = star
    · subst symbol
      rw [List.dropWhile_cons_of_pos (by simp), ih, matches_star_star_iff]
    · rw [List.dropWhile_cons_of_neg (by simpa using same)]

/-- A star in front of a literal is resolved at an occurrence of the literal. -/
theorem matches_star_literal_iff {symbol : α} (different : symbol ≠ star) :
    Matches star (star :: symbol :: pattern) word ↔
      ∃ rest, (symbol :: rest) <:+ word ∧ Matches star (symbol :: pattern) (symbol :: rest) := by
  rw [matches_star_iff]
  constructor
  · rintro ⟨rest, suffix, matched⟩
    obtain ⟨tail, rfl, _⟩ := (matches_literal_iff different).mp matched
    exact ⟨tail, suffix, matched⟩
  · rintro ⟨rest, suffix, matched⟩
    exact ⟨symbol :: rest, suffix, matched⟩

end FluentBit.Glob
