import Mathlib.Data.List.Basic

/-!
# Lines

A text is a sequence of lines, each followed by a mark, and a rest without a
mark.  Joining and splitting are inverse to each other, and a text can be split
piece by piece: the rest of one piece goes in front of the next one.
-/

namespace FluentBit.Lines

open List

variable {α : Type*} (mark : α)

/-- Every line followed by the mark. -/
def join (lines : List (List α)) : List α := (lines.map (· ++ [mark])).flatten

@[simp]
theorem join_nil : join mark [] = [] := rfl

theorem join_cons (line : List α) (lines : List (List α)) :
    join mark (line :: lines) = line ++ mark :: join mark lines := by
  simp [join]

theorem join_append (lines others : List (List α)) :
    join mark (lines ++ others) = join mark lines ++ join mark others := by
  simp [join]

theorem join_singleton (line : List α) : join mark [line] = line ++ [mark] := by
  simp [join]

variable [DecidableEq α]

/-- The lines of a text, and what follows the last mark. -/
def split : List α → List (List α) × List α
  | [] => ([], [])
  | head :: tail =>
    if head = mark then ([] :: (split tail).1, (split tail).2)
    else
      match (split tail).1 with
      | [] => ([], head :: (split tail).2)
      | line :: lines => ((head :: line) :: lines, (split tail).2)

variable {mark} {text : List α}

theorem split_free (free : mark ∉ text) : split mark text = ([], text) := by
  induction text with
  | nil => rfl
  | cons head tail ih =>
    rw [mem_cons, not_or] at free
    rw [split, if_neg (Ne.symm free.1), ih free.2]

theorem split_append_mark {line : List α} (free : mark ∉ line) (text : List α) :
    split mark (line ++ mark :: text) = (line :: (split mark text).1, (split mark text).2) := by
  induction line with
  | nil => rw [nil_append, split, if_pos rfl]
  | cons head line ih =>
    rw [mem_cons, not_or] at free
    rw [cons_append, split, if_neg (Ne.symm free.1), ih free.2]

theorem split_join_append {lines : List (List α)}
    (free : ∀ line ∈ lines, mark ∉ line) (text : List α) :
    split mark (join mark lines ++ text) = (lines ++ (split mark text).1, (split mark text).2) := by
  induction lines with
  | nil => rfl
  | cons line lines ih =>
    have later := ih fun other member =>
      free other (mem_cons_of_mem _ member)
    rw [join_cons, append_assoc, cons_append, split_append_mark (free line mem_cons_self), later]
    rfl

theorem split_join {lines : List (List α)} (free : ∀ line ∈ lines, mark ∉ line) :
    split mark (join mark lines) = (lines, []) := by
  have split := split_join_append free []
  rwa [append_nil, Lines.split, append_nil] at split

theorem join_split (text : List α) :
    join mark (split mark text).1 ++ (split mark text).2 = text := by
  induction text with
  | nil => rfl
  | cons head tail ih =>
    rw [split]
    split
    · next same => rw [same, join_cons, nil_append, cons_append, ih]
    · split
      · next none =>
        rw [none, join_nil, nil_append] at ih
        rw [join_nil, nil_append, ih]
      · next line lines some =>
        rw [some, join_cons] at ih
        rw [join_cons, cons_append, cons_append, ih]

theorem split_mark_free (text : List α) :
    (∀ line ∈ (split mark text).1, mark ∉ line) ∧ mark ∉ (split mark text).2 := by
  induction text with
  | nil => exact ⟨nofun, nofun⟩
  | cons head tail ih =>
    rw [split]
    split
    · refine ⟨?_, ih.2⟩
      intro line member
      rcases mem_cons.mp member with rfl | later
      · exact not_mem_nil
      · exact ih.1 line later
    · next other =>
      split
      · exact ⟨nofun, not_mem_cons_of_ne_of_not_mem (Ne.symm other) ih.2⟩
      · next line lines some =>
        rw [some] at ih
        refine ⟨?_, ih.2⟩
        intro found member
        rcases mem_cons.mp member with rfl | later
        · exact not_mem_cons_of_ne_of_not_mem (Ne.symm other) (ih.1 line mem_cons_self)
        · exact ih.1 found (mem_cons_of_mem _ later)

/-- A text is split piece by piece, with the rest of one piece in front of the
next one. -/
theorem split_append (text more : List α) :
    split mark (text ++ more) =
      ((split mark text).1 ++ (split mark ((split mark text).2 ++ more)).1,
        (split mark ((split mark text).2 ++ more)).2) := by
  have free := (@split_mark_free _ mark _ text).1
  have pieces := split_join_append free ((split mark text).2 ++ more)
  rwa [← append_assoc, join_split] at pieces

theorem length_lt_of_mem_split {line : List α} (member : line ∈ (split mark text).1) :
    line.length < text.length := by
  obtain ⟨before, after, eq⟩ := append_of_mem member
  have whole := congrArg List.length (@join_split _ mark _ text)
  rw [eq, join_append, join_cons] at whole
  simp only [length_append, length_cons] at whole
  omega

end FluentBit.Lines
