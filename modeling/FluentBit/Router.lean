import FluentBit.Lib.CString
import FluentBit.Lib.Glob

/-!
# Tag routing

`router_match` decides whether a tag, given with its length, is routed by the
`match` pattern of an output.  The wildcard is resolved by a `memchr` scan that
tries the rest of the pattern at every occurrence of its next byte.
-/

namespace FluentBit.Router

open List

def wildcard : Byte := 42

/-- The scan behind a wildcard: `accept` is tried at every position of the tag
that holds `wanted`, from left to right. -/
def searchFrom (accept : List Byte → Bool) (wanted : Byte) (search : List Byte) : Bool :=
  match _hit : memchr search wanted with
  | none => false
  | some position => accept position || searchFrom accept wanted position.tail
termination_by search.length
decreasing_by exact length_tail_lt_of_memchr _hit

variable {wanted : Byte} {pattern rest search tag : List Byte}
  {accept : List Byte → Bool}

theorem dropWhile_length_lt {byte : Byte} (skip : pattern.dropWhile (· == wanted) = byte :: rest) :
    (byte :: rest).length < (wanted :: pattern).length := by
  rw [← skip]
  have shorter := (dropWhile_suffix (p := (· == wanted)) (l := pattern)).length_le
  simp only [length_cons]
  omega

/-- The loop of `router_match` over the remaining tag and pattern bytes.  The
empty pattern is the terminating NUL. -/
def matchLoop (tag : List Byte) : List Byte → Bool
  | [] => tag.isEmpty
  | byte :: pattern =>
    if byte = wildcard then
      match _skip : pattern.dropWhile (· == wildcard) with
      | [] => true
      | next :: rest =>
        searchFrom (fun position => matchLoop position (next :: rest))
          next tag
    else
      match tag with
      | [] => false
      | head :: tail => if head = byte then matchLoop tail pattern else false
termination_by pattern => pattern.length
decreasing_by
  · subst byte
    exact dropWhile_length_lt _skip
  · simp

/-- `router_match` without a regular expression.  The tag is a pointer with
its length, the pattern a possibly missing NUL-terminated string. -/
def routerMatch (tag : Option (List Byte)) (tagLen : Int) (pattern : Option CString) : Bool :=
  if tagLen < 0 then false
  else
    match tag with
    | none =>
      if tagLen = 0 then
        match pattern with
        | none => false
        | some pattern => matchLoop [] pattern.bytes
      else false
    | some area =>
      match pattern with
      | none => false
      | some pattern =>
        matchLoop (area.take tagLen.toNat) pattern.bytes

theorem searchFrom_of_miss (miss : memchr search wanted = none) :
    searchFrom accept wanted search = false := by
  rw [searchFrom]
  split
  · rfl
  · rename_i hit
    simp [miss] at hit

theorem searchFrom_of_hit {position : List Byte} (hit : memchr search wanted = some position) :
    searchFrom accept wanted search =
      (accept position || searchFrom accept wanted position.tail) := by
  rw [searchFrom]
  split
  · rename_i miss
    simp [miss] at hit
  · rename_i found again
    rw [hit] at again
    cases again
    rfl

theorem suffix_skip_iff {skipped tail : List Byte} (absent : wanted ∉ skipped) :
    (wanted :: tail) <:+ (skipped ++ wanted :: rest) ↔ tail = rest ∨ (wanted :: tail) <:+ rest := by
  induction skipped with
  | nil => simp [suffix_cons_iff]
  | cons byte skipped ih =>
    have different : wanted ≠ byte := by
      rintro rfl
      simp at absent
    have absentTail : wanted ∉ skipped := by
      intro member
      exact absent (mem_cons_of_mem _ member)
    rw [cons_append, suffix_cons_iff, ih absentTail]
    simp [different]

theorem searchFrom_eq_true_iff :
    searchFrom accept wanted search = true ↔
      ∃ rest, (wanted :: rest) <:+ search ∧ accept (wanted :: rest) = true := by
  induction search using searchFrom.induct wanted with
  | case1 search miss =>
    have absent : wanted ∉ search := memchr_eq_none_iff.mp miss
    rw [searchFrom_of_miss miss]
    constructor
    · simp
    · rintro ⟨rest, suffix, _⟩
      exact (absent (suffix.subset (by simp))).elim
  | case2 search position hit ih =>
    obtain ⟨skipped, first, rfl, rfl, absent⟩ := memchr_eq_some hit
    rw [searchFrom_of_hit hit, Bool.or_eq_true, ih]
    simp only [suffix_skip_iff absent, tail_cons]
    constructor
    · rintro (accepted | ⟨rest, suffix, accepted⟩)
      · exact ⟨first, .inl rfl, accepted⟩
      · exact ⟨rest, .inr suffix, accepted⟩
    · rintro ⟨rest, rfl | suffix, accepted⟩
      · exact .inl accepted
      · exact .inr ⟨rest, suffix, accepted⟩

theorem matchLoop_wildcard_last (skip : pattern.dropWhile (· == wildcard) = []) :
    matchLoop tag (wildcard :: pattern) = true := by
  rw [matchLoop.eq_def]
  simp only [if_true]
  split
  · rfl
  · rename_i again
    simp [skip] at again

theorem matchLoop_wildcard_next {next : Byte}
    (skip : pattern.dropWhile (· == wildcard) = next :: rest) :
    matchLoop tag (wildcard :: pattern) =
      searchFrom (fun position => matchLoop position (next :: rest))
        next tag := by
  rw [matchLoop.eq_def]
  simp only [if_true]
  split
  · rename_i again
    simp [skip] at again
  · rename_i again
    rw [skip] at again
    cases again
    rfl

theorem matchLoop_literal {byte : Byte} (different : byte ≠ wildcard) :
    matchLoop tag (byte :: pattern) = true ↔
      ∃ rest, tag = byte :: rest ∧ matchLoop rest pattern = true := by
  rw [matchLoop.eq_def]
  simp only [different, if_false]
  cases tag with
  | nil => simp
  | cons head tail =>
    by_cases same : head = byte
    · simp
    · simp [same]

/-- Soundness and completeness of the matching loop, by strong induction on
the length of the pattern. -/
theorem matchLoop_eq_true_iff (pattern tag : List Byte) :
    matchLoop tag pattern = true ↔ Glob.Matches wildcard pattern tag := by
  induction length : pattern.length using Nat.strongRecOn
    generalizing pattern tag with
  | _ size ih =>
    subst size
    cases pattern with
    | nil => simp [matchLoop]
    | cons byte pattern =>
      by_cases star : byte = wildcard
      · subst byte
        rw [← Glob.matches_star_dropWhile]
        cases skip : pattern.dropWhile (· == wildcard) with
        | nil => simp [matchLoop_wildcard_last skip]
        | cons next rest =>
          have literal : next ≠ wildcard := by
            have stops := head_dropWhile_not (p := (· == wildcard)) (l := pattern) (by simp [skip])
            simpa [skip] using stops
          rw [matchLoop_wildcard_next skip, searchFrom_eq_true_iff,
            Glob.matches_star_literal_iff literal]
          simp only [ih _ (dropWhile_length_lt skip) (next :: rest) _ rfl]
      · rw [matchLoop_literal star, Glob.matches_literal_iff star]
        simp only [ih pattern.length (by simp) pattern _ rfl]

/-- Tag routing is glob matching: for every tag given with its length and
every NUL-terminated pattern, `router_match` succeeds exactly on the tags in
the language of the pattern. -/
theorem routerMatch_iff_glob (tag : List Byte) (pattern : CString) :
    routerMatch (some tag) tag.length (some pattern) = true ↔
      Glob.Matches wildcard pattern.bytes tag := by
  have nonnegative : ¬((tag.length : Int) < 0) := by omega
  rw [← matchLoop_eq_true_iff]
  simp [routerMatch, nonnegative]

end FluentBit.Router
