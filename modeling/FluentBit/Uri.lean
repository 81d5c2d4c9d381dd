import FluentBit.Split

/-!
# The fields of a URI

`flb_uri_create` keeps the segments of a path in the slots of a map, and
`flb_uri_get` looks one of them up by its position.  A place in the path is
given by the bytes from it on.
-/

namespace FluentBit.UriFields

open List Split

def uriMax : Nat := 8

/-- `struct flb_uri_field`.  A slot that is not used has no value. -/
structure UriField where
  length : Nat
  value : Option (List Byte)
deriving DecidableEq

structure Uri where
  full : List Byte
  count : Nat
  map : List UriField
deriving DecidableEq

/-- A segment has no NUL, so `flb_strdup` copies all of it. -/
def UriField.holds (segment : List Byte) : UriField :=
  { length := segment.length, value := some segment }

def Uri.add (uri : Uri) (segment : List Byte) : Uri :=
  { uri with map := uri.map.set uri.count (.holds segment), count := uri.count + 1 }

/-- The loop of `flb_uri_create`, with a bound on its rounds. -/
def createLoop : Nat → List Byte → Uri → Uri
  | 0, _, uri => uri
  | rounds + 1, rest, uri =>
    if rest ≠ [] ∧ uri.count < uriMax then
      match memchr rest 47 with
      | none => createLoop rounds [] (uri.add rest)
      | some found =>
        let «end» := rest.length - found.length
        if «end» = 0 then createLoop rounds rest.tail uri
        else createLoop rounds (rest.drop («end» + 1)) (uri.add (rest.take «end»))
    else uri

/-- `flb_uri_create`: every round goes on by a byte or more. -/
def uriCreate (fullUri : CString) : Uri :=
  createLoop fullUri.bytes.length fullUri.bytes
    { full := fullUri.bytes, count := 0
      map := replicate uriMax { length := 0, value := none } }

/-- `flb_uri_get`; nothing when it returns `NULL`. -/
def uriGet (uri : Uri) (pos : Int) : Option UriField :=
  if pos < 0 then none
  else if uriMax ≤ pos ∨ (uri.count : Int) < pos then none
  else uri.map[pos.toNat]?

def filled (full : List Byte) (segments : List (List Byte)) : Uri :=
  { full := full
    count := segments.length
    map := segments.map .holds ++
      replicate (uriMax - segments.length) { length := 0, value := none } }

variable {full : List Byte} {segments : List (List Byte)}

theorem add_filled (room : segments.length < uriMax) (segment : List Byte) :
    (filled full segments).add segment = filled full (segments ++ [segment]) := by
  have slots : uriMax - segments.length = uriMax - (segments.length + 1) + 1 := by omega
  simp only [Uri.add, filled, slots, replicate_succ, length_append, length_singleton, map_append,
    map_singleton, append_assoc, Uri.mk.injEq, true_and]
  simp

theorem createLoop_nil (rounds : Nat) (uri : Uri) : createLoop rounds [] uri = uri := by
  cases rounds with
  | zero | succ rounds => simp [createLoop]

theorem createLoop_filled {rounds : Nat} {rest : List Byte} (enough : rest.length ≤ rounds)
    (few : segments.length + (runs 47 rest).length ≤ uriMax) :
    createLoop rounds rest (filled full segments) = filled full (segments ++ runs 47 rest) := by
  induction rounds generalizing rest segments with
  | zero =>
    obtain rfl := eq_nil_of_length_eq_zero (Nat.le_zero.mp enough)
    rw [runs_nil, append_nil]
    rfl
  | succ rounds ih =>
    rw [createLoop]
    split
    · next inside =>
      cases search : memchr rest 47 with
      | none =>
        rw [runs_run inside.1 (memchr_eq_none_iff.mp search)]
        simp only [add_filled inside.2, createLoop_nil]
      | some found =>
        obtain ⟨skipped, more, rfl, rfl, absent⟩ := memchr_eq_some search
        have length : (skipped ++ 47 :: more).length - (47 :: more).length = skipped.length := by
          simp
        have behind : (skipped ++ 47 :: more).drop (skipped.length + 1) = more := by simp
        simp only [length, behind, take_left]
        rw [length_append, length_cons] at enough
        split
        · next none =>
          obtain rfl := eq_nil_of_length_eq_zero none
          have same : runs 47 ([47] ++ more) = runs 47 more := runs_separators (by simp) more
          exact ih (by simpa using enough) few
        · next some =>
          have segment := runs_run_more (ne_nil_of_length_pos (Nat.pos_of_ne_zero some)) absent more
          rw [segment, length_cons] at few
          rw [segment, append_cons segments, add_filled inside.2]
          apply ih (by omega)
          rw [length_append, length_singleton]
          omega
    · next outside =>
      have none : runs 47 rest = [] := by
        by_cases empty : rest = []
        · rw [empty, runs_nil]
        · have full : ¬segments.length < uriMax := fun room => outside ⟨empty, room⟩
          exact eq_nil_of_length_eq_zero (by omega)
      rw [none, append_nil]

/-- A position gives the segment there, and nothing behind the last segment, exactly when it is
not the one right behind the last segment or this one has no slot. -/
theorem uriGet_uriCreate_iff (fullUri : CString) (few : (runs 47 fullUri.bytes).length ≤ uriMax)
    (i : Int) :
    uriGet (uriCreate fullUri) i =
        (if i < 0 then none else (runs 47 fullUri.bytes)[i.toNat]?.map .holds) ↔
      i ≠ (runs 47 fullUri.bytes).length ∨ (runs 47 fullUri.bytes).length = uriMax := by
  have created : uriCreate fullUri = filled fullUri.bytes (runs 47 fullUri.bytes) :=
    @createLoop_filled _ [] _ _ (Nat.le_refl _) (by simpa using few)
  generalize runs 47 fullUri.bytes = segments at created few ⊢
  have count : (filled fullUri.bytes segments).count = segments.length := rfl
  rw [created, uriGet]
  by_cases negative : i < 0
  · simp only [if_pos negative, true_iff]
    omega
  · obtain ⟨pos, rfl⟩ := Int.eq_ofNat_of_zero_le (Int.not_lt.mp negative)
    simp only [if_neg negative, Int.toNat_natCast]
    by_cases inside : pos < segments.length
    · rw [if_neg (by omega), filled, getElem?_append_left (by simpa using inside), getElem?_map]
      simp only [true_iff]
      omega
    · rw [getElem?_eq_none (Nat.not_lt.mp inside)]
      by_cases last : pos = segments.length ∧ pos < uriMax
      · obtain ⟨rfl, room⟩ := last
        rw [if_neg (by omega), filled, getElem?_append_right (by simp), length_map, Nat.sub_self,
          getElem?_replicate_of_lt (by omega)]
        simp only [Option.map_none, reduceCtorEq, false_iff]
        omega
      · rw [if_pos (by omega)]
        simp only [Option.map_none, true_iff]
        omega

/-- The second segment of the path `/a/b` is at the position one. -/
theorem uriGet_uriCreate_iff_second :
    uriGet (uriCreate ⟨[47, 97, 47, 98], by decide⟩) 1 = some (.holds [98]) :=
  ((uriGet_uriCreate_iff ⟨[47, 97, 47, 98], by decide⟩ (by decide) 1).mpr (by decide)).trans
    (by decide)

/-- The slot behind the last segment of `/a/b` is returned although it is not used. -/
theorem uriGet_returns_unused_slot :
    (runs 47 [47, 97, 47, 98]).length = 2 ∧
      uriGet (uriCreate ⟨[47, 97, 47, 98], by decide⟩) 2 = some { length := 0, value := none } := by
  decide

end FluentBit.UriFields
