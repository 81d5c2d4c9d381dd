import FluentBit.Lib.CString

/-!
# Splitting a line

`flb_utils_split` and `flb_utils_split_quoted`: a line is cut into tokens at a
separator.  With quotes, a token may stand between quotes and have the quote and
the backslash escaped in it; it comes out as it was, whatever bytes it has.
Every token of a plain split is a run of other bytes, as long as there is one in
what is left of the line; where only separators are left, the token is empty.  A
position in a line is given by the bytes from it on; behind the last byte there
is the terminator.
-/

namespace FluentBit.Split

open List

/-- The loop of `quoted_string_len` behind the quote; nothing when the string
ends in front of the end-quote. -/
def quotedLoop (quote : Byte) : List Byte → Nat → Option Nat
  | [], _ => none
  | c :: str, len =>
    if c = 92 then
      match str with
      | [] => none
      | d :: more =>
        if d = quote ∨ d = 92 then quotedLoop quote more (len + 1)
        else quotedLoop quote (d :: more) (len + 1)
    else if (c = 39 ∨ c = 34) ∧ c = quote then some len
    else quotedLoop quote str (len + 1)

def quotedStringLen : List Byte → Option Nat
  | [] => none
  | quote :: str => quotedLoop quote str 0

def copyLoop (quote : Byte) : Nat → List Byte → List Byte × List Byte
  | 0, tokenIn => ([], tokenIn)
  | _ + 1, [] => ([], [])
  | _ + 1, [c] => ([c], [])
  | len + 1, c :: d :: more =>
    if c = 92 ∧ (d = quote ∨ d = 92) then
      let copied := copyLoop quote len more
      (d :: copied.1, copied.2)
    else
      let copied := copyLoop quote len (d :: more)
      (c :: copied.1, copied.2)

/-- What `next_token` gives: the token, its length and the offset behind it. -/
structure Token where
  out : List Byte
  outLen : Nat
  offset : Nat

variable {sep : Byte} {lead : List Byte} {maxSplit : Int}

section
variable (signedChar : Bool)

def plainToken (str tokenIn : List Byte) (separator : Int) : Token :=
  let len :=
    match memchr tokenIn (toUnsignedChar separator) with
    | none => tokenIn.length
    | some found =>
      -- a separator at the start is not taken as the end of the token
      if 0 < tokenIn.length - found.length then
        tokenIn.length - found.length
      else tokenIn.length
  { out := tokenIn.take len, outLen := len, offset := (str.length - tokenIn.length) + len }

/-- The token between quotes; nothing when the end-quote is missing. -/
def quotedToken (str tokenIn : List Byte) (quote : Byte) : Option Token :=
  (quotedStringLen tokenIn).map fun len =>
    let copied := copyLoop quote len tokenIn.tail
    { out := copied.1, outLen := len, offset := str.length - copied.2.length }

/-- `next_token`; nothing when it returns -1. -/
def nextToken (str : List Byte) (separator : Int) (parseQuotes : Bool) : Option Token :=
  let tokenIn := str.dropWhile fun byte => charValue signedChar byte == separator
  match tokenIn.head? with
  | none => some (plainToken str tokenIn separator)
  | some quote =>
    if parseQuotes = false ∨ quote ≠ 34 ∧ quote ≠ 39 then
      some (plainToken str tokenIn separator)
    else quotedToken str tokenIn quote

/-- `struct flb_split_entry`.  The last position of an entry that has the
remaining bytes is not set. -/
structure Entry where
  value : List Byte
  len : Nat
  lastPos : Option Nat

/-- The loop of `split`, with a bound on the number of tokens. -/
def splitLoop (line : List Byte) (separator maxSplit : Int) (quoted : Bool) :
    Nat → Nat → Nat → Option (List Entry)
  | 0, _, _ => some []
  | tokens + 1, i, count =>
    if i < line.length then
      match nextToken signedChar (line.drop i) separator quoted with
      | none => none
      | some token =>
        let entry : Entry :=
          { value := token.out, len := token.outLen, lastPos := some (i + token.offset) }
        let count := count + 1
        let i := i + token.offset + 1
        if maxSplit ≤ (count : Int) ∧ 0 < maxSplit ∧ i < line.length then
          some [entry,
            { value := line.drop i, len := line.length - i, lastPos := none }]
        else
          (splitLoop line separator maxSplit quoted tokens i count).map (entry :: ·)
    else some []

/-- `split`: `i` grows in every round, so the bound is not reached. -/
def split (line : CString) (separator maxSplit : Int) (quoted : Bool) : Option (List Entry) :=
  splitLoop signedChar line.bytes separator maxSplit quoted (line.bytes.length + 1) 0 0

def splitQuoted (line : CString) (separator maxSplit : Int) : Option (List Entry) :=
  split signedChar line separator maxSplit true

/-- `flb_utils_split`. -/
def splitPlain (line : CString) (separator maxSplit : Int) : Option (List Entry) :=
  split signedChar line separator maxSplit false

def sized (token : List Byte) : List Byte × Nat := (token, token.length)

def Entry.text (entry : Entry) : List Byte × Nat := (entry.value, entry.len)

/-- The texts of the entries, from what is left of the line. -/
def texts (separator maxSplit : Int) (quoted : Bool) :
    Nat → Nat → List Byte → Option (List (List Byte × Nat))
  | 0, _, _ => some []
  | tokens + 1, count, rest =>
    if rest = [] then some []
    else
      match nextToken signedChar rest separator quoted with
      | none => none
      | some token =>
        let left := rest.drop (token.offset + 1)
        if maxSplit ≤ ((count + 1 : Nat) : Int) ∧ 0 < maxSplit ∧
            left ≠ [] then
          some [(token.out, token.outLen), sized left]
        else
          (texts separator maxSplit quoted tokens (count + 1) left).map
            ((token.out, token.outLen) :: ·)

theorem splitLoop_texts (line : List Byte) (separator maxSplit : Int)
    (quoted : Bool) (tokens i count : Nat) :
    (splitLoop signedChar line separator maxSplit quoted tokens i count).map (List.map Entry.text) =
      texts signedChar separator maxSplit quoted tokens count (line.drop i) := by
  induction tokens generalizing i count with
  | zero => rfl
  | succ tokens ih =>
    rw [splitLoop, texts]
    by_cases inside : i < line.length
    · have left : line.drop i ≠ [] := by
        rw [Ne, drop_eq_nil_iff]
        omega
      rw [if_pos inside, if_neg left]
      cases next : nextToken signedChar (line.drop i) separator quoted with
      | none => rfl
      | some token =>
        have behind : (line.drop i).drop (token.offset + 1) = line.drop (i + token.offset + 1) := by
          rw [drop_drop, Nat.add_assoc]
        have more : line.drop (i + token.offset + 1) ≠ [] ↔ i + token.offset + 1 < line.length := by
          rw [Ne, drop_eq_nil_iff]
          omega
        simp only [behind, more]
        split
        · simp [Entry.text, sized]
        · rw [← ih, Option.map_map, Option.map_map]
          rfl
    · have left : line.drop i = [] := by
        rw [drop_eq_nil_iff]
        omega
      rw [if_neg inside, if_pos left]
      rfl

theorem split_texts {line : CString} {separator : Int} {quoted : Bool}
    {found : List (List Byte × Nat)}
    (known : texts signedChar separator maxSplit quoted
      (line.bytes.length + 1) 0 line.bytes = some found) :
    ∃ entries, split signedChar line separator maxSplit quoted = some entries ∧
      entries.map Entry.text = found := by
  have same := splitLoop_texts signedChar line.bytes separator maxSplit quoted
    (line.bytes.length + 1) 0 0
  rw [drop_zero, known] at same
  exact Option.map_eq_some_iff.mp same

theorem dropWhile_separators (separators : ∀ byte ∈ lead, byte = sep) (str : List Byte) :
    (lead ++ str).dropWhile (fun byte => charValue signedChar byte == charValue signedChar sep) =
      str.dropWhile fun byte => charValue signedChar byte == charValue signedChar sep := by
  apply dropWhile_append_of_pos
  intro byte member
  rw [separators byte member]
  exact beq_self_eq_true _

theorem dropWhile_other {byte : Byte} (other : byte ≠ sep) (str : List Byte) :
    (byte :: str).dropWhile (fun byte => charValue signedChar byte == charValue signedChar sep) =
      byte :: str := by
  apply dropWhile_cons_of_neg
  rw [beq_iff_eq, charValue_inj]
  exact other

end

def escapeByte (quote byte : Byte) : List Byte :=
  if byte = quote ∨ byte = 92 then [92, byte] else [byte]

def escapeToken (quote : Byte) (token : List Byte) : List Byte := token.flatMap (escapeByte quote)

def quoteToken (quote : Byte) (token : List Byte) : List Byte :=
  quote :: (escapeToken quote token ++ [quote])

def quoteTokens (sep : Byte) (tokens : List (Byte × List Byte)) : List Byte :=
  [sep].intercalate (tokens.map fun token => quoteToken token.1 token.2)

def IsQuote (byte : Byte) : Prop := byte = 34 ∨ byte = 39

instance (byte : Byte) : Decidable (IsQuote byte) :=
  inferInstanceAs (Decidable (byte = 34 ∨ byte = 39))

variable {quote : Byte}

theorem IsQuote.ne_backslash (isQuote : IsQuote quote) : quote ≠ 92 := by
  cases isQuote with
  | inl double =>
    rw [double]
    decide
  | inr single =>
    rw [single]
    decide

theorem escapeToken_cons (quote byte : Byte) (token : List Byte) :
    escapeToken quote (byte :: token) = escapeByte quote byte ++ escapeToken quote token :=
  rfl

theorem quotedLoop_escapeToken (isQuote : IsQuote quote) (token tail : List Byte) (len : Nat) :
    quotedLoop quote (escapeToken quote token ++ quote :: tail) len =
      some (len + token.length) := by
  induction token generalizing len with
  | nil =>
    have ended : (quote = 39 ∨ quote = 34) ∧ quote = quote := ⟨isQuote.symm, rfl⟩
    rw [escapeToken, flatMap_nil, nil_append, quotedLoop.eq_def]
    exact (if_neg isQuote.ne_backslash).trans (if_pos ended)
  | cons byte token ih =>
    have counted : len + 1 + token.length = len + (byte :: token).length := by
      rw [length_cons]
      omega
    rw [escapeToken_cons, escapeByte, ← counted, ← ih]
    split
    next escaped =>
      rw [append_assoc, cons_append, cons_append, nil_append, quotedLoop.eq_def]
      simp only [if_true, if_pos escaped]
    next ordinary =>
      have noBackslash : byte ≠ 92 := fun same => ordinary (.inr same)
      have noEnd : ¬((byte = 39 ∨ byte = 34) ∧ byte = quote) := fun ended => ordinary (.inl ended.2)
      rw [append_assoc, cons_append, nil_append, quotedLoop.eq_def]
      simp only [if_neg noBackslash, if_neg noEnd]

theorem copyLoop_escapeToken (token tail : List Byte) :
    copyLoop quote token.length (escapeToken quote token ++ quote :: tail) =
      (token, quote :: tail) := by
  induction token with
  | nil => rfl
  | cons byte token ih =>
    rw [escapeToken_cons, escapeByte, length_cons]
    split
    next escaped =>
      rw [append_assoc, cons_append, cons_append, nil_append, copyLoop, if_pos ⟨rfl, escaped⟩, ih]
    next ordinary =>
      have noBackslash : byte ≠ 92 := fun same => ordinary (.inr same)
      obtain ⟨next, more, behind⟩ : ∃ next more, escapeToken quote token ++ quote :: tail =
        next :: more := exists_cons_of_ne_nil (by simp)
      rw [append_assoc, cons_append, nil_append, behind,
        copyLoop, if_neg (fun escape => noBackslash escape.1), ← behind, ih]

variable {bound : Nat}

section
variable (signedChar : Bool)

theorem nextToken_quoteToken {quote : Byte} (isQuote : IsQuote quote) (other : quote ≠ sep)
    (separators : ∀ byte ∈ lead, byte = sep) (token tail : List Byte) :
    nextToken signedChar (lead ++ (quoteToken quote token ++ tail))
        (charValue signedChar sep) true =
      some
        { out := token
          outLen := token.length
          offset := lead.length + (escapeToken quote token).length + 1 } := by
  have text : quoteToken quote token ++ tail =
      quote :: (escapeToken quote token ++ quote :: tail) := by
    simp [quoteToken]
  have parsed : ¬(true = false ∨ quote ≠ 34 ∧ quote ≠ 39) := by
    rintro (contradiction | others)
    · cases contradiction
    · cases isQuote with
      | inl double => exact others.1 double
      | inr single => exact others.2 single
  rw [nextToken, text, dropWhile_separators signedChar separators, dropWhile_other signedChar other]
  simp only [List.head?_cons, if_neg parsed, quotedToken, quotedStringLen,
    quotedLoop_escapeToken isQuote, tail_cons, Nat.zero_add, copyLoop_escapeToken, Option.map_some,
    length_append, length_cons]
  congr 2
  omega

theorem drop_quoteToken (quote : Byte) (lead token tail : List Byte) :
    (lead ++ (quoteToken quote token ++ tail)).drop
        (lead.length + (escapeToken quote token).length + 1 + 1) = tail := by
  have length : lead.length + (escapeToken quote token).length + 1 + 1 =
      (lead ++ quoteToken quote token).length := by
    simp only [quoteToken, length_append, length_cons, length_nil]
    omega
  rw [← append_assoc, length, drop_left]

theorem texts_quoteToken {quote : Byte} (isQuote : IsQuote quote) (other : quote ≠ sep)
    (separators : ∀ byte ∈ lead, byte = sep) (token tail : List Byte) (tokens count : Nat) :
    texts signedChar (charValue signedChar sep) (-1) true (tokens + 1) count
        (lead ++ (quoteToken quote token ++ tail)) =
      (texts signedChar (charValue signedChar sep) (-1) true tokens (count + 1)
        tail).map (sized token :: ·) := by
  have nonempty : lead ++ (quoteToken quote token ++ tail) ≠ [] := by simp [quoteToken]
  have unlimited : ∀ other : Prop, ∀ number : Int,
      ¬(-1 ≤ number ∧ (0 : Int) < -1 ∧ other) := by
    intro other number limited
    exact absurd limited.2.1 (by decide)
  rw [texts, if_neg nonempty, nextToken_quoteToken signedChar isQuote other separators]
  simp only [drop_quoteToken, if_neg (unlimited _ _)]
  rfl

theorem texts_quoteTokens {tokens : List (Byte × List Byte)}
    (quotes : ∀ token ∈ tokens, IsQuote token.1) (other : ¬ IsQuote sep) (nonempty : tokens ≠ [])
    (separators : ∀ byte ∈ lead, byte = sep) (enough : tokens.length < bound) (count : Nat) :
    texts signedChar (charValue signedChar sep) (-1) true bound count
        (lead ++ quoteTokens sep tokens) =
      some (tokens.map fun token => sized token.2) := by
  induction tokens generalizing lead bound count with
  | nil => exact absurd rfl nonempty
  | cons token tokens ih =>
    obtain ⟨bound, rfl⟩ : ∃ less, bound = less + 1 :=
      Nat.exists_eq_add_one_of_ne_zero (Nat.ne_of_gt (Nat.zero_lt_of_lt enough))
    have isQuote := quotes token mem_cons_self
    have different : token.1 ≠ sep := fun same => other (same ▸ isQuote)
    have fewer : tokens.length < bound := by
      rw [length_cons] at enough
      omega
    cases tokens with
    | nil =>
      obtain ⟨bound, rfl⟩ : ∃ less, bound = less + 1 :=
        Nat.exists_eq_add_one_of_ne_zero (Nat.ne_of_gt (Nat.zero_lt_of_lt fewer))
      have text : quoteTokens sep [token] = quoteToken token.1 token.2 ++ [] := by
        simp [quoteTokens, List.intercalate]
      rw [text, texts_quoteToken signedChar isQuote different separators, texts, if_pos rfl]
      rfl
    | cons second tokens =>
      have text : quoteTokens sep (token :: second :: tokens) =
          quoteToken token.1 token.2 ++ ([sep] ++ quoteTokens sep (second :: tokens)) := by
        simp only [quoteTokens, map_cons, intercalate_cons_cons, append_assoc]
      have one : ∀ byte ∈ [sep], byte = sep := by
        intro byte member
        exact mem_singleton.mp member
      rw [text, texts_quoteToken signedChar isQuote different separators, ih
        (fun token member => quotes token (mem_cons_of_mem _ member)) (cons_ne_nil _ _) one fewer]
      rfl

theorem length_le_quoteTokens (tokens : List (Byte × List Byte)) :
    tokens.length ≤ (quoteTokens sep tokens).length := by
  induction tokens with
  | nil => exact Nat.zero_le _
  | cons token tokens ih =>
    cases tokens with
    | nil => simp [quoteTokens, quoteToken]
    | cons second tokens =>
      simp only [quoteTokens, map_cons, intercalate_cons_cons,
        length_append, length_cons, quoteToken] at ih ⊢
      omega

end

/-- Splitting a line of quoted tokens gives the tokens in order, each with its
length, whatever bytes the tokens have. -/
theorem quoted_split_undoes_quoting (signedChar : Bool) (line : CString) (sep : Byte)
    (tokens : List (Byte × List Byte)) (nonempty : tokens ≠ [])
    (quotes : ∀ token ∈ tokens, IsQuote token.1) (separator : ¬ IsQuote sep ∧ sep ≠ 92)
    (joined : line.bytes = quoteTokens sep tokens) :
    ∃ entries,
      splitQuoted signedChar line (charValue signedChar sep) (-1) = some entries ∧
      entries.map Entry.text = tokens.map fun token => sized token.2 := by
  apply split_texts
  have enough : tokens.length < line.bytes.length + 1 := by
    rw [joined]
    exact Nat.lt_succ_of_le (length_le_quoteTokens tokens)
  have noLead : ∀ byte ∈ ([] : List Byte), byte = sep := by
    intro byte member
    exact absurd member not_mem_nil
  have read := texts_quoteTokens signedChar quotes separator.1 nonempty noLead enough 0
  rw [nil_append, ← joined] at read
  exact read

/-- The line `"a,\"\\",''`: a token with the separator, a quote and a
backslash, and an empty one. -/
def quotedLine : CString where
  bytes := [34, 97, 44, 92, 34, 92, 92, 34, 44, 39, 39]
  noNul := by decide

theorem quoted_split_undoes_quoting_twoTokens :
    ∃ entries, splitQuoted true quotedLine (charValue true 44) (-1) = some entries ∧
      entries.map Entry.text = [([97, 44, 34, 92], 4), ([], 0)] :=
  quoted_split_undoes_quoting true quotedLine 44
    [(34, [97, 44, 34, 92]), (39, [])] (by decide) (by decide) (by decide)
    (by decide)

/-- The maximal runs of bytes other than the separator. -/
def runs (sep : Byte) (line : List Byte) : List (List Byte) :=
  (line.splitOnP (· == sep)).filter (· ≠ [])

/-- What is left of the line behind its first run. -/
def afterRun (sep : Byte) (line : List Byte) : List Byte :=
  (line.dropWhile (· == sep)).dropWhile (· != sep)

def afterRuns (sep : Byte) : Nat → List Byte → List Byte
  | 0, line => line
  | k + 1, line => afterRuns sep k (afterRun sep line)

/-- What is left of the line behind its first `k` runs and the separator that
ends the last of these. -/
def remaining (sep : Byte) (k : Nat) (line : List Byte) : List Byte := (afterRuns sep k line).tail

/-- The remaining bytes as an entry, if there are any. -/
def remainingEntry (sep : Byte) (k : Nat) (line : List Byte) : List (List Byte) :=
  if remaining sep k line = [] then [] else [remaining sep k line]

/-- The runs, or the first of them with the remaining bytes. -/
def limitedRuns (sep : Byte) (maxSplit : Int) (line : List Byte) : List (List Byte) :=
  if maxSplit ≤ 0 then runs sep line
  else
    (runs sep line).take maxSplit.toNat ++ remainingEntry sep maxSplit.toNat line

/-- A line of separators only, or one that ends with two of them. -/
def EndsApart (sep : Byte) (line : List Byte) : Prop :=
  (line ≠ [] ∧ ∀ byte ∈ line, byte = sep) ∨ [sep, sep] <:+ line

instance (sep : Byte) (line : List Byte) : Decidable (EndsApart sep line) :=
  inferInstanceAs (Decidable (_ ∨ _))

section

theorem line_cases (sep : Byte) (line : List Byte) :
    (∀ byte ∈ line, byte = sep) ∨
      ∃ lead run tail, line = lead ++ (run ++ tail) ∧
        (∀ byte ∈ lead, byte = sep) ∧ run ≠ [] ∧ sep ∉ run ∧
        (tail = [] ∨ ∃ more, tail = sep :: more) := by
  induction line with
  | nil => exact .inl (fun _ member => absurd member not_mem_nil)
  | cons byte line ih =>
    by_cases same : byte = sep
    · cases ih with
      | inl separators => exact .inl (forall_mem_cons.mpr ⟨same, separators⟩)
      | inr found =>
        obtain ⟨lead, run, tail, rfl, separators, rest⟩ := found
        exact .inr ⟨byte :: lead, run, tail, rfl, forall_mem_cons.mpr ⟨same, separators⟩, rest⟩
    · right
      have noLead : ∀ byte ∈ ([] : List Byte), byte = sep :=
        fun _ member => absurd member not_mem_nil
      cases search : memchr (byte :: line) sep with
      | none =>
        have absent := memchr_eq_none_iff.mp search
        exact ⟨[], byte :: line, [], (append_nil _).symm, noLead, cons_ne_nil _ _, absent, .inl rfl⟩
      | some found =>
        obtain ⟨run, more, whole, _, absent⟩ := memchr_eq_some search
        refine ⟨[], run, sep :: more, whole, noLead, ?_, absent, .inr ⟨more, rfl⟩⟩
        intro empty
        rw [empty, nil_append] at whole
        exact same (List.cons.inj whole).1

theorem runs_nil : runs sep [] = [] := by
  simp [runs, splitOnP_nil]

variable {run : List Byte}

theorem runs_separators (separators : ∀ byte ∈ lead, byte = sep) (line : List Byte) :
    runs sep (lead ++ line) = runs sep line := by
  induction lead with
  | nil => rfl
  | cons byte lead ih =>
    have first : byte = sep := separators byte mem_cons_self
    have rest := ih fun byte member =>
      separators byte (mem_cons_of_mem _ member)
    have noByte : ∀ byte ∈ ([] : List Byte), (byte == sep) = false :=
      fun _ member => absurd member not_mem_nil
    have cut := splitOnP_append_cons_of_forall_mem noByte sep (beq_self_eq_true _) (lead ++ line)
    rw [nil_append] at cut
    rw [← rest, first, runs, cons_append, cut]
    rfl

theorem not_separator_of_mem (absent : sep ∉ run) : ∀ byte ∈ run, (byte == sep) = false := by
  intro byte member
  rw [beq_eq_false_iff_ne]
  intro same
  exact absent (same ▸ member)

theorem runs_run (some : run ≠ []) (absent : sep ∉ run) : runs sep run = [run] := by
  rw [runs, splitOnP_eq_singleton (not_separator_of_mem absent)]
  simp [some]

theorem runs_run_more (some : run ≠ []) (absent : sep ∉ run) (more : List Byte) :
    runs sep (run ++ sep :: more) = run :: runs sep more := by
  rw [runs, splitOnP_append_cons_of_forall_mem
    (not_separator_of_mem absent) sep (beq_self_eq_true _)]
  simp [some, runs]

theorem afterRun_separators {line : List Byte} (separators : ∀ byte ∈ line, byte = sep) :
    afterRun sep line = [] := by
  have all : ∀ byte ∈ line, (byte == sep) = true := by
    intro byte member
    rw [separators byte member]
    exact beq_self_eq_true _
  rw [afterRun, ← append_nil line, dropWhile_append_of_pos all]
  rfl

theorem afterRun_separator (line : List Byte) : afterRun sep (sep :: line) = afterRun sep line := by
  simp only [afterRun, dropWhile_cons, beq_self_eq_true, if_true]

theorem afterRun_run {tail : List Byte} (separators : ∀ byte ∈ lead, byte = sep) (some : run ≠ [])
    (absent : sep ∉ run) (ended : tail = [] ∨ ∃ more, tail = sep :: more) :
    afterRun sep (lead ++ (run ++ tail)) = tail := by
  have all : ∀ byte ∈ lead, (byte == sep) = true := by
    intro byte member
    rw [separators byte member]
    exact beq_self_eq_true _
  have others : ∀ byte ∈ run, (byte != sep) = true := by
    intro byte member
    rw [bne, not_separator_of_mem absent byte member]
    rfl
  obtain ⟨first, run, rfl⟩ := exists_cons_of_ne_nil some
  have starts := not_separator_of_mem absent first mem_cons_self
  rw [afterRun, dropWhile_append_of_pos all, cons_append,
    dropWhile_cons_of_neg (by rw [starts]; exact Bool.false_ne_true),
    ← cons_append, dropWhile_append_of_pos others]
  cases ended with
  | inl empty =>
    rw [empty]
    rfl
  | inr found =>
    obtain ⟨more, rfl⟩ := found
    exact dropWhile_cons_of_neg (by simp)

theorem afterRuns_nil (k : Nat) : afterRuns sep k [] = [] := by
  induction k with
  | zero => rfl
  | succ k ih => exact ih

theorem remainingEntry_of_nil {k : Nat} {line : List Byte} (ended : afterRun sep line = []) :
    remainingEntry sep (k + 1) line = [] := by
  rw [remainingEntry, remaining, afterRuns, ended, afterRuns_nil]
  rfl

theorem not_endsApart_nil : ¬ EndsApart sep [] := by
  rintro (separators | ended)
  · exact separators.1 rfl
  · exact absurd (suffix_nil.mp ended) (cons_ne_nil _ _)

variable (some : run ≠ []) (absent : sep ∉ run)
include some absent

/-- Behind a run a line ends apart by its last two bytes, read backwards. -/
theorem endsApart_behind (tail : List Byte) :
    ∃ last before, last ≠ sep ∧ (EndsApart sep (lead ++ (run ++ tail)) ↔
      [sep, sep] <+: tail.reverse ++ last :: before) := by
  obtain ⟨init, last, rfl⟩ := (eq_nil_or_concat' run).resolve_left some
  have other : last ≠ sep := by
    rintro rfl
    exact absent (by simp)
  refine ⟨last, init.reverse ++ lead.reverse, other, ?_⟩
  rw [EndsApart, or_iff_right, ← reverse_prefix]
  · simp
  · intro separators
    exact other (separators.2 last (by simp))

theorem not_endsApart_run : ¬ EndsApart sep (lead ++ run) := by
  obtain ⟨last, before, other, behind⟩ := @endsApart_behind sep lead run some absent []
  rw [append_nil] at behind
  rw [behind, reverse_nil, nil_append, cons_prefix_cons]
  exact fun same => other same.1.symm

theorem endsApart_more (more : List Byte) :
    EndsApart sep (lead ++ (run ++ sep :: more)) ↔ EndsApart sep more := by
  obtain ⟨last, before, other, behind⟩ := @endsApart_behind sep lead run some absent (sep :: more)
  rw [behind, EndsApart, ← reverse_prefix, reverse_cons, append_assoc, singleton_append]
  obtain ⟨backwards, rfl⟩ := reverse_surjective more
  rcases backwards with _ | ⟨first, _ | ⟨second, rest⟩⟩
  · simp [other.symm]
  · simp [eq_comm]
  · have two : ∀ others, [sep, sep] <+: first :: second :: others ↔ sep = first ∧ sep = second := by
      simp [cons_prefix_cons]
    rw [reverse_reverse, cons_append, cons_append, two]
    refine ⟨fun same => .inr ((two rest).mpr same), ?_⟩
    rintro (separators | same)
    · exact ⟨(separators.2 first (by simp)).symm, (separators.2 second (by simp)).symm⟩
    · exact (two rest).mp same

end

section
variable (signedChar : Bool) {rest run : List Byte}

theorem nextToken_separators (separators : ∀ byte ∈ rest, byte = sep) :
    nextToken signedChar rest (charValue signedChar sep) false =
      some { out := [], outLen := 0, offset := rest.length } := by
  have skipped := dropWhile_separators signedChar separators []
  rw [append_nil, dropWhile_nil] at skipped
  rw [nextToken, skipped]
  rfl

theorem nextToken_run {tail : List Byte} (separators : ∀ byte ∈ lead, byte = sep)
    (nonempty : run ≠ []) (absent : sep ∉ run) (ended : tail = [] ∨ ∃ more, tail = sep :: more) :
    nextToken signedChar (lead ++ (run ++ tail)) (charValue signedChar sep) false =
      some
        { out := run, outLen := run.length, offset := lead.length + run.length } := by
  obtain ⟨first, others, starts⟩ := exists_cons_of_ne_nil nonempty
  have positive : 0 < run.length := length_pos_of_ne_nil nonempty
  have different : first ≠ sep := by
    intro same
    rw [starts, same] at absent
    exact absent mem_cons_self
  have skipped : (lead ++ (run ++ tail)).dropWhile
      (fun byte => charValue signedChar byte == charValue signedChar sep) = run ++ tail := by
    rw [dropWhile_separators signedChar separators, starts, cons_append,
      dropWhile_other signedChar different]
  have head : (run ++ tail).head? = some first := by
    rw [starts]
    rfl
  have token : plainToken (lead ++ (run ++ tail)) (run ++ tail)
      (charValue signedChar sep) =
        { out := run, outLen := run.length, offset := lead.length + run.length } := by
    cases ended with
    | inl empty =>
      have search : memchr run sep = none := memchr_eq_none_iff.mpr absent
      rw [empty, append_nil, plainToken, toUnsignedChar_charValue, search]
      simp
    | inr found =>
      obtain ⟨more, rfl⟩ := found
      rw [plainToken, toUnsignedChar_charValue, memchr_append absent]
      simp [positive]
  rw [nextToken, skipped, head, token]
  exact if_pos (.inl rfl)

theorem drop_run (lead run tail : List Byte) :
    (lead ++ (run ++ tail)).drop (lead.length + run.length + 1) = tail.tail := by
  rw [← append_assoc, ← length_append, ← drop_drop, drop_left, drop_one]

/-- The empty token behind the last run. -/
def emptyTokens (sep : Byte) (rest : List Byte) : List (List Byte) :=
  if EndsApart sep rest then [[]] else []

theorem emptyTokens_separators (left : rest ≠ []) (separators : ∀ byte ∈ rest, byte = sep) :
    emptyTokens sep rest = [[]] :=
  if_pos (.inl ⟨left, separators⟩)

theorem emptyTokens_run (nonempty : run ≠ []) (absent : sep ∉ run) :
    emptyTokens sep (lead ++ run) = [] :=
  if_neg (not_endsApart_run nonempty absent)

theorem emptyTokens_more (nonempty : run ≠ []) (absent : sep ∉ run) (more : List Byte) :
    emptyTokens sep (lead ++ (run ++ sep :: more)) = emptyTokens sep more := by
  simp only [emptyTokens, endsApart_more nonempty absent]

theorem texts_round (sep : Byte) (left : rest ≠ []) (tokens count : Nat) :
    ((∀ byte ∈ rest, byte = sep) ∧
      texts signedChar (charValue signedChar sep) maxSplit false (tokens + 2)
        count rest = some [sized []]) ∨
    (∃ lead run, rest = lead ++ run ∧ (∀ byte ∈ lead, byte = sep) ∧ run ≠ [] ∧ sep ∉ run ∧
      texts signedChar (charValue signedChar sep) maxSplit false (tokens + 2)
        count rest = some [sized run]) ∨
    (∃ lead run more, rest = lead ++ (run ++ sep :: more) ∧
      (∀ byte ∈ lead, byte = sep) ∧ run ≠ [] ∧ sep ∉ run ∧
      texts signedChar (charValue signedChar sep) maxSplit false (tokens + 2) count rest =
        if maxSplit ≤ ((count + 1 : Nat) : Int) ∧ 0 < maxSplit ∧ more ≠ [] then
          some [sized run, sized more]
        else
          (texts signedChar (charValue signedChar sep) maxSplit false
            (tokens + 1) (count + 1) more).map (sized run :: ·)) := by
  have atEnd : ∀ count, texts signedChar (charValue signedChar sep) maxSplit
      false (tokens + 1) count [] = some [] := by
    intro count
    rw [texts, if_pos rfl]
  have noneLeft : ∀ number : Int, ¬(maxSplit ≤ number ∧ 0 < maxSplit ∧ ([] : List Byte) ≠ []) :=
    fun _ limited => limited.2.2 rfl
  rcases line_cases sep rest with separators |
    ⟨lead, run, tail, rfl, separators, nonempty, absent, ended⟩
  · have behind : rest.drop (rest.length + 1) = [] := drop_eq_nil_of_le (Nat.le_succ _)
    refine .inl ⟨separators, ?_⟩
    rw [texts, if_neg left, nextToken_separators signedChar separators]
    simp only [behind, if_neg (noneLeft _), atEnd]
    rfl
  · have next := nextToken_run signedChar separators nonempty absent ended
    have behind := drop_run lead run tail
    cases ended with
    | inl empty =>
      subst empty
      refine .inr (.inl ⟨lead, run, by rw [append_nil], separators, nonempty, absent, ?_⟩)
      rw [texts, if_neg left, next]
      simp only [behind, tail_nil, if_neg (noneLeft _), atEnd]
      rfl
    | inr found =>
      obtain ⟨more, rfl⟩ := found
      refine .inr (.inr ⟨lead, run, more, rfl, separators, nonempty, absent, ?_⟩)
      rw [texts, if_neg left, next]
      simp only [behind, tail_cons]
      rfl

/-- Without a limit there is an entry for every run, and an empty one when the
line ends apart from its last run. -/
theorem texts_unlimited (sep : Byte) (unlimited : maxSplit ≤ 0)
    (enough : rest.length < bound) (count : Nat) :
    texts signedChar (charValue signedChar sep) maxSplit false bound count rest =
      some ((runs sep rest ++ emptyTokens sep rest).map sized) := by
  induction bound generalizing rest count with
  | zero => exact absurd enough (Nat.not_lt_zero _)
  | succ bound ih =>
    by_cases left : rest = []
    · rw [left, texts, if_pos rfl, runs_nil, emptyTokens, if_neg not_endsApart_nil]
      rfl
    · have positive := length_pos_of_ne_nil left
      obtain ⟨tokens, rfl⟩ : ∃ tokens, bound = tokens + 1 :=
        Nat.exists_eq_add_one_of_ne_zero (by omega)
      rcases texts_round signedChar sep left tokens count with
        ⟨separators, result⟩ |
        ⟨lead, run, rfl, separators, nonempty, absent, result⟩ |
        ⟨lead, run, more, rfl, separators, nonempty, absent, result⟩
      · have none := runs_separators separators []
        rw [append_nil, runs_nil] at none
        rw [result, none, emptyTokens_separators left separators]
        rfl
      · rw [result, runs_separators separators, runs_run nonempty absent,
          emptyTokens_run nonempty absent]
        rfl
      · have shorter : more.length < tokens + 1 := by
          simp only [length_append, length_cons] at enough
          omega
        have noLimit : ¬(maxSplit ≤ ((count + 1 : Nat) : Int) ∧ 0 < maxSplit ∧ more ≠ []) :=
          fun limited => absurd limited.2.1 (Int.not_lt.mpr unlimited)
        rw [result, if_neg noLimit, ih shorter, runs_separators separators,
          runs_run_more nonempty absent, emptyTokens_more nonempty absent]
        rfl

theorem remainingEntry_more {more : List Byte} (separators : ∀ byte ∈ lead, byte = sep)
    (nonempty : run ≠ []) (absent : sep ∉ run) (k : Nat) :
    remainingEntry sep (k + 2) (lead ++ (run ++ sep :: more)) =
      remainingEntry sep (k + 1) more := by
  have behind := afterRun_run separators nonempty absent (.inr ⟨more, rfl⟩)
  have same : remaining sep (k + 2) (lead ++ (run ++ sep :: more)) =
      remaining sep (k + 1) more := by
    simp only [remaining, afterRuns, behind, afterRun_separator]
  rw [remainingEntry, same, remainingEntry]

/-- With a limit there is an entry for each of the first runs and one for the
remaining bytes; an empty one only where there are too few runs. -/
theorem texts_limited (sep : Byte) (enough : rest.length < bound) (count k : Nat) :
    texts signedChar (charValue signedChar sep) ((count + (k + 1) : Nat) : Int)
        false bound count rest =
      some (((runs sep rest).take (k + 1) ++ remainingEntry sep (k + 1) rest ++
        if (runs sep rest).length < k + 1 then emptyTokens sep rest
        else []).map sized) := by
  induction bound generalizing rest count k with
  | zero => exact absurd enough (Nat.not_lt_zero _)
  | succ bound ih =>
    by_cases left : rest = []
    · rw [left, texts, if_pos rfl, runs_nil, emptyTokens,
        if_neg not_endsApart_nil, ite_self, remainingEntry_of_nil rfl]
      rfl
    · have positive := length_pos_of_ne_nil left
      obtain ⟨tokens, rfl⟩ : ∃ tokens, bound = tokens + 1 :=
        Nat.exists_eq_add_one_of_ne_zero (by omega)
      rcases texts_round signedChar sep left tokens count with
        ⟨separators, result⟩ |
        ⟨lead, run, rfl, separators, nonempty, absent, result⟩ |
        ⟨lead, run, more, rfl, separators, nonempty, absent, result⟩
      · have none := runs_separators separators []
        rw [append_nil, runs_nil] at none
        rw [result, none, emptyTokens_separators left separators,
          remainingEntry_of_nil (afterRun_separators separators)]
        simp
      · have behind := afterRun_run separators nonempty absent (.inl rfl)
        rw [append_nil] at behind
        rw [result, runs_separators separators, runs_run nonempty absent,
          emptyTokens_run nonempty absent, ite_self, remainingEntry_of_nil behind]
        simp
      · have shorter : more.length < tokens + 1 := by
          simp only [length_append, length_cons] at enough
          omega
        have found : runs sep (lead ++ (run ++ sep :: more)) = run :: runs sep more := by
          rw [runs_separators separators, runs_run_more nonempty absent]
        cases k with
        | zero =>
          have behind : remaining sep 1 (lead ++ (run ++ sep :: more)) =
              more := by
            rw [remaining, afterRuns, afterRun_run separators nonempty absent (.inr ⟨more, rfl⟩)]
            rfl
          have full : ¬((run :: runs sep more).length < 0 + 1) := by simp
          rw [result, found, if_neg full, remainingEntry, behind]
          by_cases ended : more = []
          · subst ended
            rw [if_neg (fun limited => limited.2.2 rfl), texts, if_pos rfl]
            rfl
          · rw [if_pos ⟨Int.le_refl _, by omega, ended⟩, if_neg ended]
            rfl
        | succ k =>
          have noLimit : ¬(((count + (k + 1 + 1) : Nat) : Int) ≤ ((count + 1 : Nat) : Int) ∧
              0 < ((count + (k + 1 + 1) : Nat) : Int) ∧ more ≠ []) := by
            intro limited
            omega
          have number : count + (k + 1 + 1) = count + 1 + (k + 1) := by omega
          rw [result, if_neg noLimit, number, ih shorter, found,
            remainingEntry_more separators nonempty absent, emptyTokens_more nonempty absent]
          simp only [length_cons, Nat.add_lt_add_iff_right, take_succ_cons, cons_append, map_cons,
            Option.map_some]

end

theorem append_emptyTokens_iff (sep : Byte) (rest : List Byte) (expected : List (List Byte)) :
    (expected ++ emptyTokens sep rest).map sized = expected.map sized ↔ ¬ EndsApart sep rest := by
  unfold emptyTokens
  split
  next apart => simp [apart]
  next tight => simp [tight]

/-- A plain split gives the runs, or the first of them with the remaining bytes,
if the line does not end apart from its last run or the limit is met. -/
theorem plain_split_gives_runs (signedChar : Bool) (line : CString) (sep : Byte) (maxSplit : Int) :
    ∃ entries,
      splitPlain signedChar line (charValue signedChar sep) maxSplit = some entries ∧
      (entries.map Entry.text = (limitedRuns sep maxSplit line.bytes).map sized ↔
        ¬ EndsApart sep line.bytes ∨ 0 < maxSplit ∧ maxSplit ≤ (runs sep line.bytes).length) := by
  have enough : line.bytes.length < line.bytes.length + 1 := Nat.lt_succ_self _
  by_cases unlimited : maxSplit ≤ 0
  · obtain ⟨entries, result, read⟩ := split_texts signedChar
      (texts_unlimited signedChar sep unlimited enough 0)
    refine ⟨entries, result, ?_⟩
    rw [read, limitedRuns, if_pos unlimited, append_emptyTokens_iff]
    constructor
    · exact .inl
    · rintro (tight | limited)
      · exact tight
      · exact absurd limited.1 (Int.not_lt.mpr unlimited)
  · obtain ⟨k, rfl⟩ : ∃ k : Nat, maxSplit = ((0 + (k + 1) : Nat) : Int) :=
      ⟨maxSplit.toNat - 1, by omega⟩
    obtain ⟨entries, result, read⟩ := split_texts signedChar
      (texts_limited signedChar sep enough 0 k)
    refine ⟨entries, result, ?_⟩
    have limit : ((0 + (k + 1) : Nat) : Int).toNat = k + 1 := by omega
    rw [read, limitedRuns, if_neg unlimited, limit]
    by_cases few : (runs sep line.bytes).length < k + 1
    · rw [if_pos few, append_emptyTokens_iff]
      constructor
      · exact .inl
      · rintro (tight | limited)
        · exact tight
        · exact absurd limited.2 (by omega)
    · rw [if_neg few, append_nil]
      refine ⟨fun _ => .inr ⟨by omega, by omega⟩, fun _ => rfl⟩

/-- The line `a,,`. -/
def trailingLine : CString where
  bytes := [97, 44, 44]
  noNul := by decide

/-- The second separator at the end of a line gives an empty entry. -/
theorem plain_split_gives_empty :
    (splitPlain true trailingLine (charValue true 44) 0).map
        (List.map Entry.text) = some [([97], 1), ([], 0)] ∧
      limitedRuns 44 0 trailingLine.bytes = [[97]] := by
  decide

end FluentBit.Split
