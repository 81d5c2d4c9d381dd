import FluentBit.Lib.CString
import FluentBit.Lib.Lines
import FluentBit.Lib.Run
import Mathlib.Data.List.TakeWhile

/-!
# Reading a file in the tail input

A file is read in pieces into a buffer.  After every read the complete lines of
the buffer are packed as records and consumed; the rest stays for the next
read.  A buffer that is full grows up to a limit.  At the limit its content is
dropped and the line it belongs to is skipped, or the file is given up.  With a
database the offset of a file is stored after every read, and a later run
starts from there.

Over a run of reads the records are those of the finished lines that fit into
the largest buffer.  Two things break this: zero bytes in front of a line are
lost when the line stands at the head of the buffer, and bytes that are dropped
with a long line are not counted in the offset of the stream.
-/

namespace FluentBit.Tail

def nul : Byte := 0
def lineFeed : Byte := 10
def carriageReturn : Byte := 13

/-- Results of `flb_unicode_convert`. -/
inductive Converted where
  | ok (decoded : List Byte)
  | nop
  | failed

/-- `struct flb_tail_config`, as far as plain lines are concerned.  The sizes
are checked when it is created.  An encoding is given by its conversion. -/
structure Config where
  bufChunkSize : Nat
  bufMaxSize : Nat
  skipLongLines : Bool
  skipEmptyLines : Bool
  offsetKey : Bool
  db : Bool
  readFromHead : Bool
  preferredInputEncoding : Option (List Byte → Converted)
  genericInputEncoding : Option (List Byte → Option (List Byte))
  chunk_pos : 0 < bufChunkSize
  chunk_le : bufChunkSize ≤ bufMaxSize

/-- What `flb_tail_file_pack_line` packs. -/
structure Record where
  offset : Option Nat
  log : List Byte
deriving DecidableEq, Repr

/-- `struct flb_tail_file`; the data stands for the first `buf_len` bytes of
the buffer. -/
structure File where
  bufData : List Byte
  bufSize : Nat
  skipNext : Bool
  offset : Nat
  streamOffset : Nat
deriving DecidableEq, Repr

section
variable (config : Config)

/-- The loop of `flb_skip_leading_zeros_simd` over single bytes. -/
def skipLeadingZeros (data : List Byte) : List Byte × Nat :=
  (data.dropWhile (· = nul), (data.takeWhile (· = nul)).length)

/-- The loop of `flb_skip_leading_zeros_simd` over vectors, and the other one
after it. -/
def skipLeadingZerosSimd (vlen : Nat) (positive : 0 < vlen) (data : List Byte) : List Byte × Nat :=
  if vlen ≤ data.length then
    if nul ∉ data.take vlen then (data, 0)
    else if (data.take vlen).all (· = nul) then
      let (rest, count) := skipLeadingZerosSimd vlen positive (data.drop vlen)
      (rest, count + vlen)
    else
      let count := ((data.take vlen).takeWhile (· = nul)).length
      (data.drop count, count)
  else skipLeadingZeros data
termination_by data.length
decreasing_by
  rw [List.length_drop]
  omega

/-- The counters of `process_content`, the flag of the file and the records of
the call. -/
structure Scan where
  processedBytes : Nat
  lines : Nat
  skipNext : Bool
  records : List Record
deriving DecidableEq, Repr

def packLine (offset : Nat) (line : List Byte) : Record :=
  { offset := if config.offsetKey then some offset else none
    log := line }

/-- One round of the loop of `process_content`. -/
def processLine (streamOffset : Nat) (scan : Scan) (line : List Byte) : Scan :=
  let len := line.length
  let processedBytes := scan.processedBytes + len + 1
  if scan.skipNext then
    { scan with processedBytes := processedBytes, skipNext := false }
  else if config.skipEmptyLines && len = 0 then
    { scan with processedBytes := processedBytes }
  else if config.skipEmptyLines && line = [carriageReturn] then
    { scan with processedBytes := processedBytes }
  else
    let crlf := if len ≥ 2 && line.getLast? = some carriageReturn then 1 else 0
    { scan with
      processedBytes := processedBytes
      lines := scan.lines + 1
      records := scan.records ++
        [packLine config (streamOffset + scan.processedBytes) (line.take (len - crlf))] }

/-- The data to process, the value of `original_len` and the bytes that are
processed already. -/
structure Decoded where
  data : List Byte
  originalLen : Nat
  processedBytes : Nat
deriving DecidableEq, Repr

def byteOrderMark : List Byte := [0xEF, 0xBB, 0xBF]

/-- The conversion for `preferred_input_encoding`. -/
def decodePreferred (bufData : List Byte) : Decoded :=
  match config.preferredInputEncoding with
  | none => { data := bufData, originalLen := 0, processedBytes := 0 }
  | some convert =>
    match convert bufData with
    | .ok decoded =>
      { data := decoded, originalLen := bufData.length, processedBytes := 0 }
    | .nop =>
      if byteOrderMark.isPrefixOf bufData then
        { data := bufData.drop 3, originalLen := bufData.length, processedBytes := 3 }
      else
        { data := bufData, originalLen := bufData.length, processedBytes := 0 }
    | .failed =>
      { data := bufData, originalLen := bufData.length, processedBytes := 0 }

/-- The conversion for `generic_input_encoding_type`.  Its result is a string
that ends at the first zero byte.  A conversion that fails frees its memory and
leaves the pointer, so that `process_content` frees it again; here the data is
left as it is. -/
def decodeGeneric (decoded : Decoded) : Decoded :=
  match config.genericInputEncoding with
  | none => decoded
  | some convert =>
    { decoded with
      data :=
        match convert decoded.data with
        | some string => string.takeWhile (· ≠ nul)
        | none => decoded.data
      originalLen := decoded.data.length }

/-- The value of `bytes` at the end of `process_content`. -/
def consumedBytes (bufLen originalLen : Nat) (scan : Scan) : Nat :=
  if scan.lines = 0 && scan.skipNext then bufLen
  else if originalLen > 0 then originalLen
  else scan.processedBytes

/-- `process_content`: the counters and the number of bytes to consume. -/
def processContent (file : File) : Scan × Nat :=
  let decoded := decodeGeneric config (decodePreferred config file.bufData)
  let (data, zeros) := skipLeadingZeros decoded.data
  let scan := (Lines.split lineFeed data).1.foldl (processLine config file.streamOffset)
    { processedBytes := decoded.processedBytes + zeros
      lines := 0
      skipNext := file.skipNext
      records := [] }
  (scan, consumedBytes file.bufData.length decoded.originalLen scan)

def File.capacity (file : File) : Nat := file.bufSize - file.bufData.length - 1

def overflows (file : File) : Bool := file.capacity < 1 && file.bufSize ≥ config.bufMaxSize

/-- The first part of `flb_tail_file_chunk`: room for the next read. -/
def makeRoom (file : File) : Option File :=
  if file.capacity < 1 then
    if file.bufSize ≥ config.bufMaxSize then
      if config.skipLongLines then
        some { file with bufData := [], skipNext := true }
      else none
    else
      some
        { file with
          bufSize :=
            if file.bufSize + config.bufChunkSize > config.bufMaxSize then
              config.bufMaxSize
            else file.bufSize + config.bufChunkSize }
  else some file

/-- The second part of `flb_tail_file_chunk`, after data was read. -/
def fileChunk (file : File) (data : List Byte) : File × List Record :=
  if data = [] then (file, [])
  else
    let file :=
      { file with offset := file.offset + data.length, bufData := file.bufData ++ data }
    let (scan, processedBytes) := processContent config file
    ({ file with
        skipNext := scan.skipNext
        streamOffset := file.streamOffset + processedBytes
        bufData := file.bufData.drop processedBytes },
      scan.records)

/-- The content of a file, its offset in the database, the file as it is
followed, and the records packed so far. -/
structure World where
  content : List Byte
  stored : Option Nat
  file : Option File
  packed : List Record
deriving DecidableEq, Repr

def World.initial (content : List Byte) : World :=
  { content := content, stored := none, file := none, packed := [] }

/-- The file as `flb_tail_file_append` creates it. -/
def File.fresh (offset streamOffset : Nat) : File :=
  { bufData := []
    bufSize := config.bufChunkSize
    skipNext := false
    offset := offset
    streamOffset := streamOffset }

/-- `flb_tail_file_append` with `set_file_position`: the offset from the
database, the head or the end.  `flb_tail_db_file_set` inserts a row when there
is none. -/
def fileAppend (world : World) : World :=
  if config.db then
    let stored := world.stored.getD 0
    let offset :=
      if stored > 0 then stored
      else if config.readFromHead then 0
      else world.content.length
    { world with file := some (File.fresh config offset 0), stored := some offset }
  else if config.readFromHead then
    { world with file := some (File.fresh config 0 0) }
  else
    { world with file := some (File.fresh config world.content.length world.content.length) }

/-- What happens to a file.  `chunk` is a read that gives the number of bytes,
`remove` the end of the run, or of the file when a read fails. -/
inductive Event where
  | append
  | grow (extra : List Byte)
  | chunk (count : Nat)
  | remove
deriving DecidableEq, Repr

def step (world : World) : Event → Option World
  | .append =>
    match world.file with
    | some _ => none
    | none => some (fileAppend config world)
  | .grow extra => some { world with content := world.content ++ extra }
  | .chunk count =>
    match world.file with
    | none => none
    | some file =>
      match makeRoom config file with
      -- The collectors remove a file that cannot be read.
      | none => some { world with file := none }
      | some file =>
        if count ≤ file.capacity ∧
            file.offset + count ≤ world.content.length then
          let data := (world.content.drop file.offset).take count
          let (file, records) := fileChunk config file data
          some
            { world with
              file := some file
              stored :=
                if config.db && 0 < count then some file.offset
                else world.stored
              packed := world.packed ++ records }
        else none
  | .remove =>
    match world.file with
    | none => none
    | some _ => some { world with file := none }

end

open Run List Lines

theorem skipLeadingZeros_zeros {zeros : List Byte}
    (all : ∀ byte ∈ zeros, byte = nul) (data : List Byte) :
    skipLeadingZeros (zeros ++ data) =
      ((skipLeadingZeros data).1, (skipLeadingZeros data).2 + zeros.length) := by
  have takes : ∀ byte ∈ zeros, decide (byte = nul) = true :=
    fun byte member => decide_eq_true (all byte member)
  rw [skipLeadingZeros, dropWhile_append_of_pos takes,
    takeWhile_append_of_pos takes, length_append, Nat.add_comm]
  rfl

theorem skipLeadingZeros_length (data : List Byte) :
    (skipLeadingZeros data).2 + (skipLeadingZeros data).1.length = data.length := by
  rw [skipLeadingZeros, ← length_append, takeWhile_append_dropWhile]

theorem skipLeadingZeros_of_head {data : List Byte} (head : data.head? ≠ some nul) :
    skipLeadingZeros data = (data, 0) := by
  cases data with
  | nil => rfl
  | cons byte data =>
    have other : byte ≠ nul := by simpa using head
    simp [skipLeadingZeros, other]

/-- Zero bytes are skipped in the first line only. -/
theorem skipLeadingZeros_line (first rest : List Byte) :
    skipLeadingZeros (first ++ lineFeed :: rest) =
      ((skipLeadingZeros first).1 ++ lineFeed :: rest, (skipLeadingZeros first).2) := by
  have other : lineFeed ≠ nul := by decide
  induction first with
  | nil => simp [skipLeadingZeros, other]
  | cons byte first ih =>
    simp only [skipLeadingZeros, Prod.mk.injEq] at ih
    by_cases zero : byte = nul
    · simp [skipLeadingZeros, zero, ih]
    · simp [skipLeadingZeros, zero]

theorem skipLeadingZerosSimd_eq (vlen : Nat) (positive : 0 < vlen) (data : List Byte) :
    skipLeadingZerosSimd vlen positive data = skipLeadingZeros data := by
  fun_induction skipLeadingZerosSimd vlen positive data with
  | case1 data enough free =>
    cases data with
    | nil => rfl
    | cons byte data =>
      have other : byte ≠ nul := by
        intro same
        apply free
        rw [← same]
        exact mem_take_iff_getElem.mpr ⟨0, by simp; omega, rfl⟩
      simp [skipLeadingZeros, other]
  | case2 data enough some zeros rest count eq ih =>
    have all : ∀ byte ∈ data.take vlen, byte = nul := by simpa using zeros
    have later := skipLeadingZeros_zeros all (data.drop vlen)
    rw [take_append_drop, ← ih, eq, length_take, Nat.min_eq_left enough] at later
    exact later.symm
  | case3 data enough some others count =>
    -- The first byte that is not zero stands in this vector.
    have here : data.takeWhile (· = nul) = (data.take vlen).takeWhile (· = nul) := by
      have parts := @takeWhile_append _ (· = nul) (data.take vlen) (data.drop vlen)
      rw [take_append_drop, if_neg] at parts
      · exact parts
      · intro whole
        apply others
        rw [all_eq_true]
        apply takeWhile_eq_self_iff.mp
        exact IsPrefix.eq_of_length ⟨_, takeWhile_append_dropWhile⟩ whole
    have rest : data.drop count = data.dropWhile (· = nul) := by
      have parts := @takeWhile_append_dropWhile _ (· = nul) data
      rw [here] at parts
      have dropped := congrArg (List.drop count) parts
      rw [drop_left] at dropped
      exact dropped.symm
    rw [skipLeadingZeros, here, rest]
  | case4 data less => rfl

theorem skipLeadingZerosSimd_eq_sixteen :
    skipLeadingZerosSimd 16 (by decide) [0, 0, 97] = ([97], 2) :=
  (skipLeadingZerosSimd_eq 16 (by decide) _).trans rfl

variable {file : File} {text : List Byte}

section
variable (config : Config)

/-- The record of a line that starts at an offset; empty lines may be left
out. -/
def lineRecord (offset : Nat) (line : List Byte) : List Record :=
  if config.skipEmptyLines ∧ (line = [] ∨ line = [carriageReturn]) then []
  else if line.length ≥ 2 ∧ line.getLast? = some carriageReturn then
    [packLine config offset line.dropLast]
  else [packLine config offset line]

/-- The records of lines that follow each other, for those that are kept. -/
def lineRecords (keep : List Byte → Bool) : Nat → List (List Byte) → List Record
  | _, [] => []
  | offset, line :: lines =>
    (if keep line then lineRecord config offset line else []) ++
      lineRecords keep (offset + line.length + 1) lines

def fits (line : List Byte) : Bool := line.length + 1 ≤ config.bufMaxSize - 1

variable {config} {keep : List Byte → Bool}

theorem lineRecords_append (offset : Nat) (lines others : List (List Byte)) :
    lineRecords config keep offset (lines ++ others) =
      lineRecords config keep offset lines ++
        lineRecords config keep (offset + (Lines.join lineFeed lines).length) others := by
  induction lines generalizing offset with
  | nil => rfl
  | cons line lines ih =>
    have next : offset + line.length + 1 +
        (Lines.join lineFeed lines).length =
          offset + (Lines.join lineFeed (line :: lines)).length := by
      simp only [join_cons, length_append, length_cons]
      omega
    rw [cons_append, lineRecords, lineRecords, ih, next, append_assoc]

theorem lineRecords_congr {other : List Byte → Bool} {offset : Nat} {lines : List (List Byte)}
    (same : ∀ line ∈ lines, keep line = other line) :
    lineRecords config keep offset lines = lineRecords config other offset lines := by
  induction lines generalizing offset with
  | nil => rfl
  | cons line lines ih =>
    have later := @ih (offset + line.length + 1) fun found member =>
      same found (mem_cons_of_mem _ member)
    rw [lineRecords, lineRecords, same line mem_cons_self, later]

theorem lineRecords_none {offset : Nat} {lines : List (List Byte)}
    (none : ∀ line ∈ lines, keep line = false) : lineRecords config keep offset lines = [] := by
  induction lines generalizing offset with
  | nil => rfl
  | cons line lines ih =>
    have later := @ih (offset + line.length + 1) fun found member =>
      none found (mem_cons_of_mem _ member)
    rw [lineRecords, none line mem_cons_self, later]
    rfl

theorem lineRecords_map {β : Type} {view : Record → β}
    (same : ∀ offset other text,
      view (packLine config offset text) = view (packLine config other text))
    (offset other : Nat) (lines : List (List Byte)) :
    (lineRecords config keep offset lines).map view =
      (lineRecords config keep other lines).map view := by
  induction lines generalizing offset other with
  | nil => rfl
  | cons line lines ih =>
    have first : (lineRecord config offset line).map view =
        (lineRecord config other line).map view := by
      simp only [lineRecord]
      split
      · rfl
      · split <;> exact congrArg (fun seen => [seen]) (same offset other _)
    rw [lineRecords, lineRecords, map_append, map_append, ih _ (other + line.length + 1)]
    split
    · rw [first]
    · rfl

theorem processLine_eq (streamOffset processed count : Nat)
    (records : List Record) (line : List Byte) :
    processLine config streamOffset
        { processedBytes := processed
          lines := count
          skipNext := false
          records := records } line =
      { processedBytes := processed + line.length + 1
        lines := count + (lineRecord config (streamOffset + processed) line).length
        skipNext := false
        records := records ++ lineRecord config (streamOffset + processed) line } := by
  rw [processLine, lineRecord]
  by_cases empty : config.skipEmptyLines = true ∧ line = []
  · simp [empty]
  · by_cases blank : config.skipEmptyLines = true ∧ line = [carriageReturn]
    · simp [blank]
    · have full : ¬(config.skipEmptyLines && line.length = 0) = true := by simpa using empty
      have filled : ¬(config.skipEmptyLines && line = [carriageReturn]) = true := by
        simpa using blank
      have kept : ¬(config.skipEmptyLines = true ∧ (line = [] ∨ line = [carriageReturn])) := by
        rintro ⟨on, none | only⟩
        · exact empty ⟨on, none⟩
        · exact blank ⟨on, only⟩
      dsimp only
      rw [if_neg nofun, if_neg full, if_neg filled, if_neg kept]
      by_cases crlf : line.length ≥ 2 ∧ line.getLast? = some carriageReturn
      · have both : (line.length ≥ 2 && line.getLast? = some carriageReturn) = true := by
          simpa using crlf
        rw [if_pos both, if_pos crlf, dropLast_eq_take]
        rfl
      · have neither : ¬(line.length ≥ 2 && line.getLast? = some carriageReturn) = true := by
          simpa using crlf
        rw [if_neg neither, if_neg crlf, Nat.sub_zero, take_length]
        rfl

theorem processLines_eq (streamOffset processed count : Nat)
    (records : List Record) (lines : List (List Byte)) :
    ∃ packed, lines.foldl (processLine config streamOffset)
        { processedBytes := processed, lines := count, skipNext := false, records := records } =
      { processedBytes := processed + (Lines.join lineFeed lines).length
        lines := packed
        skipNext := false
        records := records ++ lineRecords config (fun _ => true)
          (streamOffset + processed) lines } := by
  induction lines generalizing processed count records with
  | nil => exact ⟨count, by simp [lineRecords]⟩
  | cons line lines ih =>
    obtain ⟨packed, later⟩ := ih (processed + line.length + 1)
      (count + (lineRecord config (streamOffset + processed) line).length)
      (records ++ lineRecord config (streamOffset + processed) line)
    refine ⟨packed, ?_⟩
    rw [foldl_cons, processLine_eq, later, lineRecords, if_pos rfl, join_cons, length_append,
      length_cons, append_assoc, ← Nat.add_assoc, ← Nat.add_assoc]
    congr 1
    omega

section
variable (plain : config.preferredInputEncoding = none ∧ config.genericInputEncoding = none)
include plain

theorem processContent_plain (skip : file.skipNext = false) :
    (processContent config file).1.skipNext = false ∧
      (processContent config file).1.records =
        lineRecords config (fun _ => true) (file.streamOffset + (skipLeadingZeros file.bufData).2)
          (Lines.split lineFeed (skipLeadingZeros file.bufData).1).1 ∧
      (processContent config file).2 =
        (skipLeadingZeros file.bufData).2 +
          (Lines.join lineFeed (Lines.split lineFeed
            (skipLeadingZeros file.bufData).1).1).length := by
  obtain ⟨count, loop⟩ := @processLines_eq config file.streamOffset
    (0 + (skipLeadingZeros file.bufData).2) 0 []
    (Lines.split lineFeed (skipLeadingZeros file.bufData).1).1
  rw [Nat.zero_add, nil_append] at loop
  simp [processContent, decodePreferred, decodeGeneric, plain.1, plain.2, skip, loop, consumedBytes]

theorem processContent_skip (skip : file.skipNext = true) (free : lineFeed ∉ file.bufData) :
    (processContent config file).1.skipNext = true ∧ (processContent config file).1.records = [] ∧
      (processContent config file).2 = file.bufData.length := by
  have none : lineFeed ∉ (skipLeadingZeros file.bufData).1 :=
    fun member => free ((dropWhile_sublist _).subset member)
  simp [processContent, decodePreferred, decodeGeneric, plain.1, plain.2,
    skip, consumedBytes, split_free none]

theorem processContent_skipped (skip : file.skipNext = true) {first rest : List Byte}
    (free : lineFeed ∉ first) (found : file.bufData = first ++ lineFeed :: rest) :
    (processContent config file).1.skipNext = false ∧
      (processContent config file).1.records =
        lineRecords config (fun _ => true) (file.streamOffset + (first.length + 1))
          (Lines.split lineFeed rest).1 ∧
      (processContent config file).2 = first.length + 1 +
        (Lines.join lineFeed (Lines.split lineFeed rest).1).length := by
  have length := skipLeadingZeros_length first
  have skipped := skipLeadingZeros_line first rest
  have inside : lineFeed ∉ (skipLeadingZeros first).1 :=
    fun member => free ((dropWhile_sublist _).subset member)
  have lines := split_append_mark inside rest
  obtain ⟨count, loop⟩ := @processLines_eq config file.streamOffset ((skipLeadingZeros first).2 +
    (skipLeadingZeros first).1.length + 1) 0 [] (Lines.split lineFeed rest).1
  rw [length, nil_append] at loop
  simp [processContent, decodePreferred, decodeGeneric, plain.1, plain.2,
    skip, found, skipped, lines, processLine, length, loop, consumedBytes]

end

def zeros (text : List Byte) : Nat := (skipLeadingZeros text).2

def finished (text : List Byte) : List (List Byte) :=
  (Lines.split lineFeed (skipLeadingZeros text).1).1

def unfinished (text : List Byte) : List Byte := (Lines.split lineFeed (skipLeadingZeros text).1).2

theorem text_of_zeros (all : ∀ byte ∈ text, byte = nul) (data : List Byte) :
    finished text = [] ∧ unfinished text = [] ∧ zeros text = text.length ∧
      finished (text ++ data) = finished data ∧
      unfinished (text ++ data) = unfinished data ∧
      zeros (text ++ data) = zeros text + zeros data := by
  have here := skipLeadingZeros_zeros all []
  have later := skipLeadingZeros_zeros all data
  rw [append_nil] at here
  have count : zeros text = text.length := by
    rw [zeros, here]
    exact Nat.zero_add _
  refine ⟨?_, ?_, count, ?_, ?_, ?_⟩
  · rw [finished, here]
    rfl
  · rw [unfinished, here]
    rfl
  · rw [finished, later, finished]
  · rw [unfinished, later, unfinished]
  · rw [count, zeros, later, zeros, Nat.add_comm]

theorem text_append (other : ∃ byte ∈ text, byte ≠ nul) (data : List Byte) :
    finished (text ++ data) = finished text ++ (Lines.split lineFeed (unfinished text ++ data)).1 ∧
      unfinished (text ++ data) = (Lines.split lineFeed (unfinished text ++ data)).2 ∧
      zeros (text ++ data) = zeros text := by
  obtain ⟨byte, member, different⟩ := other
  have some : ¬(text.dropWhile (· = nul)).isEmpty = true := by
    rw [List.isEmpty_iff, dropWhile_eq_nil_iff]
    intro all
    exact different (of_decide_eq_true (all byte member))
  have short : ¬(text.takeWhile (· = nul)).length = text.length := by
    intro whole
    have same := IsPrefix.eq_of_length ⟨_, takeWhile_append_dropWhile⟩ whole
    exact different (of_decide_eq_true (takeWhile_eq_self_iff.mp same byte member))
  have parts : skipLeadingZeros (text ++ data) =
      ((skipLeadingZeros text).1 ++ data, (skipLeadingZeros text).2) := by
    rw [skipLeadingZeros, dropWhile_append, if_neg some, takeWhile_append, if_neg short]
    rfl
  have lines := @Lines.split_append _ lineFeed _ (skipLeadingZeros text).1 data
  refine ⟨?_, ?_, ?_⟩
  · rw [finished, parts, lines]
    rfl
  · rw [unfinished, parts, lines]
    rfl
  · rw [zeros, parts, zeros]

theorem drop_unfinished (text : List Byte) :
    text.drop (zeros text + (Lines.join lineFeed (finished text)).length) = unfinished text := by
  have front : text.drop (zeros text) = (skipLeadingZeros text).1 := by
    have parts := @takeWhile_append_dropWhile _ (· = nul) text
    have dropped := congrArg (List.drop (zeros text)) parts
    rw [zeros, skipLeadingZeros, drop_left] at dropped
    exact dropped.symm
  have lines := @Lines.join_split _ lineFeed _ (skipLeadingZeros text).1
  have dropped := congrArg (List.drop (Lines.join lineFeed (finished text)).length) lines
  rw [finished, drop_left] at dropped
  rw [← drop_drop, front]
  exact dropped.symm

theorem fits_of_finished {line : List Byte}
    (size : file.bufSize ≤ config.bufMaxSize) (small : text.length < file.bufSize)
    (member : line ∈ finished text) : fits config line = true := by
  have shorter := length_lt_of_mem_split member
  have length := skipLeadingZeros_length text
  rw [fits, decide_eq_true_eq]
  omega

/-- The buffer holds the unfinished line of a text, or this line is too long
and is skipped. -/
structure Follows (config : Config) (text : List Byte) (file : File) : Prop where
  reading : file.skipNext = false → file.bufData = unfinished text
  skipping : file.skipNext = true → file.bufData = [] ∧
    config.bufMaxSize ≤ (unfinished text).length + 1
  room : file.bufData.length < file.bufSize
  size : file.bufSize ≤ config.bufMaxSize

section
variable {data : List Byte} {next : File}

theorem follows_fresh (none : unfinished text = []) (offset streamOffset : Nat) :
    Follows config text (File.fresh config offset streamOffset) := by
  constructor
  · intro _
    exact none.symm
  · nofun
  · exact config.chunk_pos
  · exact config.chunk_le

theorem Follows.makeRoom (follows : Follows config text file)
    (made : makeRoom config file = some next) :
    Follows config text next ∧ next.offset = file.offset ∧ next.streamOffset = file.streamOffset ∧
      next.skipNext = (file.skipNext || overflows config file) := by
  have room := follows.room
  have size := follows.size
  rw [Tail.makeRoom] at made
  split at made
  · next full =>
    have whole : file.bufData.length + 1 = file.bufSize := by
      rw [File.capacity] at full
      omega
    split at made
    · next largest =>
      split at made
      · cases made
        have drops : overflows config file = true := by simp [overflows, full, largest]
        have positive : 0 < file.bufSize := Nat.zero_lt_of_lt room
        refine ⟨⟨nofun, fun _ => ⟨rfl, ?_⟩, positive, size⟩, rfl, rfl, ?_⟩
        · cases skip : file.skipNext with
          | true => exact (follows.skipping skip).2
          | false =>
            rw [← follows.reading skip]
            omega
        · rw [drops, Bool.or_true]
      · cases made
    · next smaller =>
      cases made
      have keeps : overflows config file = false := by simp [overflows, smaller]
      have positive := config.chunk_pos
      refine ⟨⟨follows.reading, follows.skipping, ?_, ?_⟩, rfl, rfl, ?_⟩
      · dsimp only
        split <;> omega
      · dsimp only
        split <;> omega
      · rw [keeps, Bool.or_false]
  · next space =>
    cases made
    have keeps : overflows config file = false := by
      simp only [overflows, Bool.and_eq_false_iff, decide_eq_false_iff_not]
      exact .inl space
    exact ⟨follows, rfl, rfl, by rw [keeps, Bool.or_false]⟩

/-- The lines of the text are continued by those of the buffer, when this one
does not begin with a zero byte that belongs to a line. -/
theorem Follows.continues (follows : Follows config text file) (skip : file.skipNext = false)
    (safe : (file.bufData ++ data).head? = some nul → ∀ byte ∈ text, byte = nul) :
    finished (text ++ data) = finished text ++ finished (file.bufData ++ data) ∧
      unfinished (text ++ data) = unfinished (file.bufData ++ data) ∧
      zeros (text ++ data) = zeros text + zeros (file.bufData ++ data) ∧
      (finished text = [] ∨ zeros (file.bufData ++ data) = 0) := by
  have buffer := follows.reading skip
  by_cases all : ∀ byte ∈ text, byte = nul
  · obtain ⟨none, empty, _, later, rest, count⟩ := text_of_zeros all data
    rw [buffer, empty, none, nil_append, nil_append]
    exact ⟨later, rest, count, .inl rfl⟩
  · have other : ∃ byte ∈ text, byte ≠ nul := by simpa using all
    obtain ⟨later, rest, count⟩ := text_append other data
    have start := skipLeadingZeros_of_head fun head => all (safe head)
    have lines : finished (file.bufData ++ data) =
        (Lines.split lineFeed (file.bufData ++ data)).1 := by
      rw [finished, start]
    have remains : unfinished (file.bufData ++ data) =
        (Lines.split lineFeed (file.bufData ++ data)).2 := by
      rw [unfinished, start]
    have none : zeros (file.bufData ++ data) = 0 := by rw [zeros, start]
    rw [later, rest, count, ← buffer, lines, remains, none]
    exact ⟨rfl, rfl, rfl, .inr rfl⟩

def File.fill (file : File) (data : List Byte) : File :=
  { file with offset := file.offset + data.length, bufData := file.bufData ++ data }

theorem fileChunk_nil : fileChunk config file [] = (file, []) := by
  rw [fileChunk, if_pos rfl]

theorem fileChunk_eq (nonempty : data ≠ []) :
    fileChunk config file data =
      ({ file.fill data with
          skipNext := (processContent config (file.fill data)).1.skipNext
          streamOffset := file.streamOffset + (processContent config (file.fill data)).2
          bufData := (file.bufData ++ data).drop (processContent config (file.fill data)).2 },
        (processContent config (file.fill data)).1.records) := by
  rw [fileChunk, if_neg nonempty]
  rfl

section
variable (plain : config.preferredInputEncoding = none ∧ config.genericInputEncoding = none)
include plain

theorem Follows.chunk_reading (follows : Follows config text file) (skip : file.skipNext = false)
    (nonempty : data ≠ []) (small : data.length ≤ file.capacity)
    (safe : (file.bufData ++ data).head? = some nul → ∀ byte ∈ text, byte = nul) :
    Follows config (text ++ data) (fileChunk config file data).1 ∧
      (fileChunk config file data).1.skipNext = false ∧
      ∃ count new, finished (text ++ data) = finished text ++ new ∧
        zeros (text ++ data) = zeros text + count ∧
        (finished text = [] ∨ count = 0) ∧
        (∀ line ∈ new, fits config line = true) ∧
        (fileChunk config file data).2 =
          lineRecords config (fun _ => true) (file.streamOffset + count) new ∧
        (fileChunk config file data).1.streamOffset = file.streamOffset +
          (count + (Lines.join lineFeed new).length) := by
  have room := follows.room
  have length : (file.bufData ++ data).length < file.bufSize := by
    rw [File.capacity] at small
    rw [length_append]
    omega
  obtain ⟨lines, rest, count, front⟩ := follows.continues skip safe
  have same : (file.fill data).skipNext = false := skip
  obtain ⟨skipped, records, consumed⟩ := processContent_plain plain same
  rw [fileChunk_eq nonempty, skipped, records, consumed]
  have left := drop_unfinished (file.bufData ++ data)
  refine ⟨⟨?_, nofun, ?_, follows.size⟩, rfl, zeros (file.bufData ++ data), finished
    (file.bufData ++ data), lines, count, front, ?_, rfl, rfl⟩
  · intro _
    rw [rest]
    exact left
  · refine Nat.lt_of_le_of_lt ?_ length
    exact (drop_sublist _ _).length_le
  · intro line member
    exact fits_of_finished follows.size length member

theorem Follows.chunk_skipping (follows : Follows config text file) (skip : file.skipNext = true)
    (nonempty : data ≠ []) (small : data.length ≤ file.capacity) :
    Follows config (text ++ data) (fileChunk config file data).1 ∧
      ∃ dropped new offset, finished (text ++ data) = finished text ++ (dropped ++ new) ∧
        (∀ line ∈ dropped, fits config line = false) ∧
        (∀ line ∈ new, fits config line = true) ∧
        (fileChunk config file data).2 = lineRecords config (fun _ => true) offset new := by
  have room := follows.room
  have size := follows.size
  obtain ⟨empty, long⟩ := follows.skipping skip
  rw [File.capacity, empty, length_nil, Nat.sub_zero] at small
  rw [empty, length_nil] at room
  have positive := length_pos_iff.mpr nonempty
  have other : ∃ byte ∈ text, byte ≠ nul := by
    by_contra none
    have all : ∀ byte ∈ text, byte = nul := by simpa using none
    rw [(text_of_zeros all []).2.1, length_nil] at long
    omega
  obtain ⟨lines, rest, _⟩ := text_append other data
  have same : (file.fill data).skipNext = true := skip
  have buffer : (file.fill data).bufData = data := by rw [File.fill, empty, nil_append]
  by_cases found : lineFeed ∈ data
  · obtain ⟨first, later, eq, free⟩ := eq_append_cons_of_mem found
    obtain ⟨skipped, records, consumed⟩ := processContent_skipped plain same free (buffer.trans eq)
    have length := congrArg List.length eq
    rw [length_append, length_cons] at length
    -- The line that is skipped ends here.
    have ends : lineFeed ∉ unfinished text ++ first := by
      rw [mem_append, not_or]
      exact ⟨(split_mark_free _).2, free⟩
    have split := split_append_mark ends later
    rw [append_assoc, ← eq] at split
    rw [split] at lines rest
    rw [fileChunk_eq nonempty, skipped, records, consumed]
    have left : data.drop (first.length + 1 + (Lines.join lineFeed
        (Lines.split lineFeed later).1).length) = (Lines.split lineFeed later).2 := by
      have whole : data = first ++ [lineFeed] ++
          Lines.join lineFeed (Lines.split lineFeed later).1 ++ (Lines.split lineFeed later).2 := by
        rw [append_assoc, Lines.join_split, eq, append_assoc, singleton_append]
      conv_lhs => rw [whole]
      apply drop_left'
      simp only [length_append, length_singleton]
    refine ⟨⟨?_, nofun, ?_, size⟩, [unfinished text ++ first],
      (Lines.split lineFeed later).1, _, lines, ?_, ?_, rfl⟩
    · intro _
      rw [rest, empty]
      exact left
    · rw [empty, nil_append, left]
      change (Lines.split lineFeed later).2.length < file.bufSize
      have parts := congrArg List.length (@Lines.join_split _ lineFeed _ later)
      rw [length_append] at parts
      omega
    · intro line member
      rw [mem_singleton.mp member, fits, decide_eq_false_iff_not, length_append]
      omega
    · intro line member
      have shorter := length_lt_of_mem_split member
      rw [fits, decide_eq_true_eq]
      omega
  · obtain ⟨skipped, records, consumed⟩ := processContent_skip plain same (by rwa [buffer])
    have free : lineFeed ∉ unfinished text ++ data := by
      rw [mem_append, not_or]
      exact ⟨(split_mark_free _).2, found⟩
    rw [split_free free] at lines rest
    rw [fileChunk_eq nonempty, skipped, records, consumed, buffer]
    refine ⟨⟨nofun, fun _ => ⟨?_, ?_⟩, ?_, size⟩, [], [], 0, lines, nofun, nofun, rfl⟩
    · rw [empty, nil_append]
      exact drop_length
    · rw [rest, length_append]
      omega
    · rw [empty, nil_append, drop_length]
      exact room

end

end

end

end FluentBit.Tail
