import FluentBit.Lib.CString
import Mathlib.Data.List.Induction
import Mathlib.Data.List.TakeWhile

/-!
# Framing of syslog streams

`syslog_prot_process` gives the messages of its buffer to the parser, from the
position `buf_parsed` on.  An empty message takes a byte from the head of the
buffer and sets the position back to the head.
-/

namespace FluentBit.Syslog

open List

def isEnd (byte : Byte) : Bool := byte == 10 || byte == 0

/-- The loop: the messages given to the parser, and what stays in the buffer. -/
def processLoop (buf : List Byte) (parsed eof : Nat) : List (List Byte) × List Byte :=
  if inside : eof < buf.length then
    let message := (buf.drop parsed).takeWhile (!isEnd ·)
    let next := parsed + message.length + 1
    if next ≤ buf.length then
      if message = [] then
        if buf.tail = [] then ([], []) else processLoop buf.tail 0 parsed
      else (message :: (processLoop buf next next).1, (processLoop buf next next).2)
    else ([], buf.drop parsed)
  else ([], buf.drop parsed)
termination_by (buf.length, buf.length - parsed)
decreasing_by
  all_goals simp_wf
  all_goals omega

def syslogProtProcess (buf : List Byte) : List (List Byte) × List Byte := processLoop buf 0 0

/-- The pieces in front of a terminator, and the bytes behind the last one. -/
def pieces : List Byte → List (List Byte) × List Byte
  | [] => ([], [])
  | byte :: stream =>
    if isEnd byte then ([] :: (pieces stream).1, (pieces stream).2)
    else
      match (pieces stream).1 with
      | [] => ([], byte :: (pieces stream).2)
      | piece :: later => ((byte :: piece) :: later, (pieces stream).2)

theorem pieces_append (stream read : List Byte) :
    pieces (stream ++ read) =
      ((pieces stream).1 ++ (pieces ((pieces stream).2 ++ read)).1,
        (pieces ((pieces stream).2 ++ read)).2) := by
  induction stream with
  | nil => rfl
  | cons byte stream ih =>
    rw [cons_append, pieces, pieces, ih]
    cases kind : isEnd byte with
    | true => rfl
    | false =>
      cases first : (pieces stream).1 with
      | nil => simp [pieces, kind]
      | cons piece later => rfl

/-- The first message of a stream, when there is one. -/
theorem pieces_cases (stream : List Byte) :
    (stream.takeWhile (!isEnd ·) = stream ∧ pieces stream = ([], stream)) ∨
      ∃ byte more, stream = stream.takeWhile (!isEnd ·) ++ byte :: more ∧
        pieces stream = (stream.takeWhile (!isEnd ·) :: (pieces more).1, (pieces more).2) := by
  induction stream with
  | nil => exact .inl ⟨rfl, rfl⟩
  | cons byte stream ih =>
    cases kind : isEnd byte with
    | true => exact .inr ⟨byte, stream, by simp [kind], by simp [pieces, kind]⟩
    | false =>
      rcases ih with ⟨free, none⟩ | ⟨last, more, split, first⟩
      · exact .inl ⟨by simp [kind, free], by simp [pieces, kind, none]⟩
      · refine .inr ⟨last, more, ?_, by simp [pieces, kind, first]⟩
        simpa [kind] using split

/-- Behind a message the loop goes through the pieces, as long as none is empty. -/
theorem processLoop_pieces {buf rest : List Byte} {parsed : Nat} (here : buf.drop parsed = rest)
    (within : parsed ≤ buf.length) (full : ∀ piece ∈ (pieces rest).1, piece ≠ []) :
    processLoop buf parsed parsed = pieces rest := by
  induction size : rest.length using Nat.strongRecOn generalizing rest parsed with
  | ind n ih =>
    have length := congrArg List.length here
    rw [length_drop] at length
    rw [processLoop, here]
    rcases pieces_cases rest with ⟨free, none⟩ | ⟨byte, more, split, first⟩
    · rw [none, free]
      split
      · rw [if_neg (by omega)]
      · rfl
    · generalize rest.takeWhile (!isEnd ·) = message at split first ⊢
      subst split
      rw [length_append, length_cons] at length
      rw [first] at full ⊢
      obtain ⟨nonempty, later⟩ := forall_mem_cons.mp full
      have behind : buf.drop (parsed + message.length + 1) = more := by
        rw [Nat.add_assoc, ← drop_drop, here]
        simp
      have next := ih more.length (by simp [← size]; omega) behind (by omega) later rfl
      rw [dif_pos (by omega), if_pos (by omega), if_neg nonempty, next]

/-- The empty pieces of a buffer come first. -/
def EmptyFirst (buf : List Byte) : Prop :=
  ∀ piece ∈ (pieces buf).1.dropWhile (· == []), piece ≠ []

theorem syslogProtProcess_pieces {buf : List Byte} (front : EmptyFirst buf) :
    syslogProtProcess buf = ((pieces buf).1.filter (· ≠ []), (pieces buf).2) := by
  induction buf with
  | nil => simp [syslogProtProcess, processLoop, pieces]
  | cons byte rest ih =>
    cases kind : isEnd byte with
    | true =>
      rw [EmptyFirst, pieces, if_pos kind] at front
      rw [syslogProtProcess, processLoop, pieces, if_pos kind]
      by_cases last : rest = []
      · simp [kind, last, pieces]
      · simpa [kind, last, syslogProtProcess] using ih front
    | false =>
      have full : ∀ piece ∈ (pieces (byte :: rest)).1, piece ≠ [] := by
        rw [EmptyFirst, pieces, kind] at front
        rw [pieces, kind]
        cases first : (pieces rest).1 with
        | nil => simp
        | cons piece later => simpa [first] using front
      rw [filter_eq_self.mpr (by simpa using full)]
      exact processLoop_pieces rfl (Nat.zero_le _) full

/-- A read of a connection: the messages so far and the buffer. -/
def receive (conn : List (List Byte) × List Byte) (read : List Byte) :
    List (List Byte) × List Byte :=
  (conn.1 ++ (syslogProtProcess (conn.2 ++ read)).1, (syslogProtProcess (conn.2 ++ read)).2)

theorem messages_are_pieces (reads : List (List Byte))
    (front : ∀ earlier read, earlier ++ [read] <+: reads →
      EmptyFirst ((pieces earlier.flatten).2 ++ read)) :
    reads.foldl receive ([], []) =
      ((pieces reads.flatten).1.filter (· ≠ []), (pieces reads.flatten).2) := by
  induction reads using List.reverseRecOn with
  | nil => rfl
  | append_singleton earlier read ih =>
    have before := ih fun first next within => front first next (within.trans (prefix_append _ _))
    rw [foldl_append, before, foldl_cons, foldl_nil, receive,
      syslogProtProcess_pieces (front earlier read (prefix_refl _)), flatten_append,
      flatten_singleton, pieces_append earlier.flatten, filter_append]

theorem messages_are_pieces_one_read :
    [[10, 97, 10, 98]].foldl receive ([], []) = ([[97]], [98]) := by
  refine messages_are_pieces [[10, 97, 10, 98]] ?_
  intro earlier read within
  cases earlier with
  | nil =>
    obtain rfl : read = [10, 97, 10, 98] := by simpa using within
    unfold EmptyFirst
    decide
  | cons first earlier => simp at within

/-- An empty message behind another one: its first byte is removed and the rest of it is
parsed again. -/
theorem empty_message_repeats :
    syslogProtProcess [97, 98, 10, 10, 99, 100, 10] = ([[97, 98], [98], [99, 100]], []) ∧
      (pieces [97, 98, 10, 10, 99, 100, 10]).1.filter (· ≠ []) = [[97, 98], [99, 100]] := by
  refine ⟨?_, rfl⟩
  simp [syslogProtProcess, processLoop, isEnd]

end FluentBit.Syslog
