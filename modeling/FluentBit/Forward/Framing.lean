import FluentBit.Forward

/-!
# The messages of a connection

The loops of `fw_prot_process` over a buffer that is a sequence of messages and
the beginning of another one.  The unpacker returns the messages one by one;
each is handled with the number it has on the connection.  What is counted as
used is the sum of the sizes reported for them, and the size reported for a
message is that of the first message that ends in the same step of 32 bytes.

However the stream is cut into reads, every message should be handled once and
in order, as if it were alone on a new connection.  This holds as long as in
every call the sizes that are reported sum up to those of the messages, and no
packed message without options comes behind a message of three elements.
-/

namespace FluentBit.Forward

open Msgpack LogEvent List

structure Sent where
  message : Message
  bytes : List Byte
  encodes : Encodes bytes message.root
  wellFormed : message.WellFormed
  uncompressed : ∀ data binary, message.body = .packed data binary → message.compressed data = false

def Sent.size (sent : Sent) : Nat := sent.bytes.length

theorem Sent.size_pos (sent : Sent) : 0 < sent.size := length_pos_iff.mpr sent.encodes.ne_nil

def streamBytes (messages : List Sent) : List Byte := (messages.map Sent.bytes).flatten

@[simp]
theorem streamBytes_nil : streamBytes [] = [] :=
  rfl

@[simp]
theorem streamBytes_cons (sent : Sent) (messages : List Sent) :
    streamBytes (sent :: messages) = sent.bytes ++ streamBytes messages :=
  rfl

@[simp]
theorem streamBytes_append (first second : List Sent) :
    streamBytes (first ++ second) = streamBytes first ++ streamBytes second := by
  simp [streamBytes]

def completeIn : Nat → List Sent → List Sent
  | _, [] => []
  | length, sent :: messages =>
    if sent.size ≤ length then
      sent :: completeIn (length - sent.size) messages
    else []

theorem completeIn_fits (sent : Sent) (messages : List Sent) (length : Nat) :
    completeIn (sent.size + length) (sent :: messages) = sent :: completeIn length messages := by
  rw [completeIn, if_pos (Nat.le_add_right _ _), Nat.add_sub_cancel_left]

theorem completeIn_short {length : Nat} {sent : Sent} (short : length < sent.size)
    (messages : List Sent) : completeIn length (sent :: messages) = [] := by
  rw [completeIn, if_neg (Nat.not_le.mpr short)]

theorem completeIn_zero (messages : List Sent) : completeIn 0 messages = [] := by
  cases messages with
  | nil => rfl
  | cons sent messages => exact completeIn_short sent.size_pos messages

section
variable {pending later : List Byte} {sent : Sent} {messages : List Sent}

theorem split_first (stream : pending ++ later = streamBytes (sent :: messages))
    (long : sent.size ≤ pending.length) :
    ∃ left, pending = sent.bytes ++ left ∧ pending.length = sent.size + left.length ∧
      left ++ later = streamBytes messages := by
  obtain ⟨left, whole⟩ := prefix_of_prefix_length_le
    ⟨streamBytes messages, rfl⟩ ⟨later, stream⟩ long
  subst whole
  refine ⟨left, rfl, length_append, ?_⟩
  rw [append_assoc] at stream
  exact append_cancel_left stream

/-- The complete messages come first.  What is behind them is the beginning of
those that are left, and none of these is complete. -/
theorem completeIn_split (stream : pending ++ later = streamBytes messages) :
    ∃ left tail, messages = completeIn pending.length messages ++ left ∧
      pending = streamBytes (completeIn pending.length messages) ++ tail ∧
      tail ++ later = streamBytes left ∧ completeIn tail.length left = [] ∧
      ∀ more, completeIn (pending.length + more) messages =
        completeIn pending.length messages ++ completeIn (tail.length + more) left := by
  induction messages generalizing pending with
  | nil => exact ⟨[], pending, rfl, rfl, stream, rfl, fun _ => rfl⟩
  | cons sent messages ih =>
    by_cases fits : sent.size ≤ pending.length
    · obtain ⟨rest, rfl, size, following⟩ := split_first stream fits
      obtain ⟨left, tail, split, whole, behind, nothing, more⟩ := ih following
      rw [size, completeIn_fits]
      refine ⟨left, tail, congrArg (sent :: ·) split, ?_, behind, nothing, ?_⟩
      · rw [streamBytes_cons, append_assoc, ← whole]
      · intro count
        rw [Nat.add_assoc, completeIn_fits, more, cons_append]
    · have nothing := completeIn_short (Nat.lt_of_not_le fits) messages
      rw [nothing]
      exact ⟨sent :: messages, pending, rfl, rfl, stream, nothing, fun _ => rfl⟩

theorem unpack_incomplete (stream : pending ++ later = streamBytes (sent :: messages))
    (short : pending.length < sent.size) : ∃ rest, unpack pending = .more rest := by
  obtain ⟨missing, whole⟩ := prefix_of_prefix_length_le ⟨later, stream⟩ (prefix_append sent.bytes
    (streamBytes messages)) short.le
  have encodes := sent.encodes
  rw [← whole] at encodes
  apply encodes.more_of_prefix
  intro nothing
  rw [nothing, append_nil] at whole
  rw [Sent.size, ← whole] at short
  exact Nat.lt_irrefl _ short

end

section
variable {length step : Nat} {messages : List Sent}

/-- The sum of the sizes reported for messages that lie one behind the other:
each is reported with the size of the first one that ends in the same step.
The step and the size of the last report come along. -/
def reported : Option (Nat × Nat) → Nat → List Nat → Nat
  | _, _, [] => 0
  | last, position, size :: sizes =>
    let stop := position + size
    let step := (stop - 1) / eachRecvSize
    let first :=
      match last with
      | none => size
      | some (previous, first) => if previous = step then first else size
    first + reported (some (step, first)) stop sizes

theorem reported_same {first : Nat} (sizes later : List Nat) :
    ∀ {position : Nat}, step * eachRecvSize < position →
      position + sizes.sum ≤ (step + 1) * eachRecvSize →
      reported (some (step, first)) position (sizes ++ later) =
        first * sizes.length + reported (some (step, first)) (position + sizes.sum) later := by
  induction sizes with
  | nil =>
    intro position _ _
    simp
  | cons size sizes ih =>
    intro position above below
    rw [sum_cons] at below
    have within : (position + size - 1) / eachRecvSize = step := by
      rw [eachRecvSize] at *
      omega
    have rest := @ih (position + size) (by omega) (by omega)
    rw [cons_append, reported, within, if_pos rfl, rest, sum_cons, length_cons, Nat.mul_succ]
    have sum : position + size + sizes.sum = position + (size + sizes.sum) := by omega
    rw [sum]
    omega

/-- A message that ends in a later step starts anew. -/
theorem reported_later {first position : Nat} {sizes : List Nat}
    (above : ∀ size ∈ sizes.head?, (step + 1) * eachRecvSize < position + size) :
    reported (some (step, first)) position sizes = reported none position sizes := by
  cases sizes with
  | nil => rfl
  | cons size sizes =>
    have far := above size rfl
    have other : ¬ step = (position + size - 1) / eachRecvSize := by
      rw [eachRecvSize] at *
      omega
    rw [reported, reported, if_neg other]

theorem reported_step {position : Nat} {sizes later : List Nat}
    (above : ∀ size ∈ sizes.head?, step * eachRecvSize < position + size)
    (below : position + sizes.sum ≤ (step + 1) * eachRecvSize)
    (far : ∀ next ∈ later.head?, (step + 1) * eachRecvSize < position + sizes.sum + next) :
    reported none position (sizes ++ later) =
      sizes.headD 0 * sizes.length + reported none (position + sizes.sum) later := by
  cases sizes with
  | nil => simp
  | cons size sizes =>
    have start := above size rfl
    rw [sum_cons, ← Nat.add_assoc] at *
    have within : (position + size - 1) / eachRecvSize = step := by
      rw [eachRecvSize] at *
      omega
    rw [cons_append, reported, within, reported_same sizes later start below,
      reported_later far, length_cons, Nat.mul_succ]
    dsimp only [headD_cons]
    omega

theorem sum_sizes (messages : List Sent) :
    (messages.map Sent.size).sum = (streamBytes messages).length := by
  induction messages with
  | nil => rfl
  | cons sent messages ih =>
    rw [map_cons, sum_cons, ih, streamBytes_cons, length_append, Sent.size]

theorem head_completeIn {bound : Nat} (nothing : completeIn bound messages = []) :
    ∀ size ∈ ((completeIn length messages).map Sent.size).head?, bound < size := by
  intro size first
  cases messages with
  | nil => cases first
  | cons sent messages =>
    rw [completeIn] at first
    split at first
    · cases first
      rw [completeIn] at nothing
      split at nothing
      · cases nothing
      · next short => exact Nat.lt_of_not_le short
    · cases first

/-- The input takes what the message appends, where this is looked at. -/
def Message.Accepted (message : Message) (replies : Replies) : Prop :=
  match message.body with
  | .packed _ _ => replies.appended 0 = true
  | _ => True

theorem Sent.outcome_accepted (sent : Sent) (ofDouble : BitVec 64 → Time) (config : Config)
    {replies : Replies} (accepted : sent.message.Accepted replies) :
    (sent.message.outcome ofDouble config replies).1 = true := by
  rw [Message.outcome]
  cases form : sent.message.body with
  | message time record | forward entries => rfl
  | packed data binary =>
    rw [Message.Accepted, form] at accepted
    obtain ⟨type, payload⟩ := Message.payload_eq sent.wellFormed form replies
      (composeTag config sent.message.tag)
    dsimp only
    rw [payload, sent.uncompressed data binary form, if_neg Bool.false_ne_true]
    exact accepted

section
variable (ofDouble : BitVec 64 → Time) (config : Config) (replies : Nat → Replies)

/-- What messages do one after the other, from a number on. -/
def outcomes : Nat → List Sent → List Effect
  | _, [] => []
  | number, sent :: messages =>
    (sent.message.outcome ofDouble config (replies number)).2 ++ outcomes (number + 1) messages

/-- No message reads behind its end because of a flag set before it, and the
input takes what the messages append. -/
def Calm : Bool → Nat → List Sent → Prop
  | _, _, [] => True
  | flag, number, sent :: messages =>
    (flag = true → sent.message.bare = false) ∧ sent.message.Accepted (replies number) ∧
      Calm (flag || sent.message.setsFlag) (number + 1) messages

def flagAfter (flag : Bool) (messages : List Sent) : Bool :=
  flag || messages.any fun sent => sent.message.setsFlag

/-- The messages were handled between two states of the loops. -/
structure Progress (before after : Loop) (messages : List Sent) : Prop where
  handled : after.handled = before.handled + messages.length
  effects : after.effects =
    before.effects ++ outcomes ofDouble config replies before.handled messages
  flag : after.containOptions = flagAfter before.containOptions messages
  rested : Rested after.encoder

variable {ofDouble config replies}

theorem append_of_numbered {effects : Nat → List Sent → List Effect}
    {one : Nat → Sent → List Effect}
    (nil : ∀ number, effects number [] = []) (cons : ∀ number sent messages,
      effects number (sent :: messages) = one number sent ++ effects (number + 1) messages)
    (number : Nat) (first second : List Sent) :
    effects number (first ++ second) =
      effects number first ++ effects (number + first.length) second := by
  induction first generalizing number with
  | nil => rw [nil, nil_append, nil_append, length_nil, Nat.add_zero]
  | cons sent first ih =>
    rw [cons_append, cons, cons, ih, append_assoc, length_cons, Nat.add_assoc,
      Nat.add_comm 1]

theorem calm_append {flag : Bool} {number : Nat} {first second : List Sent} :
    Calm replies flag number (first ++ second) ↔
      Calm replies flag number first ∧
        Calm replies (flagAfter flag first) (number + first.length) second := by
  induction first generalizing flag number with
  | nil => simp [Calm, flagAfter]
  | cons sent first ih =>
    have next : number + (sent :: first).length = number + 1 + first.length := by
      rw [length_cons]
      omega
    have after : flagAfter flag (sent :: first) =
        flagAfter (flag || sent.message.setsFlag) first := by
      rw [flagAfter, flagAfter, any_cons, Bool.or_assoc]
    rw [cons_append, Calm, Calm, ih, next, after, and_assoc, and_assoc]

theorem Progress.trans {before middle after : Loop} {first second : List Sent}
    (begun : Progress ofDouble config replies before middle first)
    (ended : Progress ofDouble config replies middle after second) :
    Progress ofDouble config replies before after (first ++ second) where
  handled := by
    rw [ended.handled, begun.handled, length_append, Nat.add_assoc]
  effects := by
    rw [ended.effects, begun.effects, begun.handled, append_assoc, @append_of_numbered (outcomes
      ofDouble config replies) _ (fun _ => rfl) fun _ _ _ => rfl]
  flag := by
    rw [ended.flag, begun.flag, flagAfter, flagAfter, flagAfter, any_append, Bool.or_assoc]
  rested := ended.rested

theorem Progress.calm {before after : Loop} {first second : List Sent}
    (progress : Progress ofDouble config replies before after first)
    (calm : Calm replies before.containOptions before.handled (first ++ second)) :
    Calm replies after.containOptions after.handled second := by
  rw [progress.flag, progress.handled]
  exact (calm_append.mp calm).2

variable {loop : Loop} {sent : Sent} {bound : Nat}

theorem Progress.refl (rested : Rested loop.encoder) :
    Progress ofDouble config replies loop loop [] where
  handled := rfl
  effects := (append_nil _).symm
  flag := by rw [flagAfter, any_nil, Bool.or_false]
  rested := rested

theorem handleObject_sent (rested : Rested loop.encoder)
    (apart : loop.containOptions = true → sent.message.bare = false)
    (accepted : sent.message.Accepted (replies loop.handled)) :
    ∃ after,
      handleObject ofDouble config replies sent.message.root loop = (true, after) ∧
        Progress ofDouble config replies loop after [sent] ∧
        after.rest = loop.rest ∧ after.pending = loop.pending ∧
        after.bytes = loop.bytes ∧
        after.allUsed = loop.allUsed + loop.bytes := by
  obtain ⟨encoder, last, handled⟩ := @handleRoot_message ofDouble config (replies loop.handled)
    loop.encoder sent.message sent.wellFormed rested loop.containOptions apart
  have success := sent.outcome_accepted ofDouble config accepted
  rw [handleObject, handled]
  rw [success]
  refine ⟨_, rfl, ⟨rfl, ?_, ?_, last⟩, rfl, rfl, rfl, rfl⟩
  · rw [outcomes, outcomes, append_nil]
  · rw [flagAfter, any_cons, any_nil, Bool.or_false]

theorem objectLoop_last {rest : List Byte} (rested : Rested loop.encoder)
    (calm : Calm replies loop.containOptions loop.handled [sent])
    (incomplete : unpack loop.pending = .more rest) :
    ∃ after,
      objectLoop ofDouble config replies (bound + 1) sent.message.root loop = (true, after) ∧
        Progress ofDouble config replies loop after [sent] ∧
        after.rest = loop.rest ∧ after.pending = loop.pending ∧
        after.allUsed = loop.allUsed + loop.bytes := by
  obtain ⟨apart, accepted, _⟩ := calm
  obtain ⟨after, handled, progress, sameRest, samePending, _, used⟩ :=
    @handleObject_sent ofDouble config replies loop sent rested apart accepted
  refine ⟨after, ?_, progress, sameRest, samePending, used⟩
  rw [objectLoop, handled]
  dsimp only
  rw [samePending, incomplete]

/-- The inner loop handles the message that was returned and those that end in
what the unpacker has. -/
theorem objectLoop_sent (messages : List Sent) :
    ∀ {bound : Nat} {sent : Sent} {loop : Loop} {later : List Byte},
      loop.pending.length < bound → Rested loop.encoder →
      loop.pending ++ later = streamBytes messages →
      Calm replies loop.containOptions loop.handled
        (sent :: completeIn loop.pending.length messages) →
      ∃ after,
        objectLoop ofDouble config replies bound sent.message.root loop = (true, after) ∧
          Progress ofDouble config replies loop after
            (sent :: completeIn loop.pending.length messages) ∧
          after.rest = loop.rest ∧
          loop.pending = streamBytes (completeIn loop.pending.length messages) ++ after.pending ∧
          after.allUsed = loop.allUsed + loop.bytes +
            loop.bytes * (completeIn loop.pending.length messages).length := by
  induction messages with
  | nil =>
    intro bound sent loop later enough rested stream calm
    obtain ⟨bound, rfl⟩ : ∃ less, bound = less + 1 := ⟨bound - 1, by omega⟩
    have empty : loop.pending = [] := (append_eq_nil_iff.mp stream).1
    have incomplete : unpack loop.pending = .more [] := by rw [empty, unpack_nil]
    obtain ⟨after, ended, progress, sameRest, samePending, used⟩ :=
      @objectLoop_last ofDouble config replies loop sent bound [] rested calm incomplete
    exact ⟨after, ended, progress, sameRest, samePending.symm, used⟩
  | cons next messages ih =>
    intro bound sent loop later enough rested stream calm
    obtain ⟨bound, rfl⟩ : ∃ less, bound = less + 1 := ⟨bound - 1, by omega⟩
    by_cases fits : next.size ≤ loop.pending.length
    · -- the next message ends in what the unpacker has
      obtain ⟨left, split, size, following⟩ := split_first stream fits
      rw [size, completeIn_fits] at calm ⊢
      obtain ⟨middle, handled, progress, sameRest, samePending, sameBytes,
        used⟩ := @handleObject_sent ofDouble config replies loop sent rested calm.1 calm.2.1
      have positive := next.size_pos
      obtain ⟨after, ended, progressAfter, restAfter, whole, usedAfter⟩ :=
        @ih bound next { middle with pending := left } later (by
          dsimp only
          omega) progress.rested following (progress.calm calm)
      refine ⟨after, ?_, ?_, restAfter.trans sameRest, ?_, ?_⟩
      · rw [objectLoop, handled]
        dsimp only
        rw [samePending, split, next.encodes left]
        exact ended
      · exact progress.trans ⟨progressAfter.handled, progressAfter.effects,
          progressAfter.flag, progressAfter.rested⟩
      · rw [split, streamBytes_cons, append_assoc]
        exact congrArg (next.bytes ++ ·) whole
      · dsimp only at usedAfter
        rw [usedAfter, used, sameBytes, length_cons, Nat.mul_succ]
        omega
    · have short := Nat.lt_of_not_le fits
      obtain ⟨rest, incomplete⟩ := unpack_incomplete stream short
      rw [completeIn_short short] at calm ⊢
      obtain ⟨after, ended, progress, sameRest, samePending, used⟩ :=
        @objectLoop_last ofDouble config replies loop sent bound rest rested calm incomplete
      exact ⟨after, ended, progress, sameRest, samePending.symm, used⟩

/-- What the unpacker has ends with a step, or with the buffer.  `position` is
where the last message that was handled ends. -/
structure Loop.Placed (loop : Loop) (step position : Nat) : Prop where
  bound : position + loop.pending.length ≤ step * eachRecvSize
  full : loop.rest ≠ [] → step * eachRecvSize ≤ position + loop.pending.length

def Loop.receive (loop : Loop) : Loop :=
  { loop with
    rest := loop.rest.drop eachRecvSize
    pending := loop.pending ++ loop.rest.take eachRecvSize }

theorem Loop.receive_stream (loop : Loop) (later : List Byte) :
    loop.receive.pending ++ (loop.receive.rest ++ later) =
      loop.pending ++ (loop.rest ++ later) := by
  rw [receive, append_assoc, ← append_assoc (List.take _ _), take_append_drop]

theorem Loop.receive_length (loop : Loop) :
    loop.receive.pending.length + loop.receive.rest.length =
      loop.pending.length + loop.rest.length := by
  rw [← length_append, ← append_nil loop.receive.rest, loop.receive_stream, append_nil,
    length_append]

theorem Loop.Placed.receive {step position : Nat} (placed : loop.Placed step position)
    (some : loop.rest ≠ []) : loop.receive.Placed (step + 1) position := by
  obtain ⟨bound, full⟩ := placed
  have start := full some
  constructor
  · rw [Loop.receive, length_append, length_take]
    rw [eachRecvSize] at *
    omega
  · intro more
    have longer := length_pos_iff.mpr more
    rw [Loop.receive, length_drop] at longer
    rw [Loop.receive, length_append, length_take]
    rw [eachRecvSize] at *
    omega

theorem Loop.Placed.handled {middle : Loop} {step position : Nat} {messages : List Sent}
    (placed : loop.Placed step position) (rest : middle.rest = loop.rest)
    (whole : loop.pending = streamBytes messages ++ middle.pending) :
    middle.Placed step (position + (messages.map Sent.size).sum) := by
  obtain ⟨bound, full⟩ := placed
  rw [whole, length_append, ← sum_sizes, ← Nat.add_assoc] at bound full
  rw [← rest] at full
  exact ⟨bound, full⟩

/-- A step handles the messages that end in it.  Each is reported with the size
of the first one. -/
theorem receiveLoop_step {messages : List Sent} {later : List Byte} (some : loop.rest ≠ [])
    (rested : Rested loop.encoder)
    (stream : loop.receive.pending ++ (loop.receive.rest ++ later) = streamBytes messages)
    (calm : Calm replies loop.containOptions loop.handled
      (completeIn loop.receive.pending.length messages)) :
    ∃ middle,
      receiveLoop ofDouble config replies (bound + 1) loop =
          receiveLoop ofDouble config replies bound middle ∧
        Progress ofDouble config replies loop middle
          (completeIn loop.receive.pending.length messages) ∧
        middle.rest = loop.receive.rest ∧
        loop.receive.pending =
          streamBytes (completeIn loop.receive.pending.length messages) ++ middle.pending ∧
        middle.allUsed = loop.allUsed +
          ((completeIn loop.receive.pending.length messages).map Sent.size).headD 0 *
            (completeIn loop.receive.pending.length messages).length := by
  have goesOn : ¬ loop.rest.isEmpty = true := by simpa using some
  cases messages with
  | nil =>
    rw [loop.receive_stream] at stream
    exact absurd (append_eq_nil_iff.mp (append_eq_nil_iff.mp stream).2).1 some
  | cons sent messages =>
    by_cases fits : sent.size ≤ loop.receive.pending.length
    · obtain ⟨left, split, size, following⟩ := split_first stream fits
      rw [size, completeIn_fits] at calm ⊢
      obtain ⟨middle, run, progress, sameRest, whole, used⟩ := @objectLoop_sent ofDouble config
        replies messages (left.length + 1) sent
        { loop.receive with pending := left, bytes := sent.size } (loop.receive.rest ++ later)
        (Nat.lt_succ_self _) rested following calm
      refine ⟨middle, ?_, ⟨progress.handled, progress.effects, progress.flag, progress.rested⟩,
        sameRest, ?_, ?_⟩
      · have size : (sent.bytes ++ left).length - left.length = sent.size := by
          rw [length_append, Nat.add_sub_cancel, Sent.size]
        rw [receiveLoop, if_neg goesOn]
        change loop.pending ++ loop.rest.take eachRecvSize = _ at split
        dsimp only
        rw [split, sent.encodes left]
        dsimp only
        dsimp only [Loop.receive] at run
        rw [size, run]
      · rw [split, streamBytes_cons, append_assoc]
        exact congrArg (sent.bytes ++ ·) whole
      · rw [used, map_cons, headD_cons, length_cons, Nat.mul_succ, Nat.add_assoc,
          Nat.add_comm (_ * _)]
        rfl
    · have short := Nat.lt_of_not_le fits
      obtain ⟨left, incomplete⟩ := unpack_incomplete stream short
      rw [completeIn_short short] at calm ⊢
      have unchanged := @Progress.refl ofDouble config replies loop rested
      refine ⟨loop.receive, ?_, ⟨unchanged.handled, unchanged.effects, unchanged.flag, rested⟩,
        rfl, rfl, rfl⟩
      change unpack (loop.pending ++ loop.rest.take eachRecvSize) = _ at incomplete
      rw [receiveLoop, if_neg goesOn]
      dsimp only
      rw [incomplete, Loop.receive]

theorem receiveLoop_sent (bound : Nat) :
    ∀ {loop : Loop} {messages : List Sent} {later : List Byte}
      {step position : Nat},
      loop.rest.length < bound → Rested loop.encoder →
      loop.pending ++ (loop.rest ++ later) = streamBytes messages →
      completeIn loop.pending.length messages = [] → loop.Placed step position →
      Calm replies loop.containOptions loop.handled
        (completeIn (loop.pending.length + loop.rest.length) messages) →
      ∃ after,
        receiveLoop ofDouble config replies bound loop = (true, after) ∧
          Progress ofDouble config replies loop after
            (completeIn (loop.pending.length + loop.rest.length) messages) ∧
          after.allUsed = loop.allUsed +
            reported none position
              ((completeIn (loop.pending.length + loop.rest.length) messages).map Sent.size) := by
  induction bound with
  | zero =>
    intro loop messages later step position enough
    exact absurd enough (Nat.not_lt_zero _)
  | succ bound ih =>
    intro loop messages later step position enough rested stream nothing placed calm
    by_cases ended : loop.rest = []
    · have none : completeIn (loop.pending.length + loop.rest.length) messages = [] := by
        rw [ended, length_nil, Nat.add_zero, nothing]
      rw [none]
      refine ⟨loop, ?_, .refl rested, rfl⟩
      rw [receiveLoop, ended, isEmpty_nil, if_pos rfl]
    rw [← loop.receive_stream] at stream
    rw [← loop.receive_length] at calm ⊢
    obtain ⟨left, tail, _, whole, streamLeft, stopped, more⟩ := completeIn_split stream
    rw [more] at calm ⊢
    obtain ⟨middle, run, progress, sameRest, handled, used⟩ :=
      @receiveLoop_step ofDouble config replies loop bound messages later ended rested stream
        (calm_append.mp calm).1
    obtain rfl : tail = middle.pending := append_cancel_left (whole.symm.trans handled)
    have received := placed.receive ended
    have next := received.handled sameRest handled
    rw [← sameRest] at calm streamLeft ⊢
    obtain ⟨after, runAfter, progressAfter, usedAfter⟩ := @ih middle left later (step + 1) _ (by
        have shorter := length_pos_iff.mpr ended
        rw [sameRest, Loop.receive, length_drop, eachRecvSize]
        omega) progress.rested streamLeft stopped next (progress.calm calm)
    refine ⟨after, run.trans runAfter, progress.trans progressAfter, ?_⟩
    rw [usedAfter, used, map_append, @reported_step step, length_map, Nat.add_assoc]
    · intro size first
      have longer := head_completeIn nothing size first
      have start := placed.full ended
      omega
    · have below := received.bound
      rw [handled, length_append, ← sum_sizes] at below
      omega
    · intro size first
      by_cases last : middle.rest = []
      · rw [last, length_nil, Nat.add_zero, stopped] at first
        cases first
      · have longer := head_completeIn stopped size first
        have start := next.full last
        omega

/-- The messages that end in the buffer are handled, and when the sizes that
were reported for them sum up to theirs the rest of the buffer is kept. -/
theorem fwProtProcess_sent {conn : Conn} {messages : List Sent}
    {later : List Byte} (rested : Rested conn.encoder)
    (stream : conn.buf ++ later = streamBytes messages)
    (calm : Calm replies false conn.handled (completeIn conn.buf.length messages))
    (counted : reported none 0 ((completeIn conn.buf.length messages).map Sent.size) =
      (streamBytes (completeIn conn.buf.length messages)).length) :
    ∃ encoder, Rested encoder ∧
      fwProtProcess ofDouble config replies conn =
        (true,
          { conn with
            buf := conn.buf.drop (streamBytes (completeIn conn.buf.length messages)).length
            encoder := encoder
            handled := conn.handled + (completeIn conn.buf.length messages).length },
          outcomes ofDouble config replies conn.handled (completeIn conn.buf.length messages)) := by
  obtain ⟨after, run, progress, used⟩ := @receiveLoop_sent ofDouble config
    replies (conn.buf.length + 1)
    { rest := conn.buf
      pending := []
      allUsed := 0
      bytes := 0
      containOptions := false
      encoder := conn.encoder
      handled := conn.handled
      effects := [] } messages later 0 0 (Nat.lt_succ_self _) rested stream
    (completeIn_zero messages) ⟨Nat.le_refl 0, fun _ => Nat.le_refl 0⟩ (by
      rwa [length_nil, Nat.zero_add])
  rw [length_nil, Nat.zero_add] at progress used
  rw [Nat.zero_add, counted] at used
  refine ⟨after.encoder, progress.rested, ?_⟩
  rw [fwProtProcess, run]
  dsimp only
  rw [if_pos rfl, progress.handled, progress.effects, nil_append, adjust, used]
  obtain ⟨_, _, _, whole, _, _, _⟩ := completeIn_split stream
  have bound : (streamBytes (completeIn conn.buf.length messages)).length ≤ conn.buf.length := by
    conv => rhs; rw [whole, length_append]
    exact Nat.le_add_right _ _
  by_cases something : 0 < (streamBytes (completeIn conn.buf.length messages)).length
  · rw [if_pos ⟨bound, something⟩]
  · have zero : (streamBytes (completeIn conn.buf.length messages)).length =
        0 := Nat.eq_zero_of_not_pos something
    rw [if_neg (fun both => something both.2), zero, drop_zero]

end

end

open Run

/-- A connection and what came of it.  `received` is not kept by the source. -/
structure World where
  conn : Option Conn
  effects : List Effect
  received : List Byte

def World.opened (config : Config) : World :=
  { conn := some (fwConnAdd config), effects := [], received := [] }

section
variable (ofDouble : BitVec 64 → Time) (config : Config) (replies : Nat → Replies)

def step (world : World) (bytes : List Byte) : Option World :=
  world.conn.map fun conn =>
    let (conn, effects) := fwConnEvent ofDouble config replies conn bytes
    { conn := conn, effects := world.effects ++ effects, received := world.received ++ bytes }

def Readable (stream : List Sent) (world : World) (bytes : List Byte) : Prop :=
  world.received ++ bytes <+: streamBytes stream ∧
    ∀ conn ∈ world.conn, ∃ room ∈ makeRoom config conn,
      conn.buf.length + bytes.length ≤ room.bufSize

/-- In the call for this read the sizes reported for the messages sum up to
their sizes, and no message reads behind its end or is refused. -/
def Steady (stream : List Sent) (world : World) (bytes : List Byte) : Prop :=
  ∀ conn ∈ world.conn,
    let complete := completeIn (conn.buf.length + bytes.length) (stream.drop conn.handled)
    reported none 0 (complete.map Sent.size) = (streamBytes complete).length ∧
      Calm replies false conn.handled complete

def aloneEffects : Nat → List Sent → List Effect
  | _, [] => []
  | number, sent :: messages =>
    (fwProtProcess ofDouble config (fun index => replies (number + index))
      { fwConnAdd config with buf := sent.bytes }).2.2 ++
      aloneEffects (number + 1) messages

/-- The messages that have arrived were handled once and in order, each as if
it were alone, and the buffer has the bytes of the one that is not complete. -/
structure Delivered (stream : List Sent) (world : World) (conn : Conn) : Prop where
  alive : world.conn = some conn
  received : world.received = streamBytes (completeIn world.received.length stream) ++ conn.buf
  handled : conn.handled = (completeIn world.received.length stream).length
  effects : world.effects = aloneEffects ofDouble config replies 0
    (completeIn world.received.length stream)

variable {ofDouble config replies}

theorem completeIn_self (sent : Sent) : completeIn sent.bytes.length [sent] = [sent] := by
  have fits : sent.size ≤ sent.bytes.length := Nat.le_of_eq rfl
  rw [completeIn, if_pos fits]
  rfl

theorem alone_eq_outcome {number : Nat} {sent : Sent}
    (accepted : sent.message.Accepted (replies number)) :
    (fwProtProcess ofDouble config (fun index => replies (number + index))
      { fwConnAdd config with buf := sent.bytes }).2.2 =
        (sent.message.outcome ofDouble config (replies number)).2 := by
  obtain ⟨encoder, _, processed⟩ := @fwProtProcess_sent ofDouble config
    (fun index => replies (number + index))
    { fwConnAdd config with buf := sent.bytes } [sent] []
    rested_encoderInit (by simp) (by
      rw [completeIn_self]
      exact ⟨fun never => absurd never Bool.false_ne_true, accepted, trivial⟩)
    (by
      rw [completeIn_self, streamBytes_cons, streamBytes_nil, append_nil]
      rfl)
  rw [processed]
  rw [completeIn_self, outcomes, outcomes, append_nil]
  rfl

theorem aloneEffects_eq_outcomes (messages : List Sent) :
    ∀ {flag : Bool} {number : Nat}, Calm replies flag number messages →
      aloneEffects ofDouble config replies number messages =
        outcomes ofDouble config replies number messages := by
  induction messages with
  | nil =>
    intro flag number _
    rfl
  | cons sent messages ih =>
    intro flag number calm
    obtain ⟨_, accepted, later⟩ := calm
    rw [aloneEffects, outcomes, alone_eq_outcome accepted, ih later]

theorem makeRoom_conn {conn room : Conn} (made : makeRoom config conn = some room) :
    room = { conn with bufSize := room.bufSize } := by
  rw [makeRoom] at made
  split at made
  · cases made
    rfl
  · split at made
    · cases made
    · split at made
      · cases made
        rfl
      · cases made
        rfl

theorem Delivered.step {stream : List Sent} {world next : World} {conn : Conn} {bytes : List Byte}
    (delivered : Delivered ofDouble config replies stream world conn) (rested : Rested conn.encoder)
    (readable : Readable config stream world bytes) (steady : Steady replies stream world bytes)
    (taken : step ofDouble config replies world bytes = some next) :
    ∃ after, Delivered ofDouble config replies stream next after ∧ Rested after.encoder := by
  obtain ⟨alive, received, handled, effects⟩ := delivered
  obtain ⟨⟨later, continues⟩, fits⟩ := readable
  obtain ⟨room, made, _⟩ := fits conn alive
  obtain ⟨counted, calm⟩ := steady conn alive
  rw [append_assoc] at continues
  obtain ⟨ahead, tail, split, whole, streamAhead, _, more⟩ := completeIn_split continues
  obtain rfl : tail = conn.buf := append_cancel_left (whole.symm.trans received)
  have dropped : stream.drop conn.handled = ahead := by
    rw [handled]
    conv => lhs; arg 2; rw [split]
    exact drop_left
  rw [dropped, ← length_append] at counted calm
  rw [← append_assoc] at streamAhead
  have arrived : completeIn (world.received ++ bytes).length stream =
      completeIn world.received.length stream ++ completeIn (conn.buf ++ bytes).length ahead := by
    rw [length_append, more, length_append]
  obtain ⟨encoder, last, processed⟩ := @fwProtProcess_sent ofDouble config
    replies { conn with buf := conn.buf ++ bytes, bufSize := room.bufSize }
    ahead later rested streamAhead calm counted
  rw [Forward.step, alive, Option.map_some, fwConnEvent, made] at taken
  dsimp only at taken
  rw [makeRoom_conn made] at taken
  rw [processed] at taken
  cases taken
  refine ⟨_, ⟨rfl, ?_, ?_, ?_⟩, last⟩
  · obtain ⟨_, tail, _, wholeAhead, _, _, _⟩ := completeIn_split streamAhead
    have kept : streamBytes (completeIn (conn.buf ++ bytes).length ahead) ++
        (conn.buf ++ bytes).drop
          (streamBytes (completeIn (conn.buf ++ bytes).length ahead)).length =
        conn.buf ++ bytes := by
      conv => lhs; arg 2; arg 2; rw [wholeAhead]
      rw [drop_left, ← wholeAhead]
    rw [arrived, streamBytes_append, append_assoc, kept, ← append_assoc, ← received]
  · rw [arrived, handled]
    exact length_append.symm
  · rw [arrived, @append_of_numbered (aloneEffects ofDouble config replies) _ (fun _ => rfl)
      fun _ _ _ => rfl, effects, Nat.zero_add, ← handled, aloneEffects_eq_outcomes _ calm]

theorem delivered_opened (stream : List Sent) :
    Delivered ofDouble config replies stream (.opened config) (fwConnAdd config) := by
  have none := completeIn_zero stream
  refine ⟨rfl, ?_, ?_, ?_⟩
  · change [] = streamBytes (completeIn 0 stream) ++ []
    rw [none, streamBytes_nil, append_nil]
  · change 0 = (completeIn 0 stream).length
    rw [none, length_nil]
  · change [] = aloneEffects ofDouble config replies 0 (completeIn 0 stream)
    rw [none, aloneEffects]

end

/-- As long as the reports are right, no message reads behind its end and the
input takes what is appended, every message of the stream is handled exactly
once and in order with the effect it has alone on a new connection, and the
buffer has exactly the bytes of the message that is not complete. -/
theorem messages_are_delivered (ofDouble : BitVec 64 → Time) (config : Config)
    (replies : Nat → Replies) (stream : List Sent) (world : World)
    (reached : Reaches (step ofDouble config replies)
      (fun world bytes => Readable config stream world bytes ∧
        Steady replies stream world bytes) (.opened config) world) :
    ∃ conn, Delivered ofDouble config replies stream world conn := by
  have invariant : ∃ conn,
      Delivered ofDouble config replies stream world conn ∧ Rested conn.encoder := by
    apply reached.invariant
    · exact ⟨_, delivered_opened stream, rested_encoderInit⟩
    · intro current next bytes held allowed taken
      obtain ⟨conn, delivered, rested⟩ := held
      exact delivered.step rested allowed.1 allowed.2 taken
  obtain ⟨conn, delivered, _⟩ := invariant
  exact ⟨conn, delivered⟩

def accepting : Nat → Replies :=
  fun _ =>
    { appended := fun _ => true
      prepared := true
      inflated := []
      behind := .nil }

def emptyRecord (tag : Tag) (short : tag.length < 32) : Sent where
  message :=
    { tag := tag, body := .message (.positiveInteger 1) [], options := none }
  bytes := pack (.array [.str tag, .positiveInteger 1, .map []])
  encodes := by
    apply encodes_pack
    have few : 3 < 2 ^ 32 := by decide
    refine ⟨few, ?_, trivial, ⟨Nat.zero_lt_of_lt few, trivial⟩, trivial⟩
    change tag.length < 2 ^ 32
    omega
  wellFormed :=
    { chunk := Option.some_ne_none _
      time := by
        intro time record form
        cases form
        exact ⟨rfl, Option.some_ne_none _⟩
      signal := by
        intro data binary options form
        cases form }
  uncompressed := by
    intro data binary form
    cases form

/-- A message and the beginning of another one, and then what is left. -/
theorem messages_are_delivered_twoReads :
    let stream := [emptyRecord [116] (by decide), emptyRecord [116] (by decide)]
    ∃ world conn,
      run (step noDouble plainConfig accepting) (.opened plainConfig)
          [(streamBytes stream).take 7, (streamBytes stream).drop 7] =
        some world ∧
      world.effects.length = 2 ∧
      Delivered noDouble plainConfig accepting stream world conn := by
  intro stream
  obtain ⟨conn, delivered⟩ := messages_are_delivered noDouble plainConfig accepting stream _
    (.step (.step .refl
      ⟨⟨⟨_, take_append_drop 7 _⟩, by
        intro conn member
        cases member
        exact ⟨_, rfl, by decide⟩⟩, by
        intro conn member
        cases member
        exact ⟨rfl, fun never => absurd never Bool.false_ne_true, trivial, trivial⟩⟩ rfl)
      ⟨⟨prefix_refl _, by
        intro conn member
        cases member
        exact ⟨_, rfl, by decide⟩⟩, by
        intro conn member
        cases member
        exact ⟨rfl, fun never => absurd never Bool.false_ne_true, trivial, trivial⟩⟩ rfl)
  exact ⟨_, conn, rfl, rfl, delivered⟩

/-- Messages of seven and six bytes come in one read.  Fourteen bytes are
counted as used, nothing is removed, and with the next message both are handled
again.  A packed message without options behind one with nil for its options
reads behind its end what the other left there, and the connection is deleted
with nothing appended. -/
theorem messages_are_handled_twice :
    (let stream := [emptyRecord [116, 116, 116] (by decide),
        emptyRecord [116, 116] (by decide), emptyRecord [116] (by decide)]
      ∃ world,
        Reaches (step noDouble plainConfig accepting)
          (Readable plainConfig stream) (.opened plainConfig) world ∧
        world.received = streamBytes stream ∧
        world.conn.map Conn.handled = some 5 ∧
        ∀ conn, ¬ Delivered noDouble plainConfig accepting stream world conn) ∧
    ∃ world,
      run (step noDouble plainConfig accepting) (.opened plainConfig)
          [pack (.array [.str [116], .array [], .nil]) ++
            pack (.array [.str [116], .bin [146, 1, 128]])] =
        some world ∧
      world.conn.isNone = true ∧ world.effects.length = 0 := by
  constructor
  · intro stream
    have both := @Reaches.step _ _ (step noDouble plainConfig accepting)
      (Readable plainConfig stream) (.opened plainConfig) _ _
      ((streamBytes stream).take 13) .refl
      ⟨⟨_, take_append_drop 13 _⟩, by
        intro conn member
        cases member
        exact ⟨_, rfl, by decide⟩⟩ rfl
    have last := @Reaches.step _ _ (step noDouble plainConfig accepting)
      (Readable plainConfig stream) (.opened plainConfig) _ _
      ((streamBytes stream).drop 13) both
      ⟨prefix_refl _, by
        intro conn member
        cases member
        exact ⟨_, rfl, by decide⟩⟩ rfl
    refine ⟨_, last, rfl, rfl, ?_⟩
    intro conn delivered
    have handled := delivered.handled
    cases delivered.alive
    exact absurd handled (by decide)
  · exact ⟨_, rfl, rfl, rfl⟩

end FluentBit.Forward
