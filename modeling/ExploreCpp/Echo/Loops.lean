import ExploreCpp.Conversation

/-! The coroutines of `test_cpp20_coroutine.cpp` and `benchmark_st.cpp`, on one context.

`listen` accepts and spawns a coroutine for each connection, which reads into its array and
writes until something fails: what it has read in the echo server, the response in the
benchmark. `loops_answer` says what the clients get, however the connections take turns and
however much is read and taken at a time.

A write that fails, an accept that fails and a peer that is gone when `remote_endpoint` is
called throw out of the coroutine, which is then over; nobody waits for it. -/
namespace ExploreCpp.Echo

abbrev Text := List Char

/-- What the two loops differ in: the size of the array, and what is written when so many
symbols have been read. -/
structure Loop where
  size : Nat
  reply : (data : Text) → (nread : Nat) → Text

def echo : Loop := ⟨1024, fun data nread => data.take nread⟩

def response : Text :=
  "HTTP/1.1 200 OK\nContent-Type: text/html; charset=utf-8\nContent-Length: 14\n\nHello, World!\n".toList

def process : Loop := ⟨128, fun _ _ => response⟩

/-- Where a coroutine waits. -/
inductive Point where
  | asyncReadSome
  /-- With what has not been taken yet. -/
  | asyncWrite (left : Text)
  | done
deriving DecidableEq, Repr

structure Connection where
  data : Text
  point : Point
  /-- What has been read, read by read. -/
  received : List Text
  sent : Text

/-- What a read or a write gives, or the part of a write that is taken. -/
inductive Io where
  | read (bytes : Text)
  | readFailed
  | wrote (n : Nat)
  | writeFailed
deriving DecidableEq, Repr

/-- A write is over when all of it has been taken. -/
def Point.writing : Text → Point
  | [] => .asyncReadSome
  | left => .asyncWrite left

def Connection.next (loop : Loop) (c : Connection) : Io → Option Connection
  | .read bytes => match c.point with
    | .asyncReadSome =>
      if 0 < bytes.length ∧ bytes.length ≤ loop.size then
        -- the rest of the array stays as it is
        let data := bytes ++ c.data.drop bytes.length
        some ⟨data, .writing (loop.reply data bytes.length), c.received ++ [bytes], c.sent⟩
      else none
    | _ => none
  | .readFailed => match c.point with
    | .asyncReadSome => some {c with point := .done}
    | _ => none
  | .wrote n => match c.point with
    | .asyncWrite left =>
      if n ≤ left.length then some {c with point := .writing (left.drop n), sent := c.sent ++ left.take n} else none
    | _ => none
  | .writeFailed => match c.point with
    | .asyncWrite _ => some {c with point := .done}
    | _ => none

structure State where
  listening : Bool
  connections : List Connection

def State.initial : State := ⟨true, []⟩

inductive Label where
  | acceptFailed
  /-- With what is in the array before anything is read. -/
  | accepted (remoteEndpoint : Bool) (data : Text)
  | io (connection : Nat) (result : Io)
deriving DecidableEq, Repr

def machine (loop : Loop) : Machine State Label where
  step s
    | .acceptFailed => if s.listening then some {s with listening := false} else none
    | .accepted remoteEndpoint data =>
      if s.listening then
        if remoteEndpoint then some {s with connections := s.connections ++ [⟨data, .asyncReadSome, [], []⟩]}
        else some {s with listening := false}
      else none
    | .io connection result =>
      (s.connections[connection]?.bind fun c => c.next loop result).map fun c =>
        {s with connections := s.connections.set connection c}

/-! ### As a conversation -/

def Point.turn : Point → Turn Char
  | .asyncReadSome => .asks
  | .asyncWrite left => .answers left
  | .done => .ended

def Connection.talk (c : Connection) : Conversation Text Char := ⟨c.point.turn, c.received, c.sent⟩

def Io.move : Io → Move Text
  | .read bytes => .ask bytes
  | .wrote n => .tell n
  | .readFailed | .writeFailed => .leave

/-- What is written depends only on what has just been read. -/
def Loop.Answers (loop : Loop) (answer : Text → Text) : Prop :=
  ∀ bytes rest, loop.reply (bytes ++ rest) bytes.length = answer bytes

theorem echo_answers : echo.Answers id := fun _ _ => List.take_left

theorem process_answers : process.Answers fun _ => response := fun _ _ => rfl

theorem writing_turn (left : Text) : (Point.writing left).turn = .telling left := by
  cases left with
  | nil => rfl
  | cons c left => rfl

/-- A coroutine takes part in the conversation. -/
theorem next_talk {loop : Loop} {answer : Text → Text} (h : loop.Answers answer) {c c' : Connection} {result : Io}
    (hs : c.next loop result = some c') :
    (Conversation.machine answer).step c.talk result.move = some c'.talk := by
  obtain ⟨data, point, received, sent⟩ := c
  cases result with
  | read bytes =>
    cases point with
    | asyncReadSome =>
      by_cases hsize : 0 < bytes.length ∧ bytes.length ≤ loop.size
      · obtain rfl : _ = c' := Option.some.inj ((if_pos hsize).symm.trans hs)
        have hreply : loop.reply (bytes ++ data.drop bytes.length) bytes.length = answer bytes := h bytes _
        show some (Conversation.mk (.telling (answer bytes)) _ _) =
          some ⟨(Point.writing (loop.reply (bytes ++ data.drop bytes.length) bytes.length)).turn, _, _⟩
        rw [writing_turn, hreply]
      · cases (if_neg hsize).symm.trans hs
    | asyncWrite left => cases hs
    | done => cases hs
  | readFailed =>
    cases point with
    | asyncReadSome => exact congrArg (Option.map Connection.talk) hs
    | asyncWrite left => cases hs
    | done => cases hs
  | wrote n =>
    cases point with
    | asyncReadSome => cases hs
    | asyncWrite left =>
      by_cases hn : n ≤ left.length
      · obtain rfl : _ = c' := Option.some.inj ((if_pos hn).symm.trans hs)
        simp only [Connection.talk, writing_turn]
        exact if_pos hn
      · cases (if_neg hn).symm.trans hs
    | done => cases hs
  | writeFailed =>
    cases point with
    | asyncReadSome => cases hs
    | asyncWrite left => exact congrArg (Option.map Connection.talk) hs
    | done => cases hs

/-! ### Runs -/

/-- A connection of a run is where some conversation has led. -/
theorem run_talks {loop : Loop} {answer : Text → Text} (h : loop.Answers answer) {labels : List Label} {s : State}
    (hrun : (machine loop).run .initial labels = some s) :
    ∀ c ∈ s.connections, (Conversation.machine answer).Reaches .start c.talk := by
  apply Machine.run_invariant (P := fun s => ∀ c ∈ s.connections,
    (Conversation.machine answer).Reaches .start c.talk) _ nofun hrun
  intro s l s' hs hstep
  cases l with
  | acceptFailed =>
    obtain ⟨_, rfl⟩ : s.listening = true ∧ {s with listening := false} = s' := by simpa [machine] using hstep
    exact hs
  | accepted remoteEndpoint data =>
    cases hlistening : s.listening with
    | false => simp [machine, hlistening] at hstep
    | true =>
      cases remoteEndpoint with
      | false =>
        obtain rfl : {s with listening := false} = s' := by simpa [machine, hlistening] using hstep
        exact hs
      | true =>
        obtain rfl : {s with connections := s.connections ++ [⟨data, .asyncReadSome, [], []⟩]} = s' := by
          simpa [machine, hlistening] using hstep
        intro c hc
        rcases List.mem_append.1 hc with hold | hnew
        · exact hs c hold
        · rw [List.mem_singleton.1 hnew]
          exact .refl _
  | io connection result =>
    obtain ⟨c', hc', rfl⟩ := Option.map_eq_some_iff.1 hstep
    obtain ⟨c₀, hc₀, hnext⟩ := Option.bind_eq_some_iff.1 hc'
    intro c hc
    rcases List.mem_or_eq_of_mem_set hc with hold | hnew
    · exact hs c hold
    · rw [hnew]
      exact (hs c₀ (List.mem_of_getElem? hc₀)).step (next_talk h hnext)

/-- What a client has got for what has been read from it. -/
structure Connection.Answered (answer : Text → Text) (c : Connection) : Prop where
  /-- All of it while the next read is waited for. -/
  whole : c.point = .asyncReadSome → c.sent = c.received.flatMap answer
  rest : ∀ left, c.point = .asyncWrite left → c.sent ++ left = c.received.flatMap answer
  begun : c.sent <+: c.received.flatMap answer
  /-- At any time all but the rest of the last. -/
  former : c.received.dropLast.flatMap answer <+: c.sent

theorem run_answered {loop : Loop} {answer : Text → Text} (h : loop.Answers answer) {labels : List Label} {s : State}
    (hrun : (machine loop).run .initial labels = some s) : ∀ c ∈ s.connections, c.Answered answer := by
  intro c hc
  have honest : c.talk.Honest answer := Conversation.honest (run_talks h hrun c hc)
  refine ⟨?_, ?_, honest.begun, honest.former⟩
  · intro hpoint
    exact honest.whole (congrArg Point.turn hpoint)
  · intro left hpoint
    exact honest.rest left (congrArg Point.turn hpoint)

/-- **Every client gets its answers**, in order and without a gap, whatever becomes of the other
clients and of the listener: from the echo server what has been read from it, and from the
benchmark one response for each read. -/
theorem loops_answer (labels : List Label) (s : State) :
    ((machine echo).run .initial labels = some s → ∀ c ∈ s.connections, c.Answered id) ∧
      ((machine process).run .initial labels = some s → ∀ c ∈ s.connections, c.Answered fun _ => response) :=
  ⟨run_answered echo_answers, run_answered process_answers⟩

/-- Two clients, the first of which is written to in two parts. -/
def twoClients : List Label :=
  [.accepted true [], .accepted true [], .io 0 (.read ['a', 'b', 'c']), .io 1 (.read ['x']), .io 0 (.wrote 2),
    .acceptFailed, .io 1 (.wrote 1), .io 0 (.wrote 1)]

theorem loops_answer_twoClients :
    (∃ s, (machine echo).run .initial twoClients = some s ∧ ∀ c ∈ s.connections, c.Answered id) ∧
      ∃ s, (machine process).run .initial twoClients = some s ∧ ∀ c ∈ s.connections, c.Answered fun _ => response := by
  have hecho : (machine echo).run .initial twoClients = some _ := rfl
  have hprocess : (machine process).run .initial twoClients = some _ := rfl
  exact ⟨⟨_, hecho, (loops_answer twoClients _).1 hecho⟩, _, hprocess, (loops_answer twoClients _).2 hprocess⟩

end ExploreCpp.Echo
