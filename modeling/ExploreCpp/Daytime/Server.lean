import ExploreCpp.Callbacks
import ExploreCpp.Machine

/-! The daytime server of `test_async_tcp_udp_server.cpp`, both of its sockets on one context.

A connection is an object that its shared pointers keep; they stand in the callbacks.
`captures` says whether the callback of a write has one, as the commented-out capture does:
the program has only `this`. When a connection is destroyed its socket is, and a write that
is still pending is aborted.

The text that is written or sent is a temporary, which lasts until the operation has been
initiated. A write that is not taken at once as a whole counts as pending: how much of the
text its first attempt has taken is left out. -/
namespace ExploreCpp.Daytime

structure Endpoint where
  address : Nat
  port : Nat
deriving DecidableEq, Repr

inductive Op where
  | accept (newConnection : Nat)
  | write (connection : Nat)
  | receive
  | send (destination : Endpoint)
deriving DecidableEq, Repr

/-- What an operation completes with. -/
structure Result where
  ec : Nat
  /-- Of a datagram. -/
  sender : Endpoint
deriving DecidableEq, Repr

/-- `asio::error::operation_aborted` -/
def operationAborted : Result := ⟨125, ⟨0, 0⟩⟩

/-- The callbacks called, and for a connection whether there still is one. -/
inductive Call where
  | handleAccept (newConnection : Nat) (ec : Nat)
  | handleWrite (this : Nat) (alive : Bool)
  | handleReceive (ec : Nat)
  | handleSend
deriving DecidableEq, Repr

structure State where
  loop : Callbacks Op Result
  /-- How many connections have been created. -/
  created : Nat
  alive : Nat → Bool
  remoteEndpoint : Endpoint
  calls : List Call
  /-- The texts that have been written or sent, and whether they still were there. -/
  texts : List (Op × Bool)
  /-- The senders of the datagrams received. -/
  arrived : List Endpoint
  /-- To whom a text has been sent, if only initiated. -/
  replies : List Endpoint

/-- The connection the callback has a shared pointer to. -/
def Op.holds (captures : Bool) : Op → Option Nat
  | .accept newConnection => some newConnection
  | .write connection => if captures then some connection else none
  | .receive => none
  | .send _ => none

/-- Some callback that has not been called holds the connection. -/
def held (captures : Bool) (ops : List Op) (c : Nat) : Bool := ops.any fun op => op.holds captures = some c

/-! ### The program -/

/-- The text is there while the operation is initiated, and may be taken at once. -/
def State.put (s : State) (op : Op) (immediate : Option Result) : State :=
  let s' := {s with loop := s.loop.initiate op immediate}
  match immediate with
  | none => s'
  | some result => if result.ec = 0 then {s' with texts := s.texts ++ [(op, true)]} else s'

/-- `tcp_connection::start` -/
def start (connection : Nat) (immediate : Option Result) (s : State) : State := s.put (.write connection) immediate

def startAccept (s : State) : State :=
  {s with
    created := s.created + 1
    alive := Function.update s.alive s.created true
    loop := s.loop.initiate (.accept s.created) none}

def handleAccept (newConnection ec : Nat) (immediate : Option Result) (s : State) : State :=
  let s := {s with calls := s.calls ++ [.handleAccept newConnection ec]}
  startAccept (if ec = 0 then start newConnection immediate s else s)

def handleWrite (this : Nat) (s : State) : State :=
  {s with calls := s.calls ++ [.handleWrite this (s.alive this)]}

def startReceive (s : State) : State := {s with loop := s.loop.initiate .receive none}

def handleReceive (ec : Nat) (immediate : Option Result) (s : State) : State :=
  let s := {s with calls := s.calls ++ [.handleReceive ec]}
  startReceive (if ec = 0 then
    {s with replies := s.replies ++ [s.remoteEndpoint]}.put (.send s.remoteEndpoint) immediate else s)

def handleSend (s : State) : State := {s with calls := s.calls ++ [.handleSend]}

def State.empty : State := ⟨⟨[], []⟩, 0, fun _ => false, ⟨0, 0⟩, [], [], [], []⟩

/-- Both servers have been constructed. -/
def State.initial : State := startReceive (startAccept .empty)

/-! ### The context -/

/-- A shared pointer to the connection is gone. -/
def State.release (captures : Bool) (c : Nat) (s : State) : State :=
  if held captures s.loop.outstanding c then s
  else {s with alive := Function.update s.alive c false, loop := s.loop.cancel (· = .write c) operationAborted}

/-- The callback is taken out, called and destroyed. -/
def State.call (captures : Bool) (op : Op) (result : Result) (immediate : Option Result) (s : State) : State :=
  let s := {s with loop := s.loop.take op result}
  let s := match op with
    | .accept newConnection => handleAccept newConnection result.ec immediate s
    | .write connection => handleWrite connection s
    | .receive => handleReceive result.ec immediate s
    | .send _ => handleSend s
  match op.holds captures with
  | none => s
  | some c => s.release captures c

/-- What was not taken at once is taken from where the text was. -/
def State.complete (op : Op) (result : Result) (s : State) : State :=
  let s := {s with loop := s.loop.complete op result}
  if result.ec = 0 then
    match op with
    | .receive => {s with remoteEndpoint := result.sender, arrived := s.arrived ++ [result.sender]}
    | .accept _ => s
    | _ => {s with texts := s.texts ++ [(op, false)]}
  else s

inductive Label where
  | complete (op : Op) (result : Result)
  /-- With what an operation completes that the callback initiates, if at once. -/
  | call (op : Op) (result : Result) (immediate : Option Result)
deriving DecidableEq, Repr

def machine (captures : Bool) : Machine State Label where
  step s
    | .complete op result => if op ∈ s.loop.pending then some (s.complete op result) else none
    | .call op result immediate =>
      if (op, result) ∈ s.loop.ready then some (s.call captures op result immediate) else none

end ExploreCpp.Daytime
