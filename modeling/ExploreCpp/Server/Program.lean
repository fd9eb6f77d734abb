import ExploreCpp.Server.Pool
import ExploreCpp.Task.Runtime

/-! The server of `benchmark_mt.cpp` as a program of the coroutine runtime.

Its coroutines are `listen`, `process`, and the three that wrap an operation of the
library in an `AsioCallbackAwaiter`: `async_accept`, `async_read_some` and
`async_write`. Sockets carry the context they were created on, and operations run
their completion handlers there.

Not modelled: the buffers and the text of the log. -/
namespace ExploreCpp.Server
open ExploreCpp.Runtime

/-- `std::error_code`, by its value; `if (ec)` asks whether it is not zero. -/
abbrev ErrorCode := Int

structure Socket where
  id : Nat
  context : Context
deriving DecidableEq, Repr

/-- The operations, each called at one place: `accept` in `listen`, on the server's
acceptor and with the socket to connect, and the others in `process`. -/
inductive Op where
  | accept (socket : Socket)
  | read (socket : Socket)
  | write (socket : Socket)
deriving DecidableEq, Repr

def Op.socket : Op → Socket
  | accept socket | read socket | write socket => socket

/-- What the awaits and calls of the program yield. -/
inductive Value where
  | unit
  | errorCode (ec : ErrorCode)
  | transferred (ec : ErrorCode) (size : Nat)
  /-- `remote_endpoint()`, which throws if the peer is gone. -/
  | remoteEndpoint (connected : Bool)
deriving DecidableEq, Repr

def Value.error : Value → ErrorCode
  | errorCode ec | transferred ec _ => ec
  | _ => 0

/-- The points of the program: where a body is, with the locals it still uses. -/
inductive Point where
  /-- In `async_accept`, `async_read_some` or `async_write`: before and after the
  `co_await` of its awaiter. -/
  | callback (op : Op)
  | deliver (op : Op) (result : Value)
  /-- `co_await` of one of these, called just before, and the end of that expression,
  where its `Task` is destroyed. -/
  | awaiting (op : Op)
  | awaited (op : Op) (result : Value)
  | listenLoop
  | listenWrap (ctx : Context)
  | listenSocket (ctx : Context)
  | listenAccept (socket : Socket)
  | listenBranch (socket : Socket) (ec : Value)
  | listenRemote (socket : Socket) (remote : Value)
  | processLoop (socket : Socket)
  | processBranch (socket : Socket) (result : Value)
  /-- The cursor of the pool was out of range. -/
  | outOfRange
deriving DecidableEq, Repr

instance : Inhabited Point := ⟨.outOfRange⟩

/-- What the threads share. `sockets` have been constructed so far. -/
structure Shared where
  pool : IOContextPool
  sockets : Nat
deriving DecidableEq, Repr

def act : Point → Action Point Value Op Shared
  | .callback op => .leaf op
  | .deliver _ result => .ret result
  | .awaiting _ => .await 0
  | .awaited (.accept socket) ec => .drop 0 (.listenBranch socket ec)
  | .awaited (.read socket) result => .drop 0 (.processBranch socket result)
  | .awaited (.write socket) _ => .drop 0 (.processLoop socket)
  | .listenLoop => .compute fun g =>
    match g.pool.draw with
    | some (ctx, pool) => ({g with pool := pool}, .listenWrap ctx)
    | none => (g, .outOfRange)
  | .listenWrap ctx => .compute fun g => ({g with pool := g.pool.wrap}, .listenSocket ctx)
  | .listenSocket ctx => .compute fun g =>
    ({g with sockets := g.sockets + 1}, .listenAccept ⟨g.sockets, ctx⟩)
  | .listenAccept socket => .create (.callback (.accept socket)) (.awaiting (.accept socket))
  | .listenBranch _ ec => if ec.error ≠ 0 then .ret .unit else .ask
  | .listenRemote socket remote =>
    match remote with
    | .remoteEndpoint true => .spawn (.processLoop socket) .listenLoop
    | _ => .throw
  | .processLoop socket => .create (.callback (.read socket)) (.awaiting (.read socket))
  | .processBranch socket result =>
    if result.error ≠ 0 then .ret .unit
    else .create (.callback (.write socket)) (.awaiting (.write socket))
  | .outOfRange => .throw

def receive : Point → Value → Point
  | .callback op, v => .deliver op v
  | .awaiting op, v => .awaited op v
  | .listenBranch socket _, v => .listenRemote socket v
  | p, _ => p

/-- The results are returned as what they are, so the promises store them. -/
def program : Program Point Value Value Op Shared := ⟨act, receive, id, some⟩

/-! ### Contexts and threads -/

/-- The constructing thread, and the one that runs each context. -/
inductive Thread where
  | main
  | context (ctx : Context)
deriving DecidableEq, Repr

structure TcpServer where
  /-- The context `acceptor_` was created on. -/
  acceptor : Context
deriving DecidableEq, Repr

/-- The context of the object an operation was initiated on. -/
def TcpServer.contextOf (server : TcpServer) : Op → Context
  | .accept _ => server.acceptor
  | .read socket | .write socket => socket.context

/-- The results an operation can have. -/
def Op.yields : Op → Value → Bool
  | accept _, .errorCode _ => true
  | read _, .transferred .. | write _, .transferred .. => true
  | _, _ => false

abbrev ServerState := State Point Value Op Shared Thread
abbrev ServerLabel := Label Point Value Thread

/-- `tcp_server(pool, port)` up to `spawn(listen())`, which starts on `main`. -/
def TcpServer.create (n : Nat) : Option (TcpServer × ServerState) :=
  match (IOContextPool.create n).getIoContext with
  | some (ctx, pool) =>
    some (⟨ctx⟩, spawn program (State.empty ⟨pool, 0⟩) .main .listenLoop)
  | none => none

/-- What the library promises: handlers run once the constructor has returned and
`run()` has been called, each on the thread of its operation's context, and the peer
is asked for by `remote_endpoint()` only. -/
def TcpServer.allows (server : TcpServer) (s : ServerState) : ServerLabel → Bool
  | .start .. => false
  | .run _ answer =>
    match answer with
    | .remoteEndpoint _ => true
    | _ => false
  | .complete t h v =>
    match s.pending.lookup h with
    | some op => s.stackOf .main = [] ∧ t = .context (server.contextOf op) ∧ op.yields v
    | none => false

def TcpServer.machine (server : TcpServer) : Machine ServerState ServerLabel :=
  ⟨fun s l => if server.allows s l then step program s l else none⟩

end ExploreCpp.Server
