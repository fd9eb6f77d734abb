import ExploreCpp.Machine
import ExploreCpp.Task.Class

/-! The coroutine runtime: programs of coroutines that create, await and drop
`Task`s and start others with `spawn`.

A program is a table of what a body does at each point (`Program`); the machine
below supplies what the language and `task.hpp` do around it. Threads call
`resume()` on handles, so each has a stack of frames: the top one runs, and those
below it are inside `spawn`, waiting for their call of `resume()` to return. A
frame leaves the top by suspending or by symmetric transfer, which replaces it.
One step is one action of the running body, so the threads interleave between
actions. A leaf operation is completed later, by a thread that is idle.

Resuming or destroying a frame that is not suspended is undefined behaviour and
stops the machine (`Halt.undefined`); whether that can happen is a question about
its runs. A `Task` stays in the frame that has created it: it may be moved there,
but is not passed on as a parameter of another coroutine. -/
namespace ExploreCpp.Runtime

/-- What a body does next, at a point of `σ`. Points are program counters with the
locals that are not `Task`s; the `Task` locals are counted from the newest. `E` are
the operands of `co_return`. -/
inductive Action (σ E Op G : Type) where
  /-- Anything that touches no coroutine: `G` is what all threads share. -/
  | compute (f : G → G × σ)
  /-- A call the environment answers at once. -/
  | ask
  /-- A call of a coroutine, whose `Task` becomes the newest local. -/
  | create (body k : σ)
  /-- A new local, move-constructed from the `i`-th. -/
  | move (i : Nat) (k : σ)
  /-- The end of the scope of the `i`-th local. -/
  | drop (i : Nat) (k : σ)
  /-- `co_await` of the `i`-th local. -/
  | await (i : Nat)
  /-- `co_await` of an awaiter that initiates `op` and suspends. -/
  | leaf (op : Op)
  /-- `spawn` of a new coroutine. -/
  | spawn (body k : σ)
  /-- `co_return e`. -/
  | ret (e : E)
  /-- An exception that leaves the body. -/
  | throw

structure Program (σ E V Op G : Type) where
  act : σ → Action σ E Op G
  /-- Where a body continues once a `co_await` or a call has yielded a value. -/
  receive : σ → V → σ
  /-- The result that an operand initialises. -/
  result : E → V
  /-- What `return_value` leaves in `value_`. -/
  returnValue : E → Option V

/-- `running`, `leaving` and `nested` are the three ways of not being suspended:
executing the body, destroying the locals after `co_return`, and waiting inside
`spawn` on thread `t`. -/
inductive Status (Op τ : Type) where
  | absent
  | initial
  | running (t : τ)
  | leaving (t : τ)
  | nested (t : τ)
  | awaiting (callee : Handle)
  | leaf (op : Op)
  | final
  | destroyed
deriving DecidableEq, Repr

/-- A coroutine frame with its promise (`caller_`, `value_`), its `Task` locals, and
the frame whose body called the coroutine, if the `Task` was not spawned. -/
structure Frame (σ V Op τ : Type) where
  status : Status Op τ
  body : σ
  caller : Option Handle
  value : Option V
  tasks : List Task
  parent : Option Handle

inductive Event (V Op τ : Type) where
  /-- `resume()`, or a transfer of control, reached a frame that was in `was`. -/
  | resumed (h : Handle) (was : Status Op τ)
  /-- `f` suspended in `co_await` of the `Task` of `callee`. -/
  | suspended (f callee : Handle)
  /-- The body of `h` executed a `co_return` whose operand initialises `v`. -/
  | returned (h : Handle) (v : V)
  /-- `await_resume` in `f` yielded `v` for the `Task` of `callee`. -/
  | obtained (f callee : Handle) (v : V)
  | destroyed (h : Handle) (was : Status Op τ)
  | initiated (h : Handle) (op : Op)
  | completed (h : Handle) (op : Op) (v : V)
deriving DecidableEq, Repr

inductive Halt where
  | terminate
  | undefined
deriving DecidableEq, Repr

structure State (σ V Op G τ : Type) where
  frames : Handle → Frame σ V Op τ
  /-- Frames `0`, …, `created - 1` have been allocated. -/
  created : Nat
  stackOf : τ → List Handle
  /-- The outstanding leaf operations, each with the handle its completion resumes. -/
  pending : List (Handle × Op)
  shared : G
  log : List (Event V Op τ)
  halted : Option Halt

variable {σ E V Op G τ : Type}

def Frame.absent [Inhabited σ] : Frame σ V Op τ := ⟨.absent, default, none, none, [], none⟩

def State.empty [Inhabited σ] (g : G) : State σ V Op G τ :=
  ⟨fun _ => .absent, 0, fun _ => [], [], g, [], none⟩

namespace State

def modify (s : State σ V Op G τ) (h : Handle) (f : Frame σ V Op τ → Frame σ V Op τ) :
    State σ V Op G τ :=
  {s with frames := Function.update s.frames h (f (s.frames h))}

def emit (s : State σ V Op G τ) (e : Event V Op τ) : State σ V Op G τ :=
  {s with log := s.log ++ [e]}

def halt (s : State σ V Op G τ) (why : Halt) : State σ V Op G τ := {s with halted := some why}

end State

variable (P : Program σ E V Op G)

/-- The frame that acts, and how, if thread `t` goes on. -/
def State.acting (s : State σ V Op G τ) (t : τ) : Option (Handle × Action σ E Op G) :=
  match s.stackOf t with
  | [] => none
  | h :: _ =>
    match (s.frames h).status with
    | .running _ => some (h, P.act (s.frames h).body)
    | _ => none

variable [DecidableEq τ]

def State.setStack (s : State σ V Op G τ) (t : τ) (stack : List Handle) : State σ V Op G τ :=
  {s with stackOf := Function.update s.stackOf t stack}

/-- `handle.destroy()`. On a frame suspended inside its body it would run the
destructors of the locals as well, which is left out: only frames at their initial
or final suspend point are destroyed. -/
def destroyFrame (s : State σ V Op G τ) (h : Handle) : State σ V Op G τ :=
  let s' := s.emit (.destroyed h (s.frames h).status)
  match (s.frames h).status with
  | .initial | .final => s'.modify h fun f => {f with status := .destroyed}
  | _ => s'.halt .undefined

/-- `~Task`. -/
def destroyTask (s : State σ V Op G τ) (task : Task) : State σ V Op G τ :=
  match task.destructor with
  | some h => destroyFrame s h
  | none => s

/-- `await_resume` of the `Awaitable` of `operator co_await`, in the frame `h`:
`callee_.promise().result()`, whose `value()` throws out of a `noexcept` function
when there is no value. -/
def awaitResume (s : State σ V Op G τ) (h callee : Handle) : State σ V Op G τ :=
  match (s.frames callee).value with
  | some v => (s.emit (.obtained h callee v)).modify h fun f => {f with body := P.receive f.body v}
  | none => s.halt .terminate

/-- `handle.resume()`, or a transfer of control to the handle, on thread `t`. -/
def resumeFrame (s : State σ V Op G τ) (t : τ) (h : Handle) : State σ V Op G τ :=
  let s' := (s.emit (.resumed h (s.frames h).status)).modify h fun f => {f with status := .running t}
  match (s.frames h).status with
  | .initial => s'
  | .awaiting callee => awaitResume P s' h callee
  | _ => s'.halt .undefined

/-- A frame has suspended without a transfer: control returns to the caller of
`resume()`, which is the frame below or ordinary code of the thread. -/
def returnTo (s : State σ V Op G τ) (t : τ) (rest : List Handle) : State σ V Op G τ :=
  match rest with
  | [] => s.setStack t []
  | g :: _ => (s.setStack t rest).modify g fun f => {f with status := .running t}

/-- The final suspend point of `h`. -/
def finalSuspend (s : State σ V Op G τ) (t : τ) (h : Handle) (rest : List Handle) :
    State σ V Op G τ :=
  let s' := s.modify h fun f => {f with status := .final}
  match FinalAwaiter.awaitSuspend (s.frames h).caller with
  | .resume c => resumeFrame P (s'.setStack t (c :: rest)) t c
  | .destroySelf => returnTo (destroyFrame s' h) t rest

/-- A call of a coroutine up to its initial suspend point. -/
def call (s : State σ V Op G τ) (parent : Option Handle) (body : σ) : State σ V Op G τ × Task :=
  ({s with created := s.created + 1}.modify s.created fun _ =>
    ⟨.initial, body, none, none, [], parent⟩, .ofHandle s.created)

/-- `spawn(body())` on thread `t`. -/
def spawn (s : State σ V Op G τ) (t : τ) (body : σ) : State σ V Op G τ :=
  let (s', task) := call s none body
  match task.take with
  | some (handle, _) => resumeFrame P (s'.setStack t (handle :: s'.stackOf t)) t handle
  | none => s'.halt .terminate

/-- The running body of `h` takes its next action; `rest` is below it on the stack. -/
def perform (s : State σ V Op G τ) (t : τ) (h : Handle) (rest : List Handle) (answer : V) :
    Action σ E Op G → Option (State σ V Op G τ)
  | .compute f =>
    let (shared, k) := f s.shared
    some ({s with shared := shared}.modify h fun f => {f with body := k})
  | .ask => some (s.modify h fun f => {f with body := P.receive f.body answer})
  | .create body k =>
    let (s', task) := call s (some h) body
    some (s'.modify h fun f => {f with body := k, tasks := task :: f.tasks})
  | .move i k =>
    match (s.frames h).tasks[i]? with
    | some other =>
      let (this, other) := other.moveConstruct
      some (s.modify h fun f => {f with body := k, tasks := this :: f.tasks.set i other})
    | none => none
  | .drop i k =>
    match (s.frames h).tasks[i]? with
    | some task =>
      some (destroyTask (s.modify h fun f => {f with body := k, tasks := f.tasks.eraseIdx i}) task)
    | none => none
  | .await i =>
    match (s.frames h).tasks[i]?.bind Task.handle with
    | some callee =>
      match (s.frames callee).status with
      -- `await_ready`: `callee_.done()`
      | .final => some (awaitResume P s h callee)
      | _ =>
        let s' := (s.modify callee fun f => {f with caller := some h}).modify h fun f =>
          {f with status := .awaiting callee}
        some (resumeFrame P ((s'.emit (.suspended h callee)).setStack t (callee :: rest)) t callee)
    | none => none
  | .leaf op =>
    let s' := (s.modify h fun f => {f with status := .leaf op}).emit (.initiated h op)
    some (returnTo {s' with pending := s.pending ++ [(h, op)]} t rest)
  | .spawn body k =>
    some (spawn P (s.modify h fun f => {f with status := .nested t, body := k}) t body)
  | .ret e =>
    some ((s.emit (.returned h (P.result e))).modify h fun f =>
      {f with status := .leaving t, value := P.returnValue e})
  | .throw => some (s.halt .terminate)

/-- The completion handler of `op`, initiated by `h`: the result is stored in the
awaiter, and `handle.resume()` hands it to the body. -/
def completeLeaf (s : State σ V Op G τ) (t : τ) (h : Handle) (op : Op) (v : V) :
    State σ V Op G τ :=
  let s' := {s with pending := s.pending.eraseP (·.1 == h)}.setStack t [h]
  let s' := (s'.emit (.completed h op v)).emit (.resumed h (s.frames h).status)
  match (s.frames h).status with
  | .leaf _ => s'.modify h fun f => {f with status := .running t, body := P.receive f.body v}
  | _ => s'.halt .undefined

/-- What happens next. -/
inductive Label (σ V τ : Type) where
  /-- Ordinary code on thread `t` calls `spawn`. -/
  | start (t : τ) (body : σ)
  /-- Thread `t` goes on; `answer` is what the environment says if it is asked. -/
  | run (t : τ) (answer : V)
  /-- The operation `h` has initiated completes with `v`, and thread `t` runs its handler. -/
  | complete (t : τ) (h : Handle) (v : V)
deriving DecidableEq, Repr

def step (s : State σ V Op G τ) (l : Label σ V τ) : Option (State σ V Op G τ) :=
  match s.halted with
  | some _ => none
  | none =>
    match l with
    | .start t body =>
      match s.stackOf t with
      | [] => some (spawn P s t body)
      | _ :: _ => none
    | .run t answer =>
      match s.stackOf t with
      | [] => none
      | h :: rest =>
        match (s.frames h).status with
        | .running _ => perform P s t h rest answer (P.act (s.frames h).body)
        | .leaving _ =>
          match (s.frames h).tasks with
          | task :: tasks => some (destroyTask (s.modify h fun f => {f with tasks := tasks}) task)
          | [] => some (finalSuspend P s t h rest)
        | _ => none
    | .complete t h v =>
      match s.stackOf t with
      | [] => (s.pending.lookup h).map fun op => completeLeaf P s t h op v
      | _ :: _ => none

def machine : Machine (State σ V Op G τ) (Label σ V τ) := ⟨step P⟩

end ExploreCpp.Runtime
