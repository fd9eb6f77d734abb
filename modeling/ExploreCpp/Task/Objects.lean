import ExploreCpp.Machine
import ExploreCpp.Task.Class

/-! `Task` objects under their public operations.

Client code holds any number of `Task` objects, each at an address, and calls the
public operations in any order. The coroutines are the ones a client can only
drive by hand: a body suspends some number of times and then finishes, and nobody
awaits it. -/
namespace ExploreCpp.Objects

/-- A coroutine frame. `suspensions` counts the suspensions its body has still
ahead before it finishes; `destroyed` counts the calls of `destroy()` on it. -/
structure Frame where
  suspensions : Nat
  caller : Option Handle
  destroyed : Nat

structure State where
  /-- The `Task` object at each address, where one is alive. -/
  objects : Nat → Option Task
  frames : Handle → Frame
  /-- Frames `0`, …, `created - 1` have been allocated. -/
  created : Nat
  /-- The handles `take()` has handed out. -/
  taken : List Handle
  /-- Destroyed frames that were resumed or destroyed again. -/
  misused : List Handle

def State.empty : State := ⟨fun _ => none, fun _ => ⟨0, none, 0⟩, 0, [], []⟩

def State.setObject (s : State) (i : Nat) (o : Option Task) : State :=
  {s with objects := Function.update s.objects i o}

def State.setFrame (s : State) (h : Handle) (f : Frame) : State :=
  {s with frames := Function.update s.frames h f}

/-- `handle.destroy()`. -/
def destroyFrame (s : State) (h : Handle) : State :=
  let f := s.frames h
  let s' := s.setFrame h {f with destroyed := f.destroyed + 1}
  if f.destroyed = 0 then s' else {s' with misused := h :: s.misused}

/-- `handle.resume()`: the body runs to its next suspension, or to its end and the
final suspend point. -/
def resumeFrame (s : State) (h : Handle) : State :=
  let f := s.frames h
  if f.destroyed ≠ 0 then {s with misused := h :: s.misused}
  else match f.suspensions with
    | n + 1 => s.setFrame h {f with suspensions := n}
    | 0 => match FinalAwaiter.awaitSuspend f.caller with
      -- never taken here: only `co_await` writes `caller_`
      | .resume _ => s
      | .destroySelf => destroyFrame s h

/-- What client code does. -/
inductive Op where
  /-- Call a coroutine whose body suspends `n` times; the `Task` is at address `i`. -/
  | create (i n : Nat)
  /-- Construct the object at `i` from `std::move` of the one at `j`. -/
  | moveConstruct (i j : Nat)
  /-- Assign `std::move` of the object at `j` to the one at `i`. -/
  | moveAssign (i j : Nat)
  | resume (i : Nat)
  | take (i : Nat)
  /-- Resume a handle that `take()` returned. -/
  | resumeTaken (h : Handle)
  | spawn (i : Nat)
  | destruct (i : Nat)
deriving DecidableEq, Repr

/-- One operation, refused when the object it names is not there, an object is
constructed where one is alive, `resume` or `take` meets an empty `Task`, or the
coroutine to resume is not suspended or has finished. -/
def step (s : State) : Op → Option State
  | .create i n =>
    match s.objects i with
    | some _ => none
    | none =>
      let h := s.created
      some ({s with created := h + 1}.setFrame h ⟨n, none, 0⟩ |>.setObject i (some (.ofHandle h)))
  | .moveConstruct i j =>
    match s.objects i, s.objects j with
    | none, some other =>
      let (this, other) := other.moveConstruct
      some (s.setObject j (some other) |>.setObject i (some this))
    | _, _ => none
  | .moveAssign i j =>
    match s.objects i, s.objects j with
    | some this, some other =>
      let (this, other) := this.moveAssign other (i == j)
      some (s.setObject j (some other) |>.setObject i (some this))
    | _, _ => none
  | .resume i =>
    match (s.objects i).bind Task.handle with
    | some h => if (s.frames h).destroyed = 0 then some (resumeFrame s h) else none
    | none => none
  | .take i =>
    match (s.objects i).bind Task.take with
    | some (h, this) => some ({s with taken := h :: s.taken}.setObject i (some this))
    | none => none
  | .resumeTaken h =>
    if h ∈ s.taken ∧ (s.frames h).destroyed = 0 then some (resumeFrame s h) else none
  | .spawn i =>
    match (s.objects i).bind Task.take with
    | some (h, this) =>
      some (resumeFrame ({s with taken := h :: s.taken}.setObject i (some this)) h)
    | none => none
  | .destruct i =>
    match s.objects i with
    | some this =>
      let s' := match this.destructor with
        | some h => destroyFrame s h
        | none => s
      some (s'.setObject i none)
    | none => none

def machine : Machine State Op := ⟨step⟩

end ExploreCpp.Objects
