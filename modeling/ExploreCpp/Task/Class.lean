import Mathlib.Logic.Function.Basic

/-! The `Task` class: what each member does to the one handle it stores.

A coroutine frame is only known by its handle here; what a frame is and what
resuming or destroying one does belongs to the machines that use these
definitions (`Task/Objects.lean`, `Task/Runtime.lean`). -/
namespace ExploreCpp

/-- `std::coroutine_handle<>`: coroutine frames, numbered in the order they are
created. The null handle is `none` of `Option Handle`. -/
abbrev Handle := Nat

/-- `Task<T>` with its one member `handle_`. -/
structure Task where
  handle : Option Handle
deriving DecidableEq, Repr

namespace Task

/-- `Task(std::coroutine_handle<promise_type> handle)`, called by `get_return_object`. -/
def ofHandle (h : Handle) : Task := ⟨some h⟩

/-- `~Task`: the frame `handle_.destroy()` is called on, if any. -/
def destructor (this : Task) : Option Handle := this.handle

/-- `Task(Task &&other)`: the new object, and `other` afterwards. -/
def moveConstruct (other : Task) : Task × Task := (⟨other.handle⟩, ⟨none⟩)

/-- `operator=(Task &&other)`: `*this` and `other` afterwards. `same` is
`std::addressof(other) == this`. -/
def moveAssign (this other : Task) (same : Bool) : Task × Task :=
  if !same then (⟨other.handle⟩, ⟨none⟩) else (this, other)

/-- `take()`: the handle and the emptied object; `none` is `std::terminate()`. -/
def take (this : Task) : Option (Handle × Task) :=
  match this.handle with
  | none => none
  | some res => some (res, ⟨none⟩)

end Task

/-- Where control goes at the final suspend point of a coroutine. -/
inductive Transfer where
  | resume (caller : Handle)
  | destroySelf
deriving DecidableEq, Repr

/-- `FinalAwaiter::await_suspend`, on `callee.promise().caller_`. -/
def FinalAwaiter.awaitSuspend (caller : Option Handle) : Transfer :=
  match caller with
  | some c => .resume c
  | none => .destroySelf

end ExploreCpp
