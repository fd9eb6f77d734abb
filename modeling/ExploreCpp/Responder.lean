import Mathlib.Logic.Basic

/-! Components that answer one request after the other.

What a `Responder` answers may depend on all requests before. A `Promise` says what it is to
answer in terms of a simpler state of its own; if the answers and the states agree request by
request, every history of answers is one that was promised (`answers_kept`). -/
namespace ExploreCpp

structure Responder (S Q A : Type) where
  respond : S → Q → A × S

namespace Responder
variable {S Q A : Type} (m : Responder S Q A)

def answers : S → List Q → List A
  | _, [] => []
  | s, q :: rest => (m.respond s q).1 :: answers (m.respond s q).2 rest

/-- The state a history leads to. -/
def after : S → List Q → S
  | s, [] => s
  | s, q :: rest => after (m.respond s q).2 rest

/-- What a request is to be answered with, and what it changes. -/
structure Promise (T Q A : Type) where
  next : T → Q → T
  meets : T → Q → A → Prop

/-- The answers to a history, one after the other. -/
def Promise.Kept {T : Type} (spec : Promise T Q A) : T → List Q → List A → Prop
  | _, [], answers => answers = []
  | t, q :: rest, answers => ∃ a tail, answers = a :: tail ∧ spec.meets t q a ∧ Kept spec (spec.next t q) rest tail

variable {m} {T : Type} {spec : Promise T Q A}

/-- What one request keeps, a history keeps. -/
theorem answers_kept {R : S → T → Prop} {plain : Q → Prop}
    (hstep : ∀ s t q, R s t → plain q →
      spec.meets t q (m.respond s q).1 ∧ R (m.respond s q).2 (spec.next t q))
    {s : S} {t : T} {history : List Q} (hs : R s t) (hplain : ∀ q ∈ history, plain q) :
    spec.Kept t history (m.answers s history) := by
  induction history generalizing s t with
  | nil => rfl
  | cons q rest ih =>
    obtain ⟨hmeets, hnext⟩ := hstep s t q hs (hplain q List.mem_cons_self)
    exact ⟨_, _, rfl, hmeets, ih hnext fun q' hq' => hplain q' (List.mem_cons_of_mem q hq')⟩

/-- And it keeps the states together. -/
theorem after_kept {R : S → T → Prop} {plain : Q → Prop}
    (hstep : ∀ s t q, R s t → plain q →
      spec.meets t q (m.respond s q).1 ∧ R (m.respond s q).2 (spec.next t q))
    {s : S} {t : T} {history : List Q} (hs : R s t) (hplain : ∀ q ∈ history, plain q) :
    R (m.after s history) (history.foldl spec.next t) := by
  induction history generalizing s t with
  | nil => exact hs
  | cons q rest ih =>
    have hnext := (hstep s t q hs (hplain q List.mem_cons_self)).2
    exact ih hnext fun q' hq' => hplain q' (List.mem_cons_of_mem q hq')

end Responder

end ExploreCpp
