import Mathlib.Logic.Basic

/-! The outcomes of commands that change a state and may fail.

A command of `EStateM` keeps the state it has come to when it fails. `Succeeds` and
`Fails` say how it ends and in which state, with one rule for each way of building
commands, so that the outcomes of a sequence are read off its parts. -/
namespace ExploreCpp.Outcome

variable {ε σ α β : Type}

def Succeeds (m : EStateM ε σ α) (s : σ) (a : α) (t : σ) : Prop := m.run s = .ok a t

def Fails (m : EStateM ε σ α) (s t : σ) : Prop := ∃ e, m.run s = .error e t

/-- A question to the state that may have no answer. -/
def reading (f : σ → Except ε α) : EStateM ε σ α := fun s =>
  match f s with
  | .ok a => .ok a s
  | .error e => .error e s

def writing (f : σ → σ) : EStateM ε σ Unit := fun s => .ok () (f s)

/-- The question has no answer. -/
def Raises (x : Except ε α) : Prop := ∃ e, x = .error e

variable {m : EStateM ε σ α} {k : α → EStateM ε σ β} {f : σ → Except ε α} {s t : σ} {a : α} {b : β}

theorem succeeds_reading : Succeeds (reading f) s a t ↔ f s = .ok a ∧ t = s := by
  simp only [Succeeds, reading, EStateM.run]
  cases f s <;> simp [eq_comm]

theorem fails_reading : Fails (reading f) s t ↔ Raises (f s) ∧ t = s := by
  simp only [Fails, Raises, reading, EStateM.run]
  cases f s <;> simp [eq_comm]

theorem succeeds_writing {g : σ → σ} {u : Unit} :
    Succeeds (writing g : EStateM ε σ Unit) s u t ↔ t = g s := by
  simp [Succeeds, writing, EStateM.run, eq_comm]

theorem not_fails_writing {g : σ → σ} : ¬ Fails (writing g : EStateM ε σ Unit) s t := by
  simp [Fails, writing, EStateM.run]

theorem succeeds_pure {a' : α} : Succeeds (pure a' : EStateM ε σ α) s a t ↔ a = a' ∧ t = s := by
  simp [Succeeds, pure, EStateM.pure, EStateM.run, eq_comm]

theorem not_fails_pure : ¬ Fails (pure a : EStateM ε σ α) s t := by
  simp [Fails, pure, EStateM.pure, EStateM.run]

theorem succeeds_bind : Succeeds (m >>= k) s b t ↔ ∃ a u, Succeeds m s a u ∧ Succeeds (k a) u b t := by
  simp only [Succeeds, bind, EStateM.bind, EStateM.run]
  cases m s with
  | error e u => simp
  | ok a u =>
    constructor
    · exact fun h => ⟨a, u, rfl, h⟩
    · rintro ⟨a, u, he, h⟩
      cases he
      exact h

/-- A sequence fails where its first part does, or where the rest does from there. -/
theorem fails_bind : Fails (m >>= k) s t ↔ Fails m s t ∨ ∃ a u, Succeeds m s a u ∧ Fails (k a) u t := by
  simp only [Succeeds, Fails, bind, EStateM.bind, EStateM.run]
  cases m s with
  | error e u => simp
  | ok a u =>
    constructor
    · exact fun h => .inr ⟨a, u, rfl, h⟩
    · rintro (⟨e, he⟩ | ⟨a, u, he, h⟩)
      · cases he
      · cases he
        exact h

theorem ok_bind {x : Except ε α} {g : α → Except ε β} :
    (x >>= g) = .ok b ↔ ∃ a, x = .ok a ∧ g a = .ok b := by
  cases x <;> simp [bind, Except.bind]

theorem raises_bind {x : Except ε α} {g : α → Except ε β} :
    Raises (x >>= g) ↔ Raises x ∨ ∃ a, x = .ok a ∧ Raises (g a) := by
  cases x <;> simp [Raises, bind, Except.bind]

/-- What is in the answer to a list of questions is the answer to one of them. -/
theorem ok_mapM {γ : Type} {g : γ → Except ε α} {xs : List γ} {ys : List α} (h : xs.mapM g = .ok ys) :
    ∀ y ∈ ys, ∃ x ∈ xs, g x = .ok y := by
  induction xs generalizing ys with
  | nil =>
    cases h
    exact fun _ hy => absurd hy List.not_mem_nil
  | cons x xs ih =>
    rw [List.mapM_cons] at h
    obtain ⟨z, hz, h⟩ := ok_bind.1 h
    obtain ⟨zs, hzs, h⟩ := ok_bind.1 h
    cases h
    intro y hy
    obtain rfl | hy := List.mem_cons.1 hy
    · exact ⟨x, List.mem_cons_self, hz⟩
    · obtain ⟨x', hx', hg⟩ := ih hzs y hy
      exact ⟨x', List.mem_cons_of_mem _ hx', hg⟩

/-- A question without an answer raises. -/
theorem raises_iff {x : Except ε α} : Raises x ↔ ∀ a, x ≠ .ok a := by
  cases x <;> simp [Raises]

end ExploreCpp.Outcome
