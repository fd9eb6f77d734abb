import ExploreCpp.Task.Invariant
import Mathlib.Data.List.Basic

/-! Coroutines read as plain functions.

Without handles, frames and threads a coroutine is a function, and a `Task` a call of it
that is made when it is first awaited and remembers its result. `Evaluates` is that
reading: bodies are evaluated where they are awaited, and nothing is ever suspended. What a
body cannot decide itself is recorded in a trace: what it found shared, what it was told
when it asked, and how its operations ended. The trace determines the value
(`Evaluates.unique`).

Of the runtime, `traceOf` is what a frame and those it has called have met with. -/
namespace ExploreCpp.Runtime

/-- A `Task` local: the call it stands for, or its result, unless it has been moved from. -/
inductive Cell (σ V : Type) where
  | delayed (body : σ)
  | forced (v : V)
  | moved
deriving DecidableEq, Repr

inductive Interaction (V Op G : Type) where
  | shared (g : G)
  | answered (v : V)
  | operation (op : Op) (v : V)
deriving DecidableEq, Repr

variable {σ E V Op G τ : Type}

/-- `Evaluates P p cells trace v`: from the point `p`, with the `Task` locals `cells`, a body
leaves `v` in its promise. What it spawns is evaluated apart from it. -/
inductive Evaluates (P : Program σ E V Op G) : σ → List (Cell σ V) → List (Interaction V Op G) → V → Prop
  | compute {p cells trace v f} (g : G) (hact : P.act p = .compute f)
    (hrest : Evaluates P (f g).2 cells trace v) : Evaluates P p cells (.shared g :: trace) v
  | ask {p cells trace v} (answer : V) (hact : P.act p = .ask)
    (hrest : Evaluates P (P.receive p answer) cells trace v) :
    Evaluates P p cells (.answered answer :: trace) v
  | create {p cells trace v body k} (hact : P.act p = .create body k)
    (hrest : Evaluates P k (.delayed body :: cells) trace v) : Evaluates P p cells trace v
  | move {p cells trace v i k cell} (hact : P.act p = .move i k) (hcell : cells[i]? = some cell)
    (hrest : Evaluates P k (cell :: cells.set i .moved) trace v) : Evaluates P p cells trace v
  | drop {p cells trace v i k cell} (hact : P.act p = .drop i k) (hcell : cells[i]? = some cell)
    (hrest : Evaluates P k (cells.eraseIdx i) trace v) : Evaluates P p cells trace v
  | awaitDelayed {p cells trace trace' v w i body} (hact : P.act p = .await i)
    (hcell : cells[i]? = some (.delayed body)) (hcall : Evaluates P body [] trace w)
    (hrest : Evaluates P (P.receive p w) (cells.set i (.forced w)) trace' v) :
    Evaluates P p cells (trace ++ trace') v
  | awaitForced {p cells trace v w i} (hact : P.act p = .await i)
    (hcell : cells[i]? = some (.forced w))
    (hrest : Evaluates P (P.receive p w) cells trace v) : Evaluates P p cells trace v
  | leaf {p cells trace v op} (w : V) (hact : P.act p = .leaf op)
    (hrest : Evaluates P (P.receive p w) cells trace v) :
    Evaluates P p cells (.operation op w :: trace) v
  | spawn {p cells trace v body k} (hact : P.act p = .spawn body k)
    (hrest : Evaluates P k cells trace v) : Evaluates P p cells trace v
  | ret {p cells v e} (hact : P.act p = .ret e) (hvalue : P.returnValue e = some v) : Evaluates P p cells [] v

/-- What an evaluation comes down to, by the action at its point. -/
def Evaluates.Ways (P : Program σ E V Op G) (p : σ) (cells : List (Cell σ V)) (trace : List (Interaction V Op G))
    (v : V) : Action σ E Op G → Prop
  | .compute f => ∃ g rest, trace = .shared g :: rest ∧ Evaluates P (f g).2 cells rest v
  | .ask => ∃ answer rest, trace = .answered answer :: rest ∧
    Evaluates P (P.receive p answer) cells rest v
  | .create body k => Evaluates P k (.delayed body :: cells) trace v
  | .move i k => ∃ cell, cells[i]? = some cell ∧ Evaluates P k (cell :: cells.set i .moved) trace v
  | .drop i k => ∃ cell, cells[i]? = some cell ∧ Evaluates P k (cells.eraseIdx i) trace v
  | .await i =>
    (∃ body w first rest, cells[i]? = some (.delayed body) ∧ trace = first ++ rest ∧
      Evaluates P body [] first w ∧ Evaluates P (P.receive p w) (cells.set i (.forced w)) rest v) ∨
    ∃ w, cells[i]? = some (.forced w) ∧ Evaluates P (P.receive p w) cells trace v
  | .leaf op => ∃ w rest, trace = .operation op w :: rest ∧ Evaluates P (P.receive p w) cells rest v
  | .spawn _ k => Evaluates P k cells trace v
  | .ret e => trace = [] ∧ P.returnValue e = some v
  | .throw => False

theorem Evaluates.ways {P : Program σ E V Op G} {p : σ} {cells : List (Cell σ V)}
    {trace : List (Interaction V Op G)} {v : V} (h : Evaluates P p cells trace v) :
    Ways P p cells trace v (P.act p) := by
  cases h with
  | compute g hact hrest => rw [hact]; exact ⟨g, _, rfl, hrest⟩
  | ask answer hact hrest => rw [hact]; exact ⟨answer, _, rfl, hrest⟩
  | create hact hrest => rw [hact]; exact hrest
  | move hact hcell hrest => rw [hact]; exact ⟨_, hcell, hrest⟩
  | drop hact hcell hrest => rw [hact]; exact ⟨_, hcell, hrest⟩
  | awaitDelayed hact hcell hcall hrest => rw [hact]; exact .inl ⟨_, _, _, _, hcell, rfl, hcall, hrest⟩
  | awaitForced hact hcell hrest => rw [hact]; exact .inr ⟨_, hcell, hrest⟩
  | leaf w hact hrest => rw [hact]; exact ⟨w, _, rfl, hrest⟩
  | spawn hact hrest => rw [hact]; exact hrest
  | ret hact hvalue => rw [hact]; exact ⟨rfl, hvalue⟩

/-- An evaluation reads its trace and leaves what stands behind it. -/
theorem Evaluates.reads {P : Program σ E V Op G} {p : σ} {cells : List (Cell σ V)}
    {trace trace' rest rest' : List (Interaction V Op G)} {v v' : V} (h : Evaluates P p cells trace v)
    (h' : Evaluates P p cells trace' v') (he : trace ++ rest = trace' ++ rest') :
    v = v' ∧ rest = rest' := by
  induction h generalizing trace' rest rest' v' with
  | compute g hact _ ih =>
    have hways := h'.ways
    rw [hact] at hways
    obtain ⟨g', tail, rfl, hrest⟩ := hways
    obtain ⟨hhead, htail⟩ := List.cons.inj he
    cases hhead
    exact ih hrest htail
  | ask answer hact _ ih =>
    have hways := h'.ways
    rw [hact] at hways
    obtain ⟨answer', tail, rfl, hrest⟩ := hways
    obtain ⟨hhead, htail⟩ := List.cons.inj he
    cases hhead
    exact ih hrest htail
  | leaf w hact _ ih =>
    have hways := h'.ways
    rw [hact] at hways
    obtain ⟨w', tail, rfl, hrest⟩ := hways
    obtain ⟨hhead, htail⟩ := List.cons.inj he
    cases hhead
    exact ih hrest htail
  | create hact _ ih | spawn hact _ ih =>
    have hways := h'.ways
    rw [hact] at hways
    exact ih hways he
  | move hact hcell _ ih | drop hact hcell _ ih =>
    have hways := h'.ways
    rw [hact] at hways
    obtain ⟨cell, hcell', hrest⟩ := hways
    cases hcell.symm.trans hcell'
    exact ih hrest he
  | awaitDelayed hact hcell _ _ ihcall ihrest =>
    have hways := h'.ways
    rw [hact] at hways
    obtain ⟨body, w, first, tail, hcell', rfl, hcall, hrest⟩ | ⟨w, hcell', -⟩ := hways
    · cases hcell.symm.trans hcell'
      rw [List.append_assoc, List.append_assoc] at he
      obtain ⟨rfl, htail⟩ := ihcall hcall he
      exact ihrest hrest htail
    · cases hcell.symm.trans hcell'
  | awaitForced hact hcell _ ih =>
    have hways := h'.ways
    rw [hact] at hways
    obtain ⟨body, w, first, tail, hcell', -⟩ | ⟨w, hcell', hrest⟩ := hways
    · cases hcell.symm.trans hcell'
    · cases hcell.symm.trans hcell'
      exact ih hrest he
  | ret hact hvalue =>
    have hways := h'.ways
    rw [hact] at hways
    obtain ⟨rfl, hvalue'⟩ := hways
    exact ⟨Option.some.inj (hvalue.symm.trans hvalue'), he⟩

/-- The trace determines the value. -/
theorem Evaluates.unique {P : Program σ E V Op G} {p : σ} {cells : List (Cell σ V)}
    {trace : List (Interaction V Op G)} {v v' : V} (h : Evaluates P p cells trace v)
    (h' : Evaluates P p cells trace v') : v = v' := by
  have hsame : trace ++ [] = trace ++ [] := rfl
  exact (h.reads h' hsame).1

/-! ### What a frame has met with -/

/-- `h` called `k`, itself or through others; `fuel` bounds their number. -/
def State.calls (s : State σ V Op G τ) (h : Handle) : Nat → Handle → Bool
  | 0, k => h = k
  | fuel + 1, k => h = k || (s.frames k).parent.any (s.calls h fuel)

/-- A frame is older than those it calls. -/
def State.within (s : State σ V Op G τ) (h k : Handle) : Bool := s.calls h k k

section Trace
variable [DecidableEq τ] (P : Program σ E V Op G)

/-- What the environment has a part in, and with whom. -/
def interaction (s : State σ V Op G τ) : Label σ V τ → Option (Handle × Interaction V Op G)
  | .start .. => none
  | .run t answer =>
    match s.acting P t with
    | some (h, .compute _) => some (h, .shared s.shared)
    | some (h, .ask) => some (h, .answered answer)
    | _ => none
  | .complete _ h v => (s.pending.lookup h).map fun op => (h, .operation op v)

/-- The body of the frame a step creates. -/
def birth (s : State σ V Op G τ) : Label σ V τ → Option σ
  | .start _ body => some body
  | .run t _ =>
    match s.acting P t with
    | some (_, .create body _) | some (_, .spawn body _) => some body
    | _ => none
  | .complete .. => none

/-- What a step adds to the trace of `h`. -/
def met (h : Handle) (s : State σ V Op G τ) (l : Label σ V τ) : List (Interaction V Op G) :=
  match interaction P s l with
  | some (k, i) => if s.within h k then [i] else []
  | none => []

/-- What `h`, and the frames it has called, meet with in a run. -/
def traceOf (h : Handle) : State σ V Op G τ → List (Label σ V τ) → List (Interaction V Op G)
  | _, [] => []
  | s, l :: rest => met P h s l ++ ((step P s l).map fun s' => traceOf h s' rest).getD []

/-- The frames created in a run, each with its body. -/
def births : State σ V Op G τ → List (Label σ V τ) → List (Handle × σ)
  | _, [] => []
  | s, l :: rest => ((birth P s l).map fun body => (s.created, body)).toList ++
    ((step P s l).map fun s' => births s' rest).getD []

end Trace

end ExploreCpp.Runtime
