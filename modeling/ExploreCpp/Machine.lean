import Mathlib.Logic.Function.Basic

/-! Machines that refuse or take a label, and what holds along their runs.

A `Machine` answers a label with the next state or refuses it, so a run is a list
of labels and everything about it can be evaluated. Three kinds of statement are
made about runs: what every run preserves (`run_invariant`), what a run preserves
when each of its steps meets a condition on the state before it
(`conforming_invariant`), and that such a condition is the exact one
(`throughout_iff_conforms`). -/
namespace ExploreCpp

structure Machine (S L : Type) where
  step : S → L → Option S

namespace Machine
variable {S L : Type} (m : Machine S L)

def run : S → List L → Option S
  | s, [] => some s
  | s, l :: rest => (m.step s l).bind fun s' => run s' rest

/-- Some run leads from `s` to `t`. -/
def Reaches (s t : S) : Prop := ∃ labels, m.run s labels = some t

/-- The machine on the labels that satisfy `p` only. -/
def restrict (p : L → Bool) : Machine S L := ⟨fun s l => if p l then m.step s l else none⟩

variable {m}

theorem restrict_step {p : L → Bool} {s t : S} {l : L} :
    (m.restrict p).step s l = some t ↔ p l = true ∧ m.step s l = some t := by
  simp only [restrict, Option.ite_none_right_eq_some]

theorem run_cons {s t : S} {l : L} {rest : List L} (h : m.run s (l :: rest) = some t) :
    ∃ s', m.step s l = some s' ∧ m.run s' rest = some t := by
  simpa only [run, Option.bind_eq_some_iff] using h

theorem run_append (s : S) (a b : List L) :
    m.run s (a ++ b) = (m.run s a).bind fun t => m.run t b := by
  induction a generalizing s with
  | nil => rfl
  | cons l rest ih =>
    simp only [List.cons_append, run, Option.bind_assoc]
    congr 1
    funext s'
    exact ih s'

theorem Reaches.refl (s : S) : m.Reaches s s := ⟨[], rfl⟩

theorem Reaches.step {s t u : S} {l : L} (h : m.Reaches s t) (hs : m.step t l = some u) :
    m.Reaches s u := by
  obtain ⟨labels, hl⟩ := h
  refine ⟨labels ++ [l], ?_⟩
  rw [run_append, hl]
  simp only [Option.bind_some, run, hs]

/-- What one step preserves, a run preserves. -/
theorem run_invariant {P : S → Prop} (hstep : ∀ s l s', P s → m.step s l = some s' → P s')
    {s t : S} {labels : List L} (hs : P s) (h : m.run s labels = some t) : P t := by
  induction labels generalizing s with
  | nil =>
    cases h
    exact hs
  | cons l rest ih =>
    obtain ⟨s', hl, hrest⟩ := run_cons h
    exact ih (hstep s l s' hs hl) hrest

theorem Reaches.invariant {P : S → Prop} (hstep : ∀ s l s', P s → m.step s l = some s' → P s')
    {s t : S} (h : m.Reaches s t) (hs : P s) : P t := by
  obtain ⟨labels, hl⟩ := h
  exact run_invariant hstep hs hl

/-! ### Runs whose steps meet a condition -/

variable (m)

/-- Every label of the run meets `C` in the state it is taken in. -/
def Conforms (C : S → L → Prop) : S → List L → Prop
  | _, [] => True
  | s, l :: rest => C s l ∧ ∀ s', m.step s l = some s' → Conforms C s' rest

/-- `P` holds in the first state of the run and in every state it goes through. -/
def Throughout (P : S → Prop) : S → List L → Prop
  | s, [] => P s
  | s, l :: rest => P s ∧ ∀ s', m.step s l = some s' → Throughout P s' rest

variable {m}

theorem Throughout.first {P : S → Prop} {s : S} {labels : List L}
    (h : m.Throughout P s labels) : P s := by
  cases labels with
  | nil => exact h
  | cons l rest => exact h.1

theorem Throughout.last {P : S → Prop} {s t : S} {labels : List L} (h : m.Throughout P s labels)
    (hr : m.run s labels = some t) : P t := by
  induction labels generalizing s with
  | nil =>
    cases hr
    exact h
  | cons l rest ih =>
    obtain ⟨s', hl, hrest⟩ := run_cons hr
    exact ih (h.2 s' hl) hrest

theorem Conforms.of_labels {C : S → L → Prop} {s : S} {labels : List L}
    (h : ∀ l ∈ labels, ∀ s, C s l) : m.Conforms C s labels := by
  induction labels generalizing s with
  | nil => trivial
  | cons l rest ih =>
    refine ⟨h l List.mem_cons_self s, fun s' _ => ?_⟩
    exact ih fun l' hl' => h l' (List.mem_cons_of_mem l hl')

theorem conforming_invariant {P : S → Prop} {C : S → L → Prop}
    (hstep : ∀ s l s', P s → C s l → m.step s l = some s' → P s')
    {s : S} {labels : List L} (hs : P s) (hc : m.Conforms C s labels) :
    m.Throughout P s labels := by
  induction labels generalizing s with
  | nil => exact hs
  | cons l rest ih => exact ⟨hs, fun s' hl => ih (hstep s l s' hs hc.1 hl) (hc.2 s' hl)⟩

theorem Throughout.mono {P Q : S → Prop} (hpq : ∀ s, P s → Q s) {s : S} {labels : List L}
    (h : m.Throughout P s labels) : m.Throughout Q s labels := by
  induction labels generalizing s with
  | nil => exact hpq s h
  | cons l rest ih => exact ⟨hpq s h.1, fun s' hl => ih (h.2 s' hl)⟩

/-- `C` is the exact condition for `P`: an invariant that implies `P` survives the
steps that meet `C`, and a step that does not meet it breaks `P` at once. -/
theorem throughout_iff_conforms {Inv P : S → Prop} {C : S → L → Prop}
    (himp : ∀ s, Inv s → P s)
    (hkeep : ∀ s l s', Inv s → C s l → m.step s l = some s' → Inv s')
    (hbreak : ∀ s l s', Inv s → ¬ C s l → m.step s l = some s' → ¬ P s')
    {s t : S} {labels : List L} (hs : Inv s) (h : m.run s labels = some t) :
    m.Throughout P s labels ↔ m.Conforms C s labels := by
  constructor
  · intro hp
    induction labels generalizing s with
    | nil => trivial
    | cons l rest ih =>
      obtain ⟨s₁, hl, hrest⟩ := run_cons h
      have hc : C s l := by
        by_contra hn
        exact hbreak s l s₁ hs hn hl (hp.2 s₁ hl).first
      refine ⟨hc, fun s' hl' => ?_⟩
      obtain rfl : s₁ = s' := Option.some.inj (hl.symm.trans hl')
      exact ih (hkeep s l s₁ hs hc hl) hrest (hp.2 s₁ hl)
  · intro hc
    exact (conforming_invariant hkeep hs hc).mono himp

/-! ### Runs that come to an end -/

/-- Where the counted steps lower a measure and the others do not raise it, a run has no more
counted steps than the measure allows. -/
theorem run_counted {P : S → Prop} {measure : S → Nat} {counted : L → Bool}
    (hkeep : ∀ s l s', P s → m.step s l = some s' → P s')
    (hmeasure : ∀ s l s', P s → m.step s l = some s' →
      measure s' + (if counted l then 1 else 0) ≤ measure s)
    {s t : S} {labels : List L} (hs : P s) (h : m.run s labels = some t) :
    labels.countP counted + measure t ≤ measure s := by
  induction labels generalizing s with
  | nil =>
    cases h
    simp
  | cons l rest ih =>
    obtain ⟨s', hl, hrest⟩ := run_cons h
    have hfirst := hmeasure s l s' hs hl
    have hbehind := ih (hkeep s l s' hs hl) hrest
    rw [List.countP_cons]
    omega

end Machine

end ExploreCpp
