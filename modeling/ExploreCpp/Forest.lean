import Mathlib.Data.List.ReduceOption
import Mathlib.Logic.Function.Basic

/-! Ownership forests: nodes that own the nodes they have started.

Nodes are numbered in the order of their birth. A node is born fresh, held by its
owner, or active, as a root; it becomes active when its owner waits for it, is done
when it stops being active, and is dead once it is felled. `WellOwned` is what this
discipline keeps: every living node that is not a root is held exactly once, by its
owner, and an active one is what its owner waits for. -/
namespace ExploreCpp.Forest

inductive Stage where
  | unborn
  | fresh
  | active
  | done
  | dead
deriving DecidableEq, Repr

def Stage.alive : Stage → Bool
  | unborn | dead => false
  | fresh | active | done => true

structure Node where
  stage : Stage
  owner : Option Nat
  /-- The places of the node that can hold another one. -/
  held : List (Option Nat)
  waits : Option Nat

/-- `n` nodes have been born. -/
structure WellOwned (n : Nat) (F : Nat → Node) : Prop where
  born : ∀ a, n ≤ a ↔ (F a).stage = .unborn
  bare : ∀ a, (F a).stage = .unborn → (F a).owner = none
  owns : ∀ a b, some b ∈ (F a).held ↔ (F b).owner = some a ∧ (F b).stage.alive = true
  once : ∀ a, (F a).held.reduceOption.Nodup
  holder : ∀ a, (F a).held ≠ [] → (F a).stage = .active
  older : ∀ a b, (F b).owner = some a → a < b
  root : ∀ a, (F a).owner = none → (F a).stage ≠ .fresh ∧ (F a).stage ≠ .done
  waited : ∀ a b, (F b).owner = some a → (F b).stage = .active → (F a).waits = some b
  waits : ∀ a b, (F a).waits = some b →
    (F a).stage = .active ∧ (F b).owner = some a ∧ (F b).stage = .active

def empty : Nat → Node := fun _ => ⟨.unborn, none, [], none⟩

theorem wellOwned_empty : WellOwned 0 empty where
  born := fun a => ⟨fun _ => rfl, fun _ => Nat.zero_le a⟩
  bare := fun _ _ => rfl
  owns := fun a b => by simp [empty]
  once := fun _ => List.nodup_nil
  holder := fun _ h => absurd rfl h
  older := fun _ _ h => by cases h
  root := fun _ _ => ⟨nofun, nofun⟩
  waited := fun _ _ h => by cases h
  waits := fun _ _ h => by cases h

namespace WellOwned
variable {n : Nat} {F : Nat → Node}

theorem alive_of_held (w : WellOwned n F) {a b : Nat} (h : some b ∈ (F a).held) :
    (F b).owner = some a ∧ (F b).stage.alive = true := (w.owns a b).mp h

/-- Nobody knows a node that is not born. -/
theorem unowned (w : WellOwned n F) {a : Nat} (h : (F a).stage = .unborn) (b : Nat) :
    (F b).owner ≠ some a := by
  intro ho
  have hb : (F b).stage = .unborn := (w.born b).mp (Nat.le_of_lt
    (Nat.lt_of_le_of_lt ((w.born a).mpr h) (w.older a b ho)))
  rw [w.bare b hb] at ho
  cases ho

theorem unheld (w : WellOwned n F) {a : Nat} (h : (F a).stage = .unborn) (b : Nat) :
    some a ∉ (F b).held := by
  intro hm
  have halive := (w.alive_of_held hm).2
  rw [h] at halive
  cases halive

theorem unawaited (w : WellOwned n F) {a : Nat} (h : (F a).stage = .unborn) (b : Nat) :
    (F b).waits ≠ some a := by
  intro hw
  have hactive := (w.waits b a hw).2.2
  rw [h] at hactive
  cases hactive

/-- A node that is not active holds nothing and waits for nothing. -/
theorem idle (w : WellOwned n F) {a : Nat} (h : (F a).stage ≠ .active) :
    (F a).held = [] ∧ (F a).waits = none := by
  constructor
  · by_contra hne
    exact h (w.holder a hne)
  · by_contra hne
    obtain ⟨b, hb⟩ := Option.ne_none_iff_exists'.mp hne
    exact h (w.waits a b hb).1

/-- A held node is fresh or done unless its holder waits for it. -/
theorem held_stage (w : WellOwned n F) {a b : Nat} (h : some b ∈ (F a).held)
    (hw : (F a).waits ≠ some b) : (F b).stage = .fresh ∨ (F b).stage = .done := by
  obtain ⟨ho, ha⟩ := w.alive_of_held h
  cases hs : (F b).stage with
  | fresh => exact .inl rfl
  | done => exact .inr rfl
  | active => exact absurd (w.waited a b ho hs) hw
  | unborn => simp [hs, Stage.alive] at ha
  | dead => simp [hs, Stage.alive] at ha

/-- What is listed without repetition is listed at one place. -/
theorem place_unique {α : Type} {l : List (Option α)} (h : l.reduceOption.Nodup) {a : α} :
    ∀ {i j : Nat}, l[i]? = some (some a) → l[j]? = some (some a) → i = j := by
  induction l with
  | nil => simp
  | cons x l ih =>
    intro i j hi hj
    cases x with
    | none =>
      cases i with
      | zero => simp at hi
      | succ i =>
        cases j with
        | zero => simp at hj
        | succ j => exact congrArg (· + 1) (ih (by simpa using h) (by simpa using hi) (by simpa using hj))
    | some b =>
      rw [List.reduceOption_cons_of_some, List.nodup_cons] at h
      have hnot : ∀ n, l[n]? ≠ some (some b) := fun n hn =>
        h.1 (List.reduceOption_mem_iff.mpr (List.mem_of_getElem? hn))
      cases i with
      | zero =>
        obtain rfl : b = a := by simpa using hi
        cases j with
        | zero => rfl
        | succ j => exact absurd (by simpa using hj) (hnot j)
      | succ i =>
        cases j with
        | zero =>
          obtain rfl : b = a := by simpa using hj
          exact absurd (by simpa using hi) (hnot i)
        | succ j => exact congrArg (· + 1) (ih h.2 (by simpa using hi) (by simpa using hj))

/-! ### What the discipline allows -/

/-- A root is born active. -/
theorem plantRoot (w : WellOwned n F) :
    WellOwned (n + 1) (Function.update F n ⟨.active, none, [], none⟩) := by
  have hn := (w.born n).mp (Nat.le_refl n)
  have hunowned := w.unowned hn
  have hunheld := w.unheld hn
  have hunawaited := w.unawaited hn
  obtain ⟨born, bare, owns, once, holder, older, root, waited, waits⟩ := w
  refine ⟨?born, ?bare, ?owns, ?once, ?holder, ?older, ?root, ?waited, ?waits⟩ <;>
    simp only [Function.update_apply]
  case owns =>
    intro a b
    by_cases hb : b = n
    · -- The new node has no owner, and nobody has held it.
      have hnot : some n ∉ (if a = n then (⟨.active, none, [], none⟩ : Node) else F a).held := by
        split
        · exact List.not_mem_nil
        · exact hunheld a
      simpa [hb] using hnot
    · grind
  case waited =>
    intro a b ho hb
    have hne : b ≠ n := by grind
    have ha : a ≠ n := by grind
    grind
  case waits =>
    intro a b hw
    have ha : a ≠ n := by grind
    have hb : b ≠ n := by grind
    grind
  case born | bare | once | holder | older | root => grind

/-- An active node gets a fresh one, and one more place that holds it. -/
theorem plant (w : WellOwned n F) {a : Nat} (ha : (F a).stage = .active) :
    WellOwned (n + 1) (Function.update (Function.update F n ⟨.fresh, some a, [], none⟩) a
      {F a with held := some n :: (F a).held}) := by
  have hn := (w.born n).mp (Nat.le_refl n)
  have hlt : a < n := by
    by_contra hge
    rw [(w.born a).mp (Nat.le_of_not_lt hge)] at ha
    cases ha
  have hunowned := w.unowned hn
  have hunheld := w.unheld hn
  have hunawaited := w.unawaited hn
  have hnodup : (some n :: (F a).held).reduceOption.Nodup := by
    rw [List.reduceOption_cons_of_some, List.nodup_cons]
    exact ⟨fun hm => hunheld a (List.reduceOption_mem_iff.mp hm), w.once a⟩
  obtain ⟨born, bare, owns, once, holder, older, root, waited, waits⟩ := w
  refine ⟨?born, ?bare, ?owns, ?once, ?holder, ?older, ?root, ?waited, ?waits⟩ <;>
    simp only [Function.update_apply]
  case owns =>
    intro c b
    by_cases hb : b = n
    · -- The new node is alive, and nobody but `a` holds it.
      have hnot := hunheld c
      grind [Stage.alive]
    · -- The others are held where they were.
      grind
  case born | bare | once | holder | older | root | waited | waits => grind

/-- A node that is active keeps what it holds, in other places. -/
theorem rearrange (w : WellOwned n F) {a : Nat} {held : List (Option Nat)}
    (ha : (F a).stage = .active) (hp : held.reduceOption.Perm (F a).held.reduceOption) :
    WellOwned n (Function.update F a {F a with held := held}) := by
  have hmem : ∀ b, some b ∈ held ↔ some b ∈ (F a).held := fun b => by
    rw [← List.reduceOption_mem_iff, ← List.reduceOption_mem_iff, hp.mem_iff]
  have hnodup := hp.nodup_iff.mpr (w.once a)
  obtain ⟨born, bare, owns, once, holder, older, root, waited, waits⟩ := w
  refine ⟨?born, ?bare, ?owns, ?once, ?holder, ?older, ?root, ?waited, ?waits⟩ <;>
    simp only [Function.update_apply]
  case owns =>
    intro c b
    have hsame : some b ∈ (if c = a then {F a with held := held} else F c).held ↔ some b ∈ (F c).held := by
      split
      · rename_i hc
        rw [hc]
        exact hmem b
      · rfl
    rw [hsame]
    grind
  case once => grind
  case holder => grind
  -- The other fields do not look at the places.
  case born | bare | older | root | waited | waits => grind

/-- A node is felled with the place that held it, unless its owner waits for it. -/
theorem fell (w : WellOwned n F) {a b : Nat} {held : List (Option Nat)}
    (ha : (F a).stage = .active) (hw : (F a).waits ≠ some b)
    (hp : (F a).held.reduceOption.Perm (b :: held.reduceOption)) :
    WellOwned n (Function.update (Function.update F a {F a with held := held}) b
      {F b with stage := .dead}) := by
  have hheld : some b ∈ (F a).held := by
    rw [← List.reduceOption_mem_iff, hp.mem_iff]
    exact List.mem_cons_self ..
  have hnodup : b ∉ held.reduceOption ∧ held.reduceOption.Nodup :=
    List.nodup_cons.mp (hp.nodup_iff.mp (w.once a))
  have hmem : ∀ c, some c ∈ held ↔ some c ∈ (F a).held ∧ c ≠ b := fun c => by
    rw [← List.reduceOption_mem_iff, ← List.reduceOption_mem_iff, hp.mem_iff, List.mem_cons]
    constructor
    · exact fun hc => ⟨.inr hc, fun he => hnodup.1 (he ▸ hc)⟩
    · exact fun hc => hc.1.resolve_left hc.2
  have hstage := w.held_stage hheld hw
  obtain ⟨hnone, hidle⟩ := w.idle (a := b) (by rcases hstage with h | h <;> rw [h] <;> nofun)
  have hne : b ≠ a := by
    rintro rfl
    rcases hstage with h | h <;> rw [h] at ha <;> cases ha
  have howner := (w.alive_of_held hheld).1
  obtain ⟨born, bare, owns, once, holder, older, root, waited, waits⟩ := w
  refine ⟨?born, ?bare, ?owns, ?once, ?holder, ?older, ?root, ?waited, ?waits⟩ <;>
    simp only [Function.update_apply]
  case owns =>
    intro c d
    by_cases hd : d = b
    · -- It is no longer alive, and `a`, which owned it, does not hold it any more.
      grind [Stage.alive]
    · -- The others are held where they were; `b` held nothing.
      grind
  case waits =>
    intro c d hwaits
    -- Nobody waited for `b`, which was not active.
    have hd : d ≠ b := by grind
    grind
  case born | bare | once | holder | older | root | waited => grind

/-- A root that holds nothing is felled. -/
theorem fellRoot (w : WellOwned n F) {a : Nat} (ha : (F a).stage = .active)
    (ho : (F a).owner = none) (hh : (F a).held = []) (hw : (F a).waits = none) :
    WellOwned n (Function.update F a {F a with stage := .dead}) := by
  obtain ⟨born, bare, owns, once, holder, older, root, waited, waits⟩ := w
  refine ⟨?born, ?bare, ?owns, ?once, ?holder, ?older, ?root, ?waited, ?waits⟩ <;>
    simp only [Function.update_apply]
  case owns =>
    intro c b
    -- Nobody owns a root, so nobody held it.
    have hnot : some a ∉ (F c).held := by grind
    grind
  case waits =>
    intro c b hwaits
    have hb : b ≠ a := by grind
    grind
  case born | bare | once | holder | older | root | waited => grind

/-- An active node that waits for nothing starts a fresh one it holds, and waits for it. -/
theorem await (w : WellOwned n F) {a b : Nat} (ha : (F a).stage = .active)
    (hw : (F a).waits = none) (hheld : some b ∈ (F a).held) (hb : (F b).stage = .fresh) :
    WellOwned n (Function.update (Function.update F a {F a with waits := some b}) b
      {F b with stage := .active}) := by
  obtain ⟨hnone, hidle⟩ := w.idle (a := b) (by rw [hb]; nofun)
  have howner := (w.alive_of_held hheld).1
  obtain ⟨born, bare, owns, once, holder, older, root, waited, waits⟩ := w
  refine ⟨?born, ?bare, ?owns, ?once, ?holder, ?older, ?root, ?waited, ?waits⟩ <;>
    simp only [Function.update_apply]
  case waited =>
    intro c d ho hd
    by_cases hdb : d = b
    · -- The owner of `b`, which becomes active, begins to wait for it.
      grind
    · -- A node that was active before is not owned by `a`, which waited for nothing.
      have hc : c ≠ a := by grind
      grind
  case waits =>
    intro c d hwaits
    by_cases hc : c = a
    · grind
    · have hd : d ≠ b := by grind
      grind
  -- `b` was alive before.
  case owns => grind [Stage.alive]
  case born | bare | once | holder | older | root => grind

/-- An active node that holds nothing is done, and its owner waits no longer. -/
theorem finish (w : WellOwned n F) {a b : Nat} (hb : (F b).stage = .active)
    (ho : (F b).owner = some a) (hh : (F b).held = []) (hw : (F b).waits = none) :
    WellOwned n (Function.update (Function.update F b {F b with stage := .done}) a
      {F a with waits := none}) := by
  have hwait := w.waited a b ho hb
  have hactive := (w.waits a b hwait).1
  obtain ⟨born, bare, owns, once, holder, older, root, waited, waits⟩ := w
  refine ⟨?born, ?bare, ?owns, ?once, ?holder, ?older, ?root, ?waited, ?waits⟩ <;>
    simp only [Function.update_apply]
  case waited =>
    intro c d ho hd
    -- `a` waited for `b` and for nothing else, so it owns no active node any more.
    have hc : c ≠ a := by grind
    grind
  case waits =>
    intro c d hwaits
    have hd : d ≠ b := by grind
    grind
  -- What is done is still alive.
  case owns => grind [Stage.alive]
  case born | bare | once | holder | older | root => grind

/-! ### Nothing active, nothing left -/

/-- Down a chain of waiting nodes there is one that waits for nothing. -/
theorem working (w : WellOwned n F) {a : Nat} (ha : (F a).stage = .active) :
    ∃ b, (F b).stage = .active ∧ (F b).waits = none := by
  cases hw : (F a).waits with
  | none => exact ⟨a, ha, hw⟩
  | some b =>
    obtain ⟨-, ho, hb⟩ := w.waits a b hw
    have hlt := w.older a b ho
    have hborn : b < n := by
      by_contra hge
      rw [(w.born b).mp (Nat.le_of_not_lt hge)] at hb
      cases hb
    exact w.working hb
termination_by n - a

/-- When no node is active every node that was born is dead. -/
theorem all_dead (w : WellOwned n F) (h : ∀ a, (F a).stage ≠ .active) {a : Nat} (ha : a < n) :
    (F a).stage = .dead := by
  have hborn : (F a).stage ≠ .unborn := fun hu => absurd ((w.born a).mpr hu) (Nat.not_le.mpr ha)
  have hlive : (F a).stage.alive ≠ true := by
    intro hl
    cases ho : (F a).owner with
    | none =>
      have := w.root a ho
      cases hs : (F a).stage <;> simp_all [Stage.alive]
    | some b =>
      have hheld := (w.owns b a).mpr ⟨ho, hl⟩
      exact h b (w.holder b (List.ne_nil_of_mem hheld))
  cases hs : (F a).stage <;> simp_all [Stage.alive]

end WellOwned

end ExploreCpp.Forest
