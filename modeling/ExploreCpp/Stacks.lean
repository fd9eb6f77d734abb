import Mathlib.Logic.Function.Basic

/-! Stacks of nested activations, one for each of any number of threads.

An item is on at most one stack, at most once; the item on top is the one that
runs, and those below it wait for it. `place` says where an item is, and `WellStacked`
that this agrees with the stacks. -/
namespace ExploreCpp.Stacks

inductive Place (τ : Type) where
  | off
  | top (t : τ)
  | below (t : τ)
deriving DecidableEq, Repr

variable {τ α : Type}

structure WellStacked (stackOf : τ → List α) (place : α → Place τ) : Prop where
  mem : ∀ t a, a ∈ stackOf t ↔ place a = .top t ∨ place a = .below t
  head : ∀ t a rest, stackOf t = a :: rest → place a = .top t
  tail : ∀ t a rest, stackOf t = a :: rest → ∀ b ∈ rest, place b = .below t
  distinct : ∀ t, (stackOf t).Nodup

theorem wellStacked_empty : WellStacked (fun _ : τ => ([] : List α)) fun _ => .off where
  mem := fun t a => by simp
  head := fun _ _ _ h => by cases h
  tail := fun _ _ _ h => by cases h
  distinct := fun _ => List.nodup_nil

/-- The item on top leaves, and the one below it, if any, comes to the top. -/
def uncover [DecidableEq α] (place : α → Place τ) (t : τ) (rest : List α) : α → Place τ :=
  fun b => if rest.head? = some b then .top t else place b

namespace WellStacked
variable {stackOf : τ → List α} {place : α → Place τ}

/-- The item on top is not below itself. -/
theorem head_not_mem (w : WellStacked stackOf place) {t : τ} {a : α} {rest : List α}
    (h : stackOf t = a :: rest) : a ∉ rest := by
  have := w.distinct t
  rw [h, List.nodup_cons] at this
  exact this.1

theorem top_eq (w : WellStacked stackOf place) {t : τ} {a : α} (h : place a = .top t) :
    ∃ rest, stackOf t = a :: rest := by
  have hmem := (w.mem t a).mpr (.inl h)
  cases hs : stackOf t with
  | nil => simp [hs] at hmem
  | cons b rest =>
    rw [hs] at hmem
    rcases List.mem_cons.mp hmem with rfl | hr
    · exact ⟨rest, rfl⟩
    · rw [w.tail t b rest hs a hr] at h
      cases h

variable [DecidableEq τ] [DecidableEq α]

/-- An item comes on an idle thread. -/
theorem begin (w : WellStacked stackOf place) {t : τ} {a : α} (ht : stackOf t = [])
    (ha : place a = .off) :
    WellStacked (Function.update stackOf t [a]) (Function.update place a (.top t)) := by
  have hnot : ∀ u, a ∉ stackOf u := by
    intro u hm
    have := (w.mem u a).mp hm
    simp [ha] at this
  obtain ⟨mem, head, tail, distinct⟩ := w
  refine ⟨?mem, ?head, ?tail, ?distinct⟩ <;> simp only [Function.update_apply]
  case mem =>
    intro u b
    by_cases hu : u = t
    · -- Nothing else has its place on the idle thread.
      have hidle := mem t b
      grind
    · grind
  case tail =>
    intro u b rest hstack c hc
    -- The item is alone on `t`, and on no other stack.
    have hu : u ≠ t := by grind
    grind
  case head | distinct => grind

/-- An item comes on top of another one. -/
theorem push (w : WellStacked stackOf place) {t : τ} {a b : α} {rest : List α}
    (ht : stackOf t = b :: rest) (ha : place a = .off) :
    WellStacked (Function.update stackOf t (a :: b :: rest))
      (Function.update (Function.update place b (.below t)) a (.top t)) := by
  have hnot := w.head_not_mem ht
  obtain ⟨mem, head, tail, distinct⟩ := w
  refine ⟨?mem, ?head, ?tail, ?distinct⟩ <;> simp only [Function.update_apply]
  case mem =>
    intro u c
    by_cases hc : c = a ∨ c = b
    · -- `a` was on no stack, and `b` only on top of `t`.
      have hb := head t b rest ht
      grind
    · have hold := mem u c
      grind
  case tail =>
    intro u c rest' hstack d hd
    by_cases hu : u = t
    · -- Below `a` there is `b`, and what was below `b`.
      have hbelow := tail t b rest ht
      grind
    · grind
  case head | distinct => grind

/-- The item on top hands its place to another one. -/
theorem replace (w : WellStacked stackOf place) {t : τ} {a b : α} {rest : List α}
    (ht : stackOf t = b :: rest) (ha : place a = .off) :
    WellStacked (Function.update stackOf t (a :: rest))
      (Function.update (Function.update place b .off) a (.top t)) := by
  have hnot := w.head_not_mem ht
  have hb := w.head t b rest ht
  obtain ⟨mem, head, tail, distinct⟩ := w
  refine ⟨?mem, ?head, ?tail, ?distinct⟩ <;> simp only [Function.update_apply]
  case mem =>
    intro u c
    by_cases hc : c = a ∨ c = b
    · -- `a` was on no stack, and `b` is on none any more.
      grind
    · have hold := mem u c
      grind
  case tail =>
    intro u c rest' hstack d hd
    -- What is below another item is neither `a` nor `b`.
    have hda : d ≠ a := by grind
    have hdb : d ≠ b := by grind
    grind
  case head | distinct => grind

/-- The item on top leaves. -/
theorem pop (w : WellStacked stackOf place) {t : τ} {b : α} {rest : List α}
    (ht : stackOf t = b :: rest) :
    WellStacked (Function.update stackOf t rest)
      (uncover (Function.update place b .off) t rest) := by
  have hnot := w.head_not_mem ht
  have hb := w.head t b rest ht
  have hbelow := w.tail t b rest ht
  have hfirst : ∀ c, rest.head? = some c → place c = .below t :=
    fun c hc => hbelow c (List.mem_of_mem_head? hc)
  have hdistinct := w.distinct t
  rw [ht, List.nodup_cons] at hdistinct
  obtain ⟨mem, head, tail, distinct⟩ := w
  refine ⟨?mem, ?head, ?tail, ?distinct⟩ <;> simp only [Function.update_apply, uncover]
  case mem =>
    intro u c
    have hold := mem u c
    by_cases hc : rest.head? = some c
    · -- It was below `b` and is now on top of the same stack.
      have hplace := hfirst c hc
      grind
    · grind
  case head =>
    intro u c rest' hstack
    by_cases hu : u = t
    · grind
    · have hold := head u c rest' (by simpa [hu] using hstack)
      have hc : rest.head? ≠ some c := by grind
      grind
  case tail =>
    intro u c rest' hstack d hd
    by_cases hu : u = t
    · -- The item that comes to the top is not below itself.
      have hd' : rest.head? ≠ some d := by grind
      grind
    · have hold := tail u c rest' (by simpa [hu] using hstack) d hd
      have hd' : rest.head? ≠ some d := by grind
      grind
  case distinct => grind

end WellStacked

end ExploreCpp.Stacks
