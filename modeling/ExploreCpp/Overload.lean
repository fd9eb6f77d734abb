import Mathlib.Data.List.Basic

/-! Overload resolution, for calls with one argument.

A viable function is as good as the conversion of the argument to its parameter; between
equally good ones, a function that is no template is better. The call is well formed if
one of them is better than all others, which is the one that is called (`resolve_eq`). -/
namespace ExploreCpp

/-- The implicit conversion of the argument, from the best to the worst. -/
inductive Conversion where
  /-- None, or to a reference that binds directly. -/
  | identity
  /-- To a reference to `const`, of an argument that is none or an rvalue. -/
  | qualified
  /-- A conversion by constructor or conversion function, to an rvalue. -/
  | converted
  /-- The same, to a reference to `const`. -/
  | convertedConst
deriving DecidableEq, Repr

def Conversion.rank : Conversion → Nat
  | identity => 0
  | qualified => 1
  | converted => 2
  | convertedConst => 3

/-- A viable function. -/
structure Candidate (φ : Type) where
  function : φ
  conversion : Conversion
  template : Bool
deriving DecidableEq, Repr

section Resolve
variable {φ : Type} [DecidableEq φ] {candidates : List (Candidate φ)} {c d : Candidate φ}

def Candidate.better (c d : Candidate φ) : Bool :=
  c.conversion.rank < d.conversion.rank ||
    (c.conversion.rank = d.conversion.rank && !c.template && d.template)

/-- The function that is called, if the call is not ambiguous. -/
def resolve (candidates : List (Candidate φ)) : Option φ :=
  (candidates.find? fun c => candidates.all fun d => d = c || c.better d).map Candidate.function

omit [DecidableEq φ] in
theorem Candidate.better_asymm (h : c.better d = true) : d.better c = false := by
  simp only [better, Bool.or_eq_true, Bool.and_eq_true, decide_eq_true_eq, Bool.not_eq_true',
    Bool.or_eq_false_iff, Bool.and_eq_false_iff, decide_eq_false_iff_not, Bool.not_eq_false'] at h ⊢
  rcases h with hlt | ⟨⟨heq, hc⟩, hd⟩
  · exact ⟨by omega, .inl (.inl (by omega))⟩
  · exact ⟨by omega, .inr hc⟩

theorem resolve_mem {f : φ} (h : resolve candidates = some f) : ∃ c ∈ candidates, c.function = f := by
  obtain ⟨c, hfound, rfl⟩ := Option.map_eq_some_iff.1 h
  exact ⟨c, List.mem_of_find?_eq_some hfound, rfl⟩

/-- The function that is better than all others is the one that is called. -/
theorem resolve_eq (hc : c ∈ candidates) (hbest : ∀ d ∈ candidates, d = c ∨ c.better d = true) :
    resolve candidates = some c.function := by
  have hpass : (candidates.all fun d => d = c || c.better d) = true := by
    simpa [List.all_eq_true] using hbest
  have hsome : (candidates.find? fun c => candidates.all fun d => d = c || c.better d).isSome = true :=
    List.find?_isSome.2 ⟨c, hc, hpass⟩
  obtain ⟨b, hb⟩ := Option.isSome_iff_exists.1 hsome
  have hbpass : ∀ d ∈ candidates, d = b ∨ b.better d = true := by
    simpa [List.all_eq_true] using List.find?_some hb
  have hsame : b = c := by
    obtain heq | hbetter := hbest b (List.mem_of_find?_eq_some hb)
    · exact heq
    · obtain heq | hworse := hbpass c hc
      · exact heq.symm
      · cases (Candidate.better_asymm hbetter).symm.trans hworse
  rw [resolve, hb, hsame]
  rfl

end Resolve

end ExploreCpp
