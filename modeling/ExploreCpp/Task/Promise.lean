import ExploreCpp.Task.Optional

/-! The result of a coroutine, from `co_return` to `co_await`.

`return_value` assigns its operand to the slot `value_`, which is a `std::optional` of the
result type, so `operator=` decides from the type of the operand what becomes of the slot.
It is `Kept` unless it is `std::nullopt`, or an optional of its own kind with another value
(`roundTrips_iff_kept`); `std::nullopt` is lost for every optional result type (`nullopt_lost`). -/
namespace ExploreCpp.Optional

section Promise
variable {B : Type} [DecidableEq B] {El : B → Type} (C : Classes El)

structure TaskPromise (El : B → Type) (t : Ty B) where
  value : Val El (.optional t) := none

def TaskPromise.returnValue {t : Ty B} (p : TaskPromise El t) (e : Operand El) : TaskPromise El t :=
  ⟨assign C (.optional t) p.value e⟩

/-- The copy that is returned; none if the assertion fails. -/
def TaskPromise.result {t : Ty B} (p : TaskPromise El t) : Option (Val El t) :=
  p.value.map fun v => init C t ⟨t, .constLvalue, v⟩

/-- The promise when the body has finished with `co_return e`. -/
def finished (t : Ty B) (e : Operand El) : TaskPromise El t := TaskPromise.returnValue C {} e

/-- What a number of `co_await` yield, one after the other. -/
def coAwaits {t : Ty B} : Nat → TaskPromise El t → List (Option (Val El t))
  | 0, _ => []
  | n + 1, p => p.result C :: coAwaits n p

structure RoundTrips (t : Ty B) (e : Operand El) : Prop where
  asserted : (finished C t e).value.isSome = true
  awaited : ∀ n, coAwaits C n (finished C t e) = List.replicate n (some (init C t e))

/-- The operand is not `std::nullopt`, and if it reaches the slot as the `std::optional<T>` that
it is or converts itself to, that one holds the `T` initialised from it. -/
structure Kept (t : Ty B) (e : Operand El) : Prop where
  holds : e.type ≠ .nullopt
  same : takesValue C t (traits C t) e.ref = false → binding C t (traits C t) e.ref = some .copy →
    e.asOptional C t = some (init C t e)

/-! ### Copies -/

theorem init_self (t : Ty B) (category : Category) (v : Val El t) : init C t ⟨t, category, v⟩ = v := by
  cases t with
  | base b => exact C.init_copy b category v
  | nullopt => rfl
  | optional t => simp [init, constructor, Operand.ref, Traits.ofOptional, construct, Operand.asOptional]

theorem result_eq {t : Ty B} (p : TaskPromise El t) : p.result C = p.value := by
  simp [TaskPromise.result, init_self]

theorem coAwaits_eq {t : Ty B} (n : Nat) (p : TaskPromise El t) :
    coAwaits C n p = List.replicate n p.value := by
  induction n with
  | zero => rfl
  | succ n ih =>
    show p.result C :: coAwaits C n p = _
    rw [result_eq, ih]
    rfl

variable {C} {t : Ty B} {e : Operand El}

/-- The value goes round if the slot holds it. -/
theorem roundTrips_iff : RoundTrips C t e ↔ assign C (.optional t) none e = some (init C t e) := by
  constructor
  · intro h
    have hone := h.awaited 1
    rw [coAwaits_eq] at hone
    exact (List.cons.inj hone).1
  · intro h
    have hvalue : (finished C t e).value = some (init C t e) := h
    refine ⟨?_, ?_⟩
    · rw [hvalue]
      rfl
    · intro n
      rw [coAwaits_eq, hvalue]

/-! ### The slot after an assignment -/

theorem assign_reset {slot : Val El (.optional t)} (h : assignment C t e.ref = some .reset) :
    assign C (.optional t) slot e = none := by
  simp [assign, h]

theorem assign_value (h : assignment C t e.ref = some .value) :
    assign C (.optional t) none e = some (init C t e) := by
  simp [assign, h]

theorem assign_bound (h : assignment C t e.ref = some .copy ∨ assignment C t e.ref = some .move) :
    assign C (.optional t) none e = bound C t e := by
  obtain h | h := h <;> simp [assign, h, init_self]

/-! ### Which assignment -/

section Takes
variable {B : Type} {T : Traits B} {r : Ref B} {u : Ty B} {category : Category}

theorem Traits.takes_of (htype : r.type = .optional u)
    (h : T.isConstructible r = true ∨ T.isConvertible r = true) : T.takes u = true := by
  refine List.any_eq_true.2 ⟨r.category, r.category.mem_all, ?_⟩
  rw [← htype]
  exact Bool.or_eq_true_iff.2 h

/-- What `T` itself takes is not unpacked. -/
theorem Traits.optionalAssignments_of_takes (h : T.takes u = true) :
    T.optionalAssignments u category = [] := by
  simp [optionalAssignments, takesOrAssigns, h]

theorem Traits.mem_optionalAssignments {d : Candidate Assignment}
    (h : d ∈ T.optionalAssignments u category) :
    d = ⟨.copyOptional, category.toConst, true⟩ ∨
      category = .rvalue ∧ d = ⟨.moveOptional, .identity, true⟩ := by
  unfold optionalAssignments at h
  split at h
  · cases h
  · simp only [List.mem_append, List.mem_ite_nil_right, List.mem_singleton] at h
    obtain ⟨_, hcopy⟩ | ⟨⟨hrvalue, _⟩, hmove⟩ := h
    · exact .inl hcopy
    · exact .inr ⟨hrvalue, hmove⟩

end Takes

/-- The assignments for an operand that is neither `std::nullopt` nor a `std::optional<T>`. -/
def valueAssignments (takes converts : Bool) : List (Candidate Assignment) :=
  (if converts then [⟨.copy, .convertedConst, false⟩, ⟨.move, .converted, false⟩] else []) ++
    if takes then [⟨.value, .identity, true⟩] else []

section Resolution
variable {r : Ref B}

variable (C t) in
theorem assignment_nullopt (category : Category) : assignment C t ⟨.nullopt, category⟩ = some .reset := by
  show resolve _ = some (Candidate.function ⟨Assignment.reset, .identity, false⟩)
  apply resolve_eq
  · exact List.mem_append_left _ List.mem_cons_self
  · intro d hd
    simp only [assignments, List.cons_append, List.mem_cons, List.mem_append, List.mem_ite_nil_right,
      List.not_mem_nil, or_false] at hd
    obtain rfl | ⟨_, rfl | rfl⟩ | ⟨_, rfl⟩ := hd <;> decide

variable (C t) in
/-- An optional of the slot's own type is copied or moved, whatever `T` is. -/
theorem assignment_own (category : Category) :
    assignment C t ⟨.optional t, category⟩ = some .copy ∨
      assignment C t ⟨.optional t, category⟩ = some .move := by
  have htakes : takesValue C t (traits C t) ⟨.optional t, category⟩ = false := by simp [takesValue]
  by_cases hrvalue : category = .rvalue
  · right
    subst hrvalue
    show resolve _ = some (Candidate.function ⟨Assignment.move, .identity, false⟩)
    apply resolve_eq
    · simp [assignments]
    · intro d hd
      simp only [assignments, htakes, if_true, List.mem_append, List.mem_cons, List.not_mem_nil, or_false,
        Bool.false_eq_true, if_false] at hd
      obtain (rfl | rfl) | hd := hd
      · decide
      · decide
      · obtain rfl | ⟨_, rfl⟩ := Traits.mem_optionalAssignments hd <;> decide
  · left
    show resolve _ = some (Candidate.function ⟨Assignment.copy, category.toConst, false⟩)
    apply resolve_eq
    · simp [assignments]
    · intro d hd
      simp only [assignments, htakes, if_neg hrvalue, if_true, List.mem_append, List.mem_cons,
        List.not_mem_nil, or_false, Bool.false_eq_true, if_false] at hd
      obtain rfl | hd := hd
      · exact .inl rfl
      · obtain rfl | ⟨hmove, _⟩ := Traits.mem_optionalAssignments hd
        · exact .inr (by simp [Candidate.better])
        · exact absurd hmove hrvalue

theorem resolve_valueAssignments (takes converts : Bool) :
    resolve (valueAssignments takes converts) =
      if takes then some .value else if converts then some .move else none := by
  cases takes <;> cases converts <;> rfl

/-- Every other operand is taken for a `T`, or moved in as a `std::optional<T>`. -/
theorem assignment_eq (hnull : r.type ≠ .nullopt) (hown : r.type ≠ .optional t)
    (hmade : (traits C t).isConstructible r = true ∨ (traits C t).isConvertible r = true) :
    assignment C t r = if takesValue C t (traits C t) r then some .value
      else if (binding C t (traits C t) r).isSome then some .move else none := by
  have hlist : assignments C t (traits C t) r =
      valueAssignments (takesValue C t (traits C t) r) (binding C t (traits C t) r).isSome := by
    obtain ⟨type, category⟩ := r
    cases type with
    | base b => rfl
    | nullopt => exact absurd rfl hnull
    | optional u =>
      have hne : u ≠ t := fun he => hown (congrArg Ty.optional he)
      have hnone : (traits C t).optionalAssignments u category = [] :=
        Traits.optionalAssignments_of_takes (Traits.takes_of rfl hmade)
      simp only [assignments, if_neg hne, hnone, List.append_nil]
      rfl
  rw [assignment, hlist, resolve_valueAssignments]

variable (C t) in
theorem binding_own (category : Category) :
    binding C t (traits C t) ⟨.optional t, category⟩ = some .copy := by
  simp [binding, conversion, Traits.ofOptional]

/-- An operand that is not taken for a `T` comes as a `std::optional<T>`. -/
theorem assignment_bound (hbody : (assignment C t r).isSome = true) (hnull : r.type ≠ .nullopt)
    (hconvertible : (traits C t).isConvertible r = true) (hvalue : takesValue C t (traits C t) r = false) :
    (binding C t (traits C t) r).isSome = true ∧
      (assignment C t r = some .copy ∨ assignment C t r = some .move) := by
  by_cases hown : r.type = .optional t
  · obtain ⟨type, category⟩ := r
    subst hown
    exact ⟨by rw [binding_own]; rfl, assignment_own C t category⟩
  · rw [assignment_eq hnull hown (.inr hconvertible), hvalue] at hbody ⊢
    cases hbinds : (binding C t (traits C t) r).isSome with
    | true => exact ⟨rfl, .inr rfl⟩
    | false =>
      rw [hbinds] at hbody
      cases hbody

theorem assignment_taken (hnull : r.type ≠ .nullopt) (hvalue : takesValue C t (traits C t) r = true) :
    assignment C t r = some .value := by
  have hand := hvalue
  simp only [takesValue, Traits.accepts, Bool.and_eq_true, decide_eq_true_eq] at hand
  obtain ⟨⟨hown, _⟩, hconstructible, _⟩ := hand
  rw [assignment_eq hnull hown (.inl hconstructible), if_pos hvalue]

/-! ### The optional it comes as -/

theorem Traits.ofOptional_of_takes {T : Traits B} {allows : Ref B → Bool} {u : Ty B} {category : Category}
    {c : Constructor} (htakes : T.takes u = true) (h : T.ofOptional t allows u category = some c) :
    c = .copy ∨ c = .value := by
  rw [ofOptional, if_pos htakes] at h
  split at h
  · exact .inl (Option.some.inj h).symm
  · split at h
    · exact .inr (Option.some.inj h).symm
    · cases h

theorem conversion_base {b : B} (htype : r.type = .base b) {c : Constructor}
    (h : conversion C t (traits C t) r = some c) : c = .copy ∨ c = .value := by
  simp only [conversion, htype] at h
  obtain ⟨d, hd, rfl⟩ := resolve_mem h
  simp only [List.mem_append, List.mem_ite_nil_right, List.mem_singleton, List.mem_map] at hd
  obtain ⟨_, rfl⟩ | ⟨_, _, rfl⟩ := hd
  · exact .inr rfl
  · exact .inl rfl

/-- It is made of a `T`, or it is the operand. -/
theorem binding_cases {c : Constructor} (hnull : r.type ≠ .nullopt)
    (hconvertible : (traits C t).isConvertible r = true) (h : binding C t (traits C t) r = some c) :
    c = .copy ∨ c = .value := by
  obtain ⟨type, category⟩ := r
  cases type with
  | nullopt => exact absurd rfl hnull
  | optional u => exact Traits.ofOptional_of_takes (Traits.takes_of rfl (.inr hconvertible)) h
  | base b =>
    simp only [binding] at h
    split at h
    · exact .inl (Option.some.inj h).symm
    · exact conversion_base rfl h

theorem bound_of_copy (h : binding C t (traits C t) e.ref = some .copy) :
    bound C t e = e.asOptional C t := by
  rw [bound, h]
  rfl

theorem bound_of_value (h : binding C t (traits C t) e.ref = some .value) :
    bound C t e = some (init C t e) := by
  rw [bound, h]
  rfl

/-! ### Round trips -/

theorem slot_iff_kept (hconvertible : (traits C t).isConvertible e.ref = true)
    (hbody : (assignment C t e.ref).isSome = true) :
    assign C (.optional t) none e = some (init C t e) ↔ Kept C t e := by
  by_cases hnull : e.type = .nullopt
  · have hreset : assignment C t e.ref = some .reset := by
      rw [Operand.ref, hnull]
      exact assignment_nullopt C t e.category
    rw [assign_reset hreset]
    exact ⟨nofun, fun h => absurd hnull h.holds⟩
  · cases hvalue : takesValue C t (traits C t) e.ref with
    | true =>
      have hkept : Kept C t e := ⟨hnull, fun hfalse => by rw [hvalue] at hfalse; cases hfalse⟩
      exact ⟨fun _ => hkept, fun _ => assign_value (assignment_taken hnull hvalue)⟩
    | false =>
      obtain ⟨hbinds, hassign⟩ := assignment_bound hbody hnull hconvertible hvalue
      obtain ⟨c, hc⟩ := Option.isSome_iff_exists.1 hbinds
      rw [assign_bound hassign]
      obtain rfl | rfl := binding_cases hnull hconvertible hc
      · rw [bound_of_copy hc]
        exact ⟨fun h => ⟨hnull, fun _ _ => h⟩, fun h => h.same hvalue hc⟩
      · have hkept : Kept C t e := ⟨hnull, fun _ hcopy => by rw [hc] at hcopy; cases hcopy⟩
        exact ⟨fun _ => hkept, fun _ => bound_of_value hc⟩

/-- A result goes round exactly if the slot keeps the operand. -/
theorem roundTrips_iff_kept (hconvertible : (traits C t).isConvertible e.ref = true)
    (hbody : (assignment C t e.ref).isSome = true) : RoundTrips C t e ↔ Kept C t e := by
  rw [roundTrips_iff]
  exact slot_iff_kept hconvertible hbody

/-- `std::nullopt` converts to every optional result type, and none of them keeps it. -/
theorem nullopt_lost (category : Category) :
    (traits C (.optional t)).isConvertible ⟨.nullopt, category⟩ = true ∧
      (assignment C (.optional t) ⟨.nullopt, category⟩).isSome = true ∧
      ¬ RoundTrips C (.optional t) ⟨.nullopt, category, ()⟩ := by
  have hconvertible : (traits C (.optional t)).isConvertible ⟨.nullopt, category⟩ = true := rfl
  have hbody : (assignment C (.optional t) ⟨.nullopt, category⟩).isSome = true := by
    rw [assignment_nullopt]
    rfl
  refine ⟨hconvertible, hbody, ?_⟩
  rw [roundTrips_iff, slot_iff_kept (e := ⟨.nullopt, category, ()⟩) hconvertible hbody]
  exact fun h => h.holds rfl

/-- Other optionals go round whatever they hold. -/
theorem optional_kept {u : Ty B} {category : Category} {v : Val El (.optional u)} (hother : u ≠ t)
    (hconvertible : (traits C t).isConvertible ⟨.optional u, category⟩ = true)
    (hbody : (assignment C t ⟨.optional u, category⟩).isSome = true) :
    RoundTrips C t ⟨.optional u, category, v⟩ := by
  have hkept : Kept C t ⟨.optional u, category, v⟩ := by
    refine ⟨nofun, ?_⟩
    intro _ hcopy
    have hmade : (traits C t).ofOptional t (traits C t).converts u category = some .copy := hcopy
    rw [Traits.ofOptional, if_neg hother, if_pos (Traits.takes_of rfl (.inr hconvertible))] at hmade
    split at hmade <;> cases hmade
  rw [roundTrips_iff, slot_iff_kept (e := ⟨.optional u, category, v⟩) hconvertible hbody]
  exact hkept

theorem binding_isSome (hnull : r.type ≠ .nullopt) (hown : r.type ≠ .optional t)
    (hconverts : (traits C t).converts r = true) : (binding C t (traits C t) r).isSome = true := by
  obtain ⟨type, category⟩ := r
  cases type with
  | nullopt => exact absurd rfl hnull
  | optional u =>
    have hne : u ≠ t := fun he => hown (congrArg Ty.optional he)
    have hmade : (traits C t).ofOptional t (traits C t).converts u category = some .value := by
      rw [Traits.ofOptional, if_neg hne, if_pos hconverts]
    show ((traits C t).ofOptional t (traits C t).converts u category).isSome = true
    rw [hmade]
    rfl
  | base b =>
    simp only [binding, conversion]
    cases hfunction : C.toOptional b category t with
    | some how => rfl
    | none =>
      rw [hconverts]
      rfl

/-- The body may return what a `T` can be made of. -/
theorem assignment_isSome (hconverts : (traits C t).converts r = true) :
    (assignment C t r).isSome = true := by
  by_cases hnull : r.type = .nullopt
  · obtain ⟨type, category⟩ := r
    subst hnull
    rw [assignment_nullopt]
    rfl
  · by_cases hown : r.type = .optional t
    · obtain ⟨type, category⟩ := r
      subst hown
      obtain h | h := assignment_own C (t := t) category <;> rw [h] <;> rfl
    · have hmade := Bool.and_eq_true_iff.1 hconverts
      rw [assignment_eq hnull hown (.inl hmade.1), binding_isSome hnull hown hconverts]
      cases takesValue C t (traits C t) r <;> rfl

omit [DecidableEq B] in
theorem Ty.optional_ne (u : Ty B) : u ≠ .optional u := by
  intro h
  have hsize := congrArg sizeOf h
  simp at hsize

variable (C) in
/-- An operand of an optional result type itself goes round, whether it is empty or not. -/
theorem same_optional_kept (u : Ty B) (category : Category) (v : Val El (.optional u)) :
    RoundTrips C (.optional u) ⟨.optional u, category, v⟩ := by
  have hmade : constructor C u (traits C u) ⟨.optional u, category⟩ = some .copy := by
    simp [constructor, Traits.ofOptional]
  have hconversion : conversion C u (traits C u) ⟨.optional u, category⟩ = some .copy := by
    simp [conversion, Traits.ofOptional]
  have hconvertible : (traits C (.optional u)).isConvertible ⟨.optional u, category⟩ = true := by
    show (conversion C u (traits C u) _).isSome = true
    rw [hconversion]
    rfl
  have hconverts : (traits C (.optional u)).converts ⟨.optional u, category⟩ = true := by
    refine Bool.and_eq_true_iff.2 ⟨?_, hconvertible⟩
    show (constructor C u (traits C u) _).isSome = true
    rw [hmade]
    rfl
  exact optional_kept u.optional_ne hconvertible (assignment_isSome hconverts)

end Resolution

/-! ### Integers -/

/-- A program with the scalar `int`. -/
def ints : Classes fun _ : Unit => Int where
  isScalar _ := true
  decay := id
  isConstructible _ r := r.type = .base ()
  isConvertible _ r := r.type = .base ()
  isAssignable _ r := r.type = .base ()
  init
    | _, ⟨.base _, _, v⟩ => v
    | _, _ => 0
  assign
    | _, _, ⟨.base _, _, v⟩ => v
    | _, x, _ => x
  toOptional _ _ _ := none
  optionalOf _ _ _ _ := none
  init_copy _ _ _ := rfl

/-- `co_return 5` in a `Task<std::optional<int>>`. -/
theorem roundTrips_iff_kept_five :
    RoundTrips ints (.optional (.base ())) ⟨.base (), .rvalue, 5⟩ ↔
      Kept ints (.optional (.base ())) ⟨.base (), .rvalue, 5⟩ :=
  roundTrips_iff_kept (by decide) (by decide)

/-- `co_return std::nullopt` in a `Task<std::optional<int>>`. -/
theorem nullopt_optional_int :
    (traits ints (.optional (.base ()))).isConvertible ⟨.nullopt, .constLvalue⟩ = true ∧
      (assignment ints (.optional (.base ())) ⟨.nullopt, .constLvalue⟩).isSome = true ∧
      (finished ints (.optional (.base ())) ⟨.nullopt, .constLvalue, ()⟩).value = none ∧
      coAwaits ints 1 (finished ints (.optional (.base ())) ⟨.nullopt, .constLvalue, ()⟩) = [none] ∧
      init ints (.optional (.base ())) ⟨.nullopt, .constLvalue, ()⟩ = none ∧
      ¬ RoundTrips ints (.optional (.base ())) ⟨.nullopt, .constLvalue, ()⟩ := by
  refine ⟨rfl, rfl, rfl, rfl, rfl, ?_⟩
  intro h
  cases h.asserted

end Promise

end ExploreCpp.Optional
