import ExploreCpp.Cookbook.Books

/-! Recipes as sections of what the tests of a program do.

The checks of `StartRecipe` and `EndRecipe` pass exactly if the starts and ends are those of
sections one after the other, and then what is recorded is each section that has ended,
with what was written to `rout` in it (`sections_iff`). `EndRecipe` does not ask for a
name: without a recipe in progress it takes the empty one for it, and records what `rout`
happens to hold. -/
namespace ExploreCpp.Cookbook
open Outcome
open Flight (Status)

variable {Content : Type}

/-- Neither starts nor ends a recipe. -/
def Action.Aside : Action → Prop
  | .startRecipe _ => False
  | .endRecipe _ => False
  | _ => True

def Action.printed : Action → Text
  | .print text => text
  | _ => []

def printed (actions : List Action) : Text := actions.flatMap Action.printed

/-- Actions that are sections, from what is in `rout` on, and what they record. -/
inductive Sections : Text → List Action → List (Text × Text) → Prop where
  | nil {rout : Text} : Sections rout [] []
  | aside {rout : Text} {action : Action} {rest : List Action} {recorded : List (Text × Text)} :
    action.Aside → Sections (rout ++ action.printed) rest recorded → Sections rout (action :: rest) recorded
  | recipe {rout name : Text} {inside rest : List Action} {recorded : List (Text × Text)} :
    name ≠ [] → (∀ action ∈ inside, action.Aside) → Sections (printed inside) rest recorded →
      Sections rout (.startRecipe name :: (inside ++ .endRecipe name :: rest)) ((name, printed inside) :: recorded)
  | unfinished {rout name : Text} {inside : List Action} :
    name ≠ [] → (∀ action ∈ inside, action.Aside) → Sections rout (.startRecipe name :: inside) []
  /-- An end without a start, for which there is a name. -/
  | stray {rout : Text} {rest : List Action} {recorded : List (Text × Text)} :
    Sections rout rest recorded → Sections rout (.endRecipe [] :: rest) (([], rout) :: recorded)

/-- None of the checks on recipes has failed. -/
def State.Clean (s : State Content) : Prop := ∀ failure ∈ s.failures, failure.message = none

/-- What an action appends to the builders, row by row. -/
def State.recorded (s : State Content) : Action → List (Text × Text)
  | .endRecipe name =>
    ((endRecipe name s).testNames.drop s.testNames.length).zip
      ((endRecipe name s).testOutputs.drop s.testOutputs.length)
  | _ => []

section
variable (arrow : Arrow Content)

def State.recordings (s : State Content) : List Action → List (Text × Text)
  | [] => []
  | action :: rest => s.recorded action ++ recordings (s.next arrow action) rest

end

variable {arrow : Arrow Content} {s : State Content}

/-! ### One action -/

theorem clean_fail {failure : Failure} : (s.fail failure).Clean ↔ s.Clean ∧ failure.message = none := by
  simp only [State.Clean, State.fail, List.forall_mem_append, List.forall_mem_singleton]

theorem clean_start (name : Text) :
    (startRecipe name s).Clean ↔ s.Clean ∧ s.currentRecipe = [] ∧ name ≠ [] := by
  rw [startRecipe]
  by_cases hopen : s.currentRecipe = []
  · by_cases hname : name = []
    · rw [if_neg (not_not_intro hopen), if_pos hname, clean_fail]
      simp [Failure.message, hname]
    · rw [if_neg (not_not_intro hopen), if_neg hname]
      exact ⟨fun h => ⟨h, hopen, hname⟩, And.left⟩
  · rw [if_pos hopen, clean_fail]
    simp [Failure.message, hopen]

theorem startRecipe_eq {name : Text} (hopen : s.currentRecipe = []) (hname : name ≠ []) :
    startRecipe name s = {s with currentRecipe := name, rout := []} := by
  rw [startRecipe, if_neg (not_not_intro hopen), if_neg hname]

theorem clean_end (name : Text) : (endRecipe name s).Clean ↔ s.Clean ∧ s.currentRecipe = name := by
  rw [endRecipe]
  by_cases hname : s.currentRecipe = name
  · rw [if_neg (not_not_intro hname)]
    exact ⟨fun h => ⟨h, hname⟩, And.left⟩
  · rw [if_pos hname, clean_fail]
    simp [Failure.message, hname]

theorem endRecipe_eq {name : Text} (hname : s.currentRecipe = name) :
    (endRecipe name s).currentRecipe = [] ∧ (endRecipe name s).rout = s.rout ∧
      s.recorded (.endRecipe name) = [(name, s.rout)] := by
  rw [State.recorded, endRecipe, if_neg (not_not_intro hname)]
  simp

variable (arrow) in
/-- A dump leaves the recipe in progress as it is. -/
theorem dump_keeps (filename : Text) (conditions : Conditions) :
    (s.next arrow (.dump filename conditions)).currentRecipe = s.currentRecipe ∧
      (s.next arrow (.dump filename conditions)).rout = s.rout ∧
      ((s.next arrow (.dump filename conditions)).Clean ↔ s.Clean) := by
  simp only [State.next, dump_run]
  cases loadExistingRecipeOutputTable arrow filename conditions.opens s.files with
  | error status => exact ⟨rfl, rfl, clean_fail.trans (and_iff_left rfl)⟩
  | ok table =>
    cases conditions.output with
    | written => exact ⟨rfl, rfl, Iff.rfl⟩
    | refused | brokenOff => exact ⟨rfl, rfl, clean_fail.trans (and_iff_left rfl)⟩

variable (arrow) in
theorem next_aside {action : Action} (h : action.Aside) :
    (s.next arrow action).currentRecipe = s.currentRecipe ∧
      (s.next arrow action).rout = s.rout ++ action.printed ∧ ((s.next arrow action).Clean ↔ s.Clean) ∧
      s.recorded action = [] := by
  cases action with
  | startRecipe name => cases h
  | print text => exact ⟨rfl, rfl, Iff.rfl, rfl⟩
  | endRecipe name => cases h
  | dump filename conditions =>
    obtain ⟨hcurrent, hrout, hclean⟩ := dump_keeps arrow (s := s) filename conditions
    exact ⟨hcurrent, hrout.trans (List.append_nil _).symm, hclean, rfl⟩
  | fail => exact ⟨rfl, (List.append_nil _).symm, clean_fail.trans (and_iff_left rfl), rfl⟩

/-- What a failed check has left stays. -/
theorem clean_of_next {action : Action} (h : (s.next arrow action).Clean) : s.Clean := by
  cases action with
  | startRecipe name => exact ((clean_start name).1 h).1
  | endRecipe name => exact ((clean_end name).1 h).1
  | print text => exact h
  | dump filename conditions => exact (dump_keeps arrow filename conditions).2.2.1 h
  | fail => exact (clean_fail.1 h).1

theorem clean_of_run {actions : List Action} (h : (s.run arrow actions).Clean) : s.Clean := by
  induction actions generalizing s with
  | nil => exact h
  | cons action actions ih => exact clean_of_next (ih h)

/-! ### Sections -/

/-- Within a section: what comes before its end, and what behind it. -/
def Within (name rout : Text) (actions : List Action) (recorded : List (Text × Text)) : Prop :=
  ∃ inside, (∀ action ∈ inside, action.Aside) ∧
    ((actions = inside ∧ recorded = []) ∨
      ∃ rest more, actions = inside ++ .endRecipe name :: rest ∧ recorded = (name, rout ++ printed inside) :: more ∧
        Sections (rout ++ printed inside) rest more)

theorem Within.aside {name rout : Text} {action : Action} {rest : List Action}
    {recorded : List (Text × Text)} (h : action.Aside) (hw : Within name (rout ++ action.printed) rest recorded) :
    Within name rout (action :: rest) recorded := by
  obtain ⟨inside, hinside, hcase⟩ := hw
  refine ⟨action :: inside, List.forall_mem_cons.2 ⟨h, hinside⟩, ?_⟩
  have hprinted : rout ++ printed (action :: inside) = rout ++ action.printed ++ printed inside := by
    rw [List.append_assoc]
    rfl
  rw [hprinted]
  rcases hcase with ⟨hactions, hrecorded⟩ | ⟨behind, more, hactions, hrecorded⟩
  · exact .inl ⟨by rw [hactions], hrecorded⟩
  · exact .inr ⟨behind, more, by rw [hactions]; rfl, hrecorded⟩

/-- If no check fails, the actions are sections, or the rest of the one in progress. -/
theorem sections_of_clean {actions : List Action} (h : (s.run arrow actions).Clean) :
    (s.currentRecipe = [] → Sections s.rout actions (s.recordings arrow actions)) ∧
      (s.currentRecipe ≠ [] → Within s.currentRecipe s.rout actions (s.recordings arrow actions)) := by
  induction actions generalizing s with
  | nil => exact ⟨fun _ => .nil, fun _ => ⟨[], fun _ hm => absurd hm List.not_mem_nil, .inl ⟨rfl, rfl⟩⟩⟩
  | cons action rest ih =>
    have hclean : (s.next arrow action).Clean := clean_of_run h
    obtain ⟨houtside, hwithin⟩ := ih h
    by_cases haside : action.Aside
    · obtain ⟨hcurrent, hrout, -, hrecorded⟩ := next_aside arrow (s := s) haside
      rw [hcurrent, hrout] at houtside hwithin
      rw [State.recordings, hrecorded, List.nil_append]
      exact ⟨fun hc => .aside haside (houtside hc), fun hc => (hwithin hc).aside haside⟩
    · cases action with
      | startRecipe name =>
        obtain ⟨-, hopen, hname⟩ := (clean_start name).1 hclean
        refine ⟨fun _ => ?_, fun hc => absurd hopen hc⟩
        have hnext : s.next arrow (.startRecipe name) = {s with currentRecipe := name, rout := []} :=
          startRecipe_eq hopen hname
        rw [State.recordings, hnext]
        rw [hnext] at hwithin
        obtain ⟨inside, hinside, hcase⟩ := hwithin hname
        rcases hcase with ⟨hrest, hrecorded⟩ | ⟨behind, more, hrest, hrecorded, hmore⟩
        · rw [hrecorded, hrest]
          exact .unfinished hname hinside
        · rw [hrecorded, hrest]
          exact .recipe hname hinside hmore
      | endRecipe name =>
        have hname := ((clean_end name).1 hclean).2
        obtain ⟨hcurrent, hrout, hrecorded⟩ := endRecipe_eq hname
        have hsections := houtside hcurrent
        rw [State.recordings, hrecorded]
        have hnext : (s.next arrow (.endRecipe name)).rout = s.rout := hrout
        rw [hnext] at hsections
        subst hname
        have hempty : s.rout ++ printed ([] : List Action) = s.rout := List.append_nil _
        refine ⟨fun hc => ?_, fun _ => ⟨[], fun _ hm => absurd hm List.not_mem_nil, .inr ⟨rest, (s.next arrow (.endRecipe s.currentRecipe)).recordings arrow rest,
          rfl, ?_, ?_⟩⟩⟩
        · rw [hc]
          rw [hc] at hsections
          exact .stray hsections
        · rw [hempty]
          rfl
        · rw [hempty]
          exact hsections
      | print text => exact absurd trivial haside
      | dump filename conditions => exact absurd trivial haside
      | fail => exact absurd trivial haside

variable (arrow) in
theorem run_asides {inside : List Action} (h : ∀ action ∈ inside, action.Aside) :
    (s.run arrow inside).currentRecipe = s.currentRecipe ∧
      (s.run arrow inside).rout = s.rout ++ printed inside ∧ ((s.run arrow inside).Clean ↔ s.Clean) ∧
      s.recordings arrow inside = [] := by
  induction inside generalizing s with
  | nil => exact ⟨rfl, (List.append_nil _).symm, Iff.rfl, rfl⟩
  | cons action inside ih =>
    obtain ⟨hcurrent, hrout, hclean, hrecorded⟩ := next_aside arrow (s := s) (h action List.mem_cons_self)
    obtain ⟨hcurrent', hrout', hclean', hrecorded'⟩ := ih (s := s.next arrow action) fun other hother =>
      h other (List.mem_cons_of_mem action hother)
    refine ⟨hcurrent'.trans hcurrent, ?_, hclean'.trans hclean, ?_⟩
    · show ((s.next arrow action).run arrow inside).rout = _
      rw [hrout', hrout, List.append_assoc]
      rfl
    · rw [State.recordings, hrecorded, hrecorded']
      rfl

theorem recordings_append (a b : List Action) :
    s.recordings arrow (a ++ b) = s.recordings arrow a ++ (s.run arrow a).recordings arrow b := by
  induction a generalizing s with
  | nil => rfl
  | cons action a ih =>
    show s.recorded action ++ (s.next arrow action).recordings arrow (a ++ b) = _
    rw [ih, ← List.append_assoc]
    rfl

theorem run_append (a b : List Action) : s.run arrow (a ++ b) = (s.run arrow a).run arrow b :=
  List.foldl_append

/-- Sections pass the checks and record what they say. -/
theorem Sections.clean {rout : Text} {actions : List Action} {recorded : List (Text × Text)}
    (h : Sections rout actions recorded) (hrout : s.rout = rout) (hopen : s.currentRecipe = []) (hclean : s.Clean) :
    (s.run arrow actions).Clean ∧ s.recordings arrow actions = recorded := by
  induction h generalizing s with
  | nil => exact ⟨hclean, rfl⟩
  | @aside rout action rest recorded haside _ ih =>
    obtain ⟨hcurrent, hrout', hclean', hnone⟩ := next_aside arrow (s := s) haside
    obtain ⟨hrun, hrecorded⟩ := ih (s := s.next arrow action) (by rw [hrout', hrout]) (hcurrent.trans hopen)
      (hclean'.2 hclean)
    exact ⟨hrun, by rw [State.recordings, hnone, hrecorded]; rfl⟩
  | @recipe rout name inside rest recorded hname hinside _ ih =>
    have hstart : s.next arrow (.startRecipe name) = {s with currentRecipe := name, rout := []} :=
      startRecipe_eq hopen hname
    obtain ⟨hcurrent, hrout', hclean', hnone⟩ :=
      run_asides arrow (s := {s with currentRecipe := name, rout := []}) hinside
    obtain ⟨t, ht⟩ : ∃ t, t = ({s with currentRecipe := name, rout := []} : State Content).run arrow inside := ⟨_, rfl⟩
    rw [← ht] at hcurrent hrout' hclean'
    obtain ⟨hclosed, hkept, hrow⟩ := endRecipe_eq hcurrent
    have hend : (t.next arrow (.endRecipe name)).Clean := (clean_end name).2 ⟨hclean'.2 hclean, hcurrent⟩
    obtain ⟨hrun, hrecorded⟩ := ih (s := t.next arrow (.endRecipe name)) (hkept.trans hrout') hclosed hend
    have hrunEq : s.run arrow (.startRecipe name :: (inside ++ .endRecipe name :: rest)) =
        (t.next arrow (.endRecipe name)).run arrow rest := by
      show (s.next arrow (.startRecipe name)).run arrow (inside ++ .endRecipe name :: rest) = _
      rw [hstart, run_append, ← ht]
      rfl
    refine ⟨by rw [hrunEq]; exact hrun, ?_⟩
    show (s.next arrow (.startRecipe name)).recordings arrow (inside ++ .endRecipe name :: rest) = _
    rw [hstart, recordings_append, ← ht, hnone, State.recordings, hrow, hrecorded, hrout']
    rfl
  | @unfinished rout name inside hname hinside =>
    have hstart : s.next arrow (.startRecipe name) = {s with currentRecipe := name, rout := []} :=
      startRecipe_eq hopen hname
    obtain ⟨-, -, hclean', hnone⟩ :=
      run_asides arrow (s := {s with currentRecipe := name, rout := []}) hinside
    constructor
    · show ((s.next arrow (.startRecipe name)).run arrow inside).Clean
      rw [hstart]
      exact hclean'.2 hclean
    · show (s.next arrow (.startRecipe name)).recordings arrow inside = []
      rw [hstart, hnone]
  | @stray rout rest recorded _ ih =>
    obtain ⟨hclosed, hkept, hrow⟩ := endRecipe_eq hopen
    have hend : (s.next arrow (.endRecipe [])).Clean := (clean_end []).2 ⟨hclean, hopen⟩
    obtain ⟨hrun, hrecorded⟩ := ih (s := s.next arrow (.endRecipe [])) (hkept.trans hrout) hclosed hend
    exact ⟨hrun, by rw [State.recordings, hrow, hrecorded, hrout]; rfl⟩

/-- **The checks pass exactly for sections**: whatever the tests of a program do, no start and no
end of a recipe fails if and only if they are sections, of which the last may be open and between
which there may be ends of the empty recipe, and then what is recorded is what they say. -/
theorem sections_iff (files : Text → Option Content) (actions : List Action) :
    (((State.initial files).run arrow actions).Clean ↔ ∃ recorded, Sections [] actions recorded) ∧
      ∀ recorded, Sections [] actions recorded → (State.initial files).recordings arrow actions = recorded := by
  have hinitial : (State.initial files).Clean := fun _ hm => absurd hm List.not_mem_nil
  refine ⟨⟨fun h => ⟨_, (sections_of_clean h).1 rfl⟩, fun h => ?_⟩, fun recorded h => ?_⟩
  · obtain ⟨recorded, hsections⟩ := h
    exact (hsections.clean rfl rfl hinitial).1
  · exact (h.clean rfl rfl hinitial).2

end ExploreCpp.Cookbook
