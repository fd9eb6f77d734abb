import ExploreCpp.Task.Objects

/-! Who destroys a frame.

`Held` is the ownership law of the class: a `Task` only holds frames that are
alive and not handed out, no two hold the same one, and no frame has been
destroyed twice. Every operation keeps it except a `resume()` that runs the
coroutine to its end, where `FinalAwaiter` destroys the frame under the `Task`
that still holds it (`safe_throughout_iff`). That no frame is lost needs more:
an assignment onto a `Task` that holds one forgets it (`accounted_throughout_iff`). -/
namespace ExploreCpp.Objects

def State.Holds (s : State) (i : Nat) (h : Handle) : Prop := s.objects i = some ⟨some h⟩

structure Held (s : State) : Prop where
  alive : ∀ i h, s.Holds i h → h < s.created ∧ (s.frames h).destroyed = 0 ∧ h ∉ s.taken
  unique : ∀ i j h, s.Holds i h → s.Holds j h → i = j
  handedOut : ∀ h ∈ s.taken, h < s.created
  fresh : ∀ h, s.created ≤ h → (s.frames h).destroyed = 0
  once : ∀ h, (s.frames h).destroyed ≤ 1
  clean : s.misused = []
  unawaited : ∀ h, (s.frames h).caller = none

theorem held_empty : Held State.empty where
  alive := by intro i h hi; cases hi
  unique := by intro i j h hi; cases hi
  handedOut := by intro h hh; cases hh
  fresh := fun _ _ => rfl
  once := fun _ => Nat.zero_le _
  clean := rfl
  unawaited := fun _ => rfl

/-! ### What the parts of an operation keep -/

theorem holds_setObject (s : State) (i j : Nat) (o : Option Task) (h : Handle) :
    (s.setObject i o).Holds j h ↔ if j = i then o = some ⟨some h⟩ else s.Holds j h := by
  simp only [State.Holds, State.setObject, Function.update_apply]
  split <;> rfl

theorem setObject_self {s : State} {i : Nat} {o : Option Task} (hi : s.objects i = o) :
    s.setObject i o = s := by
  rw [State.setObject, ← hi, Function.update_eq_self]

/-- An object that holds nothing afterwards takes no part in the law. -/
theorem Held.setEmpty {s : State} (hs : Held s) (i : Nat) {o : Option Task}
    (ho : ∀ h, o ≠ some ⟨some h⟩) : Held (s.setObject i o) := by
  have hsub : ∀ j h, (s.setObject i o).Holds j h → s.Holds j h := by
    intro j h hj
    rw [holds_setObject] at hj
    split at hj
    · exact absurd hj (ho h)
    · exact hj
  exact {
    alive := fun j h hj => hs.alive j h (hsub j h hj)
    unique := fun j k h hj hk => hs.unique j k h (hsub j h hj) (hsub k h hk)
    handedOut := hs.handedOut
    fresh := hs.fresh
    once := hs.once
    clean := hs.clean
    unawaited := hs.unawaited }

/-- A frame that is alive, not handed out and held by no other object may be held. -/
theorem Held.setHandle {s : State} (hs : Held s) (i : Nat) {h : Handle} (hc : h < s.created)
    (hd : (s.frames h).destroyed = 0) (ht : h ∉ s.taken) (hu : ∀ j, s.Holds j h → j = i) :
    Held (s.setObject i (some ⟨some h⟩)) := by
  refine {
    alive := ?_
    unique := ?_
    handedOut := hs.handedOut
    fresh := hs.fresh
    once := hs.once
    clean := hs.clean
    unawaited := hs.unawaited }
  · intro j k hj
    rw [holds_setObject] at hj
    split at hj
    · cases hj
      exact ⟨hc, hd, ht⟩
    · exact hs.alive j k hj
  · intro j k l hj hk
    rw [holds_setObject] at hj hk
    split at hj <;> split at hk
    · rename_i h1 h2; rw [h1, h2]
    · rename_i h1 h2; cases hj; rw [h1, hu k hk]
    · rename_i h1 h2; cases hk; rw [h2, hu j hj]
    · exact hs.unique j k l hj hk

/-- The handle moves from the object at `j` to the one at `i`. -/
theorem Held.transfer {s : State} (hs : Held s) {i j : Nat} {other : Task}
    (hj : s.objects j = some other) :
    Held (s.setObject j (some ⟨none⟩) |>.setObject i (some ⟨other.handle⟩)) := by
  have hempty : Held (s.setObject j (some ⟨none⟩)) := hs.setEmpty j (by intro h he; cases he)
  obtain ⟨handle⟩ := other
  cases handle with
  | none => exact hempty.setEmpty i (by intro h he; cases he)
  | some h =>
    obtain ⟨hc, hd, ht⟩ := hs.alive j h hj
    refine hempty.setHandle i hc hd ht fun k hk => ?_
    rw [holds_setObject] at hk
    split at hk
    · cases hk
    · rename_i hne
      exact absurd (hs.unique k j h hk hj) hne

/-- A frame no object holds may be handed out. -/
theorem Held.hand {s : State} (hs : Held s) {h : Handle} (hc : h < s.created)
    (hu : ∀ j, ¬ s.Holds j h) : Held {s with taken := h :: s.taken} where
  alive := by
    intro j k hj
    obtain ⟨h1, h2, h3⟩ := hs.alive j k hj
    refine ⟨h1, h2, ?_⟩
    intro hk
    rcases List.mem_cons.mp hk with rfl | hk
    · exact hu j hj
    · exact h3 hk
  unique := hs.unique
  handedOut := by
    intro k hk
    rcases List.mem_cons.mp hk with rfl | hk
    · exact hc
    · exact hs.handedOut k hk
  fresh := hs.fresh
  once := hs.once
  clean := hs.clean
  unawaited := hs.unawaited

/-- The first `destroy()` of a frame no object holds. -/
theorem Held.destroy {s : State} (hs : Held s) {h : Handle} (hc : h < s.created)
    (hd : (s.frames h).destroyed = 0) (hu : ∀ j, ¬ s.Holds j h) : Held (destroyFrame s h) := by
  unfold destroyFrame
  rw [if_pos hd]
  refine {
    alive := ?_
    unique := hs.unique
    handedOut := hs.handedOut
    fresh := ?_
    once := ?_
    clean := hs.clean
    unawaited := ?_ }
  · intro j k hj
    have hne : k ≠ h := by
      rintro rfl
      exact hu j hj
    simpa only [State.setFrame, Function.update_of_ne hne] using hs.alive j k hj
  · intro k hk
    have hne : k ≠ h := by
      rintro rfl
      exact absurd hc (Nat.not_lt.mpr hk)
    simpa only [State.setFrame, Function.update_of_ne hne] using hs.fresh k hk
  · intro k
    by_cases he : k = h
    · subst he
      simp only [State.setFrame, Function.update_self, hd, Nat.zero_add, Nat.le_refl]
    · simpa only [State.setFrame, Function.update_of_ne he] using hs.once k
  · intro k
    by_cases he : k = h
    · subst he
      simpa only [State.setFrame, Function.update_self] using hs.unawaited k
    · simpa only [State.setFrame, Function.update_of_ne he] using hs.unawaited k

/-- A resumed body that suspends again leaves everything but its own progress. -/
theorem Held.suspend {s : State} (hs : Held s) {h : Handle} (n : Nat) :
    Held (s.setFrame h {s.frames h with suspensions := n}) := by
  have hframe : ∀ k, ((s.setFrame h {s.frames h with suspensions := n}).frames k).destroyed =
      (s.frames k).destroyed ∧
      ((s.setFrame h {s.frames h with suspensions := n}).frames k).caller = (s.frames k).caller := by
    intro k
    by_cases he : k = h
    · subst he
      simp only [State.setFrame, Function.update_self, and_self]
    · simp only [State.setFrame, Function.update_of_ne he, and_self]
  exact {
    alive := fun j k hj => by rw [(hframe k).1]; exact hs.alive j k hj
    unique := hs.unique
    handedOut := hs.handedOut
    fresh := fun k hk => by rw [(hframe k).1]; exact hs.fresh k hk
    once := fun k => by rw [(hframe k).1]; exact hs.once k
    clean := hs.clean
    unawaited := fun k => by rw [(hframe k).2]; exact hs.unawaited k }

/-- Resuming a live frame is lawful if the body suspends again, or if no object
holds the frame that `FinalAwaiter` is going to destroy. -/
theorem Held.resume {s : State} (hs : Held s) {h : Handle} (hc : h < s.created)
    (hd : (s.frames h).destroyed = 0)
    (hu : (s.frames h).suspensions ≠ 0 ∨ ∀ j, ¬ s.Holds j h) : Held (resumeFrame s h) := by
  unfold resumeFrame
  rw [if_neg (by simp [hd])]
  cases hn : (s.frames h).suspensions with
  | succ n => exact hs.suspend n
  | zero =>
    rw [hs.unawaited h]
    exact hs.destroy hc hd (hu.resolve_left (by simp [hn]))

/-! ### One operation -/

/-- A `resume()` of a `Task` that is not the one that runs its coroutine to the end. -/
def SuspendsAgain (s : State) : Op → Prop
  | .resume i => ∀ h, s.Holds i h → (s.frames h).suspensions ≠ 0
  | _ => True

theorem bind_handle {o : Option Task} {h : Handle} :
    o.bind Task.handle = some h ↔ o = some ⟨some h⟩ := by
  cases o with
  | none => simp
  | some t =>
    obtain ⟨handle⟩ := t
    simp

theorem bind_take {o : Option Task} {h : Handle} {this : Task} :
    o.bind Task.take = some (h, this) ↔ o = some ⟨some h⟩ ∧ this = ⟨none⟩ := by
  cases o with
  | none => simp
  | some t =>
    obtain ⟨handle⟩ := t
    cases handle with
    | none => simp [Task.take]
    | some k => simp [Task.take, eq_comm]

/-- What each operation does, and on what. -/
inductive Steps (s : State) : Op → State → Prop
  | create {i n} (hi : s.objects i = none) :
    Steps s (.create i n) ({s with created := s.created + 1}.setFrame s.created ⟨n, none, 0⟩
      |>.setObject i (some ⟨some s.created⟩))
  | moveConstruct {i j other} (hi : s.objects i = none) (hj : s.objects j = some other) :
    Steps s (.moveConstruct i j)
      (s.setObject j (some ⟨none⟩) |>.setObject i (some ⟨other.handle⟩))
  | moveSelf {i this} (hi : s.objects i = some this) :
    Steps s (.moveAssign i i) (s.setObject i (some this) |>.setObject i (some this))
  | moveAssign {i j this other} (hne : i ≠ j) (hi : s.objects i = some this)
    (hj : s.objects j = some other) : Steps s (.moveAssign i j)
      (s.setObject j (some ⟨none⟩) |>.setObject i (some ⟨other.handle⟩))
  | resume {i h} (hi : s.Holds i h) (hd : (s.frames h).destroyed = 0) :
    Steps s (.resume i) (resumeFrame s h)
  | take {i h} (hi : s.Holds i h) :
    Steps s (.take i) ({s with taken := h :: s.taken}.setObject i (some ⟨none⟩))
  | resumeTaken {h} (ht : h ∈ s.taken) (hd : (s.frames h).destroyed = 0) :
    Steps s (.resumeTaken h) (resumeFrame s h)
  | spawn {i h} (hi : s.Holds i h) : Steps s (.spawn i)
      (resumeFrame ({s with taken := h :: s.taken}.setObject i (some ⟨none⟩)) h)
  | destructEmpty {i} (hi : s.objects i = some ⟨none⟩) :
    Steps s (.destruct i) (s.setObject i none)
  | destruct {i h} (hi : s.Holds i h) :
    Steps s (.destruct i) ((destroyFrame s h).setObject i none)

theorem step_cases {s s' : State} {op : Op} (h : step s op = some s') : Steps s op s' := by
  cases op with
  | create i n =>
    simp only [step] at h
    split at h
    · cases h
    · cases h; exact .create ‹_›
  | moveConstruct i j =>
    simp only [step] at h
    split at h
    · cases h; exact .moveConstruct ‹_› ‹_›
    · cases h
  | moveAssign i j =>
    simp only [step] at h
    split at h
    · rename_i this other hi hj
      by_cases he : i = j
      · subst he
        obtain rfl : this = other := Option.some.inj (hi.symm.trans hj)
        simp only [Task.moveAssign, BEq.rfl, Bool.not_true, Bool.false_eq_true, if_false,
          Option.some.injEq] at h
        cases h
        exact .moveSelf hi
      · have hb : (i == j) = false := beq_eq_false_iff_ne.mpr he
        simp only [Task.moveAssign, hb, Bool.not_false, if_true, Option.some.injEq] at h
        cases h
        exact .moveAssign he hi hj
    · cases h
  | resume i =>
    simp only [step] at h
    split at h
    · split at h
      · cases h; exact .resume (bind_handle.mp ‹_›) ‹_›
      · cases h
    · cases h
  | take i =>
    simp only [step] at h
    split at h
    · rename_i k this ht
      obtain ⟨hi, rfl⟩ := bind_take.mp ht
      cases h
      exact .take hi
    · cases h
  | resumeTaken k =>
    simp only [step] at h
    split at h
    · rename_i hk
      cases h
      exact .resumeTaken hk.1 hk.2
    · cases h
  | spawn i =>
    simp only [step] at h
    split at h
    · rename_i k this ht
      obtain ⟨hi, rfl⟩ := bind_take.mp ht
      cases h
      exact .spawn hi
    · cases h
  | destruct i =>
    simp only [step] at h
    split at h
    · rename_i this hi
      obtain ⟨handle⟩ := this
      cases handle with
      | none => cases h; exact .destructEmpty hi
      | some k => cases h; exact .destruct hi
    · cases h

/-- A new frame is alive and nobody's. -/
theorem Held.allocate {s : State} (hs : Held s) (n : Nat) :
    Held ({s with created := s.created + 1}.setFrame s.created ⟨n, none, 0⟩) := by
  have hframe : ∀ k, k ≠ s.created →
      ({s with created := s.created + 1}.setFrame s.created ⟨n, none, 0⟩).frames k = s.frames k :=
    fun k hk => Function.update_of_ne hk _ _
  have hnew : ({s with created := s.created + 1}.setFrame s.created ⟨n, none, 0⟩).frames s.created =
      ⟨n, none, 0⟩ := Function.update_self _ _ _
  refine {
    alive := ?_
    unique := hs.unique
    handedOut := fun k hk => Nat.lt_succ_of_lt (hs.handedOut k hk)
    fresh := ?_
    once := ?_
    clean := hs.clean
    unawaited := ?_ }
  · intro i k hi
    obtain ⟨hc, hd, ht⟩ := hs.alive i k hi
    refine ⟨Nat.lt_succ_of_lt hc, ?_, ht⟩
    rw [hframe k (Nat.ne_of_lt hc)]
    exact hd
  · intro k hk
    have hk' : s.created + 1 ≤ k := hk
    rw [hframe k (by omega)]
    exact hs.fresh k (by omega)
  · intro k
    by_cases he : k = s.created
    · rw [he, hnew]
      exact Nat.zero_le 1
    · rw [hframe k he]
      exact hs.once k
  · intro k
    by_cases he : k = s.created
    · rw [he, hnew]
    · rw [hframe k he]
      exact hs.unawaited k

/-- The object that held the frame is emptied or dies: nobody holds it. -/
theorem Held.released {s : State} (hs : Held s) {i : Nat} {h : Handle} (hi : s.Holds i h)
    {o : Option Task} (ho : ∀ k, o ≠ some ⟨some k⟩) (j : Nat) : ¬ (s.setObject i o).Holds j h := by
  rw [holds_setObject]
  split
  · exact ho h
  · rename_i hne
    exact fun hj => hne (hs.unique j i h hj hi)

theorem Held.giveAway {s : State} (hs : Held s) {i : Nat} {h : Handle} (hi : s.Holds i h) :
    Held ({s with taken := h :: s.taken}.setObject i (some ⟨none⟩)) := by
  have hempty : ∀ k : Handle, some (⟨none⟩ : Task) ≠ some ⟨some k⟩ := by intro k he; cases he
  exact (hs.setEmpty i hempty).hand (hs.alive i h hi).1 (hs.released hi hempty)

theorem destroyFrame_setObject (s : State) (h : Handle) (i : Nat) (o : Option Task) :
    (destroyFrame s h).setObject i o = destroyFrame (s.setObject i o) h := by
  by_cases hd : (s.frames h).destroyed = 0
  · have hd' : ((s.setObject i o).frames h).destroyed = 0 := hd
    simp only [destroyFrame, if_pos hd, if_pos hd']
    rfl
  · have hd' : ¬ ((s.setObject i o).frames h).destroyed = 0 := hd
    simp only [destroyFrame, if_neg hd, if_neg hd']
    rfl

/-- What the law survives: everything but a body run to its end in place. -/
theorem step_held {s s' : State} {op : Op} (hs : Held s) (hc : SuspendsAgain s op)
    (h : step s op = some s') : Held s' := by
  cases step_cases h with
  | create hi =>
    refine (hs.allocate _).setHandle _ (Nat.lt_succ_self _) ?_ ?_ ?_
    · simp only [State.setFrame, Function.update_self]
    · exact fun ht => Nat.lt_irrefl _ (hs.handedOut _ ht)
    · exact fun j hj => absurd (hs.alive j _ hj).1 (Nat.lt_irrefl _)
  | moveConstruct hi hj => exact hs.transfer hj
  | moveSelf hi =>
    rw [setObject_self hi, setObject_self hi]
    exact hs
  | moveAssign hne hi hj => exact hs.transfer hj
  | resume hi hd => exact hs.resume (hs.alive _ _ hi).1 hd (.inl (hc _ hi))
  | take hi => exact hs.giveAway hi
  | resumeTaken ht hd =>
    exact hs.resume (hs.handedOut _ ht) hd (.inr fun j hj => (hs.alive j _ hj).2.2 ht)
  | spawn hi =>
    obtain ⟨hcr, hd, _⟩ := hs.alive _ _ hi
    exact (hs.giveAway hi).resume hcr hd
      (.inr fun j => hs.released hi (by intro k he; cases he) j)
  | destructEmpty hi => exact hs.setEmpty _ (by intro k he; cases he)
  | destruct hi =>
    obtain ⟨hcr, hd, _⟩ := hs.alive _ _ hi
    rw [destroyFrame_setObject]
    exact (hs.setEmpty _ (by intro k he; cases he)).destroy hcr hd
      (hs.released hi (by intro k he; cases he))

/-! ### No use after destruction -/

/-- No frame has been destroyed twice, and none resumed or destroyed after it was. -/
def Safe (s : State) : Prop := s.misused = [] ∧ ∀ h, (s.frames h).destroyed ≤ 1

/-- Safe, also if any one of the live objects went out of scope here. -/
def SafeToLeave (s : State) : Prop :=
  Safe s ∧ ∀ i s', step s (.destruct i) = some s' → Safe s'

theorem Held.safe {s : State} (hs : Held s) : Safe s := ⟨hs.clean, hs.once⟩

theorem Held.safeToLeave {s : State} (hs : Held s) : SafeToLeave s :=
  ⟨hs.safe, fun i _ h =>
    (step_held hs (show SuspendsAgain s (.destruct i) from trivial) h).safe⟩

/-- A body run to its end by the `resume()` of its `Task` leaves an object whose
destructor destroys the frame a second time. -/
theorem finished_unsafe {s s' : State} {op : Op} (hs : Held s) (hc : ¬ SuspendsAgain s op)
    (h : step s op = some s') : ¬ SafeToLeave s' := by
  cases step_cases h with
  | @resume i k hi hd =>
    have hzero : (s.frames k).suspensions = 0 := by
      by_contra hne
      apply hc
      intro k' hi'
      obtain rfl : k = k' := by
        have := hi.symm.trans hi'
        simpa using this
      exact hne
    have hres : resumeFrame s k = destroyFrame s k := by
      unfold resumeFrame
      rw [if_neg (by simp [hd]), hzero, hs.unawaited k]
      rfl
    have hdead : ((resumeFrame s k).frames k).destroyed = 1 := by
      rw [hres, destroyFrame, if_pos hd]
      exact congrArg Frame.destroyed (Function.update_self _ _ _) |>.trans (by rw [hd])
    have hobj : (resumeFrame s k).objects i = some ⟨some k⟩ := by
      rw [hres, destroyFrame, if_pos hd]
      exact hi
    intro hsafe
    have hstep : step (resumeFrame s k) (.destruct i) =
        some ((destroyFrame (resumeFrame s k) k).setObject i none) := by
      simp only [step, hobj, Task.destructor]
    have hmis := (hsafe.2 i _ hstep).1
    simp [destroyFrame, hdead, State.setObject, State.setFrame] at hmis
  | _ => exact absurd trivial hc

/-- **When no frame is used after its destruction**: in every state of a run no
destroyed frame has been resumed or destroyed again, and none would be by a `Task`
going out of scope there, exactly when no `resume()` of the run takes a coroutine
to its end while the `Task` still holds it. For `Safe` alone that is enough and not
necessary: such a `Task` may never leave its scope in the run. -/
theorem safe_throughout_iff {ops : List Op} {s : State}
    (h : machine.run State.empty ops = some s) :
    machine.Throughout SafeToLeave State.empty ops ↔
      machine.Conforms SuspendsAgain State.empty ops :=
  Machine.throughout_iff_conforms (fun _ hs => hs.safeToLeave)
    (fun _ _ _ hs hc hl => step_held hs hc hl) (fun _ _ _ hs hc hl => finished_unsafe hs hc hl)
    held_empty h

/-- A coroutine that suspends once, resumed once, taken and resumed to its end. -/
theorem safe_throughout_taken :
    machine.Throughout SafeToLeave State.empty
        [.create 0 1, .resume 0, .take 0, .resumeTaken 0, .destruct 0] ↔
      machine.Conforms SuspendsAgain State.empty
        [.create 0 1, .resume 0, .take 0, .resumeTaken 0, .destruct 0] :=
  safe_throughout_iff rfl

/-- A coroutine without a suspension, resumed through its `Task`, is destroyed by
`FinalAwaiter` and then by the `Task`. -/
theorem resume_to_end_destroys_twice : ∃ s,
    machine.run State.empty [.create 0 0, .resume 0, .destruct 0] = some s ∧
      (s.frames 0).destroyed = 2 ∧ ¬ Safe s := by
  refine ⟨_, rfl, rfl, ?_⟩
  intro hs
  exact absurd (hs.2 0) (by decide)

/-! ### No frame is orphaned -/

/-- The operations that only create, hand over and drop frames. -/
def Op.handsOver : Op → Bool
  | .create .. | .moveConstruct .. | .moveAssign .. | .take .. | .destruct .. => true
  | .resume .. | .resumeTaken .. | .spawn .. => false

/-- An assignment whose target, if it is another object, holds nothing. -/
def OntoEmpty (s : State) : Op → Prop
  | .moveAssign i j => i = j ∨ s.objects i = some ⟨none⟩
  | _ => True

/-- Every frame that was not handed out and is not destroyed has exactly one holder,
so with the last `Task` object the last of them is destroyed. -/
structure Accounted (s : State) : Prop where
  owner : ∀ h, h < s.created → (s.frames h).destroyed = 0 → h ∉ s.taken →
    ∃! i, s.Holds i h
  gone : (∀ i, s.objects i = none) → ∀ h, h < s.created → h ∉ s.taken →
    (s.frames h).destroyed = 1

/-- No frame is without a holder. -/
def Kept (s : State) : Prop :=
  ∀ h, h < s.created → (s.frames h).destroyed = 0 → h ∉ s.taken → ∃ i, s.Holds i h

theorem Held.accounted {s : State} (hs : Held s) (hk : Kept s) : Accounted s where
  owner := by
    intro h hc hd ht
    obtain ⟨i, hi⟩ := hk h hc hd ht
    exact ⟨i, hi, fun j hj => hs.unique j i h hj hi⟩
  gone := by
    intro hall h hc ht
    have hne : (s.frames h).destroyed ≠ 0 := by
      intro hd
      obtain ⟨i, hi⟩ := hk h hc hd ht
      rw [State.Holds, hall i] at hi
      cases hi
    have := hs.once h
    omega

/-- The object at `i` held nothing, and the other holders stay. -/
theorem Kept.setObject {s : State} (hk : Kept s) {i : Nat} (o : Option Task)
    (hi : ∀ h, ¬ s.Holds i h) : Kept (s.setObject i o) := by
  intro h hc hd ht
  obtain ⟨k, hkh⟩ := hk h hc hd ht
  refine ⟨k, ?_⟩
  rw [holds_setObject, if_neg]
  · exact hkh
  · rintro rfl
    exact hi h hkh

theorem Kept.transfer {s : State} (hk : Kept s) {i j : Nat} {other : Task}
    (hj : s.objects j = some other) (hne : i ≠ j) (hi : ∀ h, ¬ s.Holds i h) :
    Kept (s.setObject j (some ⟨none⟩) |>.setObject i (some ⟨other.handle⟩)) := by
  intro h hc hd ht
  obtain ⟨k, hkh⟩ := hk h hc hd ht
  by_cases he : k = j
  · refine ⟨i, ?_⟩
    rw [holds_setObject, if_pos rfl]
    subst he
    rw [State.Holds, hj] at hkh
    rw [← Option.some.inj hkh]
  · have hki : k ≠ i := by
      rintro rfl
      exact hi h hkh
    refine ⟨k, ?_⟩
    rw [holds_setObject, if_neg hki, holds_setObject, if_neg he]
    exact hkh

theorem not_holds_none {s : State} {i : Nat} (hi : s.objects i = none) (h : Handle) :
    ¬ s.Holds i h := by
  intro hh
  rw [State.Holds, hi] at hh
  cases hh

theorem not_holds_empty {s : State} {i : Nat} (hi : s.objects i = some ⟨none⟩) (h : Handle) :
    ¬ s.Holds i h := by
  intro hh
  rw [State.Holds, hi] at hh
  cases hh

/-- What handing over keeps: no frame loses its holder. -/
theorem step_kept {s s' : State} {op : Op} (hs : Held s) (hk : Kept s) (ho : op.handsOver = true)
    (hc : OntoEmpty s op) (h : step s op = some s') : Kept s' := by
  cases step_cases h with
  | @create i n hi =>
    intro k hk' hd ht
    by_cases he : k = s.created
    · refine ⟨i, ?_⟩
      rw [holds_setObject, if_pos rfl, he]
    · have hlt : k < s.created := by
        have : k < s.created + 1 := hk'
        omega
      have hd' : (s.frames k).destroyed = 0 := by
        simpa only [State.setObject, State.setFrame, Function.update_of_ne he] using hd
      exact hk.setObject (some ⟨some s.created⟩) (not_holds_none hi) k hlt hd' ht
  | moveConstruct hi hj =>
    refine hk.transfer hj ?_ (not_holds_none hi)
    rintro rfl
    rw [hi] at hj
    cases hj
  | moveSelf hi =>
    rw [setObject_self hi, setObject_self hi]
    exact hk
  | moveAssign hne hi hj =>
    exact hk.transfer hj hne (not_holds_empty (hc.resolve_left hne))
  | @take i k hi =>
    intro l hl hd ht
    obtain ⟨j, hj⟩ := hk l hl hd fun hm => ht (List.mem_cons_of_mem k hm)
    refine ⟨j, ?_⟩
    rw [holds_setObject, if_neg]
    · exact hj
    · rintro rfl
      have hkl : k = l := by simpa [State.Holds] using hi.symm.trans hj
      exact ht (hkl ▸ List.mem_cons_self ..)
  | destructEmpty hi => exact hk.setObject none (not_holds_empty hi)
  | @destruct i k hi =>
    have hdead := (hs.alive i k hi).2.1
    rw [destroyFrame, if_pos hdead]
    intro l hl hd ht
    have hlk : l ≠ k := by
      rintro rfl
      simp [State.setObject, State.setFrame] at hd
    have hd' : (s.frames l).destroyed = 0 := by
      simpa only [State.setObject, State.setFrame, Function.update_of_ne hlk] using hd
    obtain ⟨j, hj⟩ := hk l hl hd' ht
    refine ⟨j, ?_⟩
    rw [holds_setObject, if_neg]
    · exact hj
    · rintro rfl
      have hkl : k = l := by simpa [State.Holds] using hi.symm.trans hj
      exact hlk hkl.symm
  | resume _ _ => cases ho
  | resumeTaken _ _ => cases ho
  | spawn _ => cases ho

/-- `operator=` overwrites the handle its target holds: nobody holds that frame. -/
theorem overwritten_orphan {s s' : State} {op : Op} (hs : Held s) (hc : ¬ OntoEmpty s op)
    (h : step s op = some s') : ¬ Accounted s' := by
  cases step_cases h with
  | @moveAssign i j this other hne hi hj =>
    obtain ⟨handle⟩ := this
    cases handle with
    | none => exact absurd (.inr hi) hc
    | some k =>
      obtain ⟨hcr, hd, ht⟩ := hs.alive i k hi
      intro ha
      obtain ⟨l, hl, _⟩ := ha.owner k hcr hd ht
      rw [holds_setObject, holds_setObject] at hl
      split at hl
      · have hjk : s.Holds j k := by rw [State.Holds, hj, ← Option.some.inj hl]
        exact hne (hs.unique i j k hi hjk)
      · split at hl
        · cases hl
        · exact absurd (hs.unique l i k hl hi) ‹l ≠ i›
  | moveSelf hi => exact absurd (.inl rfl) hc
  | _ => exact absurd trivial hc

/-- **When no frame is orphaned**: in every state of a run of creations, moves,
`take()`s and destructions each frame that is neither destroyed nor handed out has
exactly one holder, and has been destroyed once when no object is left, exactly
when no assignment of the run meets a target that is another object and holds one. -/
theorem accounted_throughout_iff {ops : List Op} {s : State}
    (h : (machine.restrict Op.handsOver).run State.empty ops = some s) :
    (machine.restrict Op.handsOver).Throughout Accounted State.empty ops ↔
      (machine.restrict Op.handsOver).Conforms OntoEmpty State.empty ops := by
  refine Machine.throughout_iff_conforms (fun s (hs : Held s ∧ Kept s) => hs.1.accounted hs.2) ?_ ?_
    ⟨held_empty, fun h hc => absurd hc (Nat.not_lt_zero h)⟩ h
  · intro s op s' hs hc hl
    obtain ⟨ho, hstep⟩ := Machine.restrict_step.mp hl
    refine ⟨step_held hs.1 ?_ hstep, step_kept hs.1 hs.2 ho hc hstep⟩
    cases op <;> first | exact trivial | cases ho
  · intro s op s' hs hc hl
    exact overwritten_orphan hs.1 hc (Machine.restrict_step.mp hl).2

/-- Two coroutines, the second moved onto the emptied `Task` of the first. -/
theorem accounted_throughout_emptied :
    (machine.restrict Op.handsOver).Throughout Accounted State.empty
        [.create 0 0, .moveConstruct 1 0, .create 2 0, .moveAssign 0 2, .destruct 1] ↔
      (machine.restrict Op.handsOver).Conforms OntoEmpty State.empty
        [.create 0 0, .moveConstruct 1 0, .create 2 0, .moveAssign 0 2, .destruct 1] :=
  accounted_throughout_iff rfl

/-- Assigned onto, a `Task` forgets its frame: with no object left it is still alive. -/
theorem assign_orphans_frame : ∃ s,
    (machine.restrict Op.handsOver).run State.empty
        [.create 0 0, .create 1 0, .moveAssign 0 1, .destruct 0, .destruct 1] = some s ∧
      (∀ i, s.objects i = none) ∧ (s.frames 0).destroyed = 0 ∧ ¬ Accounted s := by
  refine ⟨_, rfl, ?_, rfl, ?_⟩
  · intro i
    match i with
    | 0 => rfl
    | 1 => rfl
    | _ + 2 => rfl
  · intro ha
    have hone := ha.gone (fun i => match i with | 0 => rfl | 1 => rfl | _ + 2 => rfl) 0
      (by decide) (by decide)
    cases hone

end ExploreCpp.Objects
