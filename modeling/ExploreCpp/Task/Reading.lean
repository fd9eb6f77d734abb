import ExploreCpp.Task.Direct
import Mathlib.Data.List.InsertIdx

/-! Where the frames are in their evaluations.

At every moment a frame stands somewhere in the evaluation of its body (`Read`): what it has
met with so far is the beginning of a trace, and any evaluation from where it is now completes
it. A frame that awaits another one owes the rest of its trace to that one. -/
namespace ExploreCpp.Runtime

variable {σ E V Op G τ : Type} {s s' : State σ V Op G τ}

/-! ### Who has called whom -/

section Within
variable {h k c : Handle}

theorem Inv.calls_fuel (hi : Inv s) (h : Handle) : ∀ {k n : Nat}, k ≤ n → s.calls h n k = s.within h k := by
  intro k
  induction k using Nat.strongRecOn with
  | _ k ih =>
    intro n hn
    cases k with
    | zero =>
      have hparent : (s.frames 0).parent = none := by
        cases hp : (s.frames 0).parent with
        | none => rfl
        | some c => exact absurd (hi.forest.older c 0 hp) (Nat.not_lt_zero c)
      cases n with
      | zero => rfl
      | succ n => simp [State.within, State.calls, hparent]
    | succ k =>
      obtain ⟨n, rfl⟩ : ∃ m, n = m + 1 := ⟨n - 1, by omega⟩
      rw [State.within, State.calls, State.calls]
      cases hp : (s.frames (k + 1)).parent with
      | none => rfl
      | some c =>
        have hc : c ≤ k := Nat.le_of_lt_succ (hi.forest.older c (k + 1) hp)
        have hlt : c < k + 1 := Nat.lt_succ_of_le hc
        simp only [Option.any_some]
        rw [ih c hlt (Nat.le_trans hc (Nat.le_of_succ_le_succ hn)), ih c hlt hc]

theorem Inv.within_iff (hi : Inv s) :
    s.within h k = true ↔ h = k ∨ ∃ c, (s.frames k).parent = some c ∧ s.within h c = true := by
  rw [← hi.calls_fuel h (Nat.le_succ k), State.calls]
  cases hp : (s.frames k).parent with
  | none => simp
  | some c =>
    have hc : c < k := hi.forest.older c k hp
    simp [hi.calls_fuel h (Nat.le_of_lt hc)]

theorem Inv.within_root (hi : Inv s) (hp : (s.frames k).parent = none) :
    s.within h k = true ↔ h = k := by
  rw [hi.within_iff]
  simp [hp]

theorem Inv.within_self (hi : Inv s) : s.within h h = true := hi.within_iff.mpr (.inl rfl)

theorem Inv.within_parent (hi : Inv s) (hp : (s.frames k).parent = some c) :
    s.within h k = true ↔ h = k ∨ s.within h c = true := by
  rw [hi.within_iff]
  simp [hp]

/-- What is called by a frame that awaits `c`, and is active, is called by `c`. -/
theorem Inv.within_awaited (hi : Inv s) (hawait : (s.frames h).status = .awaiting c) :
    ∀ {k : Nat}, (s.frames k).status.stage = .active → h ≠ k → s.within h k = s.within c k := by
  have hparent : (s.frames c).parent = some h := (hi.forest.waits h c (Status.callee_eq.mpr hawait)).2.1
  intro k
  induction k using Nat.strongRecOn with
  | _ k ih =>
    intro hactive hne
    rw [Bool.eq_iff_iff]
    cases hp : (s.frames k).parent with
    | none =>
      have hc : c ≠ k := fun he => by rw [← he, hparent] at hp; cases hp
      rw [hi.within_root hp, hi.within_root hp]
      exact ⟨fun he => absurd he hne, fun he => absurd he hc⟩
    | some p =>
      rw [hi.within_parent hp, hi.within_parent hp]
      have hwaits := hi.owner_awaits hp hactive
      by_cases hph : p = h
      · -- `h` awaits its callee `k`, and that is `c`
        have hck : c = k := by
          rw [hph, hawait] at hwaits
          cases hwaits
          rfl
        have hself : s.within h p = true := hph ▸ hi.within_self
        simp [hck, hself]
      · have hck : c ≠ k := fun he => by
          rw [← he, hparent] at hp
          exact hph (Option.some.inj hp).symm
        have hpactive : (s.frames p).status.stage = .active := by rw [hwaits]; rfl
        have := ih p (hi.forest.older p k hp) hpactive (Ne.symm hph)
        simp [hne, hck, this]

/-- Whoever has called an active frame awaits. -/
theorem Inv.awaits_of_within (hi : Inv s) :
    ∀ {k : Nat}, (s.frames k).status.stage = .active → h ≠ k → s.within h k = true →
      ∃ c, (s.frames h).status = .awaiting c := by
  intro k
  induction k using Nat.strongRecOn with
  | _ k ih =>
    intro hactive hne hw
    obtain rfl | ⟨p, hp, hw⟩ := hi.within_iff.mp hw
    · exact absurd rfl hne
    · have hwaits := hi.owner_awaits hp hactive
      by_cases hph : h = p
      · exact ⟨k, hph ▸ hwaits⟩
      · exact ih p (hi.forest.older p k hp) (by rw [hwaits]; rfl) hph hw

end Within

/-! ### Where the frames are in their evaluations -/

def cell (F : Handle → Frame σ V Op τ) (origin : Handle → σ) (task : Task) : Cell σ V :=
  match task.handle with
  | none => .moved
  | some g => ((F g).value.map Cell.forced).getD (.delayed (origin g))

def cells (F : Handle → Frame σ V Op τ) (origin : Handle → σ) (h : Handle) : List (Cell σ V) :=
  (F h).tasks.map (cell F origin)

/-- What is evaluated from `p` completes an evaluation of `body`, behind `past`. -/
def Continues (P : Program σ E V Op G) (body : σ) (past : List (Interaction V Op G)) (p : σ)
    (cells : List (Cell σ V)) : Prop :=
  ∀ trace v, Evaluates P p cells trace v → Evaluates P body [] (past ++ trace) v

/-- In `spawn`, or executing the body. -/
def Status.works {Op τ : Type} : Status Op τ → Bool
  | running _ | nested _ => true
  | _ => false

/-- How far the frame `h` is, where `origin` says which body a frame was created with and
`past` what it has met with. -/
inductive Read (P : Program σ E V Op G) (F : Handle → Frame σ V Op τ) (origin : Handle → σ)
    (past : Handle → List (Interaction V Op G)) (h : Handle) : Prop
  | absent (hs : (F h).status = .absent) (hv : (F h).value = none) (hpast : past h = [])
  | initial (hs : (F h).status = .initial) (hv : (F h).value = none) (hpast : past h = [])
    (hbody : (F h).body = origin h)
  | working (hs : (F h).status.works = true) (hv : (F h).value = none)
    (hcont : Continues P (origin h) (past h) (F h).body (cells F origin h))
  | leaf {op} (hs : (F h).status = .leaf op) (hv : (F h).value = none)
    (hact : P.act (F h).body = .leaf op)
    (hcont : Continues P (origin h) (past h) (F h).body (cells F origin h))
  | awaiting {c i own} (hs : (F h).status = .awaiting c) (hv : (F h).value = none)
    (hact : P.act (F h).body = .await i) (htask : (F h).tasks[i]? = some ⟨some c⟩)
    (hpast : past h = own ++ past c)
    (hcont : Continues P (origin h) own (F h).body ((cells F origin h).set i (.delayed (origin c))))
  | returned (hs : (F h).status.hasReturned = true)
    (heval : ∀ v, (F h).value = some v → Evaluates P (origin h) [] (past h) v)
  | destroyed (hs : (F h).status = .destroyed)
    (heval : ∀ v, (F h).value = some v → Evaluates P (origin h) [] (past h) v)

section Read
variable {P : Program σ E V Op G} {F F' : Handle → Frame σ V Op τ} {origin origin' : Handle → σ}
  {past past' : Handle → List (Interaction V Op G)} {h k : Handle}

theorem cells_congr (htasks : (F' h).tasks = (F h).tasks)
    (hlocal : ∀ g, ⟨some g⟩ ∈ (F h).tasks → (F' g).value = (F g).value ∧ origin' g = origin g) :
    cells F' origin' h = cells F origin h := by
  rw [cells, cells, htasks]
  apply List.map_congr_left
  rintro ⟨handle⟩ hm
  cases handle with
  | none => rfl
  | some g =>
    obtain ⟨hv, ho⟩ := hlocal g hm
    simp only [cell, hv, ho]

/-- A frame that is left alone, while others act. -/
theorem Read.keep (hr : Read P F origin past h) (hframe : F' h = F h) (ho : origin' h = origin h)
    (hcells : cells F' origin' h = cells F origin h)
    (hquiet : (∀ c, (F h).status ≠ .awaiting c) → past' h = past h)
    (howed : ∀ c own, (F h).status = .awaiting c → past h = own ++ past c →
      past' h = own ++ past' c ∧ origin' c = origin c) : Read P F' origin' past' h := by
  cases hr with
  | absent hs hv hp =>
    exact .absent (hframe ▸ hs) (hframe ▸ hv) ((hquiet (by simp [hs])).trans hp)
  | initial hs hv hp hbody =>
    exact .initial (hframe ▸ hs) (hframe ▸ hv) ((hquiet (by simp [hs])).trans hp)
      (by rw [hframe, ho, hbody])
  | working hs hv hcont =>
    refine .working (hframe ▸ hs) (hframe ▸ hv) ?_
    have hsame : past' h = past h := by
      refine hquiet fun c hc => ?_
      rw [hc] at hs
      cases hs
    rw [hsame, hcells, ho, hframe]
    exact hcont
  | leaf hs hv hact hcont =>
    refine .leaf (hframe ▸ hs) (hframe ▸ hv) (hframe ▸ hact) ?_
    rw [hquiet (by simp [hs]), hcells, ho, hframe]
    exact hcont
  | awaiting hs hv hact htask hp hcont =>
    obtain ⟨hpast, horigin⟩ := howed _ _ hs hp
    refine .awaiting (hframe ▸ hs) (hframe ▸ hv) (hframe ▸ hact) (hframe ▸ htask) hpast ?_
    rw [hcells, ho, hframe, horigin]
    exact hcont
  | returned hs heval =>
    refine .returned (hframe ▸ hs) ?_
    have hsame : past' h = past h := by
      refine hquiet fun c hc => ?_
      rw [hc] at hs
      cases hs
    rw [hsame, ho, hframe]
    exact heval
  | destroyed hs heval =>
    refine .destroyed (hframe ▸ hs) ?_
    rw [hquiet (by simp [hs]), ho, hframe]
    exact heval

theorem Read.of_absent (hr : Read P F origin past h) (hs : (F h).status = .absent) :
    (F h).value = none ∧ past h = [] := by
  cases hr with
  | absent _ hv hp => exact ⟨hv, hp⟩
  | working hs' | returned hs' =>
    rw [hs] at hs'
    cases hs'
  | initial hs' | leaf hs' | awaiting hs' | destroyed hs' => cases hs.symm.trans hs'

theorem Read.of_initial (hr : Read P F origin past h) (hs : (F h).status = .initial) :
    (F h).value = none ∧ past h = [] ∧ (F h).body = origin h := by
  cases hr with
  | initial _ hv hp hb => exact ⟨hv, hp, hb⟩
  | working hs' | returned hs' =>
    rw [hs] at hs'
    cases hs'
  | absent hs' | leaf hs' | awaiting hs' | destroyed hs' => cases hs.symm.trans hs'

theorem Read.of_works (hr : Read P F origin past h) (hs : (F h).status.works = true) :
    (F h).value = none ∧ Continues P (origin h) (past h) (F h).body (cells F origin h) := by
  cases hr with
  | working _ hv hcont => exact ⟨hv, hcont⟩
  | returned hs' =>
    revert hs hs'
    cases (F h).status <;> simp [Status.works, Status.hasReturned]
  | absent hs' | initial hs' | leaf hs' | awaiting hs' | destroyed hs' =>
    rw [hs'] at hs
    cases hs

theorem Read.of_running {t : τ} (hr : Read P F origin past h) (hs : (F h).status = .running t) :
    (F h).value = none ∧ Continues P (origin h) (past h) (F h).body (cells F origin h) :=
  hr.of_works (by rw [hs]; rfl)

theorem Read.of_leaf {op : Op} (hr : Read P F origin past h) (hs : (F h).status = .leaf op) :
    (F h).value = none ∧ P.act (F h).body = .leaf op ∧
      Continues P (origin h) (past h) (F h).body (cells F origin h) := by
  cases hr with
  | leaf hs' hv hact hcont =>
    cases hs.symm.trans hs'
    exact ⟨hv, hact, hcont⟩
  | working hs' | returned hs' =>
    rw [hs] at hs'
    cases hs'
  | absent hs' | initial hs' | awaiting hs' | destroyed hs' => cases hs.symm.trans hs'

theorem Read.of_awaiting {c : Handle} (hr : Read P F origin past h) (hs : (F h).status = .awaiting c) :
    (F h).value = none ∧ ∃ i own, P.act (F h).body = .await i ∧ (F h).tasks[i]? = some ⟨some c⟩ ∧
      past h = own ++ past c ∧
      Continues P (origin h) own (F h).body ((cells F origin h).set i (.delayed (origin c))) := by
  cases hr with
  | awaiting hs' hv hact htask hp hcont =>
    cases hs.symm.trans hs'
    exact ⟨hv, _, _, hact, htask, hp, hcont⟩
  | working hs' | returned hs' =>
    rw [hs] at hs'
    cases hs'
  | absent hs' | initial hs' | leaf hs' | destroyed hs' => cases hs.symm.trans hs'

/-- What a frame has left in its promise is what its body evaluates to. -/
theorem Read.of_value {v : V} (hr : Read P F origin past h) (hv : (F h).value = some v) :
    Evaluates P (origin h) [] (past h) v := by
  cases hr with
  | returned _ heval | destroyed _ heval => exact heval v hv
  | absent _ hv' | initial _ hv' | working _ hv' | leaf _ hv' | awaiting _ hv' =>
    cases hv.symm.trans hv'

end Read

/-! ### One step -/

section Step
variable {P : Program σ E V Op G} {F F' : Handle → Frame σ V Op τ} {origin : Handle → σ}
  {past : Handle → List (Interaction V Op G)} {h k n : Handle} {fr : Frame σ V Op τ}

theorem update_value (hvalue : fr.value = (F h).value) (g : Handle) :
    (Function.update F h fr g).value = (F g).value := by
  rw [Function.update_apply]
  split
  · rename_i he
    rw [he, hvalue]
  · rfl

/-- The locals stand for the same as long as nothing is returned. -/
theorem cell_congr (hvalue : ∀ g, (F' g).value = (F g).value) : cell F' origin = cell F origin := by
  funext ⟨handle⟩
  cases handle with
  | none => rfl
  | some g => simp only [cell, hvalue g]

/-- A frame that is left alone by a step that meets with nothing. -/
theorem Read.stay (hr : Read P F origin past k) (hframe : F' k = F k)
    (hvalue : ∀ g, (F' g).value = (F g).value) : Read P F' origin past k := by
  refine hr.keep hframe rfl ?_ (fun _ => rfl) fun _ _ _ hp => ⟨hp, rfl⟩
  rw [cells, cells, hframe, cell_congr hvalue]

/-- The frame `h` goes on with its body. -/
theorem reads_advance (hr : ∀ k, Read P F origin past k) (hworks : (F h).status.works = true)
    (hs : fr.status.works = true) (hvalue : fr.value = (F h).value)
    (hstep : ∀ trace v, Evaluates P fr.body (fr.tasks.map (cell F origin)) trace v →
      Evaluates P (F h).body (cells F origin h) trace v) (k : Handle) :
    Read P (Function.update F h fr) origin past k := by
  by_cases hk : k = h
  · subst hk
    obtain ⟨hv, hcont⟩ := (hr k).of_works hworks
    have hself : Function.update F k fr k = fr := Function.update_self ..
    refine .working (by rw [hself]; exact hs) (by rw [hself, hvalue, hv]) ?_
    intro trace v he
    rw [cells, hself, cell_congr (update_value hvalue)] at he
    exact hcont _ _ (hstep trace v he)
  · exact (hr k).stay (Function.update_of_ne hk _ _) (update_value hvalue)

/-- A frame is destroyed. -/
theorem reads_fell (hr : ∀ k, Read P F origin past k) (hs : fr.status = .destroyed)
    (hvalue : fr.value = (F h).value) (k : Handle) : Read P (Function.update F h fr) origin past k := by
  by_cases hk : k = h
  · subst hk
    have hself : Function.update F k fr k = fr := Function.update_self ..
    refine .destroyed (by rw [hself]; exact hs) fun v hv => ?_
    rw [hself, hvalue] at hv
    exact (hr k).of_value hv
  · exact (hr k).stay (Function.update_of_ne hk _ _) (update_value hvalue)

/-- A frame that has returned goes on leaving. -/
theorem reads_leave (hr : ∀ k, Read P F origin past k)
    (hs : fr.status.hasReturned = true) (hvalue : fr.value = (F h).value) (k : Handle) :
    Read P (Function.update F h fr) origin past k := by
  by_cases hk : k = h
  · subst hk
    have hself : Function.update F k fr k = fr := Function.update_self ..
    refine .returned (by rw [hself]; exact hs) fun v hv => ?_
    rw [hself, hvalue] at hv
    exact (hr k).of_value hv
  · exact (hr k).stay (Function.update_of_ne hk _ _) (update_value hvalue)

/-- The frame below comes to the top. -/
theorem reads_wake {t : τ} {rest : List Handle} (hrest : ∀ g ∈ rest, (s.frames g).status = .nested t)
    (hr : ∀ k, Read P s.frames origin past k) (k : Handle) : Read P (wake s t rest) origin past k := by
  have hvalue : ∀ g, (wake s t rest g).value = (s.frames g).value := by
    intro g
    unfold wake
    split <;> rfl
  by_cases hk : rest.head? = some k
  · have hnested := hrest k (List.mem_of_mem_head? hk)
    have hself : wake s t rest k = {s.frames k with status := .running t} := by simp [wake, hk]
    obtain ⟨hv, hcont⟩ := (hr k).of_works (by rw [hnested]; rfl)
    refine .working (by rw [hself]; rfl) ((hvalue k).trans hv) ?_
    rw [cells, hself, cell_congr hvalue]
    exact hcont
  · exact (hr k).stay (by simp [wake, hk]) hvalue

/-- A frame is created that nobody knows yet. -/
theorem reads_born (hr : ∀ k, Read P F origin past k) (habsent : (F n).status = .absent)
    (hunknown : ∀ k, ⟨some n⟩ ∉ (F k).tasks ∧ (F k).status ≠ .awaiting n)
    (hs : fr.status = .initial ∨ fr.status.works = true) (hvalue : fr.value = none) (htasks : fr.tasks = [])
    (k : Handle) : Read P (Function.update F n fr) (Function.update origin n fr.body) past k := by
  obtain ⟨hnone, hpast⟩ := (hr n).of_absent habsent
  by_cases hk : k = n
  · subst hk
    have hself : Function.update F k fr k = fr := Function.update_self ..
    rcases hs with hs | hs
    · exact .initial (by rw [hself, hs]) (by rw [hself, hvalue]) hpast (by rw [hself, Function.update_self])
    · refine .working (by rw [hself]; exact hs) (by rw [hself, hvalue]) ?_
      intro trace v he
      rw [cells, hself, htasks, List.map_nil] at he
      rw [Function.update_self, hpast, List.nil_append]
      exact he
  · have hframe : Function.update F n fr k = F k := Function.update_of_ne hk ..
    refine (hr k).keep hframe (Function.update_of_ne hk ..) ?_ (fun _ => rfl) ?_
    · refine cells_congr (by rw [hframe]) fun g hg => ?_
      have hgn : g ≠ n := by
        rintro rfl
        exact (hunknown k).1 hg
      exact ⟨by rw [Function.update_of_ne hgn], Function.update_of_ne hgn ..⟩
    · intro c own hc hp
      have hcn : c ≠ n := by
        rintro rfl
        exact (hunknown k).2 hc
      exact ⟨hp, Function.update_of_ne hcn ..⟩

/-- `h` calls a coroutine. -/
theorem reads_create (hr : ∀ k, Read P F origin past k) (hworks : (F h).status.works = true)
    (habsent : (F n).status = .absent)
    (hunknown : ∀ k, ⟨some n⟩ ∉ (F k).tasks ∧ (F k).status ≠ .awaiting n) {body p : σ}
    (hact : P.act (F h).body = .create body p) (k : Handle) :
    Read P (Function.update (Function.update F n ⟨.initial, body, none, none, [], some h⟩) h
      {F h with body := p, tasks := ⟨some n⟩ :: (F h).tasks}) (Function.update origin n body) past k := by
  have hnew : h ≠ n := by
    rintro rfl
    rw [habsent] at hworks
    cases hworks
  have hborn : ∀ k, Read P (Function.update F n ⟨.initial, body, none, none, [], some h⟩)
      (Function.update origin n body) past k := reads_born hr habsent hunknown (.inl rfl) rfl rfl
  generalize hF : Function.update F n ⟨.initial, body, none, none, [], some h⟩ = F' at hborn ⊢
  have hsame : F' h = F h := by rw [← hF, Function.update_of_ne hnew]
  have hnone : (F' n).value = none := by rw [← hF, Function.update_self]
  rw [← hsame] at hworks hact ⊢
  revert k
  refine reads_advance hborn hworks hworks rfl fun trace v he => ?_
  refine .create hact ?_
  rw [List.map_cons] at he
  have hcell : cell F' (Function.update origin n body) ⟨some n⟩ = .delayed body := by simp [cell, hnone]
  rw [hcell] at he
  exact he

/-- The frame `h` meets with `i` and goes on. -/
theorem reads_meet (hi : Inv s) (hr : ∀ k, Read P s.frames origin past k)
    (hactive : (s.frames h).status.stage = .active) {i : Interaction V Op G}
    (hs : fr.status.works = true) (htasks : fr.tasks = (s.frames h).tasks)
    (hvalue : fr.value = (s.frames h).value) (hnone : (s.frames h).value = none)
    (hcont : Continues P (origin h) (past h) (s.frames h).body (cells s.frames origin h))
    (hstep : ∀ trace v, Evaluates P fr.body (cells s.frames origin h) trace v →
      Evaluates P (s.frames h).body (cells s.frames origin h) (i :: trace) v) (k : Handle) :
    Read P (Function.update s.frames h fr) origin (fun k => past k ++ if s.within k h then [i] else []) k := by
  by_cases hk : k = h
  · subst hk
    have hself : Function.update s.frames k fr k = fr := Function.update_self ..
    refine .working (by rw [hself]; exact hs) ((update_value hvalue k).trans hnone) ?_
    intro trace v he
    rw [cells, hself, cell_congr (update_value hvalue), htasks] at he
    have hwithin : s.within k k = true := hi.within_self
    simp only [hwithin, if_true, List.append_assoc, List.singleton_append]
    exact hcont _ _ (hstep trace v he)
  · have hframe : Function.update s.frames h fr k = s.frames k := Function.update_of_ne hk ..
    refine (hr k).keep hframe rfl ?_ ?_ ?_
    · rw [cells, cells, hframe, cell_congr (update_value hvalue)]
    · intro hidle
      have hnot : s.within k h = false := by
        rw [Bool.eq_false_iff]
        intro hw
        obtain ⟨c, hc⟩ := hi.awaits_of_within hactive hk hw
        exact hidle c hc
      simp [hnot]
    · intro c own hc hp
      refine ⟨?_, rfl⟩
      rw [hi.within_awaited hc hactive hk, hp, List.append_assoc]

/-- A frame has initiated an operation. -/
theorem reads_leaf (hr : ∀ k, Read P F origin past k) (hworks : (F h).status.works = true) {op : Op}
    (hact : P.act (F h).body = .leaf op) (k : Handle) :
    Read P (Function.update F h {F h with status := .leaf op}) origin past k := by
  have hvalue : ∀ g, (Function.update F h {F h with status := .leaf op} g).value = (F g).value :=
    update_value rfl
  by_cases hk : k = h
  · subst hk
    obtain ⟨hv, hcont⟩ := (hr k).of_works hworks
    have hself : Function.update F k {F k with status := .leaf op} k = {F k with status := .leaf op} :=
      Function.update_self ..
    have hs : (Function.update F k {F k with status := .leaf op} k).status = .leaf op := by rw [hself]
    refine .leaf hs (by rw [hself]; exact hv) (by rw [hself]; exact hact) ?_
    rw [cells, hself, cell_congr hvalue]
    exact hcont
  · exact (hr k).stay (Function.update_of_ne hk _ _) hvalue

theorem set_cells_congr {i : Nat} {x : Cell σ V} (htasks : (F' k).tasks = (F k).tasks)
    (hlocal : ∀ j g, j ≠ i → (F k).tasks[j]? = some ⟨some g⟩ → (F' g).value = (F g).value) :
    (cells F' origin k).set i x = (cells F origin k).set i x := by
  apply List.ext_getElem?
  intro j
  rw [List.getElem?_set, List.getElem?_set, cells, cells, htasks, List.length_map, List.length_map]
  by_cases hj : i = j
  · rw [if_pos hj, if_pos hj]
  · rw [if_neg hj, if_neg hj, List.getElem?_map, List.getElem?_map]
    cases ht : (F k).tasks[j]? with
    | none => rfl
    | some task =>
      obtain ⟨handle⟩ := task
      cases handle with
      | none => rfl
      | some g => simp only [Option.map_some, cell, hlocal j g (Ne.symm hj) ht]

/-- A body returns. Its owner, which awaits it, sees nothing of it yet. -/
theorem reads_ret (hi : Inv s) (hr : ∀ k, Read P s.frames origin past k) {t : τ}
    (hrun : (s.frames h).status = .running t) {e : E} (hact : P.act (s.frames h).body = .ret e) (k : Handle) :
    Read P (Function.update s.frames h {s.frames h with status := .leaving t, value := P.returnValue e})
      origin past k := by
  generalize hF : Function.update s.frames h
    {s.frames h with status := .leaving t, value := P.returnValue e} = F'
  have hother : ∀ g, g ≠ h → F' g = s.frames g := by
    intro g hg
    rw [← hF, Function.update_of_ne hg]
  have hactive : (s.frames h).status.stage = .active := by rw [hrun]; rfl
  by_cases hk : k = h
  · subst hk
    obtain ⟨-, hcont⟩ := (hr k).of_works (by rw [hrun]; rfl)
    have hself : F' k = {s.frames k with status := .leaving t, value := P.returnValue e} := by
      rw [← hF, Function.update_self]
    refine .returned (by rw [hself]; rfl) fun v hv => ?_
    rw [hself] at hv
    have heval := hcont [] v (.ret hact hv)
    rw [List.append_nil] at heval
    exact heval
  · by_cases hheld : ⟨some h⟩ ∈ (s.frames k).tasks
    · have hawait := hi.owner_awaits (hi.local_parent hheld) hactive
      obtain ⟨hv, i, own, hactk, htask, hpast, hcont⟩ := (hr k).of_awaiting hawait
      have hframe := hother k hk
      refine .awaiting (hframe ▸ hawait) (hframe ▸ hv) (hframe ▸ hactk) (hframe ▸ htask) hpast ?_
      rw [hframe, set_cells_congr (by rw [hframe])]
      · exact hcont
      · intro j g hj htask'
        have hgh : g ≠ h := by
          rintro rfl
          refine hj (Forest.WellOwned.place_unique (hi.forest.once k) (a := g) ?_ ?_)
          · simp [Frame.node, htask']
          · simp [Frame.node, htask]
        rw [hother g hgh]
    · refine (hr k).keep (hother k hk) rfl ?_ (fun _ => rfl) fun _ _ _ hp => ⟨hp, rfl⟩
      refine cells_congr (by rw [hother k hk]) fun g hg => ⟨?_, rfl⟩
      have hgh : g ≠ h := by
        rintro rfl
        exact hheld hg
      rw [hother g hgh]

/-- `h` suspends for `g`, which starts. -/
theorem reads_suspend (hi : Inv s) (hr : ∀ k, Read P s.frames origin past k) {t : τ} {g : Handle} {i : Nat}
    (hrun : (s.frames h).status = .running t) (hact : P.act (s.frames h).body = .await i)
    (htask : (s.frames h).tasks[i]? = some ⟨some g⟩) (hcallee : (s.frames g).status = .initial)
    (k : Handle) :
    Read P (Function.update (Function.update s.frames h {s.frames h with status := .awaiting g}) g
      {s.frames g with caller := some h, status := .running t}) origin past k := by
  have hgh : g ≠ h := by
    rintro rfl
    cases hcallee.symm.trans hrun
  obtain ⟨hvg, hpg, hbg⟩ := (hr g).of_initial hcallee
  have hnotasks : (s.frames g).tasks = [] := by
    have hidle := (hi.forest.idle (a := g) (by
      show (s.frames g).status.stage ≠ .active
      rw [hcallee]
      nofun)).1
    exact List.map_eq_nil_iff.mp hidle
  generalize hF : Function.update (Function.update s.frames h {s.frames h with status := .awaiting g}) g
    {s.frames g with caller := some h, status := .running t} = F'
  have hFg : F' g = {s.frames g with caller := some h, status := .running t} := by
    rw [← hF, Function.update_self]
  have hFh : F' h = {s.frames h with status := .awaiting g} := by
    rw [← hF, Function.update_of_ne hgh.symm, Function.update_self]
  have hother : ∀ k, k ≠ h → k ≠ g → F' k = s.frames k := by
    intro k hkh hkg
    rw [← hF, Function.update_of_ne hkg, Function.update_of_ne hkh]
  have hvalue : ∀ k, (F' k).value = (s.frames k).value := by
    intro k
    by_cases hkg : k = g
    · rw [hkg, hFg]
    · by_cases hkh : k = h
      · rw [hkh, hFh]
      · rw [hother k hkh hkg]
  by_cases hkh : k = h
  · subst hkh
    obtain ⟨hv, hcont⟩ := (hr k).of_running hrun
    have howed : past k = past k ++ past g := by rw [hpg, List.append_nil]
    refine .awaiting (by rw [hFh]) ((hvalue k).trans hv) (by rw [hFh]; exact hact)
      (by rw [hFh]; exact htask) howed ?_
    have hcell : (cells s.frames origin k)[i]? = some (.delayed (origin g)) := by
      rw [cells, List.getElem?_map, htask]
      simp [cell, hvg]
    obtain ⟨hlt, hget⟩ := List.getElem?_eq_some_iff.mp hcell
    rw [cells, hFh, cell_congr hvalue, ← hget]
    show Continues P (origin k) (past k) (s.frames k).body ((cells s.frames origin k).set i _)
    rw [List.set_getElem_self]
    exact hcont
  · by_cases hkg : k = g
    · subst hkg
      refine .working (by rw [hFg]; rfl) ((hvalue k).trans hvg) ?_
      intro trace v he
      rw [cells, hFg, hnotasks, List.map_nil] at he
      rw [hpg, ← hbg]
      exact he
    · exact (hr k).stay (hother k hkh hkg) hvalue

/-- `c` obtains what `h` has returned. -/
theorem reads_obtain (hr : ∀ k, Read P F origin past k) {c : Handle} {t : τ} {v : V}
    (hcaller : (F c).status = .awaiting h) (hv : (F h).value = some v) (k : Handle) :
    Read P (Function.update F c {F c with status := .running t, body := P.receive (F c).body v}) origin
      past k := by
  have hvalue : ∀ g, (Function.update F c {F c with status := .running t, body := P.receive (F c).body v}
    g).value = (F g).value := update_value rfl
  by_cases hk : k = c
  · subst hk
    obtain ⟨hnone, i, own, hact, htask, hpast, hcont⟩ := (hr k).of_awaiting hcaller
    have hself : Function.update F k {F k with status := .running t, body := P.receive (F k).body v} k =
        {F k with status := .running t, body := P.receive (F k).body v} := Function.update_self ..
    have hcell : (cells F origin k)[i]? = some (.forced v) := by
      rw [cells, List.getElem?_map, htask]
      simp [cell, hv]
    obtain ⟨hlt, hget⟩ := List.getElem?_eq_some_iff.mp hcell
    refine .working (by rw [hself]; rfl) ((hvalue k).trans hnone) ?_
    intro trace w he
    rw [cells, hself, cell_congr hvalue] at he
    rw [hpast, List.append_assoc]
    refine hcont _ _ (.awaitDelayed hact (List.getElem?_set_self hlt) ((hr h).of_value hv) ?_)
    rw [List.set_set, ← hget, List.set_getElem_self]
    exact he
  · exact (hr k).stay (Function.update_of_ne hk _ _) hvalue

end Step

end ExploreCpp.Runtime
