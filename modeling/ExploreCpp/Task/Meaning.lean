import ExploreCpp.Task.Law
import ExploreCpp.Task.Reading

/-! The runtime computes what the plain reading of the coroutines says.

Every step leaves the frames where they are in their evaluations or takes them further
(`steps_keep`), so what a body returns is what it evaluates to (`returns_plain_reading`). -/
namespace ExploreCpp.Runtime

variable {σ E V Op G τ : Type} {s s' : State σ V Op G τ}

section Steps
variable {P : Program σ E V Op G} {origin : Handle → σ}
  {past : Handle → List (Interaction V Op G)} {l : Label σ V τ} {t : τ} {h : Handle} {rest : List Handle}

/-- Which body each frame was created with, after a step. -/
def originAfter (P : Program σ E V Op G) (origin : Handle → σ) (s : State σ V Op G τ) (l : Label σ V τ) :
    Handle → σ :=
  match birth P s l with
  | some body => Function.update origin s.created body
  | none => origin

theorem originAfter_old {k : Handle} (hk : k ≠ s.created) : originAfter P origin s l k = origin k := by
  unfold originAfter
  cases birth P s l with
  | none => rfl
  | some body => exact Function.update_of_ne hk ..

/-- After a step the frames are further in their evaluations. -/
def Keeps (P : Program σ E V Op G) (origin : Handle → σ) (past : Handle → List (Interaction V Op G))
    (s : State σ V Op G τ) (l : Label σ V τ) (s' : State σ V Op G τ) : Prop :=
  ∀ k, Read P s'.frames (originAfter P origin s l) (fun k => past k ++ met P k s l) k

theorem keeps_of {origin' : Handle → σ} {now : Handle → List (Interaction V Op G)}
    (hmet : ∀ k, met P k s l = now k) (horigin : originAfter P origin s l = origin')
    (h : ∀ k, Read P s'.frames origin' (fun k => past k ++ now k) k) : Keeps P origin past s l s' := by
  have hpast : (fun k => past k ++ met P k s l) = fun k => past k ++ now k := by
    funext k
    rw [hmet]
  intro k
  rw [hpast, horigin]
  exact h k

theorem met_none (hm : interaction P s l = none) (k : Handle) : met P k s l = [] := by simp only [met, hm]

theorem keeps_silent (hm : interaction P s l = none) (hb : birth P s l = none)
    (h : ∀ k, Read P s'.frames origin past k) : Keeps P origin past s l s' := by
  have horigin : originAfter P origin s l = origin := by simp only [originAfter, hb]
  apply keeps_of (met_none hm) horigin
  simpa only [List.append_nil] using h

theorem keeps_birth {body : σ} (hm : interaction P s l = none) (hb : birth P s l = some body)
    (h : ∀ k, Read P s'.frames (Function.update origin s.created body) past k) :
    Keeps P origin past s l s' := by
  have horigin : originAfter P origin s l = Function.update origin s.created body := by
    simp only [originAfter, hb]
  apply keeps_of (met_none hm) horigin
  simpa only [List.append_nil] using h

theorem keeps_meet {i : Interaction V Op G} (hm : interaction P s l = some (h, i)) (hb : birth P s l = none)
    (hr : ∀ k, Read P s'.frames origin (fun k => past k ++ if s.within k h then [i] else []) k) :
    Keeps P origin past s l s' :=
  keeps_of (fun k => by simp only [met, hm]) (by simp only [originAfter, hb]) hr

theorem evaluates_drop {F : Handle → Frame σ V Op τ} {i : Nat} {k : σ} {task : Task}
    (hact : P.act (F h).body = .drop i k) (htask : (F h).tasks[i]? = some task)
    (trace : List (Interaction V Op G)) (v : V)
    (he : Evaluates P k (((F h).tasks.eraseIdx i).map (cell F origin)) trace v) :
    Evaluates P (F h).body (cells F origin h) trace v := by
  have hcell : (cells F origin h)[i]? = some (cell F origin task) := by
    rw [cells, List.getElem?_map, htask, Option.map_some]
  refine .drop hact hcell ?_
  rw [cells, List.eraseIdx_map]
  exact he

theorem Inv.unknown (hi : Inv s) (k : Handle) :
    ⟨some s.created⟩ ∉ (s.frames k).tasks ∧ (s.frames k).status ≠ .awaiting s.created := by
  have hunborn : (s.frames s.created).status.stage = .unborn := by
    rw [hi.absent]
    rfl
  constructor
  · intro hm
    have halive : (s.frames s.created).status.stage.alive = true :=
      (hi.forest.alive_of_held (mem_held.mpr hm)).2
    rw [hunborn] at halive
    cases halive
  · intro hs
    have hactive : (s.frames s.created).status.stage = .active :=
      (hi.forest.waits k s.created (Status.callee_eq.mpr hs)).2.2
    rw [hunborn] at hactive
    cases hactive

/-- What is in a promise has been returned by a body that has come to its end. -/
theorem values_of_reads (hi : Inv s) (hr : ∀ k, Read P s.frames origin past k) {k : Handle} {v : V}
    (hv : (s.frames k).value = some v) : k < s.created ∧ Evaluates P (origin k) [] (past k) v := by
  refine ⟨?_, (hr k).of_value hv⟩
  by_contra hge
  have habsent : (s.frames k).status = .absent :=
    Status.stage_unborn.mp ((hi.forest.born k).mp (Nat.not_lt.mp hge))
  rw [((hr k).of_absent habsent).1] at hv
  cases hv

variable [DecidableEq τ]

/-- Every step after which the machine goes on keeps the frames in their evaluations. -/
theorem steps_keep (hi : Inv s) (hr : ∀ k, Read P s.frames origin past k) (hs : Steps P s l s')
    (hgoes : s'.halted = none) : Keeps P origin past s l s' := by
  cases hs with
  | @start t body hstack =>
    refine keeps_birth rfl rfl ?_
    exact reads_born hr hi.absent hi.unknown (.inr rfl) rfl rfl
  | @compute t answer h rest f hstack hrun hact =>
    have hacting := acting_running (P := P) hstack hrun
    rw [hact] at hacting
    obtain ⟨hv, hcont⟩ := (hr h).of_running hrun
    refine keeps_meet (i := .shared s.shared) (h := h) (by simp [interaction, hacting])
      (by simp [birth, hacting]) ?_
    refine reads_meet hi hr (by rw [hrun]; rfl) (by rw [hrun]; rfl) rfl rfl hv hcont ?_
    exact fun trace v he => .compute s.shared hact he
  | @ask t answer h rest hstack hrun hact =>
    have hacting := acting_running (P := P) hstack hrun
    rw [hact] at hacting
    obtain ⟨hv, hcont⟩ := (hr h).of_running hrun
    refine keeps_meet (i := .answered answer) (h := h) (by simp [interaction, hacting])
      (by simp [birth, hacting]) ?_
    refine reads_meet hi hr (by rw [hrun]; rfl) (by rw [hrun]; rfl) rfl rfl hv hcont ?_
    exact fun trace v he => .ask answer hact he
  | @complete t h op v hstack hop hleaf =>
    have hlookup : s.pending.lookup h = some op := by
      rw [hi.operations.lookup h]
      exact Status.operation_eq.mpr hleaf
    obtain ⟨hv, hact, hcont⟩ := (hr h).of_leaf hleaf
    refine keeps_meet (i := .operation op v) (h := h) (by simp [interaction, hlookup]) rfl ?_
    refine reads_meet hi hr (by rw [hleaf]; rfl) rfl rfl rfl hv hcont ?_
    exact fun trace w he => .leaf v hact he
  | @create t answer h rest body k hstack hrun hact =>
    have hacting := acting_running (P := P) hstack hrun
    rw [hact] at hacting
    have hnew : h ≠ s.created := hi.not_new hrun
    have hbirth : birth P s (.run t answer) = some body := by simp [birth, hacting]
    refine keeps_birth (by simp [interaction, hacting]) hbirth ?_
    have hcreate := reads_create hr (by rw [hrun]; rfl) hi.absent hi.unknown hact
    simpa only [modify_frames, Function.update_of_ne hnew] using hcreate
  | @move t answer h rest i k other hstack hrun hact htask =>
    have hacting := acting_running (P := P) hstack hrun
    rw [hact] at hacting
    refine keeps_silent (by simp [interaction, hacting]) (by simp [birth, hacting]) ?_
    refine reads_advance hr (by rw [hrun]; rfl) (by rw [hrun]; rfl) rfl ?_
    intro trace v he
    have hcell : (cells s.frames origin h)[i]? = some (cell s.frames origin other) := by
      rw [cells, List.getElem?_map, htask, Option.map_some]
    refine .move hact hcell ?_
    rw [List.map_cons, List.map_set] at he
    exact he
  | @dropEmpty t answer h rest i k hstack hrun hact htask =>
    have hacting := acting_running (P := P) hstack hrun
    rw [hact] at hacting
    refine keeps_silent (by simp [interaction, hacting]) (by simp [birth, hacting]) ?_
    exact reads_advance hr (by rw [hrun]; rfl) (by rw [hrun]; rfl) rfl (evaluates_drop hact htask)
  | @drop t answer h rest i k g hstack hrun hact htask hcallee =>
    have hacting := acting_running (P := P) hstack hrun
    rw [hact] at hacting
    refine keeps_silent (by simp [interaction, hacting]) (by simp [birth, hacting]) ?_
    refine reads_fell (reads_advance hr ?_ ?_ rfl (evaluates_drop hact htask)) rfl rfl
    · rw [hrun]
      rfl
    · rw [hrun]
      rfl
  | @awaitReady t answer h rest i g v hstack hrun hact htask hcallee hvalue =>
    have hacting := acting_running (P := P) hstack hrun
    rw [hact] at hacting
    refine keeps_silent (by simp [interaction, hacting]) (by simp [birth, hacting]) ?_
    have hworks : (s.frames h).status.works = true := by
      rw [hrun]
      rfl
    refine reads_advance hr hworks hworks rfl ?_
    intro trace w he
    have hcell : (cells s.frames origin h)[i]? = some (.forced v) := by
      rw [cells, List.getElem?_map, htask]
      simp [cell, hvalue]
    exact .awaitForced hact hcell he
  | @awaitSuspend t answer h rest i g hstack hrun hact htask hcallee =>
    have hacting := acting_running (P := P) hstack hrun
    rw [hact] at hacting
    have hgh : g ≠ h := by
      rintro rfl
      cases hcallee.symm.trans hrun
    refine keeps_silent (by simp [interaction, hacting]) (by simp [birth, hacting]) ?_
    have hsuspend := reads_suspend hi hr hrun hact htask hcallee
    simpa only [emit_frames, setStack_frames, modify_frames, Function.update_of_ne hgh] using hsuspend
  | @leaf t answer h rest op hstack hrun hact =>
    have hacting := acting_running (P := P) hstack hrun
    rw [hact] at hacting
    refine keeps_silent (by simp [interaction, hacting]) (by simp [birth, hacting]) ?_
    rw [returnTo_eq]
    refine reads_wake (fun g hg => ?_) (reads_leaf hr (by rw [hrun]; rfl) hact)
    exact hi.below hstack _ g hg
  | @spawn t answer h rest body k hstack hrun hact =>
    have hacting := acting_running (P := P) hstack hrun
    rw [hact] at hacting
    have hbirth : birth P s (.run t answer) = some body := by simp [birth, hacting]
    refine keeps_birth (by simp [interaction, hacting]) hbirth ?_
    have hnew : h ≠ s.created := hi.not_new hrun
    have hnested : ∀ k', Read P (Function.update s.frames h {s.frames h with status := .nested t, body := k})
        origin past k' :=
      reads_advance hr (by rw [hrun]; rfl) rfl rfl fun trace v he => .spawn hact he
    have habsent : (Function.update s.frames h {s.frames h with status := .nested t, body := k}
        s.created).status = .absent := by
      rw [Function.update_of_ne hnew.symm]
      exact hi.absent
    refine reads_born hnested habsent (fun k' => ?_) (.inr rfl) rfl rfl
    have hunknown : ⟨some s.created⟩ ∉ (Function.update s.frames h
        {s.frames h with status := .nested t, body := k} k').tasks ∧ (Function.update s.frames h
        {s.frames h with status := .nested t, body := k} k').status ≠ .awaiting s.created := by
      rw [Function.update_apply]
      split
      · exact ⟨(hi.unknown h).1, by simp⟩
      · exact hi.unknown k'
    exact hunknown
  | @ret t answer h rest e hstack hrun hact =>
    have hacting := acting_running (P := P) hstack hrun
    rw [hact] at hacting
    refine keeps_silent (by simp [interaction, hacting]) (by simp [birth, hacting]) ?_
    exact reads_ret hi hr hrun hact
  | throw | awaitLost | finalLost => cases hgoes
  | @leaveEmpty t answer h rest tasks hstack hrun htask =>
    have hacting := acting_leaving (P := P) hstack hrun
    refine keeps_silent (by simp [interaction, hacting]) (by simp [birth, hacting]) ?_
    exact reads_leave hr (by rw [hrun]; rfl) rfl
  | @leaveDrop t answer h rest tasks g hstack hrun htask hcallee =>
    have hacting := acting_leaving (P := P) hstack hrun
    refine keeps_silent (by simp [interaction, hacting]) (by simp [birth, hacting]) ?_
    refine reads_fell (reads_leave hr ?_ rfl) rfl rfl
    rw [hrun]
    rfl
  | @finalResume t answer h rest c v hstack hrun htask hparent hcaller hvalue =>
    have hacting := acting_leaving (P := P) hstack hrun
    refine keeps_silent (by simp [interaction, hacting]) (by simp [birth, hacting]) ?_
    have hch : c ≠ h := ne_of_leaving hrun hcaller
    have hfinal : ∀ k, Read P (Function.update s.frames h {s.frames h with status := .final}) origin past k :=
      reads_leave hr rfl rfl
    have hsame : Function.update s.frames h {s.frames h with status := .final} c = s.frames c :=
      Function.update_of_ne hch ..
    have hobtain := reads_obtain (t := t) (v := v) hfinal (by rw [hsame]; exact hcaller)
      (by rw [Function.update_self]; exact hvalue)
    simpa only [emit_frames, setStack_frames, modify_frames, hsame] using hobtain
  | @finalDestroy t answer h rest hstack hrun htask hparent =>
    have hacting := acting_leaving (P := P) hstack hrun
    refine keeps_silent (by simp [interaction, hacting]) (by simp [birth, hacting]) ?_
    rw [returnTo_eq]
    refine reads_wake (fun g hg => ?_) (reads_fell hr rfl rfl)
    exact hi.below hstack _ g hg

/-- A step that stops the machine leaves the promises as they are. -/
theorem steps_stop (hs : Steps P s l s') (hgoes : s.halted = none) (hstops : s'.halted ≠ none) :
    (∀ k, (s'.frames k).value = (s.frames k).value) ∧ interaction P s l = none ∧ birth P s l = none := by
  cases hs with
  | throw hstack hrun hact | awaitLost hstack hrun hact =>
    have hacting := acting_running (P := P) hstack hrun
    rw [hact] at hacting
    exact ⟨fun _ => rfl, by simp [interaction, hacting], by simp [birth, hacting]⟩
  | finalLost hstack hrun =>
    have hacting := acting_leaving (P := P) hstack hrun
    refine ⟨?_, by simp [interaction, hacting], by simp [birth, hacting]⟩
    intro k
    refine (update_value ?_ k).trans (update_value ?_ k) <;> rfl
  | leaf | finalDestroy =>
    rw [returnTo_eq] at hstops
    exact absurd hgoes hstops
  | _ => exact absurd hgoes hstops

/-- A step creates the frame whose body it starts with. -/
theorem steps_created (hs : Steps P s l s') :
    s'.created = s.created + (birth P s l).toList.length := by
  cases hs with
  | start => rfl
  | complete => rfl
  | leaveEmpty hstack hrun | leaveDrop hstack hrun | finalResume hstack hrun | finalLost hstack hrun =>
    simp [birth, acting_leaving (P := P) hstack hrun]
  | finalDestroy hstack hrun =>
    rw [returnTo_eq]
    simp [birth, acting_leaving (P := P) hstack hrun]
  | leaf hstack hrun hact =>
    rw [returnTo_eq]
    simp [birth, acting_running (P := P) hstack hrun, hact]
  | compute hstack hrun hact | ask hstack hrun hact | create hstack hrun hact | move hstack hrun hact
  | dropEmpty hstack hrun hact | drop hstack hrun hact | awaitReady hstack hrun hact
  | awaitSuspend hstack hrun hact | spawn hstack hrun hact | ret hstack hrun hact
  | throw hstack hrun hact | awaitLost hstack hrun hact =>
    simp [birth, acting_running (P := P) hstack hrun, hact, State.halt, spawned]

end Steps

/-! ### Runs -/

section Run
variable [DecidableEq τ] {P : Program σ E V Op G} {u : State σ V Op G τ} {labels : List (Label σ V τ)}

/-- What a run makes of the evaluations its frames are in. -/
structure Ran (P : Program σ E V Op G) (origin origin' : Handle → σ)
    (past : Handle → List (Interaction V Op G)) (s : State σ V Op G τ) (labels : List (Label σ V τ))
    (u : State σ V Op G τ) : Prop where
  values : ∀ k v, (u.frames k).value = some v →
    k < u.created ∧ Evaluates P (origin' k) [] (past k ++ traceOf P k s labels) v
  kept : ∀ k, k < s.created → origin' k = origin k
  born : ∀ k body, (k, body) ∈ births P s labels → s.created ≤ k ∧ origin' k = body
  listed : ∀ k, s.created ≤ k → k < u.created → (k, origin' k) ∈ births P s labels

theorem step_goes {l : Label σ V τ} (h : step P s l = some s') : s.halted = none := by
  unfold step at h
  split at h
  · cases h
  · assumption

/-- The step is the last one of its run. -/
theorem ran_stop (hi : Inv s) {origin : Handle → σ} {past : Handle → List (Interaction V Op G)}
    (hr : ∀ k, Read P s.frames origin past k) {l : Label σ V τ} (hs : step P s l = some s')
    (hstops : s'.halted ≠ none) : Ran P origin origin past s [l] s' := by
  have hsteps := step_cases hi hs
  obtain ⟨hvalue, hm, hb⟩ := steps_stop hsteps (step_goes hs) hstops
  have hcreated : s'.created = s.created := by
    rw [steps_created hsteps, hb]
    rfl
  have hbirths : births P s [l] = [] := by simp [births, hb, hs]
  refine ⟨?_, fun _ _ => rfl, ?_, ?_⟩
  · intro k v hv
    have htrace : traceOf P k s [l] = [] := by simp [traceOf, met_none hm, hs]
    rw [htrace, List.append_nil, hcreated]
    exact values_of_reads hi hr ((hvalue k).symm.trans hv)
  · intro k body hborn
    rw [hbirths] at hborn
    cases hborn
  · exact fun k hle hlt => absurd hle (Nat.not_le.mpr (hcreated ▸ hlt))

theorem run_reads (hi : Inv s) {origin : Handle → σ} {past : Handle → List (Interaction V Op G)}
    (hr : ∀ k, Read P s.frames origin past k) (h : (machine P).run s labels = some u) :
    ∃ origin', Ran P origin origin' past s labels u := by
  induction labels generalizing s origin past with
  | nil =>
    cases h
    refine ⟨origin, ?_, fun _ _ => rfl, fun _ _ hm => absurd hm List.not_mem_nil, ?_⟩
    · intro k v hv
      simpa only [traceOf, List.append_nil] using values_of_reads hi hr hv
    · exact fun k hle hlt => absurd hle (Nat.not_le.mpr hlt)
  | cons l rest ih =>
    obtain ⟨s', hstep, hrest⟩ := Machine.run_cons h
    have hs : step P s l = some s' := hstep
    have hsteps := step_cases hi hs
    by_cases hgoes : s'.halted = none
    swap
    · cases rest with
      | nil =>
        cases hrest
        exact ⟨origin, ran_stop hi hr hs hgoes⟩
      | cons l' rest =>
        obtain ⟨_, hnext, -⟩ := Machine.run_cons hrest
        exact absurd (step_goes hnext) hgoes
    have hcreated := steps_created hsteps
    obtain ⟨origin', hran⟩ := ih (steps_inv hi hsteps) (steps_keep hi hr hsteps hgoes) hrest
    have hbirths : births P s (l :: rest) =
        ((birth P s l).map fun body => (s.created, body)).toList ++ births P s' rest := by
      rw [births, hs, Option.map_some, Option.getD_some]
    refine ⟨origin', ?_, ?_, ?_, ?_⟩
    · have htrace : ∀ k, traceOf P k s (l :: rest) = met P k s l ++ traceOf P k s' rest := by
        intro k
        rw [traceOf, hs, Option.map_some, Option.getD_some]
      simpa only [htrace, List.append_assoc] using hran.values
    · intro k hk
      rw [hran.kept k (by rw [hcreated]; exact Nat.lt_add_right _ hk)]
      exact originAfter_old (Nat.ne_of_lt hk)
    · intro k body hm
      rw [hbirths, List.mem_append] at hm
      rcases hm with hm | hm
      · obtain ⟨body', hb, he⟩ := Option.map_eq_some_iff.mp (Option.mem_toList.mp hm)
        cases he
        refine ⟨Nat.le_refl _, ?_⟩
        rw [hran.kept _ (by rw [hcreated, hb]; exact Nat.lt_succ_self _)]
        simp only [originAfter, hb, Function.update_self]
      · obtain ⟨hle, he⟩ := hran.born k body hm
        exact ⟨Nat.le_trans (by rw [hcreated]; exact Nat.le_add_right ..) hle, he⟩
    · intro k hle hlt
      rw [hbirths, List.mem_append]
      by_cases hk : s'.created ≤ k
      · exact .inr (hran.listed k hk hlt)
      · have hnew : k < s'.created := Nat.not_le.mp hk
        refine .inl ?_
        rw [hran.kept k hnew]
        cases hb : birth P s l with
        | none =>
          rw [hcreated, hb] at hnew
          exact absurd hle (Nat.not_le.mpr hnew)
        | some body =>
          rw [hcreated, hb] at hnew
          obtain rfl : k = s.created := Nat.le_antisymm (Nat.le_of_lt_succ hnew) hle
          simp [originAfter, hb]

theorem ran_from_empty [Inhabited σ] {g : G} (h : (machine P).run (State.empty g) labels = some u) :
    ∃ origin, Ran P (fun _ => default) origin (fun _ => []) (State.empty g) labels u :=
  run_reads (inv_empty g) (fun _ => .absent rfl rfl rfl) h

/-- **The runtime computes the plain reading of the coroutines**: whatever a body leaves in its
promise, on however many threads and in whatever order operations complete, is what it evaluates
to as a function, with what it and the coroutines it called have met with, in that order. -/
theorem returns_plain_reading [Inhabited σ] (P : Program σ E V Op G) (g : G)
    (h : (machine P).run (State.empty g) labels = some u) {k : Handle} {v : V}
    (hv : (u.frames k).value = some v) :
    ∃ body, (k, body) ∈ births P (State.empty g) labels ∧
      Evaluates P body [] (traceOf P k (State.empty g) labels) v := by
  obtain ⟨origin, hran⟩ := ran_from_empty h
  obtain ⟨hborn, heval⟩ := hran.values k v hv
  exact ⟨origin k, hran.listed k (Nat.zero_le k) hborn, heval⟩

/-- A root that awaits a coroutine, moves its `Task` and awaits that again; `leaf` is
what the coroutine waits for. -/
def awaitTwice : Program Nat Nat Nat Unit Unit where
  act
    | 0 => .create 10 1
    | 1 => .await 0
    | 2 => .move 0 3
    | 3 => .await 0
    | 4 => .drop 0 5
    | 5 => .ret 7
    | 10 => .leaf ()
    | _ => .ret 42
  receive k _ := k + 1
  result := id
  returnValue := some

def awaitTwiceRun : List (Label Nat Nat Bool) :=
  [.start true 0, .run true 0, .run true 0, .run true 0, .complete false 1 5, .run false 0,
    .run false 0, .run false 0, .run false 0, .run false 0, .run false 0, .run false 0, .run false 0]

/-- The root that awaits its coroutine twice meets with one operation. -/
theorem returns_plain_reading_awaitTwice : ∃ s : State Nat Nat Unit Unit Bool,
    (machine awaitTwice).run (State.empty ()) awaitTwiceRun = some s ∧ (s.frames 0).value = some 7 ∧
    traceOf awaitTwice 0 (State.empty ()) awaitTwiceRun = [.operation () 5] ∧
    ∃ body, (0, body) ∈ births awaitTwice (State.empty ()) awaitTwiceRun ∧
      Evaluates awaitTwice body [] (traceOf awaitTwice 0 (State.empty ()) awaitTwiceRun) 7 :=
  ⟨_, rfl, rfl, by decide, returns_plain_reading awaitTwice () rfl rfl⟩

/-- **What a coroutine returns does not depend on the schedule**: two calls of it, in any two runs
on any threads, return the same if what they and the coroutines they called have met with is the
same. -/
theorem returns_alike [Inhabited σ] {τ' : Type} [DecidableEq τ'] (P : Program σ E V Op G) (g g' : G)
    {labels' : List (Label σ V τ')} {u' : State σ V Op G τ'} {k k' : Handle} {body : σ} {v v' : V}
    (h : (machine P).run (State.empty g) labels = some u)
    (h' : (machine P).run (State.empty g') labels' = some u')
    (hk : (k, body) ∈ births P (State.empty g) labels)
    (hk' : (k', body) ∈ births P (State.empty g') labels')
    (htrace : traceOf P k (State.empty g) labels = traceOf P k' (State.empty g') labels')
    (hv : (u.frames k).value = some v) (hv' : (u'.frames k').value = some v') : v = v' := by
  obtain ⟨origin, hran⟩ := ran_from_empty h
  obtain ⟨origin', hran'⟩ := ran_from_empty h'
  have he := (hran.values k v hv).2
  have he' := (hran'.values k' v' hv').2
  rw [(hran.born k body hk).2] at he
  rw [(hran'.born k' body hk').2] at he'
  simp only [List.nil_append] at he he'
  rw [htrace] at he
  exact he.unique he'

/-- `awaitTwiceRun` on one thread. -/
def awaitTwiceAlone : List (Label Nat Nat Unit) :=
  [.start () 0, .run () 0, .run () 0, .run () 0, .complete () 1 5, .run () 0, .run () 0, .run () 0,
    .run () 0, .run () 0, .run () 0]

theorem returns_alike_awaitTwice : ∃ (s : State Nat Nat Unit Unit Bool) (s' : State Nat Nat Unit Unit Unit)
    (v v' : Nat), (machine awaitTwice).run (State.empty ()) awaitTwiceRun = some s ∧
    (machine awaitTwice).run (State.empty ()) awaitTwiceAlone = some s' ∧
    (s.frames 1).value = some v ∧ (s'.frames 1).value = some v' ∧ v = v' :=
  have hk : (1, 10) ∈ births awaitTwice (State.empty ()) awaitTwiceRun := by decide
  have hk' : (1, 10) ∈ births awaitTwice (State.empty ()) awaitTwiceAlone := by decide
  have htrace : traceOf awaitTwice 1 (State.empty ()) awaitTwiceRun =
      traceOf awaitTwice 1 (State.empty ()) awaitTwiceAlone := by decide
  ⟨_, _, _, _, rfl, rfl, rfl, rfl, returns_alike awaitTwice () () rfl rfl hk hk' htrace rfl rfl⟩

end Run

end ExploreCpp.Runtime
