import ExploreCpp.Task.Preservation

/-! The law of the runtime, told by the log.

The log says of each `Task` when its owner suspended for it, when its body ran and
returned, who was resumed for it and what was obtained from it, and when its frame was
destroyed. `History` lists what the log can say of one `Task`, by how far its frame
has come: nothing else happens to it, and nothing twice.

An owner obtains what the promise holds, and `return_value` decides what that is. So a
run is lawful as long as every `co_return` for an owner leaves the result of its operand
in the promise (`Stores`), and only as long (`lawful_throughout_iff`). -/
namespace ExploreCpp.Runtime

/-- How far a frame has come, as its `Task` can tell. -/
inductive Phase where
  | absent
  | initial
  | started
  | returned
  | final
  | destroyed
deriving DecidableEq, Repr

def Status.phase {Op τ : Type} : Status Op τ → Phase
  | absent => .absent
  | initial => .initial
  | running _ | nested _ | awaiting _ | leaf _ => .started
  | leaving _ => .returned
  | final => .final
  | destroyed => .destroyed

/-- The event is one in the life of the `Task` of `g`. A frame `f` that is resumed in
`awaiting g` is resumed for `g`. -/
def Event.about {V Op τ : Type} (g : Handle) : Event V Op τ → Bool
  | resumed h .initial => h == g
  | resumed _ (.awaiting callee) => callee == g
  | suspended _ callee | obtained _ callee _ => callee == g
  | returned h _ | destroyed h _ => h == g
  | resumed .. | initiated .. | completed .. => false

variable {σ E V Op G τ : Type}

/-- The owner `f` suspends for `g`, whose body then runs to its `co_return v`; `f` is
resumed for it, and obtains `v` here and each time it awaits `g` again. -/
def awaited (f g : Handle) (v : V) (again : Nat) : List (Event V Op τ) :=
  [.suspended f g, .resumed g .initial, .returned g v, .resumed f (.awaiting g)] ++
    List.replicate (again + 1) (.obtained f g v)

/-- `History g owner phase value events`: what the log says of `g`, which `owner` has
called (a root has none), by its phase and the value in its promise. -/
inductive History (g : Handle) :
    Option Handle → Phase → Option V → List (Event V Op τ) → Prop
  | absent {value} : History g none .absent value []
  | initial {f value} : History g (some f) .initial value []
  | started {f value} :
    History g (some f) .started value [.suspended f g, .resumed g .initial]
  | returned {f v} : History g (some f) .returned (some v)
    [.suspended f g, .resumed g .initial, .returned g v]
  | final {f v} (again : Nat) : History g (some f) .final (some v) (awaited f g v again)
  | dropped {f value} : History g (some f) .destroyed value [.destroyed g .initial]
  | ended {f v} (again : Nat) : History g (some f) .destroyed (some v)
    (awaited f g v again ++ [.destroyed g .final])
  | rootStarted {value} : History g none .started value [.resumed g .initial]
  | rootReturned {v value} : History g none .returned value [.resumed g .initial, .returned g v]
  | rootEnded {v value} : History g none .destroyed value
    [.resumed g .initial, .returned g v, .destroyed g .final]

def State.history (s : State σ V Op G τ) (g : Handle) : List (Event V Op τ) :=
  s.log.filter (Event.about g)

/-- The log tells of `g` what its frame has come to. -/
def Told (s : State σ V Op G τ) (g : Handle) : Prop :=
  History g (s.frames g).parent (s.frames g).status.phase (s.frames g).value (s.history g)

def Frame.life (f : Frame σ V Op τ) : Option Handle × Phase × Option V :=
  (f.parent, f.status.phase, f.value)

variable {s s' : State σ V Op G τ}

/-- A step whose events are all about the `Task` of `g`. -/
theorem told_one (ht : ∀ k, Told s k) (g : Handle) (events : List (Event V Op τ))
    (hlog : s'.log = s.log ++ events)
    (hothers : ∀ k, k ≠ g → (s'.frames k).life = (s.frames k).life)
    (hsilent : ∀ k, k ≠ g → events.filter (Event.about k) = [])
    (hg : History g (s'.frames g).parent (s'.frames g).status.phase (s'.frames g).value
      (s.history g ++ events.filter (Event.about g))) (k : Handle) : Told s' k := by
  rw [Told, State.history, hlog, List.filter_append]
  by_cases hk : k = g
  · subst hk
    exact hg
  · obtain ⟨hp, hph, hv⟩ : (s'.frames k).parent = (s.frames k).parent ∧
        (s'.frames k).status.phase = (s.frames k).status.phase ∧
        (s'.frames k).value = (s.frames k).value := by
      simpa only [Frame.life, Prod.mk.injEq] using hothers k hk
    rw [hsilent k hk, List.append_nil, hp, hph, hv]
    exact ht k

/-- A step that is about no `Task`. -/
theorem told_silent (ht : ∀ k, Told s k) (events : List (Event V Op τ))
    (hlog : s'.log = s.log ++ events) (hframes : ∀ k, (s'.frames k).life = (s.frames k).life)
    (hsilent : ∀ k, events.filter (Event.about k) = []) (k : Handle) : Told s' k := by
  refine told_one ht k events hlog (fun k _ => hframes k) (fun k _ => hsilent k) ?_ k
  have hhist : s'.history k = s.history k ++ events.filter (Event.about k) := by
    rw [State.history, hlog, List.filter_append]
    rfl
  obtain ⟨hp, hph, hv⟩ : (s'.frames k).parent = (s.frames k).parent ∧
      (s'.frames k).status.phase = (s.frames k).status.phase ∧
      (s'.frames k).value = (s.frames k).value := by
    simpa only [Frame.life, Prod.mk.injEq] using hframes k
  rw [hp, hph, hv, hsilent k, List.append_nil]
  exact ht k

/-! ### Waiting, and the end -/

/-- Who awaits, and since when: a frame stays in `co_await` of a `Task` it has started
until that has run to its final suspend point. -/
theorem Inv.awaiting_iff (hi : Inv s) (f g : Handle) :
    (s.frames f).status = .awaiting g ↔ (s.frames g).parent = some f ∧
      ((s.frames g).status.phase = .started ∨ (s.frames g).status.phase = .returned) := by
  have hphase : ∀ st : Status Op τ, st.stage = .active ↔ st.phase = .started ∨ st.phase = .returned := by
    intro st
    cases st <;> simp [Status.stage, Status.phase]
  rw [← hphase]
  constructor
  · intro h
    exact (hi.forest.waits f g (Status.callee_eq.mpr h)).2
  · rintro ⟨hparent, hactive⟩
    exact hi.owner_awaits hparent hactive

/-- When no thread runs and nothing is outstanding, every frame has been destroyed. -/
theorem Inv.all_destroyed (hi : Inv s) (hidle : ∀ t, s.stackOf t = []) (hpending : s.pending = [])
    {k : Handle} (hk : k < s.created) : (s.frames k).status = .destroyed := by
  have hnone : ∀ a, (s.frames a).status.stage ≠ .active := by
    intro a ha
    obtain ⟨b, hb, hw⟩ := hi.forest.working (a := a) ha
    have hoff : ∀ t, (s.frames b).status.place ≠ .top t ∧ (s.frames b).status.place ≠ .below t := by
      intro t
      have hmem := hi.threads.mem t b
      rw [hidle t] at hmem
      constructor
      · exact fun hp => absurd (hmem.mpr (.inl hp)) List.not_mem_nil
      · exact fun hp => absurd (hmem.mpr (.inr hp)) List.not_mem_nil
    have hop : ∀ op, (s.frames b).status.operation ≠ some op := by
      intro op ho
      have := (hi.operations.entry b op).mpr ho
      rw [hpending] at this
      exact List.not_mem_nil this
    replace hb : (s.frames b).status.stage = .active := hb
    replace hw : (s.frames b).status.callee = none := hw
    cases hst : (s.frames b).status with
    | running t => exact (hoff t).1 (by rw [hst]; rfl)
    | leaving t => exact (hoff t).1 (by rw [hst]; rfl)
    | nested t => exact (hoff t).2 (by rw [hst]; rfl)
    | leaf op => exact hop op (by rw [hst]; rfl)
    | awaiting g =>
      rw [hst] at hw
      cases hw
    | _ =>
      rw [hst] at hb
      cases hb
  have hdead : (s.frames k).status.stage = .dead := hi.forest.all_dead hnone hk
  cases hst : (s.frames k).status with
  | destroyed => rfl
  | _ =>
    rw [hst] at hdead
    cases hdead

/-! ### One step -/

theorem life_update (F : Handle → Frame σ V Op τ) (h : Handle) {fr : Frame σ V Op τ}
    (hfr : fr.life = (F h).life) (k : Handle) : (Function.update F h fr k).life = (F k).life :=
  congrFun (view_unchanged Frame.life F h hfr) k

theorem wake_life {t : τ} {rest : List Handle} (hrest : ∀ g ∈ rest, (s.frames g).status = .nested t)
    (k : Handle) : (wake s t rest k).life = (s.frames k).life := by
  rw [wake]
  split
  · rename_i hg
    simp only [Frame.life, hrest k (List.mem_of_mem_head? hg), Status.phase]
  · rfl

/-- A frame is destroyed at its initial or its final suspend point. -/
theorem told_destroyed {h g : Handle} (ht : Told s g) (hparent : (s.frames g).parent = some h)
    (hg : (s.frames g).status = .initial ∨ (s.frames g).status = .final) :
    History g (some h) .destroyed (s.frames g).value
      (s.history g ++ [.destroyed g (s.frames g).status]) := by
  rw [Told, hparent] at ht
  rcases hg with hg | hg
  · rw [hg] at ht ⊢
    generalize s.history g = past at ht ⊢
    cases ht
    exact .dropped
  · rw [hg] at ht ⊢
    generalize s.history g = past, (s.frames g).value = value at ht ⊢
    cases ht with
    | final again => exact .ended again

/-- A step of one frame that no `Task` can tell. -/
theorem told_local (ht : ∀ k, Told s k) {h : Handle} {fr : Frame σ V Op τ} (hlog : s'.log = s.log)
    (hframes : s'.frames = Function.update s.frames h fr) (hfr : fr.life = (s.frames h).life) :
    ∀ k, Told s' k := by
  refine told_silent ht [] (by rw [hlog, List.append_nil]) ?_ (fun _ => rfl)
  intro k
  rw [hframes]
  exact life_update _ _ hfr k

/-- The frame `g`, a local of `h`, is destroyed. -/
theorem told_drop (ht : ∀ k, Told s k) {h g : Handle} {fr : Frame σ V Op τ} (hgh : g ≠ h)
    (hparent : (s.frames g).parent = some h)
    (hg : (s.frames g).status = .initial ∨ (s.frames g).status = .final)
    (hlog : s'.log = s.log ++ [.destroyed g (s.frames g).status])
    (hframes : s'.frames = Function.update (Function.update s.frames h fr) g
      {Function.update s.frames h fr g with status := .destroyed})
    (hfr : fr.life = (s.frames h).life) : ∀ k, Told s' k := by
  refine told_one ht g _ hlog ?_ ?_ ?_
  · intro k hk
    rw [hframes, Function.update_of_ne hk]
    exact life_update _ _ hfr k
  · intro k hk
    simp [Event.about, Ne.symm hk]
  · have := told_destroyed (ht g) hparent hg
    simpa [hframes, Function.update_of_ne hgh, hparent, Status.phase, Event.about] using this

section Acting
variable {P : Program σ E V Op G} {t : τ} {h : Handle} {rest : List Handle}

theorem acting_running (hstack : s.stackOf t = h :: rest) (hrun : (s.frames h).status = .running t) :
    s.acting P t = some (h, P.act (s.frames h).body) := by
  simp [State.acting, hstack, hrun]

theorem acting_leaving (hstack : s.stackOf t = h :: rest) (hrun : (s.frames h).status = .leaving t) :
    s.acting P t = none := by
  simp [State.acting, hstack, hrun]

end Acting

/-- If the step is a `co_return` for an owner, its operand is stored. -/
def Stores (P : Program σ E V Op G) (s : State σ V Op G τ) : Label σ V τ → Prop
  | .run t _ => ∀ h e, s.acting P t = some (h, .ret e) → (s.frames h).parent ≠ none →
    P.returnValue e = some (P.result e)
  | .start .. | .complete .. => True

variable [DecidableEq τ] {P : Program σ E V Op G}

theorem told_spawned (ht : ∀ k, Told s k) (hnew : s.history s.created = []) (t : τ) (body : σ) :
    ∀ k, Told (spawned s t body) k := by
  refine told_one ht s.created [.resumed s.created .initial] rfl ?_ ?_ ?_
  · intro k hk
    simp [spawned, Function.update_of_ne hk]
  · intro k hk
    simp [Event.about, Ne.symm hk]
  · simpa [spawned, hnew, Event.about, Status.phase] using .rootStarted

theorem told_step {l : Label σ V τ} (hi : Inv s) (ht : ∀ k, Told s k) (hstores : Stores P s l)
    (h : Steps P s l s') : ∀ k, Told s' k := by
  have hnew : s.history s.created = [] := by
    have := ht s.created
    rw [Told, hi.absent] at this
    generalize s.history s.created = past, (s.frames s.created).parent = parent at this ⊢
    cases this
    rfl
  cases h with
  | start hstack => exact told_spawned ht hnew _ _
  | compute hstack hrun hact => exact told_local ht rfl rfl rfl
  | ask hstack hrun hact => exact told_local ht rfl rfl rfl
  | @create _ _ h _ body k hstack hrun hact =>
    have hcall : ∀ k, Told ({s with created := s.created + 1}.modify s.created fun _ =>
        ⟨.initial, body, none, none, [], some h⟩) k := by
      refine told_one ht s.created [] (List.append_nil _).symm ?_ ?_ ?_
      · intro k hk
        simp [Function.update_of_ne hk]
      · exact fun _ _ => rfl
      · simpa [hnew, Status.phase] using .initial
    exact told_local hcall rfl rfl rfl
  | move hstack hrun hact htask => exact told_local ht rfl rfl rfl
  | dropEmpty hstack hrun hact htask => exact told_local ht rfl rfl rfl
  | @drop _ _ h _ _ _ g hstack hrun hact htask hcallee =>
    have hgh : g ≠ h := ne_of_active (by rw [hrun]; rfl) hcallee
    have hparent := hi.local_parent (List.mem_of_getElem? htask)
    exact told_drop ht hgh hparent hcallee rfl rfl rfl
  | @awaitReady _ _ h _ _ g v hstack hrun hact htask hcallee hvalue =>
    have hgh : g ≠ h := ne_of_active (by rw [hrun]; rfl) (.inr hcallee)
    have hparent := hi.local_parent (List.mem_of_getElem? htask)
    have hg := ht g
    rw [Told, hparent, hcallee, hvalue] at hg
    refine told_one ht g _ rfl ?_ ?_ ?_
    · intro k hk
      rw [modify_frames]
      exact life_update _ _ (by rfl) k
    · intro k hk
      simp [Event.about, Ne.symm hk]
    · simp only [modify_frames, emit_frames, Function.update_of_ne hgh, hparent, hcallee, hvalue]
      generalize s.history g = past at hg ⊢
      cases hg with
      | final again =>
        have hagain : awaited h g v again ++ [.obtained h g v] =
            (awaited h g v (again + 1) : List (Event V Op τ)) := by
          rw [awaited, awaited, List.append_assoc, ← List.replicate_succ']
        simpa [Event.about, hagain] using .final (again + 1)
  | @awaitLost _ _ h _ _ g hstack hrun hact htask hcallee hvalue =>
    have hg := ht g
    rw [Told, hi.local_parent (List.mem_of_getElem? htask), hcallee, hvalue] at hg
    cases hg
  | @awaitSuspend _ _ h _ _ g hstack hrun hact htask hcallee =>
    have hgh : g ≠ h := ne_of_active (by rw [hrun]; rfl) (.inl hcallee)
    have hparent := hi.local_parent (List.mem_of_getElem? htask)
    have hg := ht g
    rw [Told, hparent, hcallee] at hg
    refine told_one ht g [.suspended h g, .resumed g .initial] ?_ ?_ ?_ ?_
    · simp
    · intro k hk
      simp only [modify_frames, emit_frames, setStack_frames, Function.update_of_ne hk]
      exact life_update _ _ (by simp only [Frame.life, hrun, Status.phase]) k
    · intro k hk
      simp [Event.about, Ne.symm hk]
    · simp only [modify_frames, emit_frames, setStack_frames, Function.update_self,
        Function.update_of_ne hgh, hparent]
      generalize s.history g = past at hg ⊢
      cases hg
      simpa [Event.about] using .started
  | @leaf _ _ h _ op hstack hrun hact =>
    rw [returnTo_eq]
    refine told_silent ht [.initiated h op] rfl ?_ (fun _ => rfl)
    intro k
    refine (wake_life (hi.below hstack _) k).trans (life_update _ _ ?_ k)
    simp only [Frame.life, hrun, Status.phase]
  | @spawn t _ h _ body k hstack hrun hact =>
    have hnested : ∀ j, Told (s.modify h fun fr => {fr with status := .nested t, body := k}) j :=
      told_local ht rfl rfl (by simp only [Frame.life, hrun, Status.phase])
    exact told_spawned hnested hnew t body
  | @ret t _ h _ e hstack hrun hact =>
    have hacting := acting_running (P := P) hstack hrun
    rw [hact] at hacting
    have hstored := hstores h e hacting
    have hh := ht h
    rw [Told, hrun] at hh
    refine told_one ht h _ rfl ?_ ?_ ?_
    · intro k hk
      simp [Function.update_of_ne hk]
    · intro k hk
      simp [Event.about, Ne.symm hk]
    · simp only [modify_frames, emit_frames, Function.update_self]
      generalize s.history h = past, (s.frames h).parent = parent at hh hstored ⊢
      cases hh with
      | started =>
        rw [hstored nofun]
        simpa [Event.about] using .returned
      | rootStarted => simpa [Event.about] using .rootReturned
  | throw hstack hrun hact => exact ht
  | leaveEmpty hstack hrun htask => exact told_local ht rfl rfl rfl
  | @leaveDrop _ _ h _ tasks g hstack hrun htask hcallee =>
    have hgh : g ≠ h := ne_of_active (by rw [hrun]; rfl) hcallee
    have hparent := hi.local_parent (g := g) (by rw [htask]; exact List.mem_cons_self ..)
    exact told_drop ht hgh hparent hcallee rfl rfl rfl
  | @finalResume t _ h rest c v hstack hrun htask hparent hcaller hvalue =>
    have hch : c ≠ h := ne_of_leaving hrun hcaller
    have hh := ht h
    rw [Told, hrun, hparent, hvalue] at hh
    refine told_one ht h [.resumed c (.awaiting h), .obtained c h v] ?_ ?_ ?_ ?_
    · simp
    · intro k hk
      simp only [modify_frames, emit_frames, setStack_frames, Function.update_of_ne hch]
      by_cases hk' : k = c
      · subst hk'
        simp only [Function.update_self, Frame.life, hcaller, Status.phase]
      · rw [Function.update_of_ne hk', Function.update_of_ne hk]
    · intro k hk
      simp [Event.about, Ne.symm hk]
    · simp only [modify_frames, emit_frames, setStack_frames, Function.update_of_ne hch.symm,
        Function.update_self, hparent, hvalue]
      generalize s.history h = past at hh ⊢
      cases hh
      simpa [Event.about, awaited] using .final 0
  | @finalLost t _ h rest c hstack hrun htask hparent hcaller hvalue =>
    have hh := ht h
    rw [Told, hrun, hparent, hvalue] at hh
    cases hh
  | @finalDestroy t _ h rest hstack hrun htask hparent =>
    have hh := ht h
    rw [Told, hrun, hparent] at hh
    have hbelow : ∀ g ∈ rest, g ≠ h := fun g hg he => hi.threads.head_not_mem hstack (he ▸ hg)
    rw [returnTo_eq]
    refine told_one ht h [.destroyed h .final] rfl ?_ ?_ ?_
    · intro k hk
      refine (wake_life (hi.below hstack _) k).trans ?_
      rw [emit_frames, modify_frames, Function.update_of_ne hk]
    · intro k hk
      simp [Event.about, Ne.symm hk]
    · have hself : wake ((s.modify h fun fr => {fr with status := .destroyed}).emit
          (.destroyed h .final)) t rest h = {s.frames h with status := .destroyed} := by
        rw [wake, if_neg]
        · simp
        · exact fun he => hbelow h (List.mem_of_mem_head? he) rfl
      simp only [hself, hparent]
      generalize s.history h = past, (s.frames h).value = value at hh ⊢
      cases hh
      simpa [Event.about] using .rootEnded
  | @complete t h op v hstack hop hleaf =>
    refine told_silent ht [.completed h op v, .resumed h (.leaf op)] ?_ ?_ (fun _ => rfl)
    · simp
    · intro k
      exact life_update _ _ (by simp only [Frame.life, hleaf, Status.phase]) k

/-! ### The law -/

theorem resumed_step {l : Label σ V τ} (h : Steps P s l s')
    (hr : ∀ k was, .resumed k was ∈ s.log → was.suspended = true) :
    ∀ k was, .resumed k was ∈ s'.log → was.suspended = true := by
  intro k was hm
  cases h with
  | leaf hstack hrun hact =>
    rw [returnTo_eq] at hm
    have : .resumed k was ∈ s.log ++ [.initiated _ _] := hm
    exact hr k was (by simpa using this)
  | finalDestroy hstack hrun htask hparent =>
    rw [returnTo_eq] at hm
    have : .resumed k was ∈ s.log ++ [.destroyed _ .final] := hm
    exact hr k was (by simpa using this)
  | throw | awaitLost => exact hr k was hm
  | _ =>
    simp only [spawned, halt_log, setStack_log, emit_log, modify_log, List.mem_append, List.mem_singleton,
      Event.resumed.injEq, reduceCtorEq, or_false] at hm
    first
    | exact hr k was hm
    | rcases hm with hm | ⟨-, rfl⟩
      · exact hr k was hm
      · rfl

/-- What no operand can change. -/
structure Controlled (s : State σ V Op G τ) : Prop where
  /-- No step was undefined behaviour. -/
  defined : s.halted ≠ some .undefined
  /-- A frame is resumed only while it is suspended and not finished. -/
  resumed : ∀ k was, .resumed k was ∈ s.log → was.suspended = true
  /-- A frame is suspended in `co_await` of `g` from then on until `g` has finished. -/
  awaiting : ∀ f g, (s.frames f).status = .awaiting g ↔ (s.frames g).parent = some f ∧
    ((s.frames g).status.phase = .started ∨ (s.frames g).status.phase = .returned)
  /-- No frame is left when no thread runs and nothing is outstanding. -/
  complete : (∀ t, s.stackOf t = []) → s.pending = [] →
    ∀ k, k < s.created → (s.frames k).status = .destroyed

/-- What control does, with the reasons for it. -/
structure Accounted (s : State σ V Op G τ) : Prop where
  inv : Inv s
  resumed : ∀ k was, .resumed k was ∈ s.log → was.suspended = true

omit [DecidableEq τ] in
theorem Accounted.controlled (ha : Accounted s) : Controlled s :=
  ⟨ha.inv.defined, ha.resumed, ha.inv.awaiting_iff, fun hidle hpending _ => ha.inv.all_destroyed hidle hpending⟩

omit [DecidableEq τ] in
theorem accounted_empty [Inhabited σ] (g : G) : Accounted (State.empty g : State σ V Op G τ) :=
  ⟨inv_empty g, fun _ _ hm => absurd hm List.not_mem_nil⟩

theorem accounted_step {l : Label σ V τ} (ha : Accounted s) (h : step P s l = some s') : Accounted s' := by
  have hsteps := step_cases ha.inv h
  exact ⟨steps_inv ha.inv hsteps, resumed_step hsteps ha.resumed⟩

/-- Whatever the bodies do and return, on however many threads and in whatever order operations
complete, control passes as it should. -/
theorem reachable_controlled [Inhabited σ] (P : Program σ E V Op G) (g : G) {s : State σ V Op G τ}
    (h : (machine P).Reaches (State.empty g) s) : Controlled s := by
  have ha : Accounted s := h.invariant (fun _ _ _ => accounted_step) (accounted_empty g)
  exact ha.controlled

end ExploreCpp.Runtime
