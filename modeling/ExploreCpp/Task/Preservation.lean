import ExploreCpp.Task.Invariant
import Mathlib.Data.List.Perm.Basic

/-! Every step of the coroutine runtime keeps its invariant. -/
namespace ExploreCpp.Runtime
open Forest (WellOwned)
open Stacks (WellStacked)
open Ledger (Balanced)

variable {σ E V Op G τ : Type}

/-- A change of a frame that one of its views does not see. -/
theorem view_unchanged {α : Type} (view : Frame σ V Op τ → α) (F : Handle → Frame σ V Op τ)
    (h : Handle) {fr : Frame σ V Op τ} (hv : view fr = view (F h)) :
    view ∘ Function.update F h fr = view ∘ F := by
  rw [Function.comp_update, hv]
  exact Function.update_eq_self h (view ∘ F)

theorem view_unchanged_two {α : Type} (view : Frame σ V Op τ → α) (F : Handle → Frame σ V Op τ)
    {h g : Handle} {fr fr' : Frame σ V Op τ} (hgh : g ≠ h) (hv : view fr = view (F h))
    (hv' : view fr' = view (F g)) :
    view ∘ Function.update (Function.update F h fr) g fr' = view ∘ F := by
  rw [view_unchanged view _ g, view_unchanged view F h hv]
  rw [Function.update_of_ne hgh, hv']

theorem frames_update {Q : Frame σ V Op τ → Prop} {F : Handle → Frame σ V Op τ} (hF : ∀ h, Q (F h))
    (h : Handle) {fr : Frame σ V Op τ} (hfr : Q fr) : ∀ k, Q (Function.update F h fr k) := by
  intro k
  rw [Function.update_apply]
  split
  · exact hfr
  · exact hF k

theorem Frame.reports_of {f : Frame σ V Op τ} (h : f.caller = f.parent) : f.Reports := fun _ => h

theorem Frame.reports_idle {f : Frame σ V Op τ} (h : f.status.stage ≠ .active) : f.Reports :=
  fun hactive => absurd hactive h

variable {s s' : State σ V Op G τ}

/-- A body that has returned has left its value. -/
def Frame.Stored (f : Frame σ V Op τ) : Prop := f.status.hasReturned = true → f.value ≠ none

def Stored (s : State σ V Op G τ) : Prop := ∀ h, (s.frames h).Stored

theorem stored_empty [Inhabited σ] (g : G) : Stored (State.empty g : State σ V Op G τ) := by
  intro h hreturned
  cases hreturned

/-! ### The frame below comes to the top -/

section Wake
variable {t : τ} {rest : List Handle} (hrest : ∀ g ∈ rest, (s.frames g).status = .nested t)
include hrest

theorem wake_node : Frame.node ∘ wake s t rest = Frame.node ∘ s.frames := by
  funext g
  simp only [Function.comp_apply, wake]
  split
  · rename_i hg
    rw [Frame.node, Frame.node, hrest g (List.mem_of_mem_head? hg)]
    rfl
  · rfl

theorem wake_operation : Frame.operation ∘ wake s t rest = Frame.operation ∘ s.frames := by
  funext g
  simp only [Function.comp_apply, wake]
  split
  · rename_i hg
    rw [Frame.operation, Frame.operation, hrest g (List.mem_of_mem_head? hg)]
    rfl
  · rfl

theorem wake_all {Q : Frame σ V Op τ → Prop}
    (hwake : ∀ f, f.status = .nested t → Q f → Q {f with status := .running t})
    (hs : ∀ h, Q (s.frames h)) : ∀ h, Q (wake s t rest h) := by
  intro g
  simp only [wake]
  split
  · rename_i hg
    exact hwake _ (hrest g (List.mem_of_mem_head? hg)) (hs g)
  · exact hs g

theorem wake_reports (hs : ∀ h, (s.frames h).Reports) : ∀ h, (wake s t rest h).Reports := by
  refine wake_all hrest ?_ hs
  intro f hnested hf _
  exact hf (by rw [hnested]; rfl)

omit hrest in
theorem wake_place : Frame.place ∘ wake s t rest =
    Stacks.uncover (Frame.place ∘ s.frames) t rest := by
  funext g
  simp only [Function.comp_apply, wake, Stacks.uncover]
  split <;> rfl

end Wake

/-! ### The forest -/

/-- Dropping the `i`-th local takes its handle out of the locals. -/
theorem held_eraseIdx {f : Frame σ V Op τ} {i : Nat} {g : Handle} (hi : f.tasks[i]? = some ⟨some g⟩) :
    f.node.held.reduceOption.Perm (g :: ((f.tasks.eraseIdx i).map Task.handle).reduceOption) := by
  obtain ⟨hlt, hget⟩ := List.getElem?_eq_some_iff.mp hi
  have hperm := (List.getElem_cons_eraseIdx_perm hlt).symm
  rw [hget] at hperm
  exact (hperm.map Task.handle).filterMap id

theorem held_eraseIdx_none {f : Frame σ V Op τ} {i : Nat} (hi : f.tasks[i]? = some ⟨none⟩) :
    ((f.tasks.eraseIdx i).map Task.handle).reduceOption.Perm f.node.held.reduceOption := by
  obtain ⟨hlt, hget⟩ := List.getElem?_eq_some_iff.mp hi
  have hperm := List.getElem_cons_eraseIdx_perm hlt
  rw [hget] at hperm
  exact (hperm.map Task.handle).filterMap id

/-- A move construction passes the handle on. -/
theorem held_move {f : Frame σ V Op τ} {i : Nat} {other : Task} (hi : f.tasks[i]? = some other) :
    ((⟨other.handle⟩ :: f.tasks.set i ⟨none⟩ : List Task).map Task.handle).reduceOption.Perm
      f.node.held.reduceOption := by
  obtain ⟨hlt, hget⟩ := List.getElem?_eq_some_iff.mp hi
  have hset := List.set_perm_cons_eraseIdx hlt (⟨none⟩ : Task)
  have hperm := List.getElem_cons_eraseIdx_perm hlt
  rw [hget] at hperm
  have hnone := (hset.map Task.handle).filterMap id
  exact ((hset.cons ⟨other.handle⟩).map Task.handle).filterMap id |>.trans
    ((hperm.map Task.handle).filterMap id)

/-- The frames below the top one wait inside `spawn`. -/
theorem Inv.below (hi : Inv s) {t : τ} {h : Handle} {rest : List Handle}
    (hstack : s.stackOf t = h :: rest) (fr : Frame σ V Op τ) :
    ∀ g ∈ rest, (Function.update s.frames h fr g).status = .nested t := by
  intro g hg
  have hgh : g ≠ h := fun he => hi.threads.head_not_mem hstack (he ▸ hg)
  rw [Function.update_of_ne hgh]
  exact Status.place_below.mp (hi.threads.tail t h rest hstack g hg)

theorem Inv.active_node {s : State σ V Op G τ} {h : Handle} {t : τ}
    (hrun : (s.frames h).status = .running t ∨ (s.frames h).status = .leaving t) :
    ((Frame.node ∘ s.frames) h).stage = .active ∧ ((Frame.node ∘ s.frames) h).waits = none := by
  rcases hrun with hrun | hrun <;>
    simp [Frame.node, hrun, Status.stage, Status.callee]

theorem node_destroyed {f : Frame σ V Op τ} (hf : f.status.callee = none) :
    Frame.node ({f with status := .destroyed} : Frame σ V Op τ) = {f.node with stage := .dead} := by
  show (⟨.dead, f.parent, f.tasks.map Task.handle, none⟩ : Forest.Node) = _
  rw [← hf]
  rfl

theorem idle_callee {f : Frame σ V Op τ} (hf : f.status = .initial ∨ f.status = .final) :
    f.status.callee = none := by
  rcases hf with hf | hf <;> rw [hf] <;> rfl

theorem Inv.not_new (hi : Inv s) {h : Handle} {t : τ} (hrun : (s.frames h).status = .running t) :
    h ≠ s.created := by
  rintro rfl
  rw [hi.absent] at hrun
  cases hrun

theorem Inv.off (hi : Inv s) : (Frame.place ∘ s.frames) s.created = .off := by
  show (s.frames s.created).status.place = .off
  rw [hi.absent]
  rfl

theorem place_idle {f : Frame σ V Op τ} (hf : f.status = .initial ∨ f.status = .final) :
    f.place = .off := by
  rw [Frame.place]
  rcases hf with hf | hf <;> rw [hf] <;> rfl

theorem operation_idle {f : Frame σ V Op τ} (hf : f.status = .initial ∨ f.status = .final) :
    f.operation = none := by
  rw [Frame.operation]
  rcases hf with hf | hf <;> rw [hf] <;> rfl

theorem operation_top {f : Frame σ V Op τ} {t : τ}
    (hf : f.status = .running t ∨ f.status = .leaving t) : f.operation = none := by
  rw [Frame.operation]
  rcases hf with hf | hf <;> rw [hf] <;> rfl

variable [DecidableEq τ] {P : Program σ E V Op G}

theorem steps_forest {l : Label σ V τ} (hi : Inv s) (h : Steps P s l s') :
    WellOwned s'.created (Frame.node ∘ s'.frames) := by
  cases h with
  | start hstack =>
    simpa [spawned, Function.comp_update, Frame.node, Status.stage, Status.callee]
      using hi.forest.plantRoot
  | compute | ask | awaitReady =>
    rw [modify_frames, view_unchanged Frame.node _ _ (by rfl)]
    exact hi.forest
  | create hstack hrun hact =>
    have := hi.forest.plant (Inv.active_node (.inl hrun)).1
    simpa [Function.comp_update, Frame.node, Status.stage, Status.callee,
      Function.update_of_ne (hi.not_new hrun)] using this
  | move hstack hrun hact htask =>
    have := hi.forest.rearrange (Inv.active_node (.inl hrun)).1 (held_move htask)
    simpa [Function.comp_update, Frame.node] using this
  | dropEmpty hstack hrun hact htask =>
    have := hi.forest.rearrange (Inv.active_node (.inl hrun)).1 (held_eraseIdx_none htask)
    simpa [Function.comp_update, Frame.node] using this
  | @drop _ _ h _ _ _ g hstack hrun hact htask hcallee =>
    obtain ⟨hactive, hwaits⟩ := Inv.active_node (.inl hrun)
    have hgh : g ≠ h := ne_of_active (by rw [hrun]; rfl) hcallee
    have := hi.forest.fell hactive (by rw [hwaits]; simp) (held_eraseIdx htask)
    simp only [modify_frames, emit_frames, Function.update_of_ne hgh, Function.comp_update,
      node_destroyed (idle_callee hcallee)]
    exact this
  | @awaitSuspend _ _ h _ _ g hstack hrun hact htask hcallee =>
    obtain ⟨hactive, hwaits⟩ := Inv.active_node (.inl hrun)
    have hgh : g ≠ h := ne_of_active (by rw [hrun]; rfl) (.inl hcallee)
    have := hi.forest.await hactive hwaits (mem_held.mpr (List.mem_of_getElem? htask))
      (show (s.frames g).status.stage = .fresh by rw [hcallee]; rfl)
    simpa [Function.comp_update, Frame.node, Function.update_of_ne hgh, Status.stage,
      Status.callee, hcallee, hrun] using this
  | leaf hstack hrun hact =>
    rw [returnTo_eq]
    show WellOwned s.created (Frame.node ∘ wake _ _ _)
    rw [wake_node (hi.below hstack _), emit_frames, modify_frames, view_unchanged Frame.node]
    · exact hi.forest
    · simp only [Frame.node, hrun, Status.stage, Status.callee]
  | @spawn t _ h _ body k hstack hrun hact =>
    have hsame : Frame.node ∘ Function.update s.frames h
        {s.frames h with status := .nested t, body := k} = Frame.node ∘ s.frames :=
      view_unchanged Frame.node _ _ (by simp only [Frame.node, hrun, Status.stage, Status.callee])
    have := hi.forest.plantRoot
    rw [← hsame] at this
    simpa [spawned, Function.comp_update, Frame.node, Status.stage, Status.callee] using this
  | ret hstack hrun hact =>
    rw [modify_frames, view_unchanged Frame.node]
    · exact hi.forest
    · simp only [Frame.node, emit_frames, hrun, Status.stage, Status.callee]
  | throw | awaitLost => exact hi.forest
  | leaveEmpty hstack hrun htask =>
    have := hi.forest.rearrange (Inv.active_node (.inr hrun)).1
      (held_eraseIdx_none (i := 0) (by rw [htask]; rfl))
    simpa [htask, Function.comp_update, Frame.node] using this
  | @leaveDrop _ _ h _ tasks g hstack hrun htask hcallee =>
    obtain ⟨hactive, hwaits⟩ := Inv.active_node (.inr hrun)
    have hgh : g ≠ h := ne_of_active (by rw [hrun]; rfl) hcallee
    have := hi.forest.fell hactive (by rw [hwaits]; simp)
      (held_eraseIdx (i := 0) (g := g) (by rw [htask]; rfl))
    rw [htask, List.eraseIdx_zero, List.tail_cons] at this
    simp only [modify_frames, emit_frames, Function.update_of_ne hgh, Function.comp_update,
      node_destroyed (idle_callee hcallee)]
    exact this
  | finalResume hstack hrun htask hparent hcaller | finalLost hstack hrun htask hparent hcaller =>
    obtain ⟨hactive, hwaits⟩ := Inv.active_node (.inr hrun)
    have hch := ne_of_leaving hrun hcaller
    have := hi.forest.finish hactive hparent (by simp [Frame.node, htask]) hwaits
    simpa [Function.comp_update, Frame.node, Function.update_of_ne hch, Status.stage, Status.callee,
      hcaller, hrun] using this
  | finalDestroy hstack hrun htask hparent =>
    obtain ⟨hactive, hwaits⟩ := Inv.active_node (.inr hrun)
    have := hi.forest.fellRoot hactive hparent (by simp [Frame.node, htask]) hwaits
    rw [returnTo_eq]
    show WellOwned s.created (Frame.node ∘ wake _ _ _)
    rw [wake_node (hi.below hstack _), emit_frames, modify_frames, Function.comp_update]
    simpa [Frame.node, hrun, Status.stage, Status.callee] using this
  | complete hstack hop hleaf =>
    simp only [setStack_frames, setStack_created, emit_frames, emit_created, modify_frames]
    rw [view_unchanged Frame.node]
    · exact hi.forest
    · simp only [Frame.node, hleaf, Status.stage, Status.callee]

/-! ### The stacks -/

theorem steps_threads {l : Label σ V τ} (hi : Inv s) (h : Steps P s l s') :
    WellStacked s'.stackOf (Frame.place ∘ s'.frames) := by
  have hthreads := hi.threads
  cases h with
  | start hstack =>
    have := hthreads.begin hstack hi.off
    simpa [spawned, Function.comp_update, Frame.place, Status.place, hstack] using this
  | compute | ask | move | dropEmpty | awaitReady | leaveEmpty =>
    rw [modify_frames, view_unchanged Frame.place _ _ (by rfl)]
    exact hthreads
  | @create _ _ h _ _ _ hstack hrun hact =>
    rw [modify_frames, view_unchanged Frame.place _ _ (by rfl), modify_frames,
      view_unchanged Frame.place]
    · exact hthreads
    · exact hi.off.symm
  | @drop _ _ h _ _ _ g hstack hrun hact htask hcallee =>
    have hgh : g ≠ h := ne_of_active (by rw [hrun]; rfl) hcallee
    simp only [modify_frames, emit_frames, Function.update_of_ne hgh]
    rw [view_unchanged_two Frame.place _ hgh]
    · exact hthreads
    · rfl
    · exact (place_idle hcallee).symm
  | @awaitSuspend _ _ h _ _ g hstack hrun hact htask hcallee =>
    have hgh : g ≠ h := ne_of_active (by rw [hrun]; rfl) (.inl hcallee)
    have := hthreads.replace hstack (a := g) (place_idle (.inl hcallee))
    simpa [Function.comp_update, Frame.place, Status.place] using this
  | leaf hstack hrun hact =>
    have := hthreads.pop hstack
    rw [returnTo_eq]
    show WellStacked _ (Frame.place ∘ wake _ _ _)
    rw [wake_place, emit_frames, modify_frames, Function.comp_update]
    exact this
  | spawn hstack hrun hact =>
    have := hthreads.push hstack hi.off
    simpa [spawned, Function.comp_update, Frame.place, Status.place, hstack] using this
  | ret hstack hrun hact =>
    rw [modify_frames, view_unchanged Frame.place]
    · exact hthreads
    · simp only [Frame.place, emit_frames, hrun, Status.place]
  | throw | awaitLost => exact hthreads
  | @leaveDrop _ _ h _ tasks g hstack hrun htask hcallee =>
    have hgh : g ≠ h := ne_of_active (by rw [hrun]; rfl) hcallee
    simp only [modify_frames, emit_frames, Function.update_of_ne hgh]
    rw [view_unchanged_two Frame.place _ hgh]
    · exact hthreads
    · rfl
    · exact (place_idle hcallee).symm
  | @finalResume _ _ _ _ c _ hstack hrun htask hparent hcaller
  | @finalLost _ _ _ _ c hstack hrun htask hparent hcaller =>
    have hc : (Frame.place ∘ s.frames) c = .off := by
      show (s.frames c).status.place = .off
      rw [hcaller]
      rfl
    have := hthreads.replace hstack hc
    simpa [Function.comp_update, Frame.place, Status.place] using this
  | finalDestroy hstack hrun htask hparent =>
    have := hthreads.pop hstack
    rw [returnTo_eq]
    show WellStacked _ (Frame.place ∘ wake _ _ _)
    rw [wake_place, emit_frames, modify_frames, Function.comp_update]
    exact this
  | @complete t h op v hstack hop hleaf =>
    have hc : (Frame.place ∘ s.frames) h = .off := by
      show (s.frames h).status.place = .off
      rw [hleaf]
      rfl
    have := hthreads.begin hstack hc
    simpa [Function.comp_update, Frame.place, Status.place] using this

/-! ### The outstanding operations -/

theorem steps_operations {l : Label σ V τ} (hi : Inv s) (h : Steps P s l s') :
    Balanced s'.pending (Frame.operation ∘ s'.frames) := by
  have hoperations := hi.operations
  have hnew : (s.frames s.created).operation = none := by
    rw [Frame.operation, hi.absent]
    rfl
  cases h with
  | start hstack =>
    simp only [spawned, setStack_frames, setStack_pending, emit_frames, emit_pending, modify_frames]
    rw [view_unchanged Frame.operation]
    · exact hoperations
    · exact hnew.symm
  | compute | ask | move | dropEmpty | awaitReady | leaveEmpty =>
    rw [modify_frames, view_unchanged Frame.operation _ _ (by rfl)]
    exact hoperations
  | create hstack hrun hact =>
    rw [modify_frames, view_unchanged Frame.operation _ _ (by rfl), modify_frames,
      view_unchanged Frame.operation]
    · exact hoperations
    · exact hnew.symm
  | @drop _ _ h _ _ _ g hstack hrun hact htask hcallee =>
    have hgh : g ≠ h := ne_of_active (by rw [hrun]; rfl) hcallee
    simp only [modify_frames, emit_frames, Function.update_of_ne hgh]
    rw [view_unchanged_two Frame.operation _ hgh]
    · exact hoperations
    · rfl
    · exact (operation_idle hcallee).symm
  | @awaitSuspend _ _ h _ _ g hstack hrun hact htask hcallee =>
    have hgh : g ≠ h := ne_of_active (by rw [hrun]; rfl) (.inl hcallee)
    simp only [setStack_frames, emit_frames, modify_frames]
    rw [view_unchanged_two Frame.operation _ hgh]
    · exact hoperations
    · exact (operation_top (.inl hrun)).symm
    · exact (operation_idle (.inl hcallee)).symm
  | @leaf _ _ h _ op hstack hrun hact =>
    have := hoperations.enter (k := h) op (operation_top (.inl hrun))
    rw [returnTo_eq]
    show Balanced _ (Frame.operation ∘ wake _ _ _)
    rw [wake_operation (hi.below hstack _), emit_frames, modify_frames, Function.comp_update]
    exact this
  | spawn hstack hrun hact =>
    simp only [spawned, setStack_frames, setStack_pending, emit_frames, emit_pending, modify_frames,
      modify_created, modify_pending]
    rw [view_unchanged_two Frame.operation _ (hi.not_new hrun).symm]
    · exact hoperations
    · exact (operation_top (.inl hrun)).symm
    · exact hnew.symm
  | ret hstack hrun hact =>
    rw [modify_frames, view_unchanged Frame.operation]
    · exact hoperations
    · exact (operation_top (.inl hrun)).symm
  | throw | awaitLost => exact hoperations
  | @leaveDrop _ _ h _ tasks g hstack hrun htask hcallee =>
    have hgh : g ≠ h := ne_of_active (by rw [hrun]; rfl) hcallee
    simp only [modify_frames, emit_frames, Function.update_of_ne hgh]
    rw [view_unchanged_two Frame.operation _ hgh]
    · exact hoperations
    · rfl
    · exact (operation_idle hcallee).symm
  | @finalResume _ _ h _ c _ hstack hrun htask hparent hcaller
  | @finalLost _ _ h _ c hstack hrun htask hparent hcaller =>
    have hch : c ≠ h := ne_of_leaving hrun hcaller
    simp only [halt_frames, halt_pending, setStack_frames, setStack_pending, emit_frames, emit_pending,
      modify_frames, modify_pending]
    have hc : (s.frames c).operation = none := by
      rw [Frame.operation, hcaller]
      rfl
    rw [view_unchanged_two Frame.operation _ hch]
    · exact hoperations
    · exact (operation_top (.inr hrun)).symm
    · exact hc.symm
  | finalDestroy hstack hrun htask hparent =>
    rw [returnTo_eq]
    show Balanced _ (Frame.operation ∘ wake _ _ _)
    rw [wake_operation (hi.below hstack _), emit_frames, modify_frames, view_unchanged Frame.operation]
    · exact hoperations
    · exact (operation_top (.inr hrun)).symm
  | @complete t h op v hstack hop hleaf =>
    have := hoperations.settle h
    simp only [setStack_frames, emit_frames, modify_frames, Function.comp_update]
    exact this

/-! ### The promises -/

theorem steps_reports {l : Label σ V τ} (hi : Inv s) (h : Steps P s l s') :
    ∀ k, (s'.frames k).Reports := by
  have hs := hi.reports
  have hrunning : ∀ {h : Handle} {t : τ}, (s.frames h).status = .running t →
      (s.frames h).caller = (s.frames h).parent := by
    intro h t hrun
    exact hs h (by rw [hrun]; rfl)
  cases h with
  | start hstack => exact frames_update hs _ (Frame.reports_of rfl)
  | compute | ask | move | dropEmpty | awaitReady | leaveEmpty =>
    refine frames_update hs _ ?_
    exact hs _
  | throw | awaitLost => exact hs
  | @create _ _ h _ body _ hstack hrun hact =>
    have hnew : Frame.Reports (⟨.initial, body, none, none, [], some h⟩ : Frame σ V Op τ) :=
      Frame.reports_idle nofun
    have hh := frames_update hs s.created hnew
    exact frames_update hh _ (hh h)
  | drop | leaveDrop =>
    refine frames_update (frames_update hs _ ?_) _ (Frame.reports_idle nofun)
    exact hs _
  | @awaitSuspend _ _ h _ _ g hstack hrun hact htask hcallee =>
    have hgh : g ≠ h := ne_of_active (by rw [hrun]; rfl) (.inl hcallee)
    have hh := hrunning hrun
    refine frames_update (frames_update hs h ?_) g (Frame.reports_of ?_)
    · exact Frame.reports_of hh
    · rw [modify_frames, Function.update_of_ne hgh]
      exact (hi.local_parent (List.mem_of_getElem? htask)).symm
  | @leaf _ _ h _ _ hstack hrun hact =>
    have hh := hrunning hrun
    rw [returnTo_eq]
    exact wake_reports (hi.below hstack _) (frames_update hs h (Frame.reports_of hh))
  | @spawn _ _ h _ _ _ hstack hrun hact =>
    have hh := hrunning hrun
    refine frames_update (frames_update hs h ?_) _ (Frame.reports_of rfl)
    exact Frame.reports_of hh
  | @ret _ _ h _ _ hstack hrun hact =>
    have hh := hrunning hrun
    exact frames_update hs h (Frame.reports_of hh)
  | @finalResume _ _ h _ c _ hstack hrun htask hparent hcaller
  | @finalLost _ _ h _ c hstack hrun htask hparent hcaller =>
    have hch : c ≠ h := ne_of_leaving hrun hcaller
    have hc : (s.frames c).caller = (s.frames c).parent := hs c (by rw [hcaller]; rfl)
    refine frames_update (frames_update hs h ?_) c (Frame.reports_of ?_)
    · exact Frame.reports_idle nofun
    · rw [modify_frames, Function.update_of_ne hch]
      exact hc
  | @finalDestroy _ _ h _ hstack hrun htask hparent =>
    rw [returnTo_eq]
    exact wake_reports (hi.below hstack _) (frames_update hs h (Frame.reports_idle nofun))
  | @complete t h op v hstack hop hleaf =>
    have hh : (s.frames h).caller = (s.frames h).parent := hs h (by rw [hleaf]; rfl)
    exact frames_update hs h (Frame.reports_of hh)

/-- Where every operand leaves a value, every body does. -/
theorem steps_stored (hP : ∀ e, P.returnValue e ≠ none) {l : Label σ V τ} (hi : Inv s) (hs : Stored s)
    (h : Steps P s l s') : Stored s' := by
  cases h with
  | start | complete => exact frames_update hs _ nofun
  | compute | ask | move | dropEmpty | awaitReady | leaveEmpty =>
    refine frames_update hs _ ?_
    exact hs _
  | throw | awaitLost => exact hs
  | @create _ _ h _ body _ hstack hrun hact =>
    have hnew : Frame.Stored (⟨.initial, body, none, none, [], some h⟩ : Frame σ V Op τ) := nofun
    have hh := frames_update hs s.created hnew
    exact frames_update hh _ (hh h)
  | drop | leaveDrop =>
    refine frames_update (frames_update hs _ ?_) _ nofun
    exact hs _
  | awaitSuspend =>
    refine frames_update (frames_update hs _ ?_) _ nofun
    exact nofun
  | leaf hstack hrun hact =>
    rw [returnTo_eq]
    exact wake_all (hi.below hstack _) (fun _ _ _ => nofun) (frames_update hs _ nofun)
  | spawn =>
    refine frames_update (frames_update hs _ ?_) _ nofun
    exact nofun
  | @ret _ _ h _ e hstack hrun hact => exact frames_update hs h fun _ => hP e
  | @finalResume _ _ h _ c _ hstack hrun | @finalLost _ _ h _ c hstack hrun =>
    have hh : (s.frames h).value ≠ none := hs h (by rw [hrun]; rfl)
    refine frames_update (frames_update hs h ?_) c nofun
    exact fun _ => hh
  | finalDestroy hstack hrun htask hparent =>
    rw [returnTo_eq]
    exact wake_all (hi.below hstack _) (fun _ _ _ => nofun) (frames_update hs _ nofun)

/-- A step halts the machine only for an exception: one that leaves a body, or that of a
promise without a value. -/
theorem steps_halted {l : Label σ V τ} (h : Steps P s l s') :
    s'.halted = s.halted ∨ s'.halted = some .terminate := by
  cases h with
  | throw | awaitLost | finalLost => exact .inr rfl
  | leaf hstack hrun hact =>
    left
    rw [returnTo_eq]
    rfl
  | finalDestroy hstack hrun htask hparent =>
    left
    rw [returnTo_eq]
    rfl
  | _ => exact .inl rfl

theorem steps_inv {l : Label σ V τ} (hi : Inv s) (h : Steps P s l s') : Inv s' where
  forest := steps_forest hi h
  threads := steps_threads hi h
  operations := steps_operations hi h
  reports := steps_reports hi h
  defined := by
    rcases steps_halted h with hh | hh
    · rw [hh]
      exact hi.defined
    · rw [hh]
      nofun

theorem step_inv {l : Label σ V τ} (hi : Inv s) (h : step P s l = some s') : Inv s' :=
  steps_inv hi (step_cases hi h)

/-- The invariant holds in every state that a run can reach. -/
theorem reachable_inv [Inhabited σ] {g : G} (h : (machine P).Reaches (State.empty g) s) : Inv s :=
  h.invariant (fun _ _ _ => step_inv) (inv_empty g)

end ExploreCpp.Runtime
