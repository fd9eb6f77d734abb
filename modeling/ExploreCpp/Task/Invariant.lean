import ExploreCpp.Forest
import ExploreCpp.Ledger
import ExploreCpp.Stacks
import ExploreCpp.Task.Runtime

/-! The invariant of the coroutine runtime, and what one step does under it.

The frames form an ownership forest (`Forest.WellOwned`): a frame owns those its
body has called, through its `Task` locals, and waits for at most one of them. The
threads' stacks hold the frames that are not suspended (`Stacks.WellStacked`), and
the outstanding operations are those of the frames suspended in one
(`Ledger.Balanced`). Under this invariant no branch of `step` that halts for
undefined behaviour is taken, and `Steps` lists what a step does without them. -/
namespace ExploreCpp.Runtime

open Forest (Stage Node WellOwned)
open Stacks (Place WellStacked)
open Ledger (Balanced)

namespace Status
variable {Op τ : Type}

def stage : Status Op τ → Stage
  | absent => .unborn
  | initial => .fresh
  | running _ | leaving _ | nested _ | awaiting _ | leaf _ => .active
  | final => .done
  | destroyed => .dead

def callee : Status Op τ → Option Handle
  | awaiting g => some g
  | _ => none

def place : Status Op τ → Place τ
  | running t | leaving t => .top t
  | nested t => .below t
  | _ => .off

def operation : Status Op τ → Option Op
  | leaf op => some op
  | _ => none

/-- Suspended and not finished: what `resume()` asks for. -/
def suspended : Status Op τ → Bool
  | initial | awaiting _ | leaf _ => true
  | _ => false

def hasReturned : Status Op τ → Bool
  | leaving _ | final => true
  | _ => false

theorem callee_eq {s : Status Op τ} {g : Handle} : s.callee = some g ↔ s = awaiting g := by
  cases s <;> simp [callee]

theorem place_top {s : Status Op τ} {t : τ} : s.place = .top t ↔ s = running t ∨ s = leaving t := by
  cases s <;> simp [place]

theorem place_below {s : Status Op τ} {t : τ} : s.place = .below t ↔ s = nested t := by
  cases s <;> simp [place]

theorem operation_eq {s : Status Op τ} {op : Op} : s.operation = some op ↔ s = leaf op := by
  cases s <;> simp [operation]

theorem stage_unborn {s : Status Op τ} : s.stage = .unborn ↔ s = absent := by
  cases s <;> simp [stage]

theorem stage_fresh {s : Status Op τ} : s.stage = .fresh ↔ s = initial := by
  cases s <;> simp [stage]

theorem stage_done {s : Status Op τ} : s.stage = .done ↔ s = final := by
  cases s <;> simp [stage]

end Status

variable {σ E V Op G τ : Type}

def Frame.node (f : Frame σ V Op τ) : Node :=
  ⟨f.status.stage, f.parent, f.tasks.map Task.handle, f.status.callee⟩

def Frame.place (f : Frame σ V Op τ) : Place τ := f.status.place

def Frame.operation (f : Frame σ V Op τ) : Option Op := f.status.operation

/-- What the promise of an active frame says: it reports to the frame that called it. -/
def Frame.Reports (f : Frame σ V Op τ) : Prop := f.status.stage = .active → f.caller = f.parent

structure Inv (s : State σ V Op G τ) : Prop where
  forest : WellOwned s.created (Frame.node ∘ s.frames)
  threads : WellStacked s.stackOf (Frame.place ∘ s.frames)
  operations : Balanced s.pending (Frame.operation ∘ s.frames)
  reports : ∀ h, (s.frames h).Reports
  defined : s.halted ≠ some .undefined

theorem inv_empty [Inhabited σ] (g : G) : Inv (State.empty g : State σ V Op G τ) where
  forest := Forest.wellOwned_empty
  threads := Stacks.wellStacked_empty
  operations := Ledger.balanced_empty
  reports := fun _ => nofun
  defined := nofun

/-! ### What one step does -/

section Fields
variable (s : State σ V Op G τ) (h : Handle) (f : Frame σ V Op τ → Frame σ V Op τ)

@[simp] theorem modify_frames : (s.modify h f).frames = Function.update s.frames h (f (s.frames h)) := rfl
@[simp] theorem modify_created : (s.modify h f).created = s.created := rfl
@[simp] theorem modify_stackOf : (s.modify h f).stackOf = s.stackOf := rfl
@[simp] theorem modify_pending : (s.modify h f).pending = s.pending := rfl
@[simp] theorem modify_shared : (s.modify h f).shared = s.shared := rfl
@[simp] theorem modify_log : (s.modify h f).log = s.log := rfl
@[simp] theorem modify_halted : (s.modify h f).halted = s.halted := rfl

variable (e : Event V Op τ)

@[simp] theorem emit_frames : (s.emit e).frames = s.frames := rfl
@[simp] theorem emit_created : (s.emit e).created = s.created := rfl
@[simp] theorem emit_stackOf : (s.emit e).stackOf = s.stackOf := rfl
@[simp] theorem emit_pending : (s.emit e).pending = s.pending := rfl
@[simp] theorem emit_shared : (s.emit e).shared = s.shared := rfl
@[simp] theorem emit_log : (s.emit e).log = s.log ++ [e] := rfl
@[simp] theorem emit_halted : (s.emit e).halted = s.halted := rfl

variable (why : Halt)

@[simp] theorem halt_frames : (s.halt why).frames = s.frames := rfl
@[simp] theorem halt_created : (s.halt why).created = s.created := rfl
@[simp] theorem halt_stackOf : (s.halt why).stackOf = s.stackOf := rfl
@[simp] theorem halt_pending : (s.halt why).pending = s.pending := rfl
@[simp] theorem halt_shared : (s.halt why).shared = s.shared := rfl
@[simp] theorem halt_log : (s.halt why).log = s.log := rfl
@[simp] theorem halt_halted : (s.halt why).halted = some why := rfl

variable [DecidableEq τ] (t : τ) (stack : List Handle)

@[simp] theorem setStack_frames : (s.setStack t stack).frames = s.frames := rfl
@[simp] theorem setStack_created : (s.setStack t stack).created = s.created := rfl
@[simp] theorem setStack_stackOf : (s.setStack t stack).stackOf = Function.update s.stackOf t stack := rfl
@[simp] theorem setStack_pending : (s.setStack t stack).pending = s.pending := rfl
@[simp] theorem setStack_shared : (s.setStack t stack).shared = s.shared := rfl
@[simp] theorem setStack_log : (s.setStack t stack).log = s.log := rfl
@[simp] theorem setStack_halted : (s.setStack t stack).halted = s.halted := rfl

end Fields

theorem mem_held {f : Frame σ V Op τ} {g : Handle} : some g ∈ f.node.held ↔ ⟨some g⟩ ∈ f.tasks := by
  simp only [Frame.node, List.mem_map]
  constructor
  · rintro ⟨⟨handle⟩, hm, rfl⟩
    exact hm
  · exact fun hm => ⟨_, hm, rfl⟩

/-- A local of a frame that does not await is at its initial or its final suspend point. -/
theorem Inv.local_status {s : State σ V Op G τ} (hi : Inv s) {h g : Handle}
    (hmem : ⟨some g⟩ ∈ (s.frames h).tasks) (hrun : (s.frames h).status.callee = none) :
    (s.frames g).status = .initial ∨ (s.frames g).status = .final := by
  have hstage := hi.forest.held_stage (a := h) (b := g) (mem_held.mpr hmem) (by
    show (s.frames h).status.callee ≠ some g
    rw [hrun]
    nofun)
  exact hstage.imp Status.stage_fresh.mp Status.stage_done.mp

/-- Who works is not at one of these points. -/
theorem ne_of_active {s : State σ V Op G τ} {g h : Handle} (hactive : (s.frames h).status.stage = .active)
    (hg : (s.frames g).status = .initial ∨ (s.frames g).status = .final) : g ≠ h := by
  rintro rfl
  obtain hg | hg := hg <;> rw [hg] at hactive <;> cases hactive

/-- Nor does it wait. -/
theorem ne_of_leaving {s : State σ V Op G τ} {c h : Handle} {t : τ}
    (hrun : (s.frames h).status = .leaving t) (hcaller : (s.frames c).status = .awaiting h) : c ≠ h := by
  rintro rfl
  rw [hrun] at hcaller
  cases hcaller

theorem Inv.local_parent {s : State σ V Op G τ} (hi : Inv s) {h g : Handle}
    (hmem : ⟨some g⟩ ∈ (s.frames h).tasks) : (s.frames g).parent = some h :=
  (hi.forest.alive_of_held (mem_held.mpr hmem)).1

theorem Inv.absent {s : State σ V Op G τ} (hi : Inv s) : (s.frames s.created).status = .absent :=
  Status.stage_unborn.mp ((hi.forest.born s.created).mp (Nat.le_refl _))

theorem Inv.top {s : State σ V Op G τ} (hi : Inv s) {t : τ} {h : Handle} {rest : List Handle}
    (hstack : s.stackOf t = h :: rest) :
    (s.frames h).status = .running t ∨ (s.frames h).status = .leaving t :=
  Status.place_top.mp (hi.threads.head t h rest hstack)

theorem Inv.owner_awaits {s : State σ V Op G τ} (hi : Inv s) {h c : Handle}
    (hparent : (s.frames h).parent = some c) (hactive : (s.frames h).status.stage = .active) :
    (s.frames c).status = .awaiting h :=
  Status.callee_eq.mp (hi.forest.waited c h hparent hactive)

section Steps
variable [DecidableEq τ] (P : Program σ E V Op G)

/-- The frame below, if any, goes on. -/
def wake (s : State σ V Op G τ) (t : τ) (rest : List Handle) : Handle → Frame σ V Op τ := fun g =>
  if rest.head? = some g then {s.frames g with status := .running t} else s.frames g

theorem returnTo_eq (s : State σ V Op G τ) (t : τ) (rest : List Handle) :
    returnTo s t rest = {s.setStack t rest with frames := wake s t rest} := by
  cases rest with
  | nil => rfl
  | cons g rest =>
    simp only [returnTo, State.modify, setStack_frames]
    congr 1
    funext k
    by_cases he : k = g
    · subst he
      simp [wake]
    · simp [wake, Function.update_of_ne he, Ne.symm he]

/-- A root frame, allocated and running on `t`. -/
def spawned (s : State σ V Op G τ) (t : τ) (body : σ) : State σ V Op G τ :=
  (({s with created := s.created + 1}.modify s.created fun _ =>
    ⟨.running t, body, none, none, [], none⟩).emit (.resumed s.created .initial)).setStack t
      (s.created :: s.stackOf t)

theorem spawn_eq (s : State σ V Op G τ) (t : τ) (body : σ) : spawn P s t body = spawned s t body := by
  simp [spawn, call, Task.ofHandle, Task.take, resumeFrame, spawned, State.modify, State.emit,
    State.setStack]

/-- `Steps s l s'`: under the invariant, label `l` takes `s` to `s'` in one of these ways. -/
inductive Steps (s : State σ V Op G τ) : Label σ V τ → State σ V Op G τ → Prop
  | start {t body} (hstack : s.stackOf t = []) : Steps s (.start t body) (spawned s t body)
  | compute {t answer h rest f} (hstack : s.stackOf t = h :: rest)
    (hrun : (s.frames h).status = .running t) (hact : P.act (s.frames h).body = .compute f) :
    Steps s (.run t answer)
      ({s with shared := (f s.shared).1}.modify h fun fr => {fr with body := (f s.shared).2})
  | ask {t answer h rest} (hstack : s.stackOf t = h :: rest)
    (hrun : (s.frames h).status = .running t) (hact : P.act (s.frames h).body = .ask) :
    Steps s (.run t answer) (s.modify h fun fr => {fr with body := P.receive fr.body answer})
  | create {t answer h rest body k} (hstack : s.stackOf t = h :: rest)
    (hrun : (s.frames h).status = .running t) (hact : P.act (s.frames h).body = .create body k) :
    Steps s (.run t answer)
      (({s with created := s.created + 1}.modify s.created fun _ =>
        ⟨.initial, body, none, none, [], some h⟩).modify h fun fr =>
          {fr with body := k, tasks := ⟨some s.created⟩ :: fr.tasks})
  | move {t answer h rest i k other} (hstack : s.stackOf t = h :: rest)
    (hrun : (s.frames h).status = .running t) (hact : P.act (s.frames h).body = .move i k)
    (htask : (s.frames h).tasks[i]? = some other) :
    Steps s (.run t answer) (s.modify h fun fr =>
      {fr with body := k, tasks := ⟨other.handle⟩ :: fr.tasks.set i ⟨none⟩})
  | dropEmpty {t answer h rest i k} (hstack : s.stackOf t = h :: rest)
    (hrun : (s.frames h).status = .running t) (hact : P.act (s.frames h).body = .drop i k)
    (htask : (s.frames h).tasks[i]? = some ⟨none⟩) :
    Steps s (.run t answer)
      (s.modify h fun fr => {fr with body := k, tasks := fr.tasks.eraseIdx i})
  | drop {t answer h rest i k g} (hstack : s.stackOf t = h :: rest)
    (hrun : (s.frames h).status = .running t) (hact : P.act (s.frames h).body = .drop i k)
    (htask : (s.frames h).tasks[i]? = some ⟨some g⟩)
    (hcallee : (s.frames g).status = .initial ∨ (s.frames g).status = .final) :
    Steps s (.run t answer)
      (((s.modify h fun fr => {fr with body := k, tasks := fr.tasks.eraseIdx i}).emit
        (.destroyed g (s.frames g).status)).modify g fun fr => {fr with status := .destroyed})
  | awaitReady {t answer h rest i g v} (hstack : s.stackOf t = h :: rest)
    (hrun : (s.frames h).status = .running t) (hact : P.act (s.frames h).body = .await i)
    (htask : (s.frames h).tasks[i]? = some ⟨some g⟩) (hcallee : (s.frames g).status = .final)
    (hvalue : (s.frames g).value = some v) :
    Steps s (.run t answer)
      ((s.emit (.obtained h g v)).modify h fun fr => {fr with body := P.receive fr.body v})
  | awaitLost {t answer h rest i g} (hstack : s.stackOf t = h :: rest)
    (hrun : (s.frames h).status = .running t) (hact : P.act (s.frames h).body = .await i)
    (htask : (s.frames h).tasks[i]? = some ⟨some g⟩) (hcallee : (s.frames g).status = .final)
    (hvalue : (s.frames g).value = none) : Steps s (.run t answer) (s.halt .terminate)
  | awaitSuspend {t answer h rest i g} (hstack : s.stackOf t = h :: rest)
    (hrun : (s.frames h).status = .running t) (hact : P.act (s.frames h).body = .await i)
    (htask : (s.frames h).tasks[i]? = some ⟨some g⟩) (hcallee : (s.frames g).status = .initial) :
    Steps s (.run t answer)
      (((((s.modify h fun fr => {fr with status := .awaiting g}).modify g fun fr =>
        {fr with caller := some h, status := .running t}).emit (.suspended h g)).emit
          (.resumed g .initial)).setStack t (g :: rest))
  | leaf {t answer h rest op} (hstack : s.stackOf t = h :: rest)
    (hrun : (s.frames h).status = .running t) (hact : P.act (s.frames h).body = .leaf op) :
    Steps s (.run t answer)
      (returnTo {(s.modify h fun fr => {fr with status := .leaf op}).emit (.initiated h op) with
        pending := s.pending ++ [(h, op)]} t rest)
  | spawn {t answer h rest body k} (hstack : s.stackOf t = h :: rest)
    (hrun : (s.frames h).status = .running t) (hact : P.act (s.frames h).body = .spawn body k) :
    Steps s (.run t answer)
      (spawned (s.modify h fun fr => {fr with status := .nested t, body := k}) t body)
  | ret {t answer h rest e} (hstack : s.stackOf t = h :: rest)
    (hrun : (s.frames h).status = .running t) (hact : P.act (s.frames h).body = .ret e) :
    Steps s (.run t answer) ((s.emit (.returned h (P.result e))).modify h fun fr =>
      {fr with status := .leaving t, value := P.returnValue e})
  | throw {t answer h rest} (hstack : s.stackOf t = h :: rest)
    (hrun : (s.frames h).status = .running t) (hact : P.act (s.frames h).body = .throw) :
    Steps s (.run t answer) (s.halt .terminate)
  | leaveEmpty {t answer h rest tasks} (hstack : s.stackOf t = h :: rest)
    (hrun : (s.frames h).status = .leaving t) (htask : (s.frames h).tasks = ⟨none⟩ :: tasks) :
    Steps s (.run t answer) (s.modify h fun fr => {fr with tasks := tasks})
  | leaveDrop {t answer h rest tasks g} (hstack : s.stackOf t = h :: rest)
    (hrun : (s.frames h).status = .leaving t) (htask : (s.frames h).tasks = ⟨some g⟩ :: tasks)
    (hcallee : (s.frames g).status = .initial ∨ (s.frames g).status = .final) :
    Steps s (.run t answer)
      (((s.modify h fun fr => {fr with tasks := tasks}).emit
        (.destroyed g (s.frames g).status)).modify g fun fr => {fr with status := .destroyed})
  | finalResume {t answer h rest c v} (hstack : s.stackOf t = h :: rest)
    (hrun : (s.frames h).status = .leaving t) (htask : (s.frames h).tasks = [])
    (hparent : (s.frames h).parent = some c) (hcaller : (s.frames c).status = .awaiting h)
    (hvalue : (s.frames h).value = some v) :
    Steps s (.run t answer)
      (((((s.modify h fun fr => {fr with status := .final}).modify c fun fr =>
        {fr with status := .running t, body := P.receive fr.body v}).emit
          (.resumed c (.awaiting h))).emit (.obtained c h v)).setStack t (c :: rest))
  | finalLost {t answer h rest c} (hstack : s.stackOf t = h :: rest)
    (hrun : (s.frames h).status = .leaving t) (htask : (s.frames h).tasks = [])
    (hparent : (s.frames h).parent = some c) (hcaller : (s.frames c).status = .awaiting h)
    (hvalue : (s.frames h).value = none) :
    Steps s (.run t answer)
      (((((s.modify h fun fr => {fr with status := .final}).modify c fun fr =>
        {fr with status := .running t}).emit (.resumed c (.awaiting h))).setStack t
          (c :: rest)).halt .terminate)
  | finalDestroy {t answer h rest} (hstack : s.stackOf t = h :: rest)
    (hrun : (s.frames h).status = .leaving t) (htask : (s.frames h).tasks = [])
    (hparent : (s.frames h).parent = none) :
    Steps s (.run t answer)
      (returnTo ((s.modify h fun fr => {fr with status := .destroyed}).emit
        (.destroyed h .final)) t rest)
  | complete {t h op v} (hstack : s.stackOf t = []) (hop : (h, op) ∈ s.pending)
    (hleaf : (s.frames h).status = .leaf op) :
    Steps s (.complete t h v)
      (((({s with pending := s.pending.eraseP (·.1 == h)}.modify h fun fr =>
        {fr with status := .running t, body := P.receive fr.body v}).emit
          (.completed h op v)).emit (.resumed h (.leaf op))).setStack t [h])

end Steps

theorem destroyTask_some (s : State σ V Op G τ) {g : Handle}
    (hg : (s.frames g).status = .initial ∨ (s.frames g).status = .final) :
    destroyTask s ⟨some g⟩ =
      (s.emit (.destroyed g (s.frames g).status)).modify g fun fr => {fr with status := .destroyed} := by
  rcases hg with hg | hg <;> simp [destroyTask, Task.destructor, destroyFrame, hg]

variable [DecidableEq τ] {P : Program σ E V Op G} {s s' : State σ V Op G τ}

/-- An action of a running body. -/
theorem perform_cases (hi : Inv s) {t : τ} {h : Handle} {rest : List Handle} {answer : V}
    (hstack : s.stackOf t = h :: rest) (hrun : (s.frames h).status = .running t)
    (hp : perform P s t h rest answer (P.act (s.frames h).body) = some s') :
    Steps P s (.run t answer) s' := by
  have hidle : (s.frames h).status.callee = none := by rw [hrun]; rfl
  have hactive : (s.frames h).status.stage = .active := by rw [hrun]; rfl
  cases hact : P.act (s.frames h).body with
  | compute f =>
    rw [hact] at hp
    cases hp
    exact .compute hstack hrun hact
  | ask =>
    rw [hact] at hp
    cases hp
    exact .ask hstack hrun hact
  | create body k =>
    rw [hact] at hp
    cases hp
    exact .create hstack hrun hact
  | move i k =>
    simp only [hact, perform] at hp
    split at hp
    · cases hp
      exact .move hstack hrun hact ‹_›
    · cases hp
  | drop i k =>
    simp only [hact, perform] at hp
    split at hp
    · rename_i task htask
      obtain ⟨handle⟩ := task
      cases handle with
      | none =>
        cases hp
        exact .dropEmpty hstack hrun hact htask
      | some g =>
        have hg := hi.local_status (List.mem_of_getElem? htask) hidle
        have hgh : g ≠ h := ne_of_active hactive hg
        rw [destroyTask_some _ (by simpa [Function.update_of_ne hgh] using hg)] at hp
        simp only [modify_frames, Function.update_of_ne hgh] at hp
        cases hp
        exact .drop hstack hrun hact htask hg
    · cases hp
  | await i =>
    simp only [hact, perform] at hp
    split at hp
    · rename_i g htask
      obtain ⟨⟨_⟩, htask, rfl⟩ := Option.bind_eq_some_iff.mp htask
      have hg := hi.local_status (List.mem_of_getElem? htask) hidle
      have hgh : g ≠ h := ne_of_active hactive hg
      split at hp
      · rename_i hfinal
        cases hvalue : (s.frames g).value with
        | some v =>
          simp only [awaitResume, hvalue] at hp
          cases hp
          exact .awaitReady hstack hrun hact htask hfinal hvalue
        | none =>
          simp only [awaitResume, hvalue] at hp
          cases hp
          exact .awaitLost hstack hrun hact htask hfinal hvalue
      · rename_i hnot
        have hinit : (s.frames g).status = .initial := hg.resolve_right hnot
        have hs' : s' = ((((s.modify h fun fr => {fr with status := .awaiting g}).modify g fun fr =>
            {fr with caller := some h, status := .running t}).emit (.suspended h g)).emit
              (.resumed g .initial)).setStack t (g :: rest) := by
          cases hp
          simp [resumeFrame, State.modify, State.emit, State.setStack, Function.update_of_ne hgh,
            Function.update_of_ne hgh.symm, hinit, Function.update_comm hgh]
        rw [hs']
        exact .awaitSuspend hstack hrun hact htask hinit
    · cases hp
  | leaf op =>
    rw [hact] at hp
    cases hp
    exact .leaf hstack hrun hact
  | spawn body k =>
    simp only [hact, perform, spawn_eq] at hp
    cases hp
    exact .spawn hstack hrun hact
  | ret e =>
    rw [hact] at hp
    cases hp
    exact .ret hstack hrun hact
  | throw =>
    rw [hact] at hp
    cases hp
    exact .throw hstack hrun hact

/-- A body that has returned drops its newest local. -/
theorem leave_cases (hi : Inv s) {t : τ} {h : Handle} {rest : List Handle} {answer : V} {task : Task}
    {tasks : List Task} (hstack : s.stackOf t = h :: rest)
    (hrun : (s.frames h).status = .leaving t) (htask : (s.frames h).tasks = task :: tasks) :
    Steps P s (.run t answer) (destroyTask (s.modify h fun f => {f with tasks := tasks}) task) := by
  obtain ⟨handle⟩ := task
  cases handle with
  | none => exact .leaveEmpty hstack hrun htask
  | some g =>
    have hg := hi.local_status (by rw [htask]; exact List.mem_cons_self ..) (by rw [hrun]; rfl)
    have hgh : g ≠ h := ne_of_active (by rw [hrun]; rfl) hg
    rw [destroyTask_some _ (by simpa [Function.update_of_ne hgh] using hg)]
    simp only [modify_frames, Function.update_of_ne hgh]
    exact .leaveDrop hstack hrun htask hg

/-- The final suspend point: `caller_` says whether control goes to the owner, which
is suspended in `co_await` and finds a value in the promise or none, or the frame, a
root, destroys itself. -/
theorem final_cases (hi : Inv s) {t : τ} {h : Handle} {rest : List Handle} {answer : V}
    (hstack : s.stackOf t = h :: rest) (hrun : (s.frames h).status = .leaving t)
    (htask : (s.frames h).tasks = []) :
    Steps P s (.run t answer) (finalSuspend P s t h rest) := by
  have hactive : (s.frames h).status.stage = .active := by rw [hrun]; rfl
  have hcaller := hi.reports h hactive
  cases hparent : (s.frames h).parent with
  | none =>
    rw [hparent] at hcaller
    have hs' : finalSuspend P s t h rest =
        returnTo ((s.modify h fun fr => {fr with status := .destroyed}).emit (.destroyed h .final)) t
          rest := by
      simp [finalSuspend, hcaller, FinalAwaiter.awaitSuspend, destroyFrame, State.modify, State.emit]
    rw [hs']
    exact .finalDestroy hstack hrun htask hparent
  | some c =>
    rw [hparent] at hcaller
    have hawait := hi.owner_awaits hparent hactive
    have hch : c ≠ h := ne_of_leaving hrun hawait
    cases hvalue : (s.frames h).value with
    | some v =>
      have hs' : finalSuspend P s t h rest =
          ((((s.modify h fun fr => {fr with status := .final}).modify c fun fr =>
            {fr with status := .running t, body := P.receive fr.body v}).emit
              (.resumed c (.awaiting h))).emit (.obtained c h v)).setStack t (c :: rest) := by
        simp [finalSuspend, hcaller, FinalAwaiter.awaitSuspend, resumeFrame, awaitResume, State.modify,
          State.emit, State.setStack, Function.update_of_ne hch, Function.update_of_ne hch.symm, hawait, hvalue]
      rw [hs']
      exact .finalResume hstack hrun htask hparent hawait hvalue
    | none =>
      have hs' : finalSuspend P s t h rest =
          ((((s.modify h fun fr => {fr with status := .final}).modify c fun fr =>
            {fr with status := .running t}).emit (.resumed c (.awaiting h))).setStack t
              (c :: rest)).halt .terminate := by
        simp [finalSuspend, hcaller, FinalAwaiter.awaitSuspend, resumeFrame, awaitResume, State.modify,
          State.emit, State.setStack, Function.update_of_ne hch, Function.update_of_ne hch.symm, hawait, hvalue]
      rw [hs']
      exact .finalLost hstack hrun htask hparent hawait hvalue

theorem complete_cases (hi : Inv s) {t : τ} {h : Handle} {op : Op} {v : V}
    (hstack : s.stackOf t = []) (hop : s.pending.lookup h = some op) :
    Steps P s (.complete t h v) (completeLeaf P s t h op v) := by
  have howes : (Frame.operation ∘ s.frames) h = some op := (hi.operations.lookup h).symm.trans hop
  have hmem : (h, op) ∈ s.pending := (hi.operations.entry h op).mpr howes
  have hleaf : (s.frames h).status = .leaf op := Status.operation_eq.mp howes
  have hs' : completeLeaf P s t h op v =
      ((({s with pending := s.pending.eraseP (·.1 == h)}.modify h fun fr =>
        {fr with status := .running t, body := P.receive fr.body v}).emit
          (.completed h op v)).emit (.resumed h (.leaf op))).setStack t [h] := by
    simp [completeLeaf, State.modify, State.emit, State.setStack, hleaf]
  rw [hs']
  exact .complete hstack hmem hleaf

/-- **What a step does**: no branch of the machine but those of `Steps` is taken. -/
theorem step_cases {l : Label σ V τ} (hi : Inv s) (h : step P s l = some s') : Steps P s l s' := by
  unfold step at h
  split at h
  · cases h
  cases l with
  | start t body =>
    simp only at h
    split at h
    · rw [spawn_eq] at h
      cases h
      exact .start ‹_›
    · cases h
  | run t answer =>
    simp only at h
    split at h
    · cases h
    rename_i f rest hstack
    rcases hi.top hstack with hrun | hrun
    · rw [hrun] at h
      exact perform_cases hi hstack hrun h
    · rw [hrun] at h
      simp only at h
      split at h
      · cases h
        exact leave_cases hi hstack hrun ‹_›
      · cases h
        exact final_cases hi hstack hrun ‹_›
  | complete t f v =>
    simp only at h
    split at h
    · obtain ⟨op, hop, rfl⟩ := Option.map_eq_some_iff.mp h
      exact complete_cases hi ‹_› hop
    · cases h

end ExploreCpp.Runtime
