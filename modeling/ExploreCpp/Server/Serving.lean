import ExploreCpp.Server.Talk

/-! What one step does to the conversations of the server.

`Serving` says that every root has a talk, and `Moves` lists the steps the server can
take in such a state: each is one move of the talk of one root. -/
namespace ExploreCpp.Server
open ExploreCpp.Runtime

structure Serving (s : ServerState) : Prop where
  runtime : Inv s
  stored : Stored s
  depth : ∀ g f, (s.frames g).parent = some f → (s.frames f).parent = none
  roots : ∀ f, f < s.created → (s.frames f).parent = none → ∃ talk, Talks s.frames f talk
  /-- The `Task` of an operation holds the result of the operation. -/
  delivered : ∀ g v, (s.frames g).parent ≠ none → (s.frames g).value = some v →
    ∃ op, (s.frames g).body = .deliver op v
  completed : ∀ g op v, .completed g op v ∈ s.log →
    (s.frames g).parent ≠ none ∧ (s.frames g).body = .deliver op v
  /-- The first frame is that of `listen`, and all other roots are those of `process`. -/
  listen : ∀ f, f < s.created → (s.frames f).parent = none →
    ((s.frames f).body.listens = true ↔ f = 0)

/-- The actions of a root between two operations. -/
theorem act_rests {p : Point} (hp : p.rests = true) :
    match act p with
    | .compute _ | .throw => True
    | .ask => ∃ socket ec, p = .listenBranch socket ec ∧ ec.error = 0
    | .create body k => ∃ op, p.calls = some op ∧ body = .callback op ∧ k = .awaiting op
    | .spawn body k => ∃ socket, p = .listenRemote socket (.remoteEndpoint true) ∧
      body = .processLoop socket ∧ k = .listenLoop
    | .ret v => p.fails = true ∧ v = .unit
    | .move .. | .drop .. | .await _ | .leaf _ => False := by
  cases p with
  | callback | deliver | awaiting | awaited => cases hp
  | listenBranch socket ec =>
    by_cases h : ec.error = 0 <;> simp [act, h, Point.fails]
  | processBranch socket result =>
    by_cases h : result.error = 0 <;> simp [act, h, Point.fails, Point.calls]
  | listenRemote socket remote =>
    cases remote with
    | remoteEndpoint connected =>
      cases connected with
      | false => trivial
      | true => exact ⟨_, rfl, rfl, rfl⟩
    | _ => trivial
  | listenAccept | processLoop => exact ⟨_, rfl, rfl, rfl⟩
  | listenLoop | listenWrap | listenSocket | outOfRange => trivial

/-- The computations of `listen`: the two halves of `get_io_context`, and the socket. -/
theorem compute_point {p : Point} {u : Shared → Shared × Point} (h : act p = .compute u) :
    (p = .listenLoop ∧ ∀ g : Shared,
      (∃ ctx pool, g.pool.draw = some (ctx, pool) ∧ u g = ({g with pool := pool}, .listenWrap ctx)) ∨
        (g.pool.draw = none ∧ u g = (g, .outOfRange))) ∨
    (∃ ctx, p = .listenWrap ctx ∧ ∀ g, u g = ({g with pool := g.pool.wrap}, .listenSocket ctx)) ∨
    ∃ ctx, p = .listenSocket ctx ∧
      ∀ g, u g = ({g with sockets := g.sockets + 1}, .listenAccept ⟨g.sockets, ctx⟩) := by
  cases p with
  | listenLoop =>
    cases h
    refine .inl ⟨rfl, fun g => ?_⟩
    cases hd : g.pool.draw with
    | none => exact .inr ⟨rfl, by simp only [hd]⟩
    | some drawn => exact .inl ⟨drawn.1, drawn.2, rfl, by simp only [hd]⟩
  | listenWrap ctx =>
    cases h
    exact .inr (.inl ⟨ctx, rfl, fun _ => rfl⟩)
  | listenSocket ctx =>
    cases h
    exact .inr (.inr ⟨ctx, rfl, fun _ => rfl⟩)
  | awaited op => cases op <;> cases h
  | listenRemote | listenBranch | processBranch =>
    simp only [act] at h
    split at h <;> cases h
  | _ => cases h

variable {s s' : ServerState}

theorem Serving.born (w : Serving s) {h : Handle} (hs : (s.frames h).status ≠ .absent) :
    h < s.created := by
  by_contra hge
  exact hs (Status.stage_unborn.mp ((w.runtime.forest.born h).mp (Nat.le_of_not_lt hge)))

/-- The owner of an active frame is a root that awaits it. -/
theorem Serving.owner (w : Serving s) {h f : Handle} (hparent : (s.frames h).parent = some f)
    (hactive : (s.frames h).status.stage = .active) :
    (s.frames f).status = .awaiting h ∧ ∃ talk, Talks s.frames f talk := by
  have hawait := w.runtime.owner_awaits hparent hactive
  exact ⟨hawait, w.roots f (w.born (by rw [hawait]; nofun)) (w.depth h f hparent)⟩

/-- What an active frame does for its owner. -/
theorem Serving.serves (w : Serving s) {h f : Handle} (hparent : (s.frames h).parent = some f)
    (hactive : (s.frames h).status.stage = .active) :
    (∃ op t, Talks s.frames f (.started op h t) ∧ (s.frames h).status = .running t) ∨
    (∃ op, Talks s.frames f (.outstanding op h) ∧ (s.frames h).status = .leaf op) ∨
    (∃ op v t, Talks s.frames f (.completed op h v t) ∧ (s.frames h).status = .running t) ∨
    ∃ op v t, Talks s.frames f (.returned op h v t) ∧ (s.frames h).status = .leaving t := by
  obtain ⟨hawait, talk, ht⟩ := w.owner hparent hactive
  cases ht with
  | started hc =>
    cases hawait.symm.trans hc.status
    exact .inl ⟨_, _, .started hc, hc.calleeStatus⟩
  | outstanding hc =>
    cases hawait.symm.trans hc.status
    exact .inr (.inl ⟨_, .outstanding hc, hc.calleeStatus⟩)
  | completed hc =>
    cases hawait.symm.trans hc.status
    exact .inr (.inr (.inl ⟨_, _, _, .completed hc, hc.calleeStatus⟩))
  | returned hc =>
    cases hawait.symm.trans hc.status
    exact .inr (.inr (.inr ⟨_, _, _, .returned hc, hc.calleeStatus⟩))
  | resting hr =>
    obtain hs | ⟨hs, -⟩ | ⟨hs, -⟩ := hr.status <;> cases hawait.symm.trans hs
  | gone hg => cases hawait.symm.trans hg.status
  | created hc | answered hc => cases hawait.symm.trans hc.status

/-- Where the conversation is whose frame runs. -/
theorem Serving.running (w : Serving s) {t : Thread} {h : Handle}
    (hrun : (s.frames h).status = .running t) :
    (∃ p, Talks s.frames h (.resting p t)) ∨ (∃ op g, Talks s.frames h (.created op g t)) ∨
    (∃ op g v, Talks s.frames h (.answered op g v t)) ∨
    (∃ f op, Talks s.frames f (.started op h t)) ∨
    ∃ f op v, Talks s.frames f (.completed op h v t) := by
  cases hparent : (s.frames h).parent with
  | none =>
    obtain ⟨talk, ht⟩ := w.roots h (w.born (by simp [hrun])) hparent
    cases ht with
    | resting hr =>
      obtain hs | ⟨hs, -⟩ | ⟨hs, -⟩ := hr.status <;> cases hrun.symm.trans hs
      exact .inl ⟨_, .resting hr⟩
    | created hc =>
      cases hrun.symm.trans hc.status
      exact .inr (.inl ⟨_, _, .created hc⟩)
    | answered hc =>
      cases hrun.symm.trans hc.status
      exact .inr (.inr (.inl ⟨_, _, _, .answered hc⟩))
    | _ hc => cases hrun.symm.trans hc.status
  | some f =>
    obtain ⟨op, t', ht, hs⟩ | ⟨op, -, hs⟩ | ⟨op, v, t', ht, hs⟩ | ⟨op, v, t', -, hs⟩ :=
      w.serves hparent (by rw [hrun]; rfl) <;> cases hrun.symm.trans hs
    · exact .inr (.inr (.inr (.inl ⟨f, op, ht⟩)))
    · exact .inr (.inr (.inr (.inr ⟨f, op, v, ht⟩)))

theorem Serving.leaving (w : Serving s) {t : Thread} {h : Handle}
    (hrun : (s.frames h).status = .leaving t) :
    ((s.frames h).parent = none ∧ ∃ p, p.fails = true ∧ Talks s.frames h (.resting p t)) ∨
    ∃ f op v, (s.frames h).parent = some f ∧ Talks s.frames f (.returned op h v t) := by
  cases hparent : (s.frames h).parent with
  | none =>
    obtain ⟨talk, ht⟩ := w.roots h (w.born (by simp [hrun])) hparent
    cases ht with
    | resting hr =>
      obtain hs | ⟨hs, -⟩ | ⟨hs, hp⟩ := hr.status <;> cases hrun.symm.trans hs
      exact .inl ⟨rfl, _, hp, .resting hr⟩
    | _ hc => cases hrun.symm.trans hc.status
  | some f =>
    obtain ⟨op, t', -, hs⟩ | ⟨op, -, hs⟩ | ⟨op, v, t', -, hs⟩ | ⟨op, v, t', ht, hs⟩ :=
      w.serves hparent (by rw [hrun]; rfl) <;> cases hrun.symm.trans hs
    exact .inr ⟨f, op, v, rfl, ht⟩

/-- A frame suspended in an operation is the `Task` of that operation. -/
theorem Serving.suspended (w : Serving s) {h : Handle} {op : Op}
    (hleaf : (s.frames h).status = .leaf op) :
    ∃ f, (s.frames h).parent = some f ∧ Talks s.frames f (.outstanding op h) := by
  cases hparent : (s.frames h).parent with
  | none =>
    obtain ⟨talk, ht⟩ := w.roots h (w.born (by simp [hleaf])) hparent
    cases ht with
    | resting hr =>
      obtain hs | ⟨hs, -⟩ | ⟨hs, -⟩ := hr.status <;> cases hleaf.symm.trans hs
    | _ hc => cases hleaf.symm.trans hc.status
  | some f =>
    obtain ⟨op', t', -, hs⟩ | ⟨op', ht, hs⟩ | ⟨op', v, t', -, hs⟩ | ⟨op', v, t', -, hs⟩ :=
      w.serves hparent (by rw [hleaf]; rfl) <;> cases hleaf.symm.trans hs
    exact ⟨f, rfl, ht⟩

/-! ### The moves -/

inductive Moves (s : ServerState) : ServerLabel → ServerState → Prop
  | compute {t a f rest p u} (hstack : s.stackOf t = f :: rest)
    (hrun : (s.frames f).status = .running t) (htalk : Talks s.frames f (.resting p t))
    (hact : act p = .compute u) :
    Moves s (.run t a)
      ({s with shared := (u s.shared).1}.modify f fun fr => {fr with body := (u s.shared).2})
  | ask {t a f rest socket ec} (hstack : s.stackOf t = f :: rest)
    (hrun : (s.frames f).status = .running t)
    (htalk : Talks s.frames f (.resting (.listenBranch socket ec) t)) (hok : ec.error = 0) :
    Moves s (.run t a) (s.modify f fun fr => {fr with body := .listenRemote socket a})
  | call {t a f rest p op} (hstack : s.stackOf t = f :: rest)
    (hrun : (s.frames f).status = .running t) (htalk : Talks s.frames f (.resting p t))
    (hcalls : p.calls = some op) :
    Moves s (.run t a)
      (({s with created := s.created + 1}.modify s.created fun _ =>
        ⟨.initial, .callback op, none, none, [], some f⟩).modify f fun fr =>
          {fr with body := .awaiting op, tasks := ⟨some s.created⟩ :: fr.tasks})
  | start {t a f rest op g} (hstack : s.stackOf t = f :: rest)
    (htalk : Talks s.frames f (.created op g t)) :
    Moves s (.run t a)
      (((((s.modify f fun fr => {fr with status := .awaiting g}).modify g fun fr =>
        {fr with caller := some f, status := .running t}).emit (.suspended f g)).emit
          (.resumed g .initial)).setStack t (g :: rest))
  | initiate {t a f rest op g} (hstack : s.stackOf t = g :: rest)
    (htalk : Talks s.frames f (.started op g t)) :
    Moves s (.run t a)
      (returnTo {(s.modify g fun fr => {fr with status := .leaf op}).emit (.initiated g op) with
        pending := s.pending ++ [(g, op)]} t rest)
  | complete {t f op g v} (hstack : s.stackOf t = []) (hop : (g, op) ∈ s.pending)
    (htalk : Talks s.frames f (.outstanding op g)) :
    Moves s (.complete t g v)
      (((({s with pending := s.pending.eraseP (·.1 == g)}.modify g fun fr =>
        {fr with status := .running t, body := .deliver op v}).emit
          (.completed g op v)).emit (.resumed g (.leaf op))).setStack t [g])
  | deliver {t a f rest op g v} (hstack : s.stackOf t = g :: rest)
    (htalk : Talks s.frames f (.completed op g v t)) :
    Moves s (.run t a) ((s.emit (.returned g v)).modify g fun fr =>
      {fr with status := .leaving t, value := some v})
  | resume {t a f rest op g v} (hstack : s.stackOf t = g :: rest)
    (htalk : Talks s.frames f (.returned op g v t)) :
    Moves s (.run t a)
      (((((s.modify g fun fr => {fr with status := .final}).modify f fun fr =>
        {fr with status := .running t, body := .awaited op v}).emit
          (.resumed f (.awaiting g))).emit (.obtained f g v)).setStack t (f :: rest))
  | drop {t a f rest op g v} (hstack : s.stackOf t = f :: rest)
    (htalk : Talks s.frames f (.answered op g v t)) :
    Moves s (.run t a)
      (((s.modify f fun fr => {fr with body := op.next v, tasks := []}).emit
        (.destroyed g .final)).modify g fun fr => {fr with status := .destroyed})
  | leave {t a f rest p} (hstack : s.stackOf t = f :: rest)
    (hrun : (s.frames f).status = .running t) (htalk : Talks s.frames f (.resting p t))
    (hfails : p.fails = true) :
    Moves s (.run t a) ((s.emit (.returned f .unit)).modify f fun fr =>
      {fr with status := .leaving t, value := some .unit})
  | finish {t a f rest p} (hstack : s.stackOf t = f :: rest)
    (hrun : (s.frames f).status = .leaving t) (htalk : Talks s.frames f (.resting p t))
    (hfails : p.fails = true) :
    Moves s (.run t a)
      (returnTo ((s.modify f fun fr => {fr with status := .destroyed}).emit
        (.destroyed f .final)) t rest)
  | spawn {t a f rest socket} (hstack : s.stackOf t = f :: rest)
    (hrun : (s.frames f).status = .running t)
    (htalk : Talks s.frames f (.resting (.listenRemote socket (.remoteEndpoint true)) t)) :
    Moves s (.run t a)
      (spawned (s.modify f fun fr => {fr with status := .nested t, body := .listenLoop}) t
        (.processLoop socket))
  | throw {t a f rest p} (hstack : s.stackOf t = f :: rest)
    (hrun : (s.frames f).status = .running t) (htalk : Talks s.frames f (.resting p t))
    (hact : act p = .throw) : Moves s (.run t a) (s.halt .terminate)

/-- What the body of the frame that runs does next. -/
inductive Doing (s : ServerState) (t : Thread) (h : Handle) : Prop
  | resting {p} (hr : Rests s.frames h p t) (ha : program.act (s.frames h).body = act p)
  | created {op g} (hc : Calls s.frames h g (.awaiting op) (.callback op) (.running t) .initial)
    (ha : program.act (s.frames h).body = .await 0)
  | answered {op g v} (hc : Calls s.frames h g (.awaited op v) (.deliver op v) (.running t) .final)
    (ha : program.act (s.frames h).body = .drop 0 (op.next v))
  | started {f op}
    (hc : Calls s.frames f h (.awaiting op) (.callback op) (.awaiting h) (.running t))
    (ha : program.act (s.frames h).body = .leaf op)
  | completed {f op v}
    (hc : Calls s.frames f h (.awaiting op) (.deliver op v) (.awaiting h) (.running t))
    (ha : program.act (s.frames h).body = .ret v)

theorem Serving.doing (w : Serving s) {t : Thread} {h : Handle}
    (hrun : (s.frames h).status = .running t) : Doing s t h := by
  rcases w.running hrun with ⟨p, ht⟩ | ⟨op, g, ht⟩ | ⟨op, g, v, ht⟩ | ⟨f, op, ht⟩ | ⟨f, op, v, ht⟩
  · cases ht with
    | resting hr => exact .resting hr (by rw [hr.body]; rfl)
  · cases ht with
    | created hc => exact .created hc (by rw [hc.body]; rfl)
  · cases ht with
    | answered hc =>
      refine .answered hc ?_
      rw [hc.body]
      cases op <;> rfl
  · cases ht with
    | started hc => exact .started hc (by rw [hc.calleeBody]; rfl)
  · cases ht with
    | completed hc => exact .completed hc (by rw [hc.calleeBody]; rfl)

/-- The same by the action. -/
inductive Does (s : ServerState) (t : Thread) (h : Handle) : Action Point Value Op Shared → Prop
  | compute {p u} (hr : Rests s.frames h p t) (hact : act p = .compute u) : Does s t h (.compute u)
  | ask {socket ec} (hr : Rests s.frames h (.listenBranch socket ec) t) (hok : ec.error = 0) : Does s t h .ask
  | call {p op} (hr : Rests s.frames h p t) (hcalls : p.calls = some op) :
    Does s t h (.create (.callback op) (.awaiting op))
  | start {op g} (hc : Calls s.frames h g (.awaiting op) (.callback op) (.running t) .initial) :
    Does s t h (.await 0)
  | drop {op g v} (hc : Calls s.frames h g (.awaited op v) (.deliver op v) (.running t) .final) :
    Does s t h (.drop 0 (op.next v))
  | initiate {f op} (hc : Calls s.frames f h (.awaiting op) (.callback op) (.awaiting h) (.running t)) :
    Does s t h (.leaf op)
  | spawn {socket} (hr : Rests s.frames h (.listenRemote socket (.remoteEndpoint true)) t) :
    Does s t h (.spawn (.processLoop socket) .listenLoop)
  | leave {p} (hr : Rests s.frames h p t) (hfails : p.fails = true) : Does s t h (.ret .unit)
  | deliver {f op v} (hc : Calls s.frames f h (.awaiting op) (.deliver op v) (.awaiting h) (.running t)) :
    Does s t h (.ret v)
  | throw {p} (hr : Rests s.frames h p t) (hact : act p = .throw) : Does s t h .throw

theorem Rests.does {t : Thread} {h : Handle} {p : Point} (hr : Rests s.frames h p t) : Does s t h (act p) := by
  have hdoes := act_rests hr.rests
  cases hact : act p with
  | compute u => exact .compute hr hact
  | throw => exact .throw hr hact
  | ask =>
    rw [hact] at hdoes
    obtain ⟨socket, ec, rfl, hok⟩ := hdoes
    exact .ask hr hok
  | create body k =>
    rw [hact] at hdoes
    obtain ⟨op, hcalls, rfl, rfl⟩ := hdoes
    exact .call hr hcalls
  | spawn body k =>
    rw [hact] at hdoes
    obtain ⟨socket, rfl, rfl, rfl⟩ := hdoes
    exact .spawn hr
  | ret v =>
    rw [hact] at hdoes
    obtain ⟨hfails, rfl⟩ := hdoes
    exact .leave hr hfails
  | move | drop | await | leaf =>
    rw [hact] at hdoes
    exact hdoes.elim

theorem Serving.does (w : Serving s) {t : Thread} {h : Handle} {action : Action Point Value Op Shared}
    (hrun : (s.frames h).status = .running t) (hact : program.act (s.frames h).body = action) :
    Does s t h action := by
  subst hact
  cases w.doing hrun with
  | resting hr ha =>
    rw [ha]
    exact hr.does
  | created hc ha =>
    rw [ha]
    exact .start hc
  | answered hc ha =>
    rw [ha]
    exact .drop hc
  | started hc ha =>
    rw [ha]
    exact .initiate hc
  | completed hc ha =>
    rw [ha]
    exact .deliver hc

/-- **What a step does**: one move of one conversation. -/
theorem moves {l : ServerLabel} (w : Serving s) (h : Steps program s l s')
    (hl : ∀ t body, l ≠ .start t body) : Moves s l s' := by
  cases h with
  | start => exact absurd rfl (hl _ _)
  | compute hstack hrun hact =>
    cases w.does hrun hact with
    | compute hr hact => exact .compute hstack hrun (.resting hr) hact
  | @ask t a h rest hstack hrun hact =>
    cases w.does hrun hact with
    | @ask socket ec hr hok =>
      have hs' : (s.modify h fun fr => {fr with body := program.receive fr.body a}) =
          s.modify h fun fr => {fr with body := .listenRemote socket a} := by
        simp only [State.modify, hr.body, program, receive]
      rw [hs']
      exact .ask hstack hrun (.resting hr) hok
  | create hstack hrun hact =>
    cases w.does hrun hact with
    | call hr hcalls => exact .call hstack hrun (.resting hr) hcalls
  | move hstack hrun hact htask => cases w.does hrun hact
  | dropEmpty hstack hrun hact htask =>
    cases w.does hrun hact with
    | drop hc =>
      rw [hc.tasks] at htask
      cases htask
  | @drop t a h rest i k g hstack hrun hact htask hcallee =>
    cases w.does hrun hact with
    | @drop op g v hc =>
      rw [hc.tasks] at htask
      cases htask
      have hs' : (((s.modify h fun fr =>
          {fr with body := op.next v, tasks := fr.tasks.eraseIdx 0}).emit
            (.destroyed g (s.frames g).status)).modify g fun fr => {fr with status := .destroyed}) =
          ((s.modify h fun fr => {fr with body := op.next v, tasks := []}).emit
            (.destroyed g .final)).modify g fun fr => {fr with status := .destroyed} := by
        simp only [State.modify, hc.tasks, hc.calleeStatus, List.eraseIdx_cons_zero]
      rw [hs']
      exact .drop hstack (.answered hc)
  | awaitReady hstack hrun hact htask hcallee | awaitLost hstack hrun hact htask hcallee =>
    cases w.does hrun hact with
    | start hc =>
      rw [hc.tasks] at htask
      cases htask
      cases hcallee.symm.trans hc.calleeStatus
  | awaitSuspend hstack hrun hact htask hcallee =>
    cases w.does hrun hact with
    | start hc =>
      rw [hc.tasks] at htask
      cases htask
      exact .start hstack (.created hc)
  | leaf hstack hrun hact =>
    cases w.does hrun hact with
    | initiate hc => exact .initiate hstack (.started hc)
  | spawn hstack hrun hact =>
    cases w.does hrun hact with
    | spawn hr => exact .spawn hstack hrun (.resting hr)
  | ret hstack hrun hact =>
    cases w.does hrun hact with
    | leave hr hfails => exact .leave hstack hrun (.resting hr) hfails
    | deliver hc => exact .deliver hstack (.completed hc)
  | throw hstack hrun hact =>
    cases w.does hrun hact with
    | throw hr hact => exact .throw hstack hrun (.resting hr) hact
  | leaveEmpty hstack hrun htask =>
    rcases w.leaving hrun with ⟨-, p, -, ht⟩ | ⟨f, op, v, -, ht⟩
    · cases ht with
      | resting hr => cases htask.symm.trans hr.tasks
    · cases ht with
      | returned hc => cases htask.symm.trans hc.calleeTasks
  | leaveDrop hstack hrun htask hcallee =>
    rcases w.leaving hrun with ⟨-, p, -, ht⟩ | ⟨f, op, v, -, ht⟩
    · cases ht with
      | resting hr => cases htask.symm.trans hr.tasks
    · cases ht with
      | returned hc => cases htask.symm.trans hc.calleeTasks
  | @finalResume t a h rest c v' hstack hrun htask hparent hcaller hvalue =>
    rcases w.leaving hrun with ⟨hroot, -⟩ | ⟨f, op, v, hf, ht⟩
    · cases hparent.symm.trans hroot
    · cases hparent.symm.trans hf
      cases ht with
      | returned hc =>
        obtain ⟨op', hbody⟩ := w.delivered h v' (by simp [hparent]) hvalue
        cases hc.calleeBody.symm.trans hbody
        have hs' : ((((s.modify h fun fr => {fr with status := .final}).modify c fun fr =>
            {fr with status := .running t, body := program.receive fr.body v'}).emit
              (.resumed c (.awaiting h))).emit (.obtained c h v')).setStack t (c :: rest) =
            ((((s.modify h fun fr => {fr with status := .final}).modify c fun fr =>
              {fr with status := .running t, body := .awaited op v'}).emit
                (.resumed c (.awaiting h))).emit (.obtained c h v')).setStack t (c :: rest) := by
          have hch : c ≠ h := ne_of_leaving hrun hcaller
          simp only [State.modify, Function.update_of_ne hch, hc.body, program, receive]
        rw [hs']
        exact .resume hstack (.returned hc)
  | @finalLost t a h rest c hstack hrun htask hparent hcaller hvalue =>
    exact absurd hvalue (w.stored h (by rw [hrun]; rfl))
  | finalDestroy hstack hrun htask hparent =>
    rcases w.leaving hrun with ⟨-, p, hp, ht⟩ | ⟨f, op, v, hf, -⟩
    · exact .finish hstack hrun ht hp
    · cases hparent.symm.trans hf
  | @complete t h op v hstack hop hleaf =>
    obtain ⟨f, -, ht⟩ := w.suspended hleaf
    have hs' : ((({s with pending := s.pending.eraseP (·.1 == h)}.modify h fun fr =>
        {fr with status := .running t, body := program.receive fr.body v}).emit
          (.completed h op v)).emit (.resumed h (.leaf op))).setStack t [h] =
        ((({s with pending := s.pending.eraseP (·.1 == h)}.modify h fun fr =>
          {fr with status := .running t, body := .deliver op v}).emit
            (.completed h op v)).emit (.resumed h (.leaf op))).setStack t [h] := by
      cases ht with
      | outstanding hc => simp only [State.modify, hc.calleeBody, program, receive]
    rw [hs']
    exact .complete hstack hop ht

end ExploreCpp.Server
