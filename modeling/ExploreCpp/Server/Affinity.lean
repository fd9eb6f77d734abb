import ExploreCpp.Server.Service

/-! Which thread every coroutine of the server runs on.

Control moves by completion handlers, by symmetric transfer and by `spawn`, and only
the first can change the thread: `listen` stays on the acceptor's context once it has
left the constructing thread, and a `process` on its socket's context once a read of it
has been initiated. Until then it runs inside the call of `spawn` that `listen` waits
in (`Placed`). -/
namespace ExploreCpp.Server
open ExploreCpp.Runtime

/-- A read of the socket has been initiated: its `process` has suspended. -/
def Opened (s : ServerState) (socket : Socket) : Prop := .initiate .read ∈ traffic s socket

instance (s : ServerState) (socket : Socket) : Decidable (Opened s socket) :=
  inferInstanceAs (Decidable (_ ∈ _))

structure Placed (server : TcpServer) (s : ServerState) : Prop where
  listen : ∀ talk t, Talks s.frames 0 talk → talk.thread = some t →
    t = .main ∨ t = .context server.acceptor
  /-- The socket `listen` has in hand has not been read from. -/
  unread : ∀ socket st, Owns s 0 socket st → ¬ Opened s socket
  process : ∀ k talk socket st t, k ≠ 0 → Talks s.frames k talk → talk.session = some (socket, st) →
    talk.thread = some t →
    (Opened s socket ∧ t = .context socket.context) ∨
      (¬ Opened s socket ∧ (s.frames 0).status = .nested t)

section Threads
variable {s s' : ServerState} {f k : Handle} {l : ServerLabel} {a b talk : Talk} {t t' : Thread}
  {events : List ServerEvent} {socket : Socket} {st : Session}

/-- The frame on top of a thread belongs to the root whose talk is there. -/
theorem Talks.on_top (h : Talks s.frames k talk) (ht : talk.thread = some t)
    (hn : (s.frames k).status ≠ .nested t) :
    ∃ g, (s.frames g).status.place = .top t ∧ (g = k ∨ (s.frames g).parent = some k) := by
  cases h with
  | resting h =>
    cases ht
    rcases h.status with hs | ⟨hs, -⟩ | ⟨hs, -⟩
    · exact ⟨k, by rw [hs]; rfl, .inl rfl⟩
    · exact absurd hs hn
    · exact ⟨k, by rw [hs]; rfl, .inl rfl⟩
  | created h | answered h =>
    cases ht
    exact ⟨k, by rw [h.status]; rfl, .inl rfl⟩
  | started h | completed h | returned h =>
    cases ht
    exact ⟨_, by rw [h.calleeStatus]; rfl, .inr h.owner⟩
  | outstanding | gone => cases ht

/-- Two frames on top of one thread are the same. -/
theorem Serving.top_unique (w : Serving s) {g g' : Handle} (hg : (s.frames g).status.place = .top t)
    (hg' : (s.frames g').status.place = .top t) : g = g' := by
  obtain ⟨rest, hs⟩ := w.runtime.threads.top_eq hg
  obtain ⟨rest', hs'⟩ := w.runtime.threads.top_eq hg'
  have heq : g :: rest = g' :: rest' := hs.symm.trans hs'
  exact (List.cons.inj heq).1

/-- Of the roots on a thread all but one wait inside `spawn`. -/
theorem Serving.one_active (w : Serving s) (hf : Talks s.frames f a) (hk : Talks s.frames k b)
    (ha : a.thread = some t) (hb : b.thread = some t) (hnf : (s.frames f).status ≠ .nested t)
    (hnk : (s.frames k).status ≠ .nested t) : f = k := by
  obtain ⟨g, hg, hgf⟩ := hf.on_top ha hnf
  obtain ⟨g', hg', hgk⟩ := hk.on_top hb hnk
  obtain rfl := w.top_unique hg hg'
  rcases hgf with rfl | hgf <;> rcases hgk with hgk | hgk
  · exact hgk
  · cases hf.root.symm.trans hgk
  · rw [hgk, hk.root] at hgf
    cases hgf
  · exact Option.some.inj (hgf.symm.trans hgk)

/-- Only `listen` waits inside `spawn`. -/
theorem Serving.nested_listens (w : Serving s) (h : Talks s.frames k talk)
    (hn : (s.frames k).status = .nested t) : k = 0 := by
  refine (w.listen k (w.born h.present) h.root).mp ?_
  cases h with
  | resting hr =>
    rcases hr.status with hs | ⟨-, rfl⟩ | ⟨hs, -⟩
    · cases hn.symm.trans hs
    · rw [hr.body]
      rfl
    · cases hn.symm.trans hs
  | _ hc => cases hn.symm.trans hc.status

/-- A root on a thread was there before the turn, which does nothing to a socket, or the
turn is the handler of the completion it waited for. -/
theorem Turn.arrives (h : Turn s f l a b events) (hb : b.thread = some t) :
    (a.thread = some t ∧ ∀ socket, events.filterMap (actOn socket) = []) ∨
      ∃ op g v, l = .complete t g v ∧ (g, op) ∈ s.pending ∧ a = .outstanding op g ∧
        b = .completed op g v t := by
  cases h with
  | initiate | finish => cases hb
  | complete hop =>
    cases hb
    exact .inr ⟨_, _, _, rfl, hop, rfl, rfl⟩
  | _ => exact .inl ⟨hb, fun _ => rfl⟩

/-- Before its first read is initiated a socket is not in a state with a read behind it. -/
theorem Talks.listens_unopened (h : Talks s.frames k talk) (hl : (s.frames k).body.listens = true)
    (hs : talk.session = some (socket, st)) : st.opened = false := by
  rw [h.point] at hl
  have hafter : ∀ (socket : Socket) v, ((Op.accept socket).after v).opened = false := by
    intro socket v
    by_cases hv : v.error = 0 <;> simp [Op.after, hv, Session.opened]
  have hpoint : ∀ {p : Point}, p.listens = true → p.session = some (socket, st) →
      st.opened = false := by
    intro p hp hs
    cases p with
    | listenAccept | listenRemote =>
      cases hs
      rfl
    | listenBranch socket' ec =>
      cases hs
      exact hafter _ ec
    | processLoop | processBranch => cases hp
    | _ => cases hs
  cases h with
  | resting h | gone h => exact hpoint hl hs
  | @created op g t hc | @started op g t hc | @outstanding op g hc =>
    cases op with
    | accept =>
      cases hs
      rfl
    | _ => cases hl
  | @completed op g v t hc | @returned op g v t hc | @answered op g v t hc =>
    cases op with
    | accept =>
      cases hs
      exact hafter _ v
    | _ => cases hl

/-- A turn that is not the handler of a completion starts on its thread. -/
theorem Turn.runs {ans : Value} (h : Turn s f (.run t ans) a b events) : a.thread = some t := by
  cases h <;> rfl

theorem Opened.mono (turned : Turned s s' f a b events) (h : Opened s socket) : Opened s' socket := by
  rw [Opened, turned.traffic]
  exact List.mem_append_left _ h

theorem Session.next_read {st st' : Session} (h : st.next (.initiate .read) = some st') :
    st'.opened = true := by
  cases st <;> cases h
  rfl

/-- A turn of another root is none of a socket's business. -/
theorem Turned.opened_other (r : Traffic s) (turned : Turned s s' f a b events)
    (h : Advances s a b events) (hk : k ≠ f) (howns : Owns s k socket st) :
    Opened s' socket ↔ Opened s socket := by
  have hnone : events.filterMap (actOn socket) = [] := by
    cases h with
    | @act other su su' act ha hb hnext hspawns hacts hothers hsockets =>
      refine hothers socket ?_
      rintro rfl
      exact hk (r.distinct _ _ _ _ _ _ howns ⟨a, turned.before, ha⟩ rfl)
    | same _ _ hacts _ | new _ _ _ hacts _ | handed _ _ _ _ hacts _ => exact hacts socket
  rw [Opened, turned.traffic, hnone, List.append_nil]
  rfl

/-! ### A step keeps everyone in place -/

/-- The completion of an operation runs on the context of its object. -/
theorem allows_complete {server : TcpServer} {g : Handle} {v : Value} {op : Op} (w : Serving s)
    (hl : server.allows s (.complete t g v) = true) (hop : (g, op) ∈ s.pending) :
    s.stackOf .main = [] ∧ t = .context (server.contextOf op) := by
  have hlookup : s.pending.lookup g = some op :=
    (w.runtime.operations.lookup g).trans ((w.runtime.operations.entry g op).mp hop)
  simp only [TcpServer.allows, hlookup, Bool.decide_and, Bool.and_eq_true, decide_eq_true_eq] at hl
  exact ⟨hl.1, hl.2.1⟩

/-- Only an outstanding operation completes. -/
theorem allows_pending {server : TcpServer} {g : Handle} {v : Value} (w : Serving s)
    (hl : server.allows s (.complete t g v) = true) : ∃ op, (g, op) ∈ s.pending := by
  cases hlookup : s.pending.lookup g with
  | none => simp [TcpServer.allows, hlookup] at hl
  | some op =>
    refine ⟨op, (w.runtime.operations.entry g op).mpr ?_⟩
    exact (w.runtime.operations.lookup g).symm.trans hlookup

/-- Who owns a socket and does not listen has one that may have been read from. -/
theorem Serving.reads (w : Serving s) {op : Op} {g : Handle} (h : Talks s.frames k (.outstanding op g))
    (hk : k ≠ 0) : op = .read op.socket ∨ op = .write op.socket := by
  cases op with
  | accept socket =>
    refine absurd ((w.listen k (w.born h.present) h.root).mp ?_) hk
    rw [h.point]
    rfl
  | read => exact .inl rfl
  | write => exact .inr rfl

theorem Serving.served (w : Serving s) (h : Talks s.frames k talk) (hk : k ≠ 0)
    (hs : talk.session = some (socket, st)) : st.served = true := by
  rcases h.serves_or_listens hs with hserves | hl
  · obtain ⟨st', hs', hserved⟩ := h.serves hserves
    cases hs.symm.trans hs'
    exact hserved
  · exact absurd ((w.listen k (w.born h.present) h.root).mp hl) hk

/-- A root that does not listen has a socket. -/
theorem Serving.session (w : Serving s) (h : Talks s.frames k talk) (hk : k ≠ 0) :
    ∃ socket st, talk.session = some (socket, st) := by
  have hl : (s.frames k).body.listens ≠ true :=
    fun hl => hk ((w.listen k (w.born h.present) h.root).mp hl)
  rw [h.point] at hl
  have hpoint : ∀ {p : Point}, p.rests = true → p.listens ≠ true → ∃ socket st,
      p.session = some (socket, st) := by
    intro p hp hl
    cases p with
    | processLoop | processBranch => exact ⟨_, _, rfl⟩
    | callback | deliver | awaiting | awaited => cases hp
    | _ => exact absurd rfl hl
  cases h with
  | resting hr => exact hpoint hr.rests hl
  | gone hg => exact hpoint (fails_rests hg.fails) hl
  | _ => exact ⟨_, _, rfl⟩

/-! ### One turn -/

section Placed
variable {server : TcpServer} (o : Orderly s) (p : Placed server s) (w' : Serving s')
  (turned : Turned s s' f a b events) (turn : Turn s f l a b events)
include o p w' turned turn

/-- `listen` comes to a thread where its operations complete. -/
theorem placed_listen (hallows : server.allows s l = true) (ht : Talks s'.frames 0 talk)
    (hthread : talk.thread = some t) : t = .main ∨ t = .context server.acceptor := by
  have w := o.serving
  obtain ⟨-, hbefore⟩ | ⟨rfl, rfl⟩ | ⟨hnew, -⟩ := turned.talks w w' ht
  · exact p.listen talk t hbefore hthread
  · obtain ⟨ha, -⟩ | ⟨op, g, v, rfl, hop, rfl, rfl⟩ := turn.arrives hthread
    · exact p.listen a t turned.before ha
    · have hl : (s.frames 0).body.listens = true :=
        (w.listen 0 (w.born turned.before.present) turned.before.root).mpr rfl
      rw [turned.before.point] at hl
      cases op with
      | accept => exact .inr (allows_complete w hallows hop).2
      | _ => cases hl
  · exact absurd hnew (Nat.ne_of_lt o.begun)

theorem placed_unread (howns : Owns s' 0 socket st) : ¬ Opened s' socket := by
  have w := o.serving
  have hadv := turn.advances
  obtain ⟨hk, hbefore⟩ | ⟨rfl, hb⟩ | ⟨hnew, -⟩ := turned.owns w w' howns
  · rw [turned.opened_other o.sockets hadv hk hbefore]
    exact p.unread socket st hbefore
  · have hl : (s'.frames 0).body.listens = true :=
      (w'.listen 0 (w'.born turned.after.present) turned.after.root).mpr rfl
    have hst := turned.after.listens_unopened hl hb
    rw [Opened, turned.traffic, List.mem_append]
    rintro (hm | hm)
    · cases hadv with
      | same hsession _ _ _ => exact p.unread socket st ⟨a, turned.before, hsession ▸ hb⟩ hm
      | act ha hb' _ _ _ _ _ =>
        cases hb.symm.trans hb'
        exact p.unread socket _ ⟨a, turned.before, ha⟩ hm
      | new _ hb' _ _ _ =>
        cases hb.symm.trans hb'
        rw [o.sockets.unused _ (Nat.le_refl _)] at hm
        cases hm
      | handed _ hb' _ _ _ _ => cases hb.symm.trans hb'
    · cases hadv with
      | act ha hb' hnext _ hacts _ _ =>
        cases hb.symm.trans hb'
        rw [hacts] at hm
        cases List.mem_singleton.mp hm
        rw [Session.next_read hnext] at hst
        cases hst
      | same _ _ hacts _ | new _ _ _ hacts _ | handed _ _ _ _ hacts _ =>
        rw [hacts] at hm
        cases hm
  · exact absurd hnew (Nat.ne_of_lt o.begun)

omit w' in
/-- Another root's turn: who waits in `spawn` on this thread goes on waiting. -/
theorem placed_other (hk : k ≠ 0) (hkf : k ≠ f) (ht : Talks s.frames k talk)
    (hs : talk.session = some (socket, st)) (hthread : talk.thread = some t) :
    (Opened s' socket ∧ t = .context socket.context) ∨
      (¬ Opened s' socket ∧ (s'.frames 0).status = .nested t) := by
  have w := o.serving
  rw [turned.opened_other o.sockets turn.advances hkf ⟨talk, ht, hs⟩]
  refine (p.process k talk socket st t hk ht hs hthread).imp_right ?_
  intro hlistens
  obtain ⟨ho, hn⟩ := hlistens
  refine ⟨ho, ?_⟩
  have hf : (0 : Handle) ≠ f := by
    rintro rfl
    exact turned.active t hn
  obtain hn' | ⟨ha, -⟩ := turned.nested 0 t hf hn
  · exact hn'
  · refine absurd (w.one_active turned.before ht ha hthread (turned.active t) ?_) (Ne.symm hkf)
    exact fun hkn => hk (w.nested_listens ht hkn)

/-- Its own turn: it stays on its thread, or comes to that of its operation. -/
theorem placed_self (hallows : server.allows s l = true) (hf : f ≠ 0)
    (hb : b.session = some (socket, st)) (hthread : b.thread = some t) :
    (Opened s' socket ∧ t = .context socket.context) ∨
      (¬ Opened s' socket ∧ (s'.frames 0).status = .nested t) := by
  have w := o.serving
  obtain ⟨ha, hacts⟩ | ⟨op, g, v, rfl, hop, rfl, rfl⟩ := turn.arrives hthread
  · have hopened : Opened s' socket ↔ Opened s socket := by
      rw [Opened, turned.traffic, hacts, List.append_nil]
      rfl
    have hsession : a.session = some (socket, st) := by
      cases turn.advances with
      | same hsession _ _ _ => exact hsession ▸ hb
      | act _ _ _ _ hone _ _ => cases hone.symm.trans (hacts _)
      | new _ hb' _ _ _ =>
        have hserved := w'.served turned.after hf hb
        cases hb.symm.trans hb'
        cases hserved
      | handed _ hb' _ _ _ _ => cases hb.symm.trans hb'
    rw [hopened]
    refine (p.process _ a socket st t hf turned.before hsession ha).imp_right ?_
    intro hlistens
    obtain ⟨ho, hn⟩ := hlistens
    refine ⟨ho, ?_⟩
    obtain hn' | ⟨-, hoff⟩ := turned.nested 0 t (Ne.symm hf) hn
    · exact hn'
    · cases hoff.symm.trans hthread
  · cases hb
    have hop' := w.reads turned.before hf
    have hduring : op.during.opened = true := by
      obtain he | he := hop' <;> rw [he] <;> rfl
    have hpast := (o.sockets.session _ op.socket op.during ⟨_, turned.before, rfl⟩).past
    have hcontext : server.contextOf op = op.socket.context := by
      obtain he | he := hop' <;> rw [he] <;> rfl
    refine .inl ⟨Opened.mono turned (hpast.opening hduring), ?_⟩
    rw [← hcontext]
    exact (allows_complete w hallows hop).2

omit o in
/-- The new root runs inside the call of `spawn` that `listen` has just made. -/
theorem placed_spawned (hspawn : a.spawns = some talk) (hs : talk.session = some (socket, st))
    (hthread : talk.thread = some t) : ¬ Opened s' socket ∧ (s'.frames 0).status = .nested t := by
  have hnested := turned.waits talk t hspawn hthread
  obtain rfl := w'.nested_listens turned.after hnested
  refine ⟨?_, hnested⟩
  cases turn.advances with
  | handed ha _ hspawn' htalk hacts _ =>
    cases hspawn.symm.trans hspawn'
    cases hs.symm.trans htalk
    rw [Opened, turned.traffic, hacts, List.append_nil]
    exact p.unread socket _ ⟨a, turned.before, ha⟩
  | same _ hspawn' _ _ | act _ _ _ hspawn' _ _ _ | new _ _ hspawn' _ _ =>
    cases hspawn.symm.trans hspawn'

end Placed

theorem placed_step {server : TcpServer} (o : Orderly s) (p : Placed server s)
    (h : server.machine.step s l = some s') : Placed server s' := by
  have hallows : server.allows s l = true := by
    have hstep : server.allows s l = true ∧ step program s l = some s' := by
      simpa [TcpServer.machine] using h
    exact hstep.1
  obtain ⟨hmoves, w'⟩ := serving_step o.serving h
  obtain ⟨f, a, b, events, turned, turn⟩ := turns o.serving hmoves
  refine ⟨?_, ?_, ?_⟩
  · exact fun talk t ht hthread => placed_listen o p w' turned turn hallows ht hthread
  · exact fun socket st howns => placed_unread o p w' turned turn howns
  · intro k talk socket st t hk ht hs hthread
    obtain ⟨hkf, hbefore⟩ | ⟨rfl, rfl⟩ | ⟨rfl, hspawn⟩ := turned.talks o.serving w' ht
    · exact placed_other o p turned turn hk hkf hbefore hs hthread
    · exact placed_self o p w' turned turn hallows hk hs hthread
    · exact .inr (placed_spawned p w' turned turn hspawn hs hthread)

theorem create_placed {n : Nat} {server : TcpServer} (h : TcpServer.create n = some (server, s)) :
    Placed server s := by
  have htalk : ∀ k talk, Talks s.frames k talk → k = 0 ∧ talk = .resting .listenLoop .main :=
    fun _ _ => create_talk h
  obtain ⟨pool, -, rfl⟩ := create_eq h
  refine ⟨?_, ?_, ?_⟩
  · intro talk t ht hthread
    rw [(htalk 0 talk ht).2] at hthread
    cases hthread
    exact .inl rfl
  · rintro socket st - ho
    cases ho
  · intro k talk socket st t hk ht
    exact absurd (htalk k talk ht).1 hk

theorem reachable_placed {n : Nat} {server : TcpServer} {s₀ : ServerState}
    (hcreate : TcpServer.create n = some (server, s₀)) (h : server.machine.Reaches s₀ s) :
    Orderly s ∧ Placed server s := by
  have hstep : ∀ s l s', Orderly s ∧ Placed server s → server.machine.step s l = some s' →
      Orderly s' ∧ Placed server s' :=
    fun s l s' hs hl => ⟨orderly_step hs.1 hl, placed_step hs.1 hs.2 hl⟩
  exact h.invariant hstep ⟨create_orderly hcreate, create_placed hcreate⟩

end Threads

/-! ### The steps of a coroutine -/

def threadOf : ServerLabel → Thread
  | .start t _ | .run t _ | .complete t _ _ => t

/-- The step is one of the root `k`: of its body, or of the operation it awaits. -/
def Drives (s : ServerState) (k : Handle) : ServerLabel → Prop
  | .start .. => False
  | .run t _ => ∃ h rest, s.stackOf t = h :: rest ∧ (h = k ∨ (s.frames h).parent = some k)
  | .complete _ h _ => (s.frames h).parent = some k

/-- Inside `get_io_context`, in the first or the second half of it. -/
def Point.draws : Point → Bool
  | listenLoop | listenWrap _ => true
  | _ => false

section Affine
variable {s s' : ServerState} {k : Handle} {l : ServerLabel} {talk : Talk} {t : Thread}

/-- A move leaves all threads but its own alone. -/
theorem Moves.stackOf (h : Moves s l s') (ht : t ≠ threadOf l) : s'.stackOf t = s.stackOf t := by
  cases h with
  | compute | ask | call | deliver | drop | leave | throw => rfl
  | initiate | finish =>
    rw [returnTo_eq]
    exact Function.update_of_ne ht _ _
  | start | complete | resume | spawn => exact Function.update_of_ne ht _ _

/-- The frame on top of a thread is that of a root whose talk is there, or the callee of one. -/
theorem Serving.top (w : Serving s) {g : Handle} {rest : List Handle} (h : s.stackOf t = g :: rest) :
    ∃ k talk, Talks s.frames k talk ∧ talk.thread = some t ∧ (s.frames k).status ≠ .nested t ∧
      (g = k ∨ talk.callee = some g) := by
  rcases w.runtime.top h with hs | hs
  · rcases w.running hs with ⟨p, ht⟩ | ⟨op, g', ht⟩ | ⟨op, g', v, ht⟩ | ⟨f, op, ht⟩ | ⟨f, op, v, ht⟩
    · exact ⟨g, _, ht, rfl, by rw [hs]; nofun, .inl rfl⟩
    · exact ⟨g, _, ht, rfl, by rw [hs]; nofun, .inl rfl⟩
    · exact ⟨g, _, ht, rfl, by rw [hs]; nofun, .inl rfl⟩
    · refine ⟨f, _, ht, rfl, ?_, .inr rfl⟩
      cases ht with
      | started hc => rw [hc.status]; nofun
    · refine ⟨f, _, ht, rfl, ?_, .inr rfl⟩
      cases ht with
      | completed hc => rw [hc.status]; nofun
  · rcases w.leaving hs with ⟨-, p, -, ht⟩ | ⟨f, op, v, -, ht⟩
    · exact ⟨g, _, ht, rfl, by rw [hs]; nofun, .inl rfl⟩
    · refine ⟨f, _, ht, rfl, ?_, .inr rfl⟩
      cases ht with
      | returned hc => rw [hc.status]; nofun

theorem Talks.callee_body {g : Handle} (h : Talks s.frames k talk) (hg : talk.callee = some g) :
    (s.frames g).body.rests = false := by
  cases h <;> cases hg <;> rename_i h <;> rw [h.calleeBody] <;> rfl

/-- A step of a root is taken where its talk is. -/
theorem Serving.driven (w : Serving s) {ans : Value} (h : Talks s.frames k talk)
    (hd : Drives s k (.run t ans)) : talk.thread = some t ∧ (s.frames k).status ≠ .nested t := by
  obtain ⟨g, rest, hstack, hg⟩ := hd
  obtain ⟨k', talk', ht', hthread, hn, hg'⟩ := w.top hstack
  have hk : k' = k := by
    rcases hg with rfl | hg <;> rcases hg' with hg' | hg'
    · exact hg'.symm
    · cases h.root.symm.trans (ht'.callee_owner hg')
    · rw [hg', ht'.root] at hg
      cases hg
    · exact Option.some.inj ((ht'.callee_owner hg').symm.trans hg)
  subst hk
  rw [h.unique ht']
  exact ⟨hthread, hn⟩

/-- What a step does to the thread, the pool and the coroutines it drives. -/
structure Affine (server : TcpServer) (s : ServerState) (l : ServerLabel) (s' : ServerState) : Prop where
  /-- Once the constructor has returned its thread has nothing left to do. -/
  constructed : s.stackOf .main = [] → s'.stackOf .main = []
  /-- `listen` runs on the constructing thread, and then on the acceptor's context. -/
  listen : Drives s 0 l → if s.stackOf .main = [] then threadOf l = .context server.acceptor
    else threadOf l = .main
  /-- Nobody but `listen` is ever in `get_io_context`, which alone changes the pool. -/
  caller : ∀ t h rest, s.stackOf t = h :: rest → (s.frames h).body.draws = true → h = 0
  pool : s'.shared.pool ≠ s.shared.pool → ∃ rest, s.stackOf (threadOf l) = 0 :: rest ∧
    (s.frames 0).body.draws = true
  /-- A `process` runs on the context of its socket, and before it has suspended inside
  the step in which `listen` has spawned it. -/
  process : ∀ k socket, IsProcess s k socket → Drives s k l →
    if Opened s socket then threadOf l = .context socket.context
    else 0 ∈ s.stackOf (threadOf l) ∧ (s.frames 0).status = .nested (threadOf l)

theorem Moves.pool (w : Serving s) (h : Moves s l s') (hp : s'.shared.pool ≠ s.shared.pool) :
    ∃ rest, s.stackOf (threadOf l) = 0 :: rest ∧ (s.frames 0).body.draws = true := by
  cases h with
  | @compute t a f rest p u hstack hrun htalk hact =>
    cases htalk with
    | resting hr =>
      have hdraws : p.draws = true := by
        rcases compute_point hact with ⟨rfl, -⟩ | ⟨ctx, rfl, -⟩ | ⟨ctx, rfl, hu⟩
        · rfl
        · rfl
        · refine absurd ?_ hp
          simp only [modify_shared, hu]
      obtain rfl : f = 0 :=
        (w.listen f (w.born (by rw [hrun]; nofun)) hr.root).mp
          (by rw [hr.body]; exact (compute_next hact s.shared).2.2)
      exact ⟨rest, hstack, by rw [hr.body]; exact hdraws⟩
  | initiate | finish =>
    rw [returnTo_eq] at hp
    exact absurd rfl hp
  | _ => exact absurd rfl hp

/-- Only `listen` draws from the pool. -/
theorem Serving.draws (w : Serving s) {h : Handle} {rest : List Handle} (hstack : s.stackOf t = h :: rest)
    (hd : (s.frames h).body.draws = true) : h = 0 := by
  obtain ⟨k, talk, ht, hthread, hn, rfl | hg⟩ := w.top hstack
  · refine (w.listen h (w.born ht.present) ht.root).mp ?_
    cases hbody : (s.frames h).body with
    | listenLoop | listenWrap => rfl
    | _ =>
      rw [hbody] at hd
      cases hd
  · have hrests := ht.callee_body hg
    cases hbody : (s.frames h).body with
    | listenLoop | listenWrap =>
      rw [hbody] at hrests
      cases hrests
    | _ =>
      rw [hbody] at hd
      cases hd

/-- A talk of `listen` inside `spawn` is on the thread of the call. -/
theorem Talks.thread_nested (h : Talks s.frames k talk) (hn : (s.frames k).status = .nested t) :
    talk.thread = some t := by
  cases h with
  | resting hr =>
    rcases hr.status with hs | ⟨hs, -⟩ | ⟨hs, -⟩ <;> cases hn.symm.trans hs
    rfl
  | _ hc => cases hn.symm.trans hc.status

/-- Until the constructor returns `listen` is on its thread. -/
theorem Placed.constructing {server : TcpServer} (o : Orderly s) (p : Placed server s)
    (hmain : s.stackOf .main ≠ []) (ht : Talks s.frames 0 talk) : talk.thread = some .main := by
  obtain ⟨g, rest, hstack⟩ := List.exists_cons_of_ne_nil hmain
  obtain ⟨k, talk', ht', hthread, -, -⟩ := o.serving.top hstack
  by_cases hk : k = 0
  · subst hk
    rw [ht.unique ht']
    exact hthread
  · obtain ⟨socket, st, hs⟩ := o.serving.session ht' hk
    rcases p.process k talk' socket st .main hk ht' hs hthread with ⟨-, he⟩ | ⟨-, hn⟩
    · cases he
    · exact ht.thread_nested hn

theorem Placed.listens {server : TcpServer} (o : Orderly s) (p : Placed server s)
    (hallows : server.allows s l = true) (hd : Drives s 0 l) :
    if s.stackOf .main = [] then threadOf l = .context server.acceptor else threadOf l = .main := by
  obtain ⟨talk, ht, hl⟩ := o.listener
  cases l with
  | start => cases hallows
  | run t ans =>
    obtain ⟨hthread, hn⟩ := o.serving.driven ht hd
    split
    · rcases p.listen talk t ht hthread with rfl | he
      · obtain ⟨h, rest, hstack, -⟩ := hd
        cases hstack.symm.trans ‹s.stackOf .main = []›
      · exact he
    · exact Option.some.inj (hthread.symm.trans (p.constructing o ‹s.stackOf .main ≠ []› ht))
  | complete t g v =>
    obtain ⟨op, hop⟩ := allows_pending o.serving hallows
    obtain ⟨hmain, hcontext⟩ := allows_complete o.serving hallows hop
    rw [if_pos hmain]
    obtain ⟨k, hk, ht'⟩ := o.pending.mp hop
    obtain rfl : k = 0 := Option.some.inj (hk.symm.trans hd)
    rw [ht'.point] at hl
    cases op with
    | accept => exact hcontext
    | _ => cases hl

theorem Placed.processes {server : TcpServer} (o : Orderly s) (p : Placed server s) {socket : Socket}
    (hallows : server.allows s l = true) (hk : IsProcess s k socket) (hd : Drives s k l) :
    if Opened s socket then threadOf l = .context socket.context
    else 0 ∈ s.stackOf (threadOf l) ∧ (s.frames 0).status = .nested (threadOf l) := by
  obtain ⟨talk, ht⟩ := o.serving.roots k hk.born hk.root
  obtain ⟨st, hs, hserved⟩ := ht.serves hk.serves
  have hk0 : k ≠ 0 := by
    rintro rfl
    obtain ⟨-, -, hl⟩ := o.listener
    have hserves := hk.serves
    cases hbody : (s.frames 0).body with
    | processLoop | processBranch => simp [hbody, Point.listens] at hl
    | awaiting op | awaited op =>
      cases op <;> simp [hbody, Point.listens, Point.serves] at hl hserves
    | _ => simp [hbody, Point.serves] at hserves
  cases l with
  | start => cases hallows
  | run t ans =>
    rcases p.process k talk socket st t hk0 ht hs (o.serving.driven ht hd).1 with ⟨ho, he⟩ | ⟨ho, hn⟩
    · rw [if_pos ho]
      exact he
    · rw [if_neg ho]
      refine ⟨(o.serving.runtime.threads.mem t 0).mpr (.inr ?_), hn⟩
      exact Status.place_below.mpr hn
  | complete t g v =>
    obtain ⟨op, hop⟩ := allows_pending o.serving hallows
    obtain ⟨-, hcontext⟩ := allows_complete o.serving hallows hop
    obtain ⟨k', hk', ht'⟩ := o.pending.mp hop
    obtain rfl : k' = k := Option.some.inj (hk'.symm.trans hd)
    obtain rfl := ht.unique ht'
    cases hs
    have hreads := o.serving.reads ht hk0
    have ho : Opened s op.socket := (o.past ht rfl).opening (by rcases hreads with he | he <;> rw [he] <;> rfl)
    rw [if_pos ho, ← show server.contextOf op = op.socket.context by
      rcases hreads with he | he <;> rw [he] <;> rfl]
    exact hcontext

/-- **Every coroutine keeps to its thread**: for every number of contexts and every order of
completions, whatever step the server takes next. -/
theorem thread_affinity {n : Nat} {server : TcpServer} {s₀ : ServerState}
    (hcreate : TcpServer.create n = some (server, s₀)) (h : server.machine.Reaches s₀ s)
    (hstep : server.machine.step s l = some s') : Affine server s l s' := by
  obtain ⟨o, p⟩ := reachable_placed hcreate h
  have hallows : server.allows s l = true ∧ step program s l = some s' := by
    simpa [TcpServer.machine] using hstep
  obtain ⟨hmoves, -⟩ := serving_step o.serving hstep
  refine ⟨?_, p.listens o hallows.1, fun t h rest => o.serving.draws, hmoves.pool o.serving, ?_⟩
  · intro hmain
    rw [hmoves.stackOf ?_, hmain]
    cases l with
    | start => cases hallows.1
    | run t ans =>
      rintro rfl
      have hrun := hallows.2
      simp only [step, hmain] at hrun
      split at hrun <;> cases hrun
    | complete t g v =>
      obtain ⟨op, hop⟩ := allows_pending o.serving hallows.1
      rw [threadOf, (allows_complete o.serving hallows.1 hop).2]
      intro hmain
      cases hmain
  · exact fun k socket hk hd => p.processes o hallows.1 hk hd

/-- The read of `oneConnection` completes, on the context of its socket. -/
theorem thread_affinity_oneConnection : ∃ server s₀ s s',
    TcpServer.create 2 = some (server, s₀) ∧ server.machine.run s₀ oneConnection = some s ∧
    server.machine.step s (.complete (.context 1) 3 (.transferred 0 5)) = some s' ∧
    Affine server s (.complete (.context 1) 3 (.transferred 0 5)) s' :=
  ⟨⟨0⟩, _, _, _, rfl, rfl, rfl, thread_affinity (n := 2) rfl ⟨oneConnection, rfl⟩ rfl⟩

end Affine

end ExploreCpp.Server
