import ExploreCpp.Server.Session
import ExploreCpp.Server.Turn

/-! The traffic of every socket is that of a session.

The log says which operations were initiated on a socket and how they completed
(`traffic`), and where the conversation of its owner stands says which state of
`Session` that has led to (`Talk.session`). `Traffic` ties the two together: no two
roots own the same socket, and no socket with traffic is without an owner. -/
namespace ExploreCpp.Server
open ExploreCpp.Runtime

def Op.kind : Op → Kind
  | accept _ => .accept
  | read _ => .read
  | write _ => .write

/-- The state of the socket before the operation, during it, and after its result. -/
def Op.before : Op → Session
  | accept _ => .fresh
  | read _ => .connected
  | write _ => .received

def Op.during : Op → Session
  | accept _ => .accepting
  | read _ => .reading
  | write _ => .writing

def Op.after : Op → Value → Session
  | accept _, v => if v.error = 0 then .connected else .refused
  | read _, v => if v.error = 0 then .received else .closed
  | write _, _ => .connected

theorem Op.before_next (op : Op) : op.before.next (.initiate op.kind) = some op.during := by
  cases op <;> rfl

theorem Op.during_next (op : Op) (v : Value) :
    op.during.next (.finish op.kind (v.error = 0)) = some (op.after v) := by
  cases op <;> by_cases h : v.error = 0 <;> simp [during, kind, after, Session.next, h]

/-- What an event means for a socket. -/
def actOn (socket : Socket) : ServerEvent → Option Act
  | .initiated _ op => if op.socket = socket then some (.initiate op.kind) else none
  | .completed _ op v => if op.socket = socket then some (.finish op.kind (v.error = 0)) else none
  | _ => none

def traffic (s : ServerState) (socket : Socket) : List Act := s.log.filterMap (actOn socket)

def Point.session : Point → Option (Socket × Session)
  | listenAccept socket => some (socket, .fresh)
  | listenBranch socket ec => some (socket, (Op.accept socket).after ec)
  | listenRemote socket _ | processLoop socket => some (socket, .connected)
  | processBranch socket result => some (socket, (Op.read socket).after result)
  | _ => none

/-- The socket a root owns, and the state it believes it to be in. -/
def Talk.session : Talk → Option (Socket × Session)
  | resting p _ | gone p => p.session
  | created op .. | started op .. => some (op.socket, op.before)
  | outstanding op _ => some (op.socket, op.during)
  | completed op _ v _ | returned op _ v _ | answered op _ v _ => some (op.socket, op.after v)

/-! ### One turn -/

/-- What a turn means for the sockets: nothing, one act on the socket of the root, a new
socket, or a socket that is handed to a new root. -/
inductive Advances (s : ServerState) (a b : Talk) (events : List ServerEvent) : Prop
  | same (hsession : b.session = a.session) (hspawns : a.spawns = none)
    (hacts : ∀ socket, events.filterMap (actOn socket) = [])
    (hsockets : (a.shares s.shared).sockets = s.shared.sockets)
  | act {socket st st' act} (ha : a.session = some (socket, st)) (hb : b.session = some (socket, st'))
    (hnext : st.next act = some st') (hspawns : a.spawns = none)
    (hacts : events.filterMap (actOn socket) = [act])
    (hothers : ∀ other, other ≠ socket → events.filterMap (actOn other) = [])
    (hsockets : (a.shares s.shared).sockets = s.shared.sockets)
  | new {ctx} (ha : a.session = none) (hb : b.session = some (⟨s.shared.sockets, ctx⟩, .fresh))
    (hspawns : a.spawns = none) (hacts : ∀ socket, events.filterMap (actOn socket) = [])
    (hsockets : (a.shares s.shared).sockets = s.shared.sockets + 1)
  | handed {socket talk} (ha : a.session = some (socket, .connected)) (hb : b.session = none)
    (hspawns : a.spawns = some talk) (htalk : talk.session = some (socket, .connected))
    (hacts : ∀ socket, events.filterMap (actOn socket) = [])
    (hsockets : (a.shares s.shared).sockets = s.shared.sockets)

section Turn
variable {s s' : ServerState} {f : Handle} {l : ServerLabel} {a b : Talk} {events : List ServerEvent}

theorem calls_session {p : Point} {op : Op} (h : p.calls = some op) :
    p.session = some (op.socket, op.before) := by
  cases p with
  | processBranch socket result =>
    simp only [Point.calls] at h
    split at h
    · cases h
    · cases h
      have hok : result.error = 0 := Classical.not_not.mp ‹_›
      simp [Point.session, Op.after, hok, Op.socket, Op.before]
  | listenAccept | processLoop =>
    cases h
    rfl
  | _ => cases h

theorem next_session (op : Op) (v : Value) : (op.next v).session = some (op.socket, op.after v) := by
  cases op <;> rfl

theorem throw_shares {p : Point} (h : act p = .throw) (t : Thread) (g : Shared) :
    (Talk.resting p t).shares g = g := by
  simp [Talk.shares, h]

theorem Turn.advances (h : Turn s f l a b events) : Advances s a b events := by
  cases h with
  | @compute t ans p u hact =>
    have hshares : (Talk.resting p t).shares s.shared = (u s.shared).1 := by simp [Talk.shares, hact]
    rcases compute_point hact with ⟨rfl, hu⟩ | ⟨ctx, rfl, hu⟩ | ⟨ctx, rfl, hu⟩
    · rcases hu s.shared with ⟨ctx, pool, -, he⟩ | ⟨-, he⟩ <;> rw [he] at hshares ⊢
      · exact .same rfl rfl (fun _ => rfl) (by rw [hshares])
      · exact .same rfl rfl (fun _ => rfl) (by rw [hshares])
    · rw [hu] at hshares ⊢
      exact .same rfl rfl (fun _ => rfl) (by rw [hshares])
    · rw [hu] at hshares ⊢
      exact .new rfl rfl rfl (fun _ => rfl) (by rw [hshares])
  | @ask t ans socket ec hok =>
    refine .same ?_ rfl (fun _ => rfl) ?_
    · simp [Talk.session, Point.session, Op.after, hok]
    · simp [Talk.shares, act, hok]
  | @call t ans p op g hcalls =>
    refine .same (calls_session hcalls).symm (calls_spawns hcalls t) (fun _ => rfl) ?_
    rw [calls_shares hcalls]
  | start => exact .same rfl rfl (fun _ => rfl) rfl
  | @initiate t ans op g =>
    refine .act rfl rfl op.before_next rfl ?_ ?_ rfl
    · simp [actOn]
    · intro other hne
      simp [actOn, hne.symm]
  | @complete t op g v hop =>
    refine .act rfl rfl (op.during_next v) rfl ?_ ?_ rfl
    · simp [actOn]
    · intro other hne
      simp [actOn, hne.symm]
  | deliver => exact .same rfl rfl (fun _ => rfl) rfl
  | resume => exact .same rfl rfl (fun _ => rfl) rfl
  | @drop t ans op g v => exact .same (next_session op v) rfl (fun _ => rfl) rfl
  | @leave t ans p hfails =>
    refine .same rfl (fails_spawns hfails t) (fun _ => rfl) ?_
    rw [fails_shares hfails]
  | @finish t ans p hfails =>
    refine .same rfl (fails_spawns hfails t) (fun _ => rfl) ?_
    rw [fails_shares hfails]
  | spawn => exact .handed rfl rfl rfl rfl (fun _ => rfl) rfl
  | @throw t ans p hact =>
    refine .same rfl (throw_spawns hact t) (fun _ => rfl) ?_
    rw [throw_shares hact]

end Turn

/-! ### The sockets and their owners -/

/-- The root `k` owns the socket, and believes it to be in that state. -/
def Owns (s : ServerState) (k : Handle) (socket : Socket) (st : Session) : Prop :=
  ∃ talk, Talks s.frames k talk ∧ talk.session = some (socket, st)

structure Traffic (s : ServerState) : Prop where
  session : ∀ k socket st, Owns s k socket st → Session.Follows (traffic s socket) st
  distinct : ∀ k k' socket socket' st st', Owns s k socket st → Owns s k' socket' st' →
    socket.id = socket'.id → k = k'
  below : ∀ k socket st, Owns s k socket st → socket.id < s.shared.sockets
  unused : ∀ socket, s.shared.sockets ≤ socket.id → traffic s socket = []
  owned : ∀ socket, traffic s socket ≠ [] → ∃ k st, Owns s k socket st

section Step
variable {s s' : ServerState} {f : Handle} {l : ServerLabel} {a b : Talk} {events : List ServerEvent}

theorem Talks.owns {k : Handle} {talk : Talk} {socket : Socket} {st : Session}
    (h : Talks s.frames k talk) : Owns s k socket st ↔ talk.session = some (socket, st) := by
  constructor
  · rintro ⟨talk', h', hs⟩
    rw [h.unique h']
    exact hs
  · exact fun hs => ⟨talk, h, hs⟩

/-- Whose talk is whose after a turn. -/
theorem Turned.talks (w : Serving s) (w' : Serving s') (turned : Turned s s' f a b events)
    {k : Handle} {talk : Talk} (ht : Talks s'.frames k talk) :
    (k ≠ f ∧ Talks s.frames k talk) ∨ (k = f ∧ talk = b) ∨
      (k = s.created ∧ a.spawns = some talk) := by
  by_cases hkf : k = f
  · subst hkf
    exact .inr (.inl ⟨rfl, ht.unique turned.after⟩)
  · by_cases hk : k < s.created
    · have hroot := ht.root
      rw [turned.parent k hk] at hroot
      obtain ⟨talk', ht'⟩ := w.roots k hk hroot
      rw [ht.unique (turned.others k talk' hkf ht')]
      exact .inl ⟨hkf, ht'⟩
    · obtain ⟨hnew, talk', hspawn, ht'⟩ :=
        turned.fresh k (Nat.le_of_not_lt hk) (w'.born ht.present) ht.root
      rw [ht.unique ht']
      exact .inr (.inr ⟨hnew, hspawn⟩)

/-- Who owns a socket after a turn. -/
theorem Turned.owns (w : Serving s) (w' : Serving s') (turned : Turned s s' f a b events)
    {k : Handle} {socket : Socket} {st : Session} (h : Owns s' k socket st) :
    (k ≠ f ∧ Owns s k socket st) ∨ (k = f ∧ b.session = some (socket, st)) ∨
      (k = s.created ∧ ∃ talk, a.spawns = some talk ∧ talk.session = some (socket, st)) := by
  obtain ⟨talk, ht, hs⟩ := h
  rcases turned.talks w w' ht with ⟨hkf, ht'⟩ | ⟨hkf, rfl⟩ | ⟨hk, hspawn⟩
  · exact .inl ⟨hkf, talk, ht', hs⟩
  · exact .inr (.inl ⟨hkf, hs⟩)
  · exact .inr (.inr ⟨hk, talk, hspawn, hs⟩)

theorem Turned.owns_other (turned : Turned s s' f a b events) {k : Handle} {socket : Socket}
    {st : Session} (hk : k ≠ f) (h : Owns s k socket st) : Owns s' k socket st := by
  obtain ⟨talk, ht, hs⟩ := h
  exact ⟨talk, turned.others k talk hk ht, hs⟩

theorem Turned.traffic (turned : Turned s s' f a b events) (socket : Socket) :
    traffic s' socket = traffic s socket ++ events.filterMap (actOn socket) := by
  rw [Server.traffic, turned.log, List.filterMap_append]
  rfl

theorem Turned.traffic_same (turned : Turned s s' f a b events)
    (hacts : ∀ socket, events.filterMap (actOn socket) = []) (socket : Socket) :
    Server.traffic s' socket = Server.traffic s socket := by
  rw [turned.traffic, hacts, List.append_nil]

/-! ### A socket that changes hands -/

/-- After a turn of `f` the root `g` owns the socket, in that state; the others own what they did. -/
def Gains (s s' : ServerState) (f g : Handle) (socket : Socket) (st : Session) : Prop :=
  ∀ k other su, Owns s' k other su → (k ≠ f ∧ Owns s k other su) ∨ (k = g ∧ other = socket ∧ su = st)

section Gains
variable {g : Handle} {socket : Socket} {st : Session}

theorem Turned.gains_self (w : Serving s) (w' : Serving s') (turned : Turned s s' f a b events)
    (hb : b.session = some (socket, st)) (hspawns : a.spawns = none) : Gains s s' f f socket st := by
  intro k other su h
  obtain h | ⟨hk, hs⟩ | ⟨-, talk, hs, -⟩ := turned.owns w w' h
  · exact .inl h
  · cases hb.symm.trans hs
    exact .inr ⟨hk, rfl, rfl⟩
  · rw [hspawns] at hs
    cases hs

theorem Turned.gains_spawned (w : Serving s) (w' : Serving s') (turned : Turned s s' f a b events)
    {talk : Talk} (hb : b.session = none) (hspawns : a.spawns = some talk)
    (htalk : talk.session = some (socket, st)) : Gains s s' f s.created socket st := by
  intro k other su h
  obtain h | ⟨-, hs⟩ | ⟨hk, talk', hs, hs'⟩ := turned.owns w w' h
  · exact .inl h
  · cases hb.symm.trans hs
  · cases hspawns.symm.trans hs
    cases htalk.symm.trans hs'
    exact .inr ⟨hk, rfl, rfl⟩

theorem Gains.session (h : Gains s s' f g socket st) (r : Traffic s)
    (hothers : ∀ k other su, k ≠ f → Owns s k other su → traffic s' other = traffic s other)
    (hfollows : Session.Follows (traffic s' socket) st) (k : Handle) (other : Socket) (su : Session)
    (howns : Owns s' k other su) : Session.Follows (traffic s' other) su := by
  obtain ⟨hk, hold⟩ | ⟨-, rfl, rfl⟩ := h k other su howns
  · rw [hothers k other su hk hold]
    exact r.session k other su hold
  · exact hfollows

/-- If nobody else has the socket, everybody has another one. -/
theorem Gains.distinct (h : Gains s s' f g socket st) (r : Traffic s)
    (hapart : ∀ k other su, k ≠ f → Owns s k other su → other.id ≠ socket.id)
    (k k' : Handle) (other other' : Socket) (su su' : Session)
    (howns : Owns s' k other su) (howns' : Owns s' k' other' su') (hid : other.id = other'.id) : k = k' := by
  obtain ⟨hk, hold⟩ | ⟨hk, rfl, -⟩ := h k other su howns
  · obtain ⟨-, hold'⟩ | ⟨-, rfl, -⟩ := h k' other' su' howns'
    · exact r.distinct _ _ _ _ _ _ hold hold' hid
    · exact absurd hid (hapart k other su hk hold)
  · obtain ⟨hk', hold'⟩ | ⟨hk', -, -⟩ := h k' other' su' howns'
    · exact absurd hid.symm (hapart k' other' su' hk' hold')
    · exact hk.trans hk'.symm

theorem Gains.below (h : Gains s s' f g socket st) (r : Traffic s)
    (hmore : s.shared.sockets ≤ s'.shared.sockets) (hsocket : socket.id < s'.shared.sockets)
    (k : Handle) (other : Socket) (su : Session) (howns : Owns s' k other su) :
    other.id < s'.shared.sockets := by
  obtain ⟨-, hold⟩ | ⟨-, rfl, -⟩ := h k other su howns
  · exact Nat.lt_of_lt_of_le (r.below k other su hold) hmore
  · exact hsocket

end Gains

/-! ### One turn -/

section Turned
variable (w : Serving s) (w' : Serving s') (r : Traffic s) (turned : Turned s s' f a b events)
include w w' r turned

theorem traffic_idle (hsession : b.session = a.session) (hspawns : a.spawns = none)
    (hacts : ∀ socket, events.filterMap (actOn socket) = [])
    (hsockets : (a.shares s.shared).sockets = s.shared.sockets) : Traffic s' := by
  have howns : ∀ {k socket st}, Owns s' k socket st → Owns s k socket st := by
    intro k socket st h
    obtain ⟨-, h⟩ | ⟨rfl, hs⟩ | ⟨-, talk, hs, -⟩ := turned.owns w w' h
    · exact h
    · rw [hsession] at hs
      exact ⟨a, turned.before, hs⟩
    · rw [hspawns] at hs
      cases hs
  have htraffic := turned.traffic_same hacts
  have hshared : s'.shared.sockets = s.shared.sockets := by rw [turned.shared, hsockets]
  refine ⟨?_, ?_, ?_, ?_, ?_⟩
  · intro k socket st h
    rw [htraffic]
    exact r.session k socket st (howns h)
  · exact fun k k' socket socket' st st' h h' => r.distinct _ _ _ _ _ _ (howns h) (howns h')
  · intro k socket st h
    rw [hshared]
    exact r.below k socket st (howns h)
  · intro socket hs
    rw [hshared] at hs
    rw [htraffic]
    exact r.unused socket hs
  · intro socket ht
    rw [htraffic] at ht
    obtain ⟨k, st, h⟩ := r.owned socket ht
    by_cases hk : k = f
    · subst hk
      rw [turned.before.owns] at h
      exact ⟨_, st, b, turned.after, hsession.trans h⟩
    · exact ⟨k, st, turned.owns_other hk h⟩

theorem traffic_act {socket : Socket} {st st' : Session} {act : Act} (ha : a.session = some (socket, st))
    (hb : b.session = some (socket, st')) (hnext : st.next act = some st') (hspawns : a.spawns = none)
    (hacts : events.filterMap (actOn socket) = [act])
    (hothers : ∀ other, other ≠ socket → events.filterMap (actOn other) = [])
    (hsockets : (a.shares s.shared).sockets = s.shared.sockets) : Traffic s' := by
  have hf : Owns s f socket st := ⟨a, turned.before, ha⟩
  have hgains := turned.gains_self w w' hb hspawns
  have hshared : s'.shared.sockets = s.shared.sockets := by rw [turned.shared, hsockets]
  have hkept : ∀ other, other ≠ socket → traffic s' other = traffic s other := by
    intro other hne
    rw [turned.traffic, hothers other hne, List.append_nil]
  have hapart : ∀ k other su, k ≠ f → Owns s k other su → other.id ≠ socket.id :=
    fun k other su hk h hid => hk (r.distinct _ _ _ _ _ _ h hf hid)
  refine ⟨hgains.session r ?_ ?_, hgains.distinct r hapart, hgains.below r (Nat.le_of_eq hshared.symm) ?_, ?_, ?_⟩
  · exact fun k other su hk h => hkept other fun he => hapart k other su hk h (congrArg Socket.id he)
  · rw [turned.traffic, hacts]
    exact (r.session f socket st hf).snoc hnext
  · rw [hshared]
    exact r.below f socket st hf
  · intro other hs
    rw [hshared] at hs
    have hne : other ≠ socket := by
      rintro rfl
      exact absurd (r.below f other st hf) (Nat.not_lt.mpr hs)
    rw [hkept other hne]
    exact r.unused other hs
  · intro other ht
    by_cases hne : other = socket
    · exact ⟨f, st', b, turned.after, hne ▸ hb⟩
    · rw [hkept other hne] at ht
      obtain ⟨k, su, h⟩ := r.owned other ht
      have hk : k ≠ f := by
        rintro rfl
        rw [turned.before.owns, ha] at h
        cases h
        exact hne rfl
      exact ⟨k, su, turned.owns_other hk h⟩

theorem traffic_new {ctx : Context} (ha : a.session = none)
    (hb : b.session = some (⟨s.shared.sockets, ctx⟩, .fresh)) (hspawns : a.spawns = none)
    (hacts : ∀ socket, events.filterMap (actOn socket) = [])
    (hsockets : (a.shares s.shared).sockets = s.shared.sockets + 1) : Traffic s' := by
  have hgains := turned.gains_self w w' hb hspawns
  have htraffic := turned.traffic_same hacts
  have hshared : s'.shared.sockets = s.shared.sockets + 1 := by rw [turned.shared, hsockets]
  refine ⟨hgains.session r (fun _ other _ _ _ => htraffic other) ?_, hgains.distinct r ?_,
    hgains.below r (by omega) ?_, ?_, ?_⟩
  · rw [htraffic, r.unused _ (Nat.le_refl _)]
    exact Session.follows_nil
  · exact fun k other su _ h => Nat.ne_of_lt (r.below k other su h)
  · rw [hshared]
    exact Nat.lt_succ_self _
  · intro other hs
    rw [htraffic]
    exact r.unused other (by omega)
  · intro other ht
    rw [htraffic] at ht
    obtain ⟨k, su, h⟩ := r.owned other ht
    have hk : k ≠ f := by
      rintro rfl
      rw [turned.before.owns, ha] at h
      cases h
    exact ⟨k, su, turned.owns_other hk h⟩

theorem traffic_handed {socket : Socket} {talk : Talk} (ha : a.session = some (socket, .connected))
    (hb : b.session = none) (hspawns : a.spawns = some talk)
    (htalk : talk.session = some (socket, .connected))
    (hacts : ∀ socket, events.filterMap (actOn socket) = [])
    (hsockets : (a.shares s.shared).sockets = s.shared.sockets) : Traffic s' := by
  have hf : Owns s f socket .connected := ⟨a, turned.before, ha⟩
  have hgains := turned.gains_spawned w w' hb hspawns htalk
  have htraffic := turned.traffic_same hacts
  have hshared : s'.shared.sockets = s.shared.sockets := by rw [turned.shared, hsockets]
  refine ⟨hgains.session r (fun _ other _ _ _ => htraffic other) ?_, hgains.distinct r ?_,
    hgains.below r (Nat.le_of_eq hshared.symm) ?_, ?_, ?_⟩
  · rw [htraffic]
    exact r.session f socket _ hf
  · exact fun k other su hk h hid => hk (r.distinct _ _ _ _ _ _ h hf hid)
  · rw [hshared]
    exact r.below f socket _ hf
  · intro other hs
    rw [hshared] at hs
    rw [htraffic]
    exact r.unused other hs
  · intro other ht
    rw [htraffic] at ht
    obtain ⟨k, su, h⟩ := r.owned other ht
    by_cases hk : k = f
    · subst hk
      rw [turned.before.owns, ha] at h
      cases h
      exact ⟨s.created, .connected, talk, turned.spawned talk hspawns, htalk⟩
    · exact ⟨k, su, turned.owns_other hk h⟩

theorem traffic_step (h : Advances s a b events) : Traffic s' := by
  cases h with
  | same hsession hspawns hacts hsockets => exact traffic_idle w w' r turned hsession hspawns hacts hsockets
  | act ha hb hnext hspawns hacts hothers hsockets =>
    exact traffic_act w w' r turned ha hb hnext hspawns hacts hothers hsockets
  | new ha hb hspawns hacts hsockets => exact traffic_new w w' r turned ha hb hspawns hacts hsockets
  | handed ha hb hspawns htalk hacts hsockets =>
    exact traffic_handed w w' r turned ha hb hspawns htalk hacts hsockets

end Turned

theorem create_traffic {n : Nat} {server : TcpServer} {s : ServerState}
    (h : TcpServer.create n = some (server, s)) : Traffic s := by
  have hnone : ∀ k socket st, ¬ Owns s k socket st := by
    rintro k socket st ⟨talk, ht, hs⟩
    obtain ⟨rfl, rfl⟩ := create_talk h ht
    cases hs
  obtain ⟨pool, -, rfl⟩ := create_eq h
  have htraffic : ∀ socket, traffic (spawned (State.empty ⟨pool, 0⟩) .main .listenLoop) socket = [] :=
    fun _ => rfl
  exact ⟨fun k socket st h => absurd h (hnone k socket st),
    fun k _ socket _ st _ h => absurd h (hnone k socket st),
    fun k socket st h => absurd h (hnone k socket st), fun _ _ => htraffic _,
    fun socket h => absurd (htraffic socket) h⟩

end Step

end ExploreCpp.Server
