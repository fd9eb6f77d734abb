import ExploreCpp.Rotation
import ExploreCpp.Server.Affinity

/-! Which context every connection comes to.

The pool hands its contexts out in turn. The server takes the first one for its acceptor
and one ahead of each accept, and nobody else takes any, so the sockets it has accepted
and the one it has in hand are on the contexts after the first, in turn (`Dealt`). -/
namespace ExploreCpp.Server
open ExploreCpp.Runtime

/-! ### The pool -/

namespace IOContextPool

/-- A number of calls of `get_io_context`. -/
def handOut : Nat → IOContextPool → Option (List Context × IOContextPool)
  | 0, p => some ([], p)
  | k + 1, p =>
    match p.getIoContext with
    | some (ctx, p') => (handOut k p').map fun (rest, p'') => (ctx :: rest, p'')
    | none => none

/-- The next call is call `k` of a pool of `n`. -/
structure InTurn (n k : Nat) (p : IOContextPool) : Prop where
  contexts : p.ioContexts = List.range n
  cursor : p.nextIoContext = k % n

section InTurn
variable {n k a m : Nat} {p : IOContextPool}

theorem create_inTurn (n : Nat) : InTurn n 0 (create n) := ⟨rfl, (Nat.zero_mod n).symm⟩

/-- The first half of call `k`. -/
theorem InTurn.draw (h : InTurn n k p) (hn : 0 < n) :
    p.draw = some (k % n, {p with nextIoContext := k % n + 1}) := by
  have hlt : k % n < n := Nat.mod_lt k hn
  rw [IOContextPool.draw, h.contexts, h.cursor, List.getElem?_range hlt]

/-- The second half of it. -/
theorem InTurn.wrap (h : InTurn n k p) (hn : 0 < n) :
    InTurn n (k + 1) (IOContextPool.wrap {p with nextIoContext := k % n + 1}) := by
  have hlength : p.ioContexts.length = n := by rw [h.contexts, List.length_range]
  unfold IOContextPool.wrap
  by_cases hend : k % n + 1 = n
  · rw [if_pos (hend.trans hlength.symm)]
    refine ⟨h.contexts, ?_⟩
    show 0 = (k + 1) % n
    rw [← Nat.mod_add_mod, hend, Nat.mod_self]
  · rw [if_neg (hlength ▸ hend)]
    refine ⟨h.contexts, ?_⟩
    show k % n + 1 = (k + 1) % n
    have hlt : k % n < n := Nat.mod_lt k hn
    rw [← Nat.mod_add_mod, Nat.mod_eq_of_lt (by omega : k % n + 1 < n)]

theorem InTurn.getIoContext (h : InTurn n k p) (hn : 0 < n) :
    ∃ p', p.getIoContext = some (k % n, p') ∧ InTurn n (k + 1) p' := by
  refine ⟨_, ?_, h.wrap hn⟩
  rw [IOContextPool.getIoContext, h.draw hn]

/-- **Any calls give the contexts in turn**, one after the other. -/
theorem InTurn.handOut (h : InTurn n a p) (hn : 0 < n) (m : Nat) :
    ∃ p', p.handOut m = some (rotation n a m, p') ∧ InTurn n (a + m) p' := by
  induction m generalizing a p with
  | zero => exact ⟨p, rfl, h⟩
  | succ m ih =>
    obtain ⟨p₁, hget, h₁⟩ := h.getIoContext hn
    obtain ⟨p₂, hrest, h₂⟩ := ih h₁
    refine ⟨p₂, ?_, ?_⟩
    · rw [IOContextPool.handOut, hget, rotation_succ]
      simp only [hrest, Option.map_some]
    · rw [← Nat.add_assoc, Nat.add_right_comm]
      exact h₂

theorem InTurn.inRange (h : InTurn n k p) (hn : 0 < n) : p.nextIoContext < n := by
  rw [h.cursor]
  exact Nat.mod_lt k hn

end InTurn

end IOContextPool

/-! ### The sockets -/

def acceptedOn : ServerEvent → Option Socket
  | .completed _ (.accept socket) ec => if ec.error = 0 then some socket else none
  | _ => none

/-- The connections accepted so far, in order. -/
def accepted (s : ServerState) : List Socket := s.log.filterMap acceptedOn

/-- Connection `j` as it is to be, on a pool of `n`. -/
def connection (n j : Nat) : Socket := ⟨j, (j + 1) % n⟩

/-- The socket a root has for the next connection. -/
def Talk.hand (talk : Talk) : Option Socket :=
  match talk.session with
  | some (socket, st) => if st.served then none else some socket
  | none => none

/-- The pool and the context just drawn, at a point of `listen`. The acceptor has had the
first context. -/
def Dealing (n : Nat) (p : Point) (g : Shared) : Prop :=
  match p with
  | .listenWrap ctx => ∃ pool, IOContextPool.InTurn n (g.sockets + 1) pool ∧ pool.draw = some (ctx, g.pool)
  | .listenSocket ctx => ctx = (g.sockets + 1) % n ∧ IOContextPool.InTurn n (g.sockets + 2) g.pool
  | _ => IOContextPool.InTurn n (g.sockets + 1) g.pool

structure Dealt (n : Nat) (s : ServerState) : Prop where
  dealing : Dealing n (s.frames 0).body s.shared
  sockets : ∀ talk, Talks s.frames 0 talk →
    accepted s ++ talk.hand.toList = (List.range s.shared.sockets).map (connection n)

section Turn
variable {s s' : ServerState} {f : Handle} {l : ServerLabel} {a b : Talk} {events : List ServerEvent}
  {n : Nat}

/-- A connection is accepted by the act that serves its socket. -/
theorem acceptedOn_iff {e : ServerEvent} {socket : Socket} :
    acceptedOn e = some socket ↔ actOn socket e = some (.finish .accept true) := by
  cases e with
  | completed g op v =>
    cases op with
    | accept other =>
      by_cases hv : v.error = 0 <;> by_cases ho : other = socket <;>
        simp [acceptedOn, actOn, Op.socket, Op.kind, hv, ho]
    | read other | write other =>
      by_cases ho : other = socket <;> simp [acceptedOn, actOn, Op.socket, Op.kind, ho]
  | initiated g op =>
    by_cases ho : op.socket = socket <;> simp [acceptedOn, actOn, ho]
  | _ => simp [acceptedOn, actOn]

theorem accepted_none (h : ∀ socket, events.filterMap (actOn socket) = []) :
    events.filterMap acceptedOn = [] := by
  rw [List.filterMap_eq_nil_iff]
  intro e he
  cases haccept : acceptedOn e with
  | none => rfl
  | some socket =>
    have hact := List.filterMap_eq_nil_iff.1 (h socket) e he
    rw [acceptedOn_iff.1 haccept] at hact
    cases hact

/-- What an act on a socket says of the acceptance of its connection. -/
def Act.accepts (socket : Socket) (act : Act) : Option Socket :=
  if act = .finish .accept true then some socket else none

theorem accepted_act {socket : Socket} {act : Act} (hact : events.filterMap (actOn socket) = [act])
    (hothers : ∀ other, other ≠ socket → events.filterMap (actOn other) = []) :
    events.filterMap acceptedOn = (act.accepts socket).toList := by
  have hmap : ∀ e ∈ events, acceptedOn e = (actOn socket e).bind (Act.accepts socket) := by
    intro e he
    cases haccept : acceptedOn e with
    | some other =>
      have hother := acceptedOn_iff.1 haccept
      obtain rfl : other = socket := by
        by_contra hne
        have hnone := List.filterMap_eq_nil_iff.1 (hothers other hne) e he
        cases hother.symm.trans hnone
      rw [hother]
      rfl
    | none =>
      cases hsome : actOn socket e with
      | none => rfl
      | some other =>
        have hne : other ≠ .finish .accept true := by
          rintro rfl
          cases haccept.symm.trans (acceptedOn_iff.2 hsome)
        exact (if_neg hne).symm
  rw [List.filterMap_congr hmap, ← List.filterMap_filterMap, hact]
  cases haccept : act.accepts socket <;> simp [haccept]

/-- The act that accepts a connection takes its socket out of hand. -/
theorem Session.next_hand {st st' : Session} {act : Act} (hn : st.next act = some st') (socket : Socket) :
    (act.accepts socket).toList ++ (if st'.served then [] else [socket]) =
      if st.served then [] else [socket] := by
  unfold Session.next at hn
  split at hn <;> cases hn <;> simp [Session.served, Act.accepts]

theorem Talk.hand_eq {talk : Talk} {socket : Socket} {st : Session} (h : talk.session = some (socket, st)) :
    talk.hand.toList = if st.served then [] else [socket] := by
  rw [Talk.hand, h]
  cases hserved : st.served <;> simp [hserved]

/-- A root gets a socket where `listen` constructs one. -/
theorem Turn.constructs (turn : Turn s f l a b events) {socket : Socket} {st : Session}
    (ha : a.session = none) (hb : b.session = some (socket, st)) :
    ∃ ctx, a.point = .listenSocket ctx ∧ socket.context = ctx := by
  cases turn with
  | @compute t ans p u hact =>
    rcases compute_point hact with ⟨rfl, hu⟩ | ⟨ctx, rfl, hu⟩ | ⟨ctx, rfl, hu⟩
    · rcases hu s.shared with ⟨ctx, pool, -, he⟩ | ⟨-, he⟩ <;> rw [he] at hb <;> cases hb
    · rw [hu] at hb
      cases hb
    · rw [hu] at hb
      cases hb
      exact ⟨ctx, rfl, rfl⟩
  | call hcalls => cases (calls_session hcalls).symm.trans ha
  | leave | finish | throw => cases ha.symm.trans hb
  | spawn => cases hb
  | _ => cases ha

/-- What a turn of `listen` does to the sockets accepted and in hand. -/
theorem Turn.dealt (turn : Turn s f l a b events) :
    (events.filterMap acceptedOn ++ b.hand.toList = a.hand.toList ∧
      (a.shares s.shared).sockets = s.shared.sockets) ∨
    ∃ ctx, a.point = .listenSocket ctx ∧ events.filterMap acceptedOn = [] ∧ a.hand = none ∧
      b.hand = some ⟨s.shared.sockets, ctx⟩ ∧ (a.shares s.shared).sockets = s.shared.sockets + 1 := by
  cases turn.advances with
  | same hsession hspawns hacts hsockets =>
    refine .inl ⟨?_, hsockets⟩
    rw [accepted_none hacts, Talk.hand, Talk.hand, hsession]
    rfl
  | @act socket st st' act ha hb hnext hspawns hacts hothers hsockets =>
    refine .inl ⟨?_, hsockets⟩
    rw [accepted_act hacts hothers, Talk.hand_eq ha, Talk.hand_eq hb]
    exact Session.next_hand hnext socket
  | @new ctx ha hb hspawns hacts hsockets =>
    obtain ⟨ctx', hpoint, rfl⟩ := turn.constructs ha hb
    have hhand : b.hand = some ⟨s.shared.sockets, ctx⟩ := by
      rw [Talk.hand, hb]
      rfl
    exact .inr ⟨_, hpoint, accepted_none hacts, by rw [Talk.hand, ha], hhand, hsockets⟩
  | @handed socket talk ha hb hspawns htalk hacts hsockets =>
    refine .inl ⟨?_, hsockets⟩
    rw [accepted_none hacts]
    simp [Talk.hand, ha, hb, Session.served]

/-- What a turn of `listen` does to the pool. -/
theorem Turn.dealing (turn : Turn s f l a b events) (hn : 0 < n) (h : Dealing n a.point s.shared) :
    Dealing n b.point (a.shares s.shared) := by
  cases turn with
  | @compute t ans p u hact =>
    have hshares : (Talk.resting p t).shares s.shared = (u s.shared).1 := by simp [Talk.shares, hact]
    rw [hshares]
    rcases compute_point hact with ⟨rfl, hu⟩ | ⟨ctx, rfl, hu⟩ | ⟨ctx, rfl, hu⟩
    · have hturn : IOContextPool.InTurn n (s.shared.sockets + 1) s.shared.pool := h
      rcases hu s.shared with ⟨ctx, pool, hdraw, he⟩ | ⟨hnone, -⟩
      · rw [he]
        exact ⟨s.shared.pool, hturn, hdraw⟩
      · cases hnone.symm.trans (hturn.draw hn)
    · obtain ⟨pool, hturn, hdraw⟩ := h
      obtain ⟨hctx, hpool⟩ := Prod.mk.inj (Option.some.inj ((hturn.draw hn).symm.trans hdraw))
      rw [hu, ← hpool]
      exact ⟨hctx.symm, hturn.wrap hn⟩
    · rw [hu]
      exact h.2
  | @call t ans p op g hcalls =>
    rw [calls_shares hcalls]
    cases p with
    | listenAccept | processLoop | processBranch => exact h
    | _ => cases hcalls
  | @leave t ans p hfails | @finish t ans p hfails =>
    rw [fails_shares hfails]
    exact h
  | throw hact =>
    rw [throw_shares hact]
    exact h
  | @ask t ans socket ec hok =>
    have hshares : (Talk.resting (.listenBranch socket ec) t).shares s.shared = s.shared := by
      simp [Talk.shares, act, hok]
    rw [hshares]
    exact h
  | @drop t ans op g v => cases op <;> exact h
  | _ => exact h

/-- Only `listen` computes. -/
theorem shares_eq (h : a.point.listens = false) (g : Shared) : a.shares g = g := by
  cases a with
  | resting p t =>
    simp only [Talk.shares]
    split
    · have hlistens : p.listens = true := (compute_next ‹_› g).2.2
      cases h.symm.trans hlistens
    · rfl
  | _ => rfl

/-- A turn of another root accepts nothing, and takes nothing from the pool. -/
theorem Serving.deals_not (w : Serving s) (turned : Turned s s' f a b events) (turn : Turn s f l a b events)
    (hf : f ≠ 0) : events.filterMap acceptedOn = [] ∧ s'.shared = s.shared := by
  have hlistens : a.point.listens = false := by
    have hnot := mt (w.listen f (w.born turned.before.present) turned.before.root).1 hf
    rw [turned.before.point] at hnot
    exact Bool.eq_false_iff.2 hnot
  refine ⟨?_, turned.shared.trans (shares_eq hlistens s.shared)⟩
  obtain ⟨socket, st, hs⟩ := w.session turned.before hf
  have hnone : a.hand.toList = [] := by
    rw [Talk.hand_eq hs, if_pos (w.served turned.before hf hs)]
  obtain ⟨hdealt, -⟩ | ⟨ctx, hpoint, -⟩ := turn.dealt
  · exact (List.append_eq_nil_iff.1 (hdealt.trans hnone)).1
  · rw [hpoint] at hlistens
    cases hlistens

end Turn

/-! ### The server -/

section Step
variable {n : Nat} {server : TcpServer} {s s' : ServerState} {l : ServerLabel}

theorem dealt_step (hn : 0 < n) (o : Orderly s) (h : Dealt n s) (hs : server.machine.step s l = some s') :
    Dealt n s' := by
  obtain ⟨hmoves, w'⟩ := serving_step o.serving hs
  obtain ⟨f, a, b, events, turned, turn⟩ := turns o.serving hmoves
  have haccepted : accepted s' = accepted s ++ events.filterMap acceptedOn := by
    rw [accepted, turned.log, List.filterMap_append]
    rfl
  by_cases hf : f = 0
  · subst hf
    have hdealing := h.dealing
    have hsockets := h.sockets a turned.before
    rw [turned.before.point] at hdealing
    refine ⟨?_, fun talk ht => ?_⟩
    · rw [turned.after.point, turned.shared]
      exact turn.dealing hn hdealing
    · rw [ht.unique turned.after, haccepted, turned.shared]
      obtain ⟨hdealt, hsame⟩ | ⟨ctx, hpoint, hnone, hhand, hhand', hmore⟩ := turn.dealt
      · rw [hsame, List.append_assoc, hdealt, hsockets]
      · rw [hpoint] at hdealing
        rw [hhand, Option.toList_none, List.append_nil] at hsockets
        rw [hmore, hnone, List.append_nil, hsockets, hhand', List.range_succ, List.map_append, hdealing.1]
        rfl
  · obtain ⟨hnone, hshared⟩ := o.serving.deals_not turned turn hf
    refine ⟨?_, fun talk ht => ?_⟩
    · obtain ⟨talk, ht, -⟩ := o.listener
      rw [(turned.others 0 talk (Ne.symm hf) ht).point, hshared, ← ht.point]
      exact h.dealing
    · rw [haccepted, hnone, List.append_nil, hshared]
      rcases turned.talks o.serving w' ht with ⟨-, ht'⟩ | ⟨h0, -⟩ | ⟨h0, -⟩
      · exact h.sockets talk ht'
      · exact absurd h0.symm hf
      · exact absurd h0 (Nat.ne_of_lt o.begun)

theorem create_dealt (hn : 0 < n) (h : TcpServer.create n = some (server, s)) :
    server.acceptor = 0 ∧ Dealt n s := by
  have htalk : ∀ k talk, Talks s.frames k talk → k = 0 ∧ talk = .resting .listenLoop .main :=
    fun _ _ => create_talk h
  obtain ⟨pool, hpool, rfl⟩ := create_eq h
  obtain ⟨pool', hpool', hturn⟩ := (IOContextPool.create_inTurn n).getIoContext hn
  obtain ⟨hctx, rfl⟩ := Prod.mk.inj (Option.some.inj (hpool'.symm.trans hpool))
  refine ⟨hctx.symm.trans (Nat.zero_mod n), hturn, fun talk ht => ?_⟩
  rw [(htalk 0 talk ht).2]
  rfl

theorem reachable_dealt {s₀ : ServerState} (hn : 0 < n) (hcreate : TcpServer.create n = some (server, s₀))
    (h : server.machine.Reaches s₀ s) : Orderly s ∧ Dealt n s := by
  have hstep : ∀ s l s', Orderly s ∧ Dealt n s → server.machine.step s l = some s' →
      Orderly s' ∧ Dealt n s' :=
    fun s l s' hs hl => ⟨orderly_step hs.1 hl, dealt_step hn hs.1 hs.2 hl⟩
  exact h.invariant hstep ⟨create_orderly hcreate, (create_dealt hn hcreate).2⟩

theorem Dealt.accepted (o : Orderly s) (h : Dealt n s) :
    accepted s = (List.range (accepted s).length).map (connection n) := by
  obtain ⟨talk, ht, -⟩ := o.listener
  have hsockets := h.sockets talk ht
  have hlength : (Server.accepted s).length ≤ s.shared.sockets := by
    have hall := congrArg List.length hsockets
    rw [List.length_append, List.length_map, List.length_range] at hall
    omega
  calc Server.accepted s
      = (Server.accepted s ++ talk.hand.toList).take (Server.accepted s).length := List.take_left.symm
    _ = ((List.range s.shared.sockets).map (connection n)).take (Server.accepted s).length := by rw [hsockets]
    _ = (List.range (Server.accepted s).length).map (connection n) := by
        rw [← List.map_take, List.take_range, Nat.min_eq_left hlength]

/-- What a `process` serves is a connection that has been accepted. -/
theorem Orderly.process_accepted (o : Orderly s) {k : Handle} {socket : Socket} (hk : IsProcess s k socket) :
    socket ∈ accepted s := by
  obtain ⟨talk, ht⟩ := o.serving.roots k hk.born hk.root
  obtain ⟨st, hs, hserved⟩ := ht.serves hk.serves
  have hact := (o.past ht hs).accepted.2 hserved
  obtain ⟨e, he, hacts⟩ := List.mem_filterMap.1 hact
  exact List.mem_filterMap.2 ⟨e, he, acceptedOn_iff.2 hacts⟩

/-- What the calls `a`, …, `a + m - 1` of `get_io_context` on a pool of `n` are to return. -/
structure Balanced (n a m : Nat) (window : List Context) : Prop where
  length : window.length = m
  call : ∀ i, i < m → window[i]? = some ((a + i) % n)
  distinct : m ≤ n → window.Nodup
  balance : ∀ c d, c < n → d < n → window.count c ≤ window.count d + 1

theorem rotation_fair (n a m : Nat) : Balanced n a m (rotation n a m) :=
  ⟨by simp [rotation], fun _ => rotation_getElem?, rotation_nodup, fun _ _ => rotation_balanced⟩

/-- **The contexts are handed out in turn**, to any callers; and so the connections of the server
come to them in turn, whatever becomes of the connections before. -/
theorem round_robin (hn : 0 < n) :
    (∀ a m, ∃ before p window p', (IOContextPool.create n).handOut a = some (before, p) ∧
      p.handOut m = some (window, p') ∧ p.nextIoContext < n ∧ Balanced n a m window) ∧
    ∃ server s₀, TcpServer.create n = some (server, s₀) ∧ server.acceptor = 0 ∧
      ∀ s, server.machine.Reaches s₀ s →
        accepted s = (List.range (accepted s).length).map (connection n) ∧
        ∀ k socket, IsProcess s k socket → socket ∈ accepted s := by
  constructor
  · intro a m
    obtain ⟨p, hbefore, hp⟩ := (IOContextPool.create_inTurn n).handOut hn a
    rw [Nat.zero_add] at hp
    obtain ⟨p', hwindow, -⟩ := hp.handOut hn m
    exact ⟨_, p, _, p', hbefore, hwindow, hp.inRange hn, rotation_fair n a m⟩
  · obtain ⟨server, s₀, hcreate⟩ := create_some hn
    refine ⟨server, s₀, hcreate, (create_dealt hn hcreate).1, fun s hs => ?_⟩
    obtain ⟨o, h⟩ := reachable_dealt hn hcreate hs
    exact ⟨h.accepted o, fun _ _ => o.process_accepted⟩

/-- On two contexts, a connection accepted by `oneConnection` is on the second. -/
theorem round_robin_oneConnection : ∃ server s₀ s,
    TcpServer.create 2 = some (server, s₀) ∧ server.machine.run s₀ oneConnection = some s ∧
    accepted s = [⟨0, 1⟩] ∧ accepted s = (List.range (accepted s).length).map (connection 2) := by
  obtain ⟨-, server, s₀, hcreate, -, hplaced⟩ := round_robin (n := 2) (by decide)
  have hstart := Option.some.inj (hcreate.symm.trans rfl)
  obtain ⟨rfl, rfl⟩ := Prod.mk.inj hstart
  exact ⟨_, _, _, hcreate, rfl, rfl, (hplaced _ ⟨oneConnection, rfl⟩).1⟩

end Step

end ExploreCpp.Server
