import ExploreCpp.Server.Affinity
import ExploreCpp.Server.Settled

/-! What takes the server out of service.

`listen` ends at the first accept that fails, and `remote_endpoint()` throws out of it if
the peer has gone. A run without either (`Welcome`) never loses the acceptor; a run with
one of them has lost it by the time it comes to rest. -/
namespace ExploreCpp.Server
open ExploreCpp.Runtime

/-- The process has not been terminated, and an accept is outstanding whenever the
acceptor's context has nothing left to run. -/
structure InService (server : TcpServer) (s : ServerState) : Prop where
  running : s.halted ≠ some .terminate
  armed : s.stackOf .main = [] → s.stackOf (.context server.acceptor) = [] →
    ∃ g socket, accepts s = [(g, .accept socket)]

/-- No accept fails, and no peer has gone when it is asked for. -/
def Welcome (s : ServerState) : ServerLabel → Prop
  | .start .. => True
  | .run t answer => ∀ h rest, s.stackOf t = h :: rest → act (s.frames h).body = .ask →
    answer = .remoteEndpoint true
  | .complete _ g v => ∀ socket, (g, .accept socket) ∈ s.pending → v.error = 0

/-! ### The steady state -/

/-- `listen` is not about to end. -/
def Point.steady : Point → Bool
  | listenBranch _ ec => ec.error = 0
  | listenRemote _ remote => remote = .remoteEndpoint true
  | outOfRange => false
  | _ => true

def Talk.steady : Talk → Bool
  | resting p _ | gone p => p.steady
  | completed (.accept _) _ ec _ | returned (.accept _) _ ec _ | answered (.accept _) _ ec _ =>
    ec.error = 0
  | _ => true

/-- The cursor is in range, but for the middle of a call of `get_io_context`. -/
structure Ready (pool : IOContextPool) (p : Point) : Prop where
  pos : 0 < pool.ioContexts.length
  le : pool.nextIoContext ≤ pool.ioContexts.length
  range : (∀ ctx, p ≠ .listenWrap ctx) → pool.InRange

structure Serviceable (server : TcpServer) (s : ServerState) : Prop where
  orderly : Orderly s
  placed : Placed server s
  steady : ∀ k talk, Talks s.frames k talk → talk.steady = true
  ready : Ready s.shared.pool (s.frames 0).body
  running : s.halted = none

section Step
variable {s s' : ServerState} {f k : Handle} {l : ServerLabel} {a b talk : Talk} {t : Thread}
  {events : List ServerEvent} {p : Point}

theorem ask_point (h : act p = .ask) : ∃ socket ec, p = .listenBranch socket ec ∧ ec.error = 0 := by
  cases p with
  | listenBranch socket ec =>
    refine ⟨socket, ec, rfl, ?_⟩
    by_contra hne
    simp [act, hne] at h
  | awaited op => cases op <;> cases h
  | listenRemote | processBranch =>
    simp only [act] at h
    split at h <;> cases h
  | _ => cases h

theorem throw_point (h : act p = .throw) : p.steady = false := by
  cases p with
  | outOfRange => rfl
  | listenRemote socket remote =>
    simp only [act] at h
    split at h
    · cases h
    · simpa [Point.steady] using ‹_›
  | awaited op => cases op <;> cases h
  | listenBranch | processBranch =>
    simp only [act] at h
    split at h <;> cases h
  | _ => cases h

/-- Where a root that is steady has ended is not in `listen`. -/
theorem fails_point (h : p.fails = true) (hp : p.steady = true) : p.listens = false := by
  cases p with
  | listenBranch socket ec =>
    simp only [Point.fails, Point.steady, decide_eq_true_eq] at h hp
    exact absurd hp h
  | processBranch => rfl
  | _ => cases h

/-- The frame of a resting root is on top of its thread, if it does not wait in `spawn`. -/
theorem Serving.resting_top (w : Serving s) (h : Talks s.frames k (.resting p t))
    (hn : (s.frames k).status ≠ .nested t) : ∃ rest, s.stackOf t = k :: rest := by
  cases h with
  | resting hr =>
    refine w.runtime.threads.top_eq (Status.place_top.mpr ?_)
    rcases hr.status with hs | ⟨hs, -⟩ | ⟨hs, -⟩
    · exact .inl hs
    · exact absurd hs hn
    · exact .inr hs

theorem next_steady {op : Op} {v : Value} (h : (Talk.answered op k v t).steady = true) :
    (op.next v).steady = true := by
  cases op with
  | accept => exact h
  | read | write => rfl

/-- A turn that is welcome keeps the root steady. -/
theorem steady_turn (w : Serving s) (turned : Turned s s' f a b events) (turn : Turn s f l a b events)
    (hw : Welcome s l) (ha : a.steady = true)
    (hready : a.point.listens = true → Ready s.shared.pool a.point) : b.steady = true := by
  cases turn with
  | @compute t ans p u hact =>
    rcases compute_point hact with ⟨rfl, hu⟩ | ⟨ctx, rfl, hu⟩ | ⟨ctx, rfl, hu⟩
    · have hdraw := IOContextPool.draw_some ((hready rfl).range nofun)
      rcases hu s.shared with ⟨ctx, pool, -, he⟩ | ⟨hnone, -⟩
      · rw [he]
        rfl
      · cases hdraw.symm.trans hnone
    · rw [hu]
      rfl
    · rw [hu]
      rfl
  | @ask t ans socket ec hok =>
    obtain ⟨rest, hstack⟩ := w.resting_top turned.before (turned.active t)
    have hask : act (s.frames f).body = .ask := by
      rw [turned.before.point]
      simp [Talk.point, act, hok]
    rw [hw f rest hstack hask]
    rfl
  | @complete t op g v hop =>
    cases op with
    | accept socket => simpa [Talk.steady] using hw socket hop
    | read | write => rfl
  | drop => exact next_steady ha
  | throw => exact ha
  | leave | finish => exact ha
  | call | start | initiate | spawn => rfl
  | @deliver t ans op g v | @resume t ans op g v => cases op <;> exact ha

/-- A turn that is not part of `get_io_context` leaves the pool alone. -/
theorem shares_pool (h : a.point.draws = false) (g : Shared) : (a.shares g).pool = g.pool := by
  cases a with
  | resting p t =>
    simp only [Talk.shares]
    split
    · rename_i u hact
      rcases compute_point hact with ⟨rfl, -⟩ | ⟨ctx, rfl, -⟩ | ⟨ctx, rfl, hu⟩
      · cases h
      · cases h
      · rw [hu]
    · rfl
  | _ => rfl

theorem ready_turn (turn : Turn s f l a b events) (h : Ready s.shared.pool a.point) :
    Ready (a.shares s.shared).pool b.point := by
  have hkeep : a.point.draws = false → Ready (a.shares s.shared).pool b.point := by
    intro hd
    rw [shares_pool hd]
    refine ⟨h.pos, h.le, fun _ => h.range ?_⟩
    intro ctx hp
    rw [hp] at hd
    cases hd
  cases turn with
  | @compute t ans p u hact =>
    have hshares : (Talk.resting p t).shares s.shared = (u s.shared).1 := by simp [Talk.shares, hact]
    rcases compute_point hact with ⟨rfl, hu⟩ | ⟨ctx, rfl, hu⟩ | ⟨ctx, rfl, hu⟩
    · have hrange := h.range fun ctx hp => by cases hp
      have hdraw := IOContextPool.draw_some hrange
      rcases hu s.shared with ⟨ctx, pool, hd, he⟩ | ⟨hnone, -⟩
      · cases hdraw.symm.trans hd
        rw [hshares, he]
        exact ⟨h.pos, hrange, fun hne => absurd rfl (hne _)⟩
      · cases hdraw.symm.trans hnone
    · rw [hshares, hu]
      have hrange := IOContextPool.wrap_inRange h.le h.pos
      exact ⟨by rw [IOContextPool.wrap_ioContexts]; exact h.pos, Nat.le_of_lt hrange, fun _ => hrange⟩
    · exact hkeep rfl
  | @call t ans p op g hcalls => exact hkeep (by cases p <;> first | rfl | cases hcalls)
  | leave hfails | finish hfails => exact hkeep (by rename_i p; cases p <;> first | rfl | cases hfails)
  | throw hact =>
    rw [throw_shares hact]
    exact h
  | _ => exact hkeep rfl

/-- Only an exception ends the process. -/
theorem Moves.halted (h : Moves s l s') : s'.halted = s.halted ∨
    s'.halted = some .terminate ∧ ∃ k p t, Talks s.frames k (.resting p t) ∧ act p = .throw := by
  cases h with
  | throw hstack hrun htalk hact => exact .inr ⟨rfl, _, _, _, htalk, hact⟩
  | initiate | finish =>
    rw [returnTo_eq]
    exact .inl rfl
  | _ => exact .inl rfl

theorem spawns_steady (h : a.spawns = some b) : b.steady = true := by
  cases a with
  | resting p t =>
    simp only [Talk.spawns] at h
    split at h <;> cases h
    rfl
  | _ => cases h

theorem serviceable_step {server : TcpServer} (h : Serviceable server s) (hw : Welcome s l)
    (hs : server.machine.step s l = some s') : Serviceable server s' := by
  obtain ⟨o, p, hsteady, hready, hrunning⟩ := h
  have w := o.serving
  obtain ⟨hmoves, w'⟩ := serving_step w hs
  obtain ⟨f, a, b, events, turned, turn⟩ := turns w hmoves
  have hlistens : a.point.listens = true → f = 0 := by
    rw [← turned.before.point]
    exact o.listens_zero turned.before
  refine ⟨orderly_step o hs, placed_step o p hs, ?_, ?_, ?_⟩
  · intro k talk ht
    rcases turned.talks w w' ht with ⟨-, hbefore⟩ | ⟨-, rfl⟩ | ⟨-, hspawn⟩
    · exact hsteady k talk hbefore
    · refine steady_turn w turned turn hw (hsteady f a turned.before) fun hl => ?_
      rw [← turned.before.point, hlistens hl]
      exact hready
    · exact spawns_steady hspawn
  · by_cases hf : f = 0
    · subst hf
      rw [turned.before.point] at hready
      rw [turned.after.point, turned.shared]
      exact ready_turn turn hready
    · have hdraws : a.point.draws = false := by
        cases hp : a.point with
        | listenLoop | listenWrap => exact absurd (hlistens (by rw [hp]; rfl)) hf
        | _ => rfl
      obtain ⟨talk, ht, -⟩ := o.listener
      rw [(turned.others 0 talk (Ne.symm hf) ht).point, turned.shared, shares_pool hdraws, ← ht.point]
      exact hready
  · rcases hmoves.halted with he | ⟨-, k, p, t, ht, hact⟩
    · rw [he, hrunning]
    · have hp := hsteady k _ ht
      rw [Talk.steady, throw_point hact] at hp
      cases hp

theorem create_serviceable {n : Nat} {server : TcpServer} (h : TcpServer.create n = some (server, s)) :
    Serviceable server s := by
  have o := create_orderly h
  have p := create_placed h
  have htalk : ∀ k talk, Talks s.frames k talk → k = 0 ∧ talk = .resting .listenLoop .main :=
    fun _ _ => create_talk h
  obtain ⟨pool, hpool, rfl⟩ := create_eq h
  refine ⟨o, p, ?_, ?_, rfl⟩
  · intro k talk ht
    obtain ⟨rfl, rfl⟩ := htalk k talk ht
    rfl
  · show Ready pool .listenLoop
    have hn : 0 < n := by
      by_contra hn
      obtain rfl : n = 0 := by omega
      cases hpool
    have hrange := IOContextPool.create_inRange hn
    rw [IOContextPool.getIoContext, IOContextPool.draw_some hrange] at hpool
    obtain ⟨-, rfl⟩ := Prod.mk.inj (Option.some.inj hpool)
    have hwrap := IOContextPool.wrap_inRange (p := {IOContextPool.create n with
      nextIoContext := (IOContextPool.create n).nextIoContext + 1}) hrange (Nat.lt_of_le_of_lt (Nat.zero_le _) hrange)
    exact ⟨Nat.lt_of_le_of_lt (Nat.zero_le _) hwrap, Nat.le_of_lt hwrap, fun _ => hwrap⟩

theorem Serviceable.inService {server : TcpServer} (h : Serviceable server s) : InService server s := by
  obtain ⟨o, p, hsteady, -, hrunning⟩ := h
  refine ⟨by rw [hrunning]; nofun, fun hmain hcontext => ?_⟩
  obtain ⟨talk, ht, hl⟩ := o.listener
  have hoff : talk.thread = none := by
    cases hthread : talk.thread with
    | none => rfl
    | some t =>
      refine absurd ?_ (ht.on_stack o.serving hthread)
      rcases p.listen talk t ht hthread with rfl | rfl
      · exact hmain
      · exact hcontext
  rw [ht.point] at hl
  cases talk with
  | outstanding op g =>
    cases op with
    | accept socket => exact ⟨g, socket, o.accepts_one ht⟩
    | _ => cases hl
  | gone p =>
    cases ht with
    | gone hg =>
      have hp := fails_point hg.fails (hsteady 0 _ (.gone hg))
      cases hp.symm.trans hl
  | _ => cases hoff

/-! ### The loss of the acceptor -/

/-- An accept has failed, or `listen` has been told that its peer has gone. -/
def Doomed (s : ServerState) : Prop :=
  AcceptFailed s ∨ ∃ k socket remote t, Talks s.frames k (.resting (.listenRemote socket remote) t) ∧
    remote ≠ .remoteEndpoint true

theorem doomed_step {server : TcpServer} (o : Orderly s) (h : Doomed s)
    (hs : server.machine.step s l = some s') : Doomed s' := by
  obtain ⟨hmoves, -⟩ := serving_step o.serving hs
  obtain ⟨f, a, b, events, turned, turn⟩ := turns o.serving hmoves
  rcases h with ⟨g, socket, v, hm, hv⟩ | ⟨k, socket, remote, t, ht, hr⟩
  · refine .inl ⟨g, socket, v, ?_, hv⟩
    rw [turned.log]
    exact List.mem_append_left _ hm
  · refine .inr ⟨k, socket, remote, t, ?_, hr⟩
    by_cases hk : k = f
    · -- Its next step is the exception, which leaves the frame as it is.
      subst hk
      obtain rfl := ht.unique turned.before
      have hthrow : act (.listenRemote socket remote) = .throw := by
        cases remote with
        | remoteEndpoint connected =>
          cases connected with
          | true => exact absurd rfl hr
          | false => rfl
        | _ => rfl
      cases turn with
      | compute hact => cases hthrow.symm.trans hact
      | call hcalls => cases hcalls
      | leave hfails | finish hfails => cases hfails
      | spawn => exact absurd rfl hr
      | throw => exact turned.after
    · exact turned.others k _ hk ht

theorem unwelcome_step {server : TcpServer} (o : Orderly s) (h : ¬ Welcome s l)
    (hs : server.machine.step s l = some s') : Doomed s' := by
  obtain ⟨hmoves, -⟩ := serving_step o.serving hs
  obtain ⟨f, a, b, events, turned, turn⟩ := turns o.serving hmoves
  cases l with
  | start => exact absurd trivial h
  | run t answer =>
    simp only [Welcome, not_forall] at h
    obtain ⟨k, rest, hstack, hask, hanswer⟩ := h
    obtain ⟨socket, ec, hbody, hok⟩ := ask_point hask
    obtain ⟨k', talk, ht, hthread, hn, hk⟩ := o.serving.top hstack
    obtain rfl : k = k' := by
      rcases hk with rfl | hcallee
      · rfl
      · have hrests := ht.callee_body hcallee
        rw [hbody] at hrests
        cases hrests
    obtain rfl := o.serving.one_active turned.before ht turn.runs hthread (turned.active t) hn
    obtain rfl := ht.unique turned.before
    have hpoint : talk = .resting (.listenBranch socket ec) t := by
      rw [ht.point] at hbody
      cases talk with
      | resting p u =>
        cases hbody
        cases hthread
        rfl
      | gone p => cases hthread
      | _ => cases hbody
    subst hpoint
    cases turn with
    | ask => exact .inr ⟨f, socket, answer, t, turned.after, hanswer⟩
    | compute hact => cases hact.symm.trans (hbody ▸ hask)
    | call hcalls => cases hcalls
    | leave hfails | finish hfails => simp [Point.fails, hok] at hfails
    | throw hact => cases hact.symm.trans (hbody ▸ hask)
  | complete t g v =>
    simp only [Welcome, not_forall] at h
    obtain ⟨socket, hop, hv⟩ := h
    cases turn with
    | @complete t op g v hop' =>
      have howes := (o.serving.runtime.operations.entry g op).mp hop'
      cases howes.symm.trans ((o.serving.runtime.operations.entry g _).mp hop)
      refine .inl ⟨g, socket, v, ?_, hv⟩
      rw [turned.log]
      simp

/-- A server that is doomed and has come to rest is out of service. -/
theorem Doomed.lost {server : TcpServer} (o : Orderly s) (h : Doomed s)
    (hr : Quiet s ∨ s.halted ≠ none) : ¬ InService server s := by
  rintro ⟨hrunning, harmed⟩
  have hquiet : Quiet s := by
    refine hr.resolve_right fun hne => ?_
    obtain ⟨why, hwhy⟩ := Option.ne_none_iff_exists'.mp hne
    cases why with
    | terminate => exact hrunning hwhy
    | undefined => exact o.serving.runtime.defined hwhy
  obtain ⟨g, socket, haccepts⟩ := harmed (hquiet _) (hquiet _)
  rcases h with hfailed | ⟨k, socket, remote, t, ht, -⟩
  · rcases o.accepting hquiet with ⟨hnot, -⟩ | ⟨-, hnone⟩
    · exact hnot hfailed
    · cases haccepts.symm.trans hnone
  · exact ht.on_stack o.serving rfl (hquiet t)

theorem welcome_of_inService {server : TcpServer} {labels : List ServerLabel} {u : ServerState}
    (o : Orderly s) (h : server.machine.run s labels = some u) (hr : Quiet u ∨ u.halted ≠ none)
    (hu : InService server u) : server.machine.Conforms Welcome s labels := by
  induction labels generalizing s with
  | nil => trivial
  | cons l rest ih =>
    obtain ⟨s', hs, hrest⟩ := Machine.run_cons h
    have o' := orderly_step o hs
    refine ⟨?_, fun s'' hs'' => ?_⟩
    · by_contra hw
      have hstep : ∀ s l s', Orderly s ∧ Doomed s → server.machine.step s l = some s' →
          Orderly s' ∧ Doomed s' :=
        fun s l s' ⟨o, hd⟩ hl => ⟨orderly_step o hl, doomed_step o hd hl⟩
      obtain ⟨ou, hd⟩ := Machine.run_invariant hstep ⟨o', unwelcome_step o hw hs⟩ hrest
      exact hd.lost ou hr hu
    · obtain rfl : s' = s'' := Option.some.inj (hs.symm.trans hs'')
      exact ih o' hrest

/-- **The server stays in service exactly on the runs that are welcome**: on such a run in every
state, and a run that is not has lost the acceptor by the time it comes to rest. -/
theorem in_service_iff_welcome {n : Nat} {server : TcpServer} {s₀ : ServerState}
    (hcreate : TcpServer.create n = some (server, s₀)) (labels : List ServerLabel) :
    (server.machine.Conforms Welcome s₀ labels →
      server.machine.Throughout (InService server) s₀ labels) ∧
    ∀ u, server.machine.run s₀ labels = some u → Quiet u ∨ u.halted ≠ none →
      server.machine.Throughout (InService server) s₀ labels →
        server.machine.Conforms Welcome s₀ labels := by
  have hserviceable := create_serviceable hcreate
  constructor
  · intro hc
    have hthroughout := Machine.conforming_invariant
      (fun s l s' h hw hs => serviceable_step h hw hs) hserviceable hc
    exact hthroughout.mono fun s h => h.inService
  · intro u hu hr hthroughout
    exact welcome_of_inService hserviceable.orderly hu hr (hthroughout.last hu)

theorem in_service_oneConnection : ∃ server s₀, TcpServer.create 2 = some (server, s₀) ∧
    server.machine.Throughout (InService server) s₀ oneConnection := by
  refine ⟨⟨0⟩, _, rfl, (in_service_iff_welcome (n := 2) rfl oneConnection).1 ?_⟩
  refine Machine.Conforms.of_labels fun l hl s => ?_
  simp only [oneConnection, List.mem_append, List.mem_cons, List.mem_replicate] at hl
  rcases hl with ⟨-, rfl⟩ | rfl | ⟨-, rfl⟩
  · exact fun _ _ _ _ => rfl
  · exact fun _ _ => rfl
  · exact fun _ _ _ _ => rfl

/-- Up to the first completion of an accept. -/
def firstAccept : List ServerLabel := List.replicate 6 (.run .main (.remoteEndpoint true))

/-- The descriptors are exhausted: `listen` has ended and no accept is outstanding. Or the
peer has disconnected: the process is terminated. -/
theorem one_bad_connection : ∃ server s₀ s s',
    TcpServer.create 2 = some (server, s₀) ∧
    server.machine.run s₀ (firstAccept ++ .complete (.context 0) 1 (.errorCode 24) ::
      List.replicate 5 (.run (.context 0) (.remoteEndpoint true))) = some s ∧
    server.machine.run s₀ (firstAccept ++ .complete (.context 0) 1 (.errorCode 0) ::
      List.replicate 5 (.run (.context 0) (.remoteEndpoint false))) = some s' ∧
    s.stackOf .main = [] ∧ s.stackOf (.context 0) = [] ∧ accepts s = [] ∧
    s'.halted = some .terminate ∧ ¬ InService server s ∧ ¬ InService server s' := by
  refine ⟨⟨0⟩, _, _, _, rfl, rfl, rfl, rfl, rfl, rfl, rfl, ?_, fun h => h.running rfl⟩
  rintro ⟨-, harmed⟩
  obtain ⟨g, socket, haccepts⟩ := harmed rfl rfl
  cases haccepts

end Step

end ExploreCpp.Server
