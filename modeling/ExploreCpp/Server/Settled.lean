import ExploreCpp.Server.Service
import Mathlib.Data.List.Nodup

/-! The books of the server between completions.

`Settled` is what holds in every state in which no thread runs: what is outstanding,
who waits for it, and what has become of every connection. -/
namespace ExploreCpp.Server
open ExploreCpp.Runtime

section Traffic
variable {s : ServerState} {socket : Socket} {act : Act}

theorem mem_traffic : act ∈ traffic s socket ↔ ∃ e ∈ s.log, actOn socket e = some act :=
  List.mem_filterMap

/-- An operation that completed is a `finish` in the traffic of its socket. -/
theorem finish_traffic (op : Op) (ok : Bool) :
    .finish op.kind ok ∈ traffic s op.socket ↔
      ∃ g v, .completed g op v ∈ s.log ∧ decide (v.error = 0) = ok := by
  rw [mem_traffic]
  constructor
  · rintro ⟨e, he, ha⟩
    cases e with
    | initiated g op' =>
      simp only [actOn] at ha
      split at ha <;> cases ha
    | completed g op' v =>
      simp only [actOn] at ha
      split at ha
      · rename_i hsock
        have hkind : op'.kind = op.kind ∧ decide (v.error = 0) = ok := by simpa using ha
        have hop : op' = op := by
          cases op <;> cases op' <;> simp_all [Op.kind, Op.socket]
        subst hop
        exact ⟨g, v, he, hkind.2⟩
      · cases ha
    | _ => cases ha
  · rintro ⟨g, v, he, hok⟩
    refine ⟨_, he, ?_⟩
    simp only [actOn, if_pos]
    rw [hok]

end Traffic

section Settled
variable {s : ServerState} {k g : Handle} {op : Op} {talk : Talk}

theorem Orderly.owner (o : Orderly s) {socket : Socket} {act : Act} (h : act ∈ traffic s socket) :
    ∃ k talk st, Talks s.frames k talk ∧ talk.session = some (socket, st) ∧
      Session.Past (traffic s socket) st := by
  obtain ⟨k, st, talk, ht, hs⟩ := o.sockets.owned socket (List.ne_nil_of_mem h)
  exact ⟨k, talk, st, ht, hs, o.past ht hs⟩

/-- Some accept has failed. -/
def AcceptFailed (s : ServerState) : Prop :=
  ∃ g socket v, .completed g (.accept socket) v ∈ s.log ∧ v.error ≠ 0

/-- While `listen` waits for an accept none has failed. -/
theorem Orderly.not_failed (o : Orderly s) {socket : Socket}
    (h : Talks s.frames 0 (.outstanding (.accept socket) g)) : ¬ AcceptFailed s := by
  rintro ⟨g', socket', v, hm, hv⟩
  have hfinish : .finish .accept false ∈ traffic s socket' :=
    (finish_traffic (.accept socket') false).mpr ⟨g', v, hm, by simpa using hv⟩
  obtain ⟨k, talk, st, ht, hs, hpast⟩ := o.owner hfinish
  obtain rfl := hpast.refused.mp hfinish
  rcases ht.serves_or_listens hs with hserves | hlistens
  · obtain ⟨st', hs', hserved⟩ := ht.serves hserves
    cases hs.symm.trans hs'
    cases hserved
  · obtain rfl := o.listens_zero ht hlistens
    rw [ht.unique h] at hs
    cases hs

/-- When `listen` has ended an accept has failed. -/
theorem Orderly.failed (o : Orderly s) {p : Point} (h : Talks s.frames 0 (.gone p)) :
    AcceptFailed s := by
  obtain ⟨talk, ht, hl⟩ := o.listener
  cases h with
  | gone hg =>
    rw [hg.body] at hl
    have hfails := hg.fails
    cases p with
    | listenBranch socket ec =>
      have he : ec.error ≠ 0 := by simpa [Point.fails] using hfails
      have hs : (Talk.gone (.listenBranch socket ec)).session = some (socket, .refused) := by
        simp [Talk.session, Point.session, Op.after, he]
      have hfinish := (o.past (.gone hg) hs).refused.mpr rfl
      obtain ⟨g, v, hm, hv⟩ := (finish_traffic (.accept socket) false).mp hfinish
      exact ⟨g, socket, v, hm, by simpa using hv⟩
    | processBranch => cases hl
    | _ => cases hfails

/-- The entries for a root are those of its one operation. -/
theorem Orderly.entries (o : Orderly s) (hk : Talks s.frames k (.outstanding op g))
    {p : Handle × Op → Bool} (hp : p (g, op) = true)
    (honly : ∀ g' op' k', (g', op') ∈ s.pending → p (g', op') = true →
      Talks s.frames k' (.outstanding op' g') → k' = k) :
    s.pending.filter p = [(g, op)] := by
  have hnodup : s.pending.Nodup := o.serving.runtime.operations.single.of_map _
  refine List.perm_singleton.mp ((List.perm_ext_iff_of_nodup (hnodup.filter _)
    (List.nodup_singleton _)).mpr ?_)
  rintro ⟨g', op'⟩
  rw [List.mem_filter, List.mem_singleton]
  constructor
  · rintro ⟨hm, hp'⟩
    obtain ⟨k', -, ht⟩ := o.pending.mp hm
    obtain rfl := honly g' op' k' hm hp' ht
    cases ht.unique hk
    rfl
  · intro he
    cases he
    cases hk with
    | outstanding hc => exact ⟨o.pending.mpr ⟨k, hc.owner, .outstanding hc⟩, hp⟩

/-- The accepts that are outstanding. -/
def accepts (s : ServerState) : List (Handle × Op) := s.pending.filter (·.2.kind = .accept)

/-- Only `listen` waits for an accept. -/
theorem Orderly.accept_zero (o : Orderly s) (hkind : op.kind = .accept)
    (h : Talks s.frames k (.outstanding op g)) : k = 0 := by
  refine o.listens_zero h ?_
  rw [h.point]
  cases op with
  | accept => rfl
  | _ => cases hkind

theorem Orderly.accepts_one (o : Orderly s) {socket : Socket}
    (h : Talks s.frames 0 (.outstanding (.accept socket) g)) : accepts s = [(g, .accept socket)] := by
  refine o.entries h rfl ?_
  intro g' op' k' _ hkind h'
  exact o.accept_zero (by simpa using hkind) h'

/-- `listen` waits for one accept, or has ended at the first that failed. -/
theorem Orderly.accepting (o : Orderly s) (hq : Quiet s) :
    (¬ AcceptFailed s ∧ ∃ g socket, accepts s = [(g, .accept socket)]) ∨
      (AcceptFailed s ∧ accepts s = []) := by
  obtain ⟨talk, ht, hl⟩ := o.listener
  rcases o.quiet hq ht with ⟨op, g, rfl⟩ | ⟨p, rfl⟩
  · rw [ht.point] at hl
    cases op with
    | accept socket => exact .inl ⟨o.not_failed ht, g, socket, o.accepts_one ht⟩
    | read | write => cases hl
  · refine .inr ⟨o.failed ht, List.filter_eq_nil_iff.mpr ?_⟩
    rintro ⟨g', op'⟩ hm hkind
    obtain ⟨k', -, ht'⟩ := o.pending.mp hm
    obtain rfl := o.accept_zero (by simpa using hkind) ht'
    cases ht.unique ht'

/-! ### Processes -/

/-- A `process` waits for one operation on its socket, or has ended at a failed read. -/
theorem Orderly.process (o : Orderly s) (hq : Quiet s) {socket : Socket} (h : IsProcess s k socket) :
    (∃ op g, (op = .read socket ∨ op = .write socket) ∧ Talks s.frames k (.outstanding op g)) ∨
      (∃ p, Talks s.frames k (.gone p) ∧ (Talk.gone p).session = some (socket, .closed)) := by
  obtain ⟨talk, ht⟩ := o.serving.roots k h.born h.root
  have hserves := h.serves
  rw [ht.point] at hserves
  rcases o.quiet hq ht with ⟨op, g, rfl⟩ | ⟨p, rfl⟩
  · cases op with
    | accept => cases hserves
    | read | write =>
      cases hserves
      exact .inl ⟨_, g, by simp, ht⟩
  · refine .inr ⟨p, ht, ?_⟩
    cases ht with
    | gone hg =>
      have hfails := hg.fails
      cases p with
      | processBranch socket result =>
        cases hserves
        have he : result.error ≠ 0 := by simpa [Point.fails] using hfails
        simp [Talk.session, Point.session, Op.after, he]
      | listenBranch => cases hserves
      | _ => cases hfails

theorem Orderly.process_unique (o : Orderly s) {k' : Handle} {socket : Socket}
    (h : IsProcess s k socket) (h' : IsProcess s k' socket) : k = k' := by
  obtain ⟨talk, ht⟩ := o.serving.roots k h.born h.root
  obtain ⟨talk', ht'⟩ := o.serving.roots k' h'.born h'.root
  obtain ⟨st, hs, -⟩ := ht.serves h.serves
  obtain ⟨st', hs', -⟩ := ht'.serves h'.serves
  exact o.sockets.distinct k k' socket socket st st' ⟨talk, ht, hs⟩ ⟨talk', ht', hs'⟩ rfl

/-- Every successful accept has a `process`, and only it. -/
theorem Orderly.accepted (o : Orderly s) (hq : Quiet s) (socket : Socket) :
    (∃ g v, .completed g (.accept socket) v ∈ s.log ∧ v.error = 0) ↔ ∃! k, IsProcess s k socket := by
  have hfinish : (∃ g v, .completed g (.accept socket) v ∈ s.log ∧ v.error = 0) ↔
      .finish .accept true ∈ Server.traffic s socket := by
    refine Iff.trans ?_ (finish_traffic (.accept socket) true).symm
    simp
  rw [hfinish]
  constructor
  · intro h
    obtain ⟨k, talk, st, ht, hs, hpast⟩ := o.owner h
    have hserved := hpast.accepted.mp h
    have hprocess : IsProcess s k socket := by
      rcases ht.serves_or_listens hs with hserves | hlistens
      · exact ⟨ht.root, o.serving.born ht.present, hserves⟩
      · rw [ht.point] at hlistens
        rcases o.quiet hq ht with ⟨op, g, rfl⟩ | ⟨p, rfl⟩
        · cases op with
          | accept =>
            cases hs
            cases hserved
          | _ => cases hlistens
        · cases ht with
          | gone hg =>
            have hfails := hg.fails
            cases p with
            | listenBranch socket' ec =>
              have he : ec.error ≠ 0 := by simpa [Point.fails] using hfails
              have hst : st = .refused := by
                simpa [Talk.session, Point.session, Op.after, he, eq_comm] using congrArg (·.map Prod.snd) hs
              subst hst
              cases hserved
            | processBranch => cases hlistens
            | _ => cases hfails
    exact ⟨k, hprocess, fun k' h' => o.process_unique h' hprocess⟩
  · rintro ⟨k, h, -⟩
    obtain ⟨talk, ht⟩ := o.serving.roots k h.born h.root
    obtain ⟨st, hs, hserved⟩ := ht.serves h.serves
    exact (o.past ht hs).accepted.mpr hserved

/-! ### Results -/

theorem Serving.alive_born (w : Serving s) {k : Handle} (halive : (s.frames k).status.stage.alive = true) :
    k < s.created := by
  refine w.born ?_
  intro hs
  rw [hs] at halive
  cases halive

/-- A root that is alive waits for an operation. -/
theorem Orderly.alive_root (o : Orderly s) (hq : Quiet s) {k : Handle} (hparent : (s.frames k).parent = none)
    (halive : (s.frames k).status.stage.alive = true) : ∃ op g, Talks s.frames k (.outstanding op g) := by
  obtain ⟨talk, ht⟩ := o.serving.roots k (o.serving.alive_born halive) hparent
  obtain ⟨op, g, rfl⟩ | ⟨p, rfl⟩ := o.quiet hq ht
  · exact ⟨op, g, ht⟩
  · cases ht with
    | gone hg =>
      rw [hg.status] at halive
      cases halive

/-- Any other frame that is alive is that of the operation its owner waits for. -/
theorem Orderly.alive_callee (o : Orderly s) (hq : Quiet s) {f k : Handle}
    (hparent : (s.frames k).parent = some f) (halive : (s.frames k).status.stage.alive = true) :
    ∃ op, Talks s.frames f (.outstanding op k) := by
  have hheld := mem_held.mp ((o.serving.runtime.forest.owns f k).mpr ⟨hparent, halive⟩)
  have hborn : f < s.created :=
    Nat.lt_trans (o.serving.runtime.forest.older f k hparent) (o.serving.alive_born halive)
  obtain ⟨talk, ht⟩ := o.serving.roots f hborn (o.serving.depth k f hparent)
  obtain ⟨op, g, rfl⟩ | ⟨p, rfl⟩ := o.quiet hq ht
  · cases ht with
    | outstanding hc =>
      rw [hc.tasks] at hheld
      cases List.mem_singleton.mp hheld
      exact ⟨op, .outstanding hc⟩
  · cases ht with
    | gone hg =>
      rw [hg.tasks] at hheld
      cases hheld

/-- An operation whose result is there has no frame any more. -/
theorem Orderly.completed_destroyed (o : Orderly s) (hq : Quiet s) {k : Handle} {v : Value}
    (hparent : (s.frames g).parent = some k) (hbody : (s.frames g).body = .deliver op v) :
    (s.frames g).status = .destroyed := by
  have hlive : (s.frames g).status.stage.alive ≠ true := by
    intro halive
    obtain ⟨op', ht⟩ := o.alive_callee hq hparent halive
    cases ht with
    | outstanding hc => cases hbody.symm.trans hc.calleeBody
  cases hs : (s.frames g).status with
  | destroyed => rfl
  | absent =>
    have hbare := o.serving.runtime.forest.bare g (Status.stage_unborn.mpr hs)
    cases hparent.symm.trans hbare
  | _ =>
    rw [hs] at hlive
    exact absurd rfl hlive

/-- The result of an operation has gone to the coroutine that initiated it, once. -/
theorem Orderly.delivered (o : Orderly s) (hq : Quiet s) {v : Value}
    (h : .completed g op v ∈ s.log) :
    ∃ k, (s.frames g).parent = some k ∧
      s.history g = awaited k g v 0 ++ [.destroyed g .final] := by
  obtain ⟨hparent, hbody⟩ := o.serving.completed g op v h
  obtain ⟨k, hk⟩ := Option.ne_none_iff_exists'.mp hparent
  refine ⟨k, hk, ?_⟩
  have hdead := o.completed_destroyed hq hk hbody
  have htold := o.told g
  rw [Told, hk, hdead] at htold
  have hvalue : ∀ v', (s.frames g).value = some v' → v' = v := by
    intro v' hv
    obtain ⟨op', hbody'⟩ := o.serving.delivered g v' hparent hv
    cases hbody.symm.trans hbody'
    rfl
  have honce := o.once g
  rw [obtained_history] at honce
  have hawaited : .destroyed g .initial ∉ s.history g := by
    intro hm
    cases o.finals g _ (List.mem_of_mem_filter hm)
  generalize s.history g = past, (s.frames g).value = value at htold honce hawaited hvalue ⊢
  cases htold with
  | dropped => exact absurd (List.mem_singleton_self _) hawaited
  | @ended _ v' again =>
    obtain rfl := hvalue v' rfl
    have hagain : again = 0 := by
      have hcount : ((awaited k g v' again ++ [Event.destroyed g .final]).filter
          (obtainedFrom g)).length = again + 1 := by
        simp [awaited, obtainedFrom]
      omega
    rw [hagain]

/-! ### Frames -/

def liveFrames (s : ServerState) : List Handle :=
  (List.range s.created).filter fun k => (s.frames k).status.stage.alive

/-- The coroutine that waits for an outstanding operation. -/
def waiting (s : ServerState) (e : Handle × Op) : Handle := (s.frames e.1).parent.getD 0

theorem Orderly.waiting_talks (o : Orderly s) {e : Handle × Op} (he : e ∈ s.pending) :
    (s.frames e.1).parent = some (waiting s e) ∧ Talks s.frames (waiting s e) (.outstanding e.2 e.1) := by
  obtain ⟨k, hk, ht⟩ := o.pending.mp he
  have hw : waiting s e = k := by rw [waiting, hk, Option.getD_some]
  rw [hw]
  exact ⟨hk, ht⟩

/-- No frame is there twice: not as an operation, not as a caller, not as one of each. -/
theorem Orderly.live_nodup (o : Orderly s) :
    (s.pending.map Prod.fst ++ s.pending.map (waiting s)).Nodup := by
  refine List.nodup_append.mpr ⟨o.serving.runtime.operations.single, ?_, ?_⟩
  · have hnodup : s.pending.Nodup := o.serving.runtime.operations.single.of_map _
    refine List.Nodup.map_on ?_ hnodup
    intro e he e' he' hw
    have ht := (o.waiting_talks he).2
    rw [hw] at ht
    have hsame := ht.unique (o.waiting_talks he').2
    rw [Talk.outstanding.injEq] at hsame
    exact Prod.ext hsame.2 hsame.1
  · intro a ha b hb hab
    obtain ⟨e, he, rfl⟩ := List.mem_map.mp ha
    obtain ⟨e', he', rfl⟩ := List.mem_map.mp hb
    have hroot := (o.waiting_talks he').2.root
    rw [← hab, (o.waiting_talks he).1] at hroot
    cases hroot

theorem Orderly.alive_iff (o : Orderly s) (hq : Quiet s) (k : Handle) :
    (s.frames k).status.stage.alive = true ↔
      (∃ e ∈ s.pending, e.1 = k) ∨ ∃ e ∈ s.pending, waiting s e = k := by
  constructor
  · intro halive
    cases hparent : (s.frames k).parent with
    | none =>
      obtain ⟨op, g, ht⟩ := o.alive_root hq hparent halive
      cases ht with
      | outstanding hc =>
        refine .inr ⟨(g, op), o.pending.mpr ⟨k, hc.owner, .outstanding hc⟩, ?_⟩
        rw [waiting, hc.owner, Option.getD_some]
    | some f =>
      obtain ⟨op, ht⟩ := o.alive_callee hq hparent halive
      exact .inl ⟨(k, op), o.pending.mpr ⟨f, hparent, ht⟩, rfl⟩
  · rintro (⟨e, he, rfl⟩ | ⟨e, he, rfl⟩)
    · cases (o.waiting_talks he).2 with
      | outstanding hc =>
        rw [hc.calleeStatus]
        rfl
    · cases (o.waiting_talks he).2 with
      | outstanding hc =>
        rw [hc.status]
        rfl

/-- The frames that are alive are those of the outstanding operations and their callers. -/
theorem Orderly.live (o : Orderly s) (hq : Quiet s) :
    (liveFrames s).Perm (s.pending.map Prod.fst ++ s.pending.map (waiting s)) := by
  refine (List.perm_ext_iff_of_nodup (List.nodup_range.filter _) o.live_nodup).mpr ?_
  intro k
  rw [List.mem_filter, List.mem_range, List.mem_append, List.mem_map, List.mem_map, o.alive_iff hq k]
  exact ⟨And.right, fun h => ⟨o.serving.alive_born ((o.alive_iff hq k).mpr h), h⟩⟩

/-! ### The books -/

/-- What holds whenever no thread runs. -/
structure Settled (s : ServerState) : Prop where
  /-- One accept is outstanding until the first has failed, and none afterwards. -/
  accept : (¬ AcceptFailed s ∧ ∃ g socket, accepts s = [(g, .accept socket)]) ∨
    (AcceptFailed s ∧ accepts s = [])
  /-- Every successful accept has one `process`, which owns the socket. -/
  accepted : ∀ socket, (∃ g v, .completed g (.accept socket) v ∈ s.log ∧ v.error = 0) ↔
    ∃! k, IsProcess s k socket
  /-- A `process` that has not ended waits for one operation, and its socket has no other. -/
  one : ∀ k socket, IsProcess s k socket → (s.frames k).status ≠ .destroyed →
    ∃ g op, (op = .read socket ∨ op = .write socket) ∧ (s.frames k).status = .awaiting g ∧
      s.pending.filter (fun e => e.2.socket = socket) = [(g, op)]
  /-- Its operations are a read, a write, a read, a write, and so on. -/
  turns : ∀ socket, ∃ n, Session.transfers (traffic s socket) = Session.alternate n
  /-- It has initiated a write for every successful read. -/
  writes : ∀ k socket, IsProcess s k socket →
    (traffic s socket).count (.initiate .write) = (traffic s socket).count (.finish .read true)
  /-- It has ended if a read has failed, and no read fails twice. -/
  ended : ∀ k socket, IsProcess s k socket →
    (traffic s socket).count (.finish .read false) = if (s.frames k).status = .destroyed then 1 else 0
  /-- Every result has gone to the coroutine that initiated the operation, and once. -/
  delivered : ∀ g op v, .completed g op v ∈ s.log → ∃ k, (s.frames g).parent = some k ∧
    s.history g = awaited k g v 0 ++ [.destroyed g .final]
  /-- There are two frames for every outstanding operation. -/
  frames : (liveFrames s).length = 2 * s.pending.length

theorem Orderly.settled (o : Orderly s) (hq : Quiet s) : Settled s where
  accept := o.accepting hq
  accepted := o.accepted hq
  one := by
    intro k socket h hlive
    rcases o.process hq h with ⟨op, g, hop, ht⟩ | ⟨p, ht, -⟩
    · have hsocket : op.socket = socket := by rcases hop with rfl | rfl <;> rfl
      have howns : Owns s k socket op.during := ⟨_, ht, by rw [Talk.session, hsocket]⟩
      cases ht with
      | outstanding hc =>
        refine ⟨g, op, hop, hc.status, o.entries (.outstanding hc) (by simpa using hsocket) ?_⟩
        intro g' op' k' _ hsame ht'
        have hsocket' : op'.socket = socket := by simpa using hsame
        have howns' : Owns s k' socket op'.during := ⟨_, ht', by rw [Talk.session, hsocket']⟩
        exact o.sockets.distinct k' k _ _ _ _ howns' howns rfl
    · cases ht with
      | gone hg => exact absurd hg.status hlive
  turns := by
    intro socket
    by_cases ht : Server.traffic s socket = []
    · exact ⟨0, by rw [ht]; rfl⟩
    · obtain ⟨k, st, h⟩ := o.sockets.owned socket ht
      obtain ⟨n, hn, -⟩ := (o.sockets.session k socket st h).past.turns
      exact ⟨n, hn⟩
  writes := by
    intro k socket h
    rcases o.process hq h with ⟨op, g, hop, ht⟩ | ⟨p, ht, hs⟩
    · have hs : (Talk.outstanding op g).session = some (op.socket, op.during) := rfl
      have hpast := o.past ht hs
      have hsocket : op.socket = socket := by rcases hop with rfl | rfl <;> rfl
      rw [hsocket] at hpast
      rcases hop with rfl | rfl <;> exact hpast.balance.symm
    · exact (o.past ht hs).balance.symm
  ended := by
    intro k socket h
    rcases o.process hq h with ⟨op, g, hop, ht⟩ | ⟨p, ht, hs⟩
    · have hs : (Talk.outstanding op g).session = some (op.socket, op.during) := rfl
      have hpast := o.past ht hs
      have hsocket : op.socket = socket := by rcases hop with rfl | rfl <;> rfl
      rw [hsocket] at hpast
      cases ht with
      | outstanding hc =>
        rw [hc.status, hpast.ended]
        rcases hop with rfl | rfl <;> rfl
    · rw [(o.past ht hs).ended]
      cases ht with
      | gone hg => rw [hg.status, if_pos rfl, if_pos rfl]
  delivered := fun _ _ _ => o.delivered hq
  frames := by
    rw [(o.live hq).length_eq, List.length_append, List.length_map, List.length_map]
    omega

/-- **The run of the server**: for every number of contexts and every interleaving of
completions with any results, the books are settled whenever no thread runs. -/
theorem settled_between_completions {n : Nat} {server : TcpServer} {s₀ : ServerState}
    (hcreate : TcpServer.create n = some (server, s₀)) (h : server.machine.Reaches s₀ s)
    (hq : Quiet s) : Settled s :=
  (reachable_orderly hcreate h).settled hq

/-- No thread runs if no frame is running or about to go on. -/
theorem Orderly.quiet_of_frames (o : Orderly s)
    (h : ∀ k, k < s.created → (s.frames k).status.place = .off) : Quiet s := by
  intro t
  by_contra hne
  obtain ⟨k, hk⟩ := List.exists_mem_of_ne_nil _ hne
  have hplace : (s.frames k).status.place = .top t ∨ (s.frames k).status.place = .below t :=
    (o.serving.runtime.threads.mem t k).mp hk
  have hborn : k < s.created := by
    refine o.serving.born fun hs => ?_
    rw [hs] at hplace
    rcases hplace with hp | hp <;> cases hp
  rw [h k hborn] at hplace
  rcases hplace with hp | hp <;> cases hp

theorem settled_between_completions_oneConnection : ∃ server s₀ s,
    TcpServer.create 2 = some (server, s₀) ∧ server.machine.run s₀ oneConnection = some s ∧
    s.pending.map Prod.snd = [.read ⟨0, 1⟩, .accept ⟨1, 0⟩] ∧ Settled s :=
  have hreach : (⟨0⟩ : TcpServer).machine.Reaches _ _ := ⟨oneConnection, rfl⟩
  ⟨⟨0⟩, _, _, rfl, rfl, by decide, settled_between_completions (n := 2) rfl hreach
    ((reachable_orderly (n := 2) rfl hreach).quiet_of_frames (by decide))⟩

end Settled

end ExploreCpp.Server
