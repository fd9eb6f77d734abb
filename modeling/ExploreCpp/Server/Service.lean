import ExploreCpp.Server.Traffic
import ExploreCpp.Task.Law

/-! What the server has come to between completions.

When no thread runs, every conversation waits for the completion of its operation or
is over (`Orderly.quiet`), so the outstanding operations, the live frames and the
sessions of the sockets determine one another. -/
namespace ExploreCpp.Server
open ExploreCpp.Runtime

def obtainedFrom (g : Handle) : ServerEvent → Bool
  | .obtained _ callee _ => callee == g
  | _ => false

structure Orderly (s : ServerState) : Prop where
  serving : Serving s
  begun : 0 < s.created
  sockets : Traffic s
  told : ∀ k, Told s k
  /-- No `Task` is awaited twice, and none is dropped before it is awaited. -/
  once : ∀ g, (s.log.filter (obtainedFrom g)).length ≤ 1
  finals : ∀ g was, .destroyed g was ∈ s.log → was = .final

section Step
variable {s s' : ServerState} {f : Handle} {l : ServerLabel} {a b : Talk} {events : List ServerEvent}

theorem obtained_history (s : ServerState) (g : Handle) :
    s.log.filter (obtainedFrom g) = (s.history g).filter (obtainedFrom g) := by
  rw [State.history, List.filter_filter]
  congr 1
  funext e
  cases e <;> simp [obtainedFrom, Event.about]

theorem once_step (ht : ∀ k, Told s k) (ho : ∀ g, (s.log.filter (obtainedFrom g)).length ≤ 1)
    (turned : Turned s s' f a b events) (turn : Turn s f l a b events) (g : Handle) :
    (s'.log.filter (obtainedFrom g)).length ≤ 1 := by
  rw [turned.log, List.filter_append, List.length_append]
  have hg := ho g
  cases turn with
  | @resume t ans op g' v =>
    by_cases hgg : g' = g
    · subst hgg
      -- Until then the log says of it only that it has returned.
      have hnone : s.log.filter (obtainedFrom g') = [] := by
        have hhist := ht g'
        cases turned.before with
        | returned hc =>
          rw [Told, hc.owner, hc.calleeStatus] at hhist
          rw [obtained_history]
          generalize s.history g' = past, (s.frames g').value = value at hhist ⊢
          cases hhist
          rfl
      rw [hnone]
      simp [obtainedFrom]
    · simpa [obtainedFrom, hgg] using hg
  | _ => simpa [obtainedFrom] using hg

theorem finals_step (ha : ∀ g was, .destroyed g was ∈ s.log → was = .final)
    (turned : Turned s s' f a b events) (turn : Turn s f l a b events) :
    ∀ g was, .destroyed g was ∈ s'.log → was = .final := by
  intro g was hm
  rw [turned.log, List.mem_append] at hm
  rcases hm with hm | hm
  · exact ha g was hm
  · cases turn <;> simp_all

/-- Every result is returned as what it is. -/
theorem program_stores (s : ServerState) (l : ServerLabel) : Stores program s l := by
  cases l with
  | start | complete => trivial
  | run => exact fun _ _ _ _ => rfl

theorem orderly_step {server : TcpServer} (o : Orderly s) (h : server.machine.step s l = some s') :
    Orderly s' := by
  have hstep : server.allows s l = true ∧ step program s l = some s' := by
    simpa [TcpServer.machine] using h
  obtain ⟨hmoves, w'⟩ := serving_step o.serving h
  obtain ⟨f, a, b, events, turned, turn⟩ := turns o.serving hmoves
  exact ⟨w', Nat.lt_of_lt_of_le o.begun turned.created, traffic_step o.serving w' o.sockets turned turn.advances,
    told_step o.serving.runtime o.told (program_stores s l) (step_cases o.serving.runtime hstep.2),
    once_step o.told o.once turned turn, finals_step o.finals turned turn⟩

theorem create_orderly {n : Nat} {server : TcpServer} (h : TcpServer.create n = some (server, s)) :
    Orderly s := by
  have w := create_serving h
  have r := create_traffic h
  obtain ⟨pool, -, rfl⟩ := create_eq h
  have htold : ∀ k, Told (State.empty ⟨pool, 0⟩ : ServerState) k := fun _ => History.absent
  refine ⟨w, Nat.one_pos, r, told_spawned htold rfl _ _, ?_, ?_⟩
  · intro g
    simp [spawned, State.empty, obtainedFrom]
  · intro g was hm
    simp [spawned, State.empty] at hm

theorem reachable_orderly {n : Nat} {server : TcpServer} {s₀ : ServerState}
    (hcreate : TcpServer.create n = some (server, s₀)) (h : server.machine.Reaches s₀ s) :
    Orderly s :=
  h.invariant (fun _ _ _ o hs => orderly_step o hs) (create_orderly hcreate)

end Step

/-- `listen` waits for its first accept, which succeeds; the connection is read from
while `listen` waits for the next. -/
def oneConnection : List ServerLabel :=
  List.replicate 6 (.run .main (.remoteEndpoint true)) ++
    .complete (.context 0) 1 (.errorCode 0) ::
      List.replicate 14 (.run (.context 0) (.remoteEndpoint true))

section Orderly
variable {s : ServerState} {k : Handle} {talk : Talk}

/-- `listen` has its talk. -/
theorem Orderly.listener (o : Orderly s) :
    ∃ talk, Talks s.frames 0 talk ∧ (s.frames 0).body.listens = true := by
  have hroot : (s.frames 0).parent = none := by
    cases hp : (s.frames 0).parent with
    | none => rfl
    | some f => exact absurd (o.serving.runtime.forest.older f 0 hp) (Nat.not_lt_zero f)
  obtain ⟨talk, ht⟩ := o.serving.roots 0 o.begun hroot
  exact ⟨talk, ht, (o.serving.listen 0 o.begun hroot).mpr rfl⟩

theorem Orderly.listens_zero (o : Orderly s) (h : Talks s.frames k talk)
    (hl : (s.frames k).body.listens = true) : k = 0 :=
  (o.serving.listen k (o.serving.born h.present) h.root).mp hl

theorem Orderly.past (o : Orderly s) (h : Talks s.frames k talk) {socket : Socket} {st : Session}
    (hs : talk.session = some (socket, st)) : Session.Past (traffic s socket) st :=
  (o.sockets.session k socket st ⟨talk, h, hs⟩).past

end Orderly

/-! ### Between completions -/

/-- No thread runs. -/
def Quiet (s : ServerState) : Prop := ∀ t, s.stackOf t = []

section Quiet
variable {s : ServerState} {k g : Handle} {op : Op} {talk : Talk}

/-- A talk on a thread has a frame on the stack of the thread. -/
theorem Talks.on_stack (w : Serving s) {t : Thread} (h : Talks s.frames k talk)
    (ht : talk.thread = some t) : s.stackOf t ≠ [] := by
  have hmem : ∀ {a}, (s.frames a).status.place = .top t ∨ (s.frames a).status.place = .below t →
      s.stackOf t ≠ [] := by
    intro a ha
    exact List.ne_nil_of_mem ((w.runtime.threads.mem t a).mpr ha)
  cases h with
  | resting h =>
    cases ht
    rcases h.status with hs | ⟨hs, -⟩ | ⟨hs, -⟩
    · exact hmem (a := k) (.inl (by rw [hs]; rfl))
    · exact hmem (a := k) (.inr (by rw [hs]; rfl))
    · exact hmem (a := k) (.inl (by rw [hs]; rfl))
  | created h | answered h =>
    cases ht
    exact hmem (.inl (by rw [h.status]; rfl))
  | started h | completed h | returned h =>
    cases ht
    exact hmem (.inl (by rw [h.calleeStatus]; rfl))
  | outstanding | gone => cases ht

/-- Between completions a conversation waits or is over. -/
theorem Orderly.quiet (o : Orderly s) (hq : Quiet s) (h : Talks s.frames k talk) :
    (∃ op g, talk = .outstanding op g) ∨ ∃ p, talk = .gone p := by
  have hoff : ∀ t, talk.thread ≠ some t := fun t ht => h.on_stack o.serving ht (hq t)
  cases talk with
  | outstanding op g => exact .inl ⟨op, g, rfl⟩
  | gone p => exact .inr ⟨p, rfl⟩
  | _ => exact absurd rfl (hoff _)

/-- An operation is outstanding exactly when a conversation waits for it. -/
theorem Orderly.pending (o : Orderly s) :
    (g, op) ∈ s.pending ↔ ∃ k, (s.frames g).parent = some k ∧ Talks s.frames k (.outstanding op g) := by
  rw [o.serving.runtime.operations.entry g op]
  constructor
  · intro h
    exact o.serving.suspended (Status.operation_eq.mp h)
  · rintro ⟨k, -, ht⟩
    cases ht with
    | outstanding hc => exact Status.operation_eq.mpr hc.calleeStatus

/-! ### Sockets and the coroutines that serve them -/

/-- The socket a `process` serves. -/
def Point.serves : Point → Option Socket
  | processLoop socket | processBranch socket _ => some socket
  | awaiting (.read socket) | awaiting (.write socket) => some socket
  | awaited (.read socket) _ | awaited (.write socket) _ => some socket
  | _ => none

/-- `k` is the frame of a `process` with that socket, which may have ended. -/
structure IsProcess (s : ServerState) (k : Handle) (socket : Socket) : Prop where
  root : (s.frames k).parent = none
  born : k < s.created
  serves : (s.frames k).body.serves = some socket

/-- What a `process` believes of its socket. -/
theorem Talks.serves {F : Handle → ServerFrame} {socket : Socket} (h : Talks F k talk)
    (hs : (F k).body.serves = some socket) :
    ∃ st, talk.session = some (socket, st) ∧ st.served = true := by
  rw [h.point] at hs
  have hpoint : ∀ {p : Point}, p.rests = true → p.serves = some socket →
      ∃ st, p.session = some (socket, st) ∧ st.served = true := by
    intro p hrests hp
    cases p with
    | processLoop socket =>
      cases hp
      exact ⟨_, rfl, rfl⟩
    | processBranch socket result =>
      cases hp
      refine ⟨_, rfl, ?_⟩
      by_cases hok : result.error = 0 <;> simp [Op.after, hok, Session.served]
    | awaiting | awaited => cases hrests
    | _ => cases hp
  cases h with
  | resting h => exact hpoint h.rests hs
  | gone h => exact hpoint (fails_rests h.fails) hs
  | @created op g t hc | @started op g t hc | @outstanding op g hc =>
    cases op with
    | accept socket => cases hs
    | read socket | write socket =>
      cases hs
      exact ⟨_, rfl, rfl⟩
  | @completed op g v t hc | @returned op g v t hc | @answered op g v t hc =>
    cases op with
    | accept socket => cases hs
    | read socket | write socket =>
      cases hs
      refine ⟨_, rfl, ?_⟩
      by_cases hok : v.error = 0 <;> simp [Op.after, hok, Session.served]

/-- The others that own a socket are `listen`. -/
theorem Talks.serves_or_listens {F : Handle → ServerFrame} {socket : Socket} {st : Session}
    (h : Talks F k talk) (hs : talk.session = some (socket, st)) :
    (F k).body.serves = some socket ∨ (F k).body.listens = true := by
  rw [h.point]
  have hpoint : ∀ {p : Point}, p.session = some (socket, st) →
      p.serves = some socket ∨ p.listens = true := by
    intro p hp
    cases p with
    | processLoop | processBranch =>
      cases hp
      exact .inl rfl
    | listenAccept | listenBranch | listenRemote => exact .inr rfl
    | _ => cases hp
  cases h with
  | resting h | gone h => exact hpoint hs
  | @created op g t hc | @started op g t hc | @outstanding op g hc | @completed op g v t hc
  | @returned op g v t hc | @answered op g v t hc =>
    cases hs
    cases op with
    | accept socket => exact .inr rfl
    | read socket | write socket => exact .inl rfl

end Quiet

end ExploreCpp.Server
