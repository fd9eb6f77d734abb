import ExploreCpp.Daytime.Server

/-! What the callbacks of the daytime server find.

There always is one accept outstanding, and the connections that exist are those some
callback holds. So as the program stands a connection is gone when its `handle_write` is
called, in every run; with the capture it would be there, but then the text need not be
(`connections_follow`). -/
namespace ExploreCpp.Daytime

/-! ### What is outstanding -/

def Op.accepting : Op → Option Nat
  | .accept newConnection => some newConnection
  | _ => none

/-- The connection an operation is about. -/
def Op.connection : Op → Option Nat
  | .accept newConnection => some newConnection
  | .write connection => some connection
  | .receive => none
  | .send _ => none

/-- The operations outstanding, and the connections they keep. -/
structure Counted (captures : Bool) (created : Nat) (alive : Nat → Bool) (ops : List Op) : Prop where
  accepts : ∃ c, ops.filterMap Op.accepting = [c]
  receives : ops.count .receive = 1
  distinct : (ops.filterMap Op.connection).Nodup
  created : ∀ c ∈ ops.filterMap Op.connection, c < created
  alive : ∀ c, alive c = held captures ops c

section
variable {captures : Bool} {created : Nat} {alive : Nat → Bool} {ops ops' rest : List Op}

theorem held_perm (h : ops.Perm ops') (c : Nat) : held captures ops c = held captures ops' c := h.any_eq

theorem held_cons (op : Op) (ops : List Op) (c : Nat) :
    held captures (op :: ops) c = (decide (op.holds captures = some c) || held captures ops c) := rfl

theorem Counted.perm (h : Counted captures created alive ops) (hp : ops.Perm ops') :
    Counted captures created alive ops' := by
  obtain ⟨c, hc⟩ := h.accepts
  have haccepts : (ops'.filterMap Op.accepting).Perm [c] := hc ▸ (hp.filterMap Op.accepting).symm
  refine ⟨⟨c, List.perm_singleton.1 haccepts⟩, ?_, ?_, ?_, ?_⟩
  · rw [← hp.count_eq]
    exact h.receives
  · exact (hp.filterMap Op.connection).nodup_iff.1 h.distinct
  · intro c hc
    exact h.created c ((hp.filterMap Op.connection).mem_iff.2 hc)
  · intro c
    rw [h.alive c, held_perm hp c]

/-- What holds a connection is about it. -/
theorem not_held {c : Nat} (h : c ∉ ops.filterMap Op.connection) : held captures ops c = false := by
  rw [held, List.any_eq_false]
  intro op hop hholds
  apply h
  rw [List.mem_filterMap]
  refine ⟨op, hop, ?_⟩
  cases op with
  | accept newConnection =>
    have hsame : newConnection = c := by simpa [Op.holds] using hholds
    rw [hsame]
    rfl
  | write connection =>
    have hboth : captures = true ∧ connection = c := by simpa [Op.holds] using hholds
    rw [hboth.2]
    rfl
  | receive => simp [Op.holds] at hholds
  | send destination => simp [Op.holds] at hholds

theorem counted_send {destination : Endpoint} :
    Counted captures created alive (.send destination :: ops) ↔ Counted captures created alive ops := by
  have hheld : ∀ c, held captures (.send destination :: ops) c = held captures ops c := fun c => by
    rw [held_cons]
    simp [Op.holds]
  constructor
  · intro h
    exact ⟨h.accepts, by simpa using h.receives, h.distinct, h.created, fun c => (h.alive c).trans (hheld c)⟩
  · intro h
    exact ⟨h.accepts, by simpa using h.receives, h.distinct, h.created, fun c => (h.alive c).trans (hheld c).symm⟩

theorem held_write {c : Nat} (h : Counted captures created alive (.write c :: rest)) :
    alive c = captures ∧ held captures rest c = false := by
  have hrest : held captures rest c = false := not_held (List.nodup_cons.1 h.distinct).1
  refine ⟨?_, hrest⟩
  rw [h.alive c, held_cons, hrest]
  cases captures <;> simp [Op.holds]

/-- The callback of a write has been called. -/
theorem Counted.write {c : Nat} (h : Counted captures created alive (.write c :: rest)) :
    Counted captures created (Function.update alive c false) rest := by
  refine ⟨h.accepts, by simpa using h.receives, (List.nodup_cons.1 h.distinct).2, ?_, ?_⟩
  · exact fun d hd => h.created d (List.mem_cons_of_mem c hd)
  · intro d
    by_cases hd : d = c
    · subst hd
      rw [Function.update_self, (held_write h).2]
    · have hne : ¬ c = d := fun he => hd he.symm
      rw [Function.update_of_ne hd, h.alive d, held_cons]
      cases captures <;> simp [Op.holds, hne]

/-- The callback of an accept has been called: there is the next connection, and a write to this
one or not. -/
theorem Counted.accept {c : Nat} {writes : List Op} (h : Counted captures created alive (.accept c :: rest))
    (hwrites : writes = [] ∨ writes = [.write c]) :
    Counted captures (created + 1)
      (Function.update (Function.update alive created true) c
        (held captures (.accept created :: (writes ++ rest)) c)) (.accept created :: (writes ++ rest)) := by
  obtain ⟨hfresh, hdistinct⟩ := List.nodup_cons.1 h.distinct
  have hc : c < created := h.created c List.mem_cons_self
  have hnew : ∀ d ∈ rest.filterMap Op.connection, d < created := fun d hd => h.created d (List.mem_cons_of_mem c hd)
  have hothers : ∀ d ∈ (writes ++ rest).filterMap Op.connection, d < created := by
    intro d hd
    rw [List.filterMap_append, List.mem_append] at hd
    rcases hd with hd | hd
    · rcases hwrites with rfl | rfl
      · cases hd
      · rw [List.mem_singleton.1 hd]
        exact hc
    · exact hnew d hd
  refine ⟨⟨created, ?_⟩, ?_, ?_, ?_, ?_⟩
  · obtain ⟨c', hc'⟩ := h.accepts
    have hnone : rest.filterMap Op.accepting = [] := (List.cons.inj hc').2
    have hwritten : (writes ++ rest).filterMap Op.accepting = rest.filterMap Op.accepting := by
      rcases hwrites with rfl | rfl <;> rfl
    show created :: (writes ++ rest).filterMap Op.accepting = [created]
    rw [hwritten, hnone]
  · have hreceives := h.receives
    rcases hwrites with rfl | rfl <;> simpa using hreceives
  · show (created :: (writes ++ rest).filterMap Op.connection).Nodup
    rw [List.nodup_cons]
    refine ⟨fun hm => Nat.lt_irrefl _ (hothers created hm), ?_⟩
    rw [List.filterMap_append]
    rcases hwrites with rfl | rfl
    · exact hdistinct
    · exact List.nodup_cons.2 ⟨hfresh, hdistinct⟩
  · intro d hd
    rcases List.mem_cons.1 hd with rfl | hd
    · exact Nat.lt_succ_self _
    · exact Nat.lt_succ_of_lt (hothers d hd)
  · intro d
    by_cases hd : d = c
    · rw [hd, Function.update_self]
    · rw [Function.update_of_ne hd]
      have hne : ¬ c = d := fun he => hd he.symm
      by_cases hnext : d = created
      · rw [hnext, Function.update_self, held_cons]
        simp [Op.holds]
      · have hnext' : ¬ created = d := fun he => hnext he.symm
        rw [Function.update_of_ne hnext, h.alive d, held_cons, held_cons]
        rcases hwrites with rfl | rfl <;> cases captures <;> simp [Op.holds, held, hne, hnext']

end

/-! ### One step -/

/-- What the callbacks have found, and which texts have been written. -/
structure Serves (captures : Bool) (s : State) : Prop where
  counted : Counted captures s.created s.alive s.loop.outstanding
  found : ∀ c alive, .handleWrite c alive ∈ s.calls → alive = captures
  taken : captures = false → (∀ c, .write c ∉ s.loop.pending) ∧ ∀ c, (.write c, false) ∉ s.texts

section
variable {captures : Bool} {s : State}

theorem release_outstanding (captures : Bool) (c : Nat) (s : State) :
    (s.release captures c).loop.outstanding.Perm s.loop.outstanding := by
  unfold State.release
  split
  · exact .refl _
  · exact s.loop.outstanding_cancel _ _

theorem release_alive {c : Nat} (h : s.alive c = true) :
    (s.release captures c).alive = Function.update s.alive c (held captures s.loop.outstanding c) := by
  unfold State.release
  split
  · next hheld => rw [hheld, ← h, Function.update_eq_self]
  · next hheld =>
    have hnot : held captures s.loop.outstanding c = false := by simpa using hheld
    rw [hnot]

theorem release_same (captures : Bool) (c : Nat) (s : State) :
    (s.release captures c).created = s.created ∧ (s.release captures c).calls = s.calls ∧
      (s.release captures c).texts = s.texts := by
  unfold State.release
  split
  · exact ⟨rfl, rfl, rfl⟩
  · exact ⟨rfl, rfl, rfl⟩

/-- What is pending when a connection is let go: without a capture no write to it. -/
theorem release_pending {c : Nat} (hc : held captures s.loop.outstanding c = false)
    (h : ∀ d, d ≠ c → .write d ∉ s.loop.pending) (d : Nat) : .write d ∉ (s.release captures c).loop.pending := by
  rw [State.release, hc]
  intro hd
  obtain ⟨hpending, hother⟩ := List.mem_filter.1 hd
  apply h d _ hpending
  intro he
  simp [he] at hother

/-- A text that is taken at once is there. -/
theorem put_eq (s : State) (op : Op) (immediate : Option Result) :
    ∃ taken, (∀ t ∈ taken, t = (op, true)) ∧
      s.put op immediate = {s with loop := s.loop.initiate op immediate, texts := s.texts ++ taken} := by
  cases immediate with
  | none => exact ⟨[], by simp, by simp [State.put]⟩
  | some result =>
    by_cases hec : result.ec = 0
    · exact ⟨[(op, true)], by simp, by simp [State.put, hec]⟩
    · exact ⟨[], by simp, by simp [State.put, hec]⟩

/-- An operation with a text is initiated, or none. -/
theorem put_if_eq (s : State) (op : Op) (ec : Nat) (immediate : Option Result) :
    ∃ loop taken ops, (if ec = 0 then s.put op immediate else s) = {s with loop := loop, texts := s.texts ++ taken} ∧
      (∀ t ∈ taken, t = (op, true)) ∧ (ops = [] ∨ ops = [op]) ∧
      loop.outstanding.Perm (ops ++ s.loop.outstanding) ∧ ∀ o ∈ loop.pending, o ∈ s.loop.pending ∨ o = op := by
  by_cases hec : ec = 0
  · obtain ⟨taken, htaken, hput⟩ := put_eq s op immediate
    refine ⟨s.loop.initiate op immediate, taken, [op], ?_, htaken, .inr rfl, ?_, ?_⟩
    · rw [if_pos hec]
      exact hput
    · exact s.loop.outstanding_initiate op immediate
    · exact fun o ho => Callbacks.pending_initiate ho
  · refine ⟨s.loop, [], [], ?_, nofun, .inl rfl, .refl _, fun o ho => .inl ho⟩
    rw [if_neg hec, List.append_nil]

/-- A text that is taken later is not. -/
theorem complete_eq (s : State) (op : Op) (result : Result) :
    (s.complete op result).loop = s.loop.complete op result ∧ (s.complete op result).created = s.created ∧
      (s.complete op result).alive = s.alive ∧ (s.complete op result).calls = s.calls ∧
      ∀ t ∈ (s.complete op result).texts, t ∈ s.texts ∨ t = (op, false) := by
  unfold State.complete
  split
  · cases op with
    | accept newConnection | receive => exact ⟨rfl, rfl, rfl, rfl, fun _ ht => .inl ht⟩
    | write connection | send destination =>
      exact ⟨rfl, rfl, rfl, rfl, fun t ht => (List.mem_append.1 ht).imp_right List.mem_singleton.1⟩
  · exact ⟨rfl, rfl, rfl, rfl, fun _ ht => .inl ht⟩

/-- One more callback has been called. -/
theorem Serves.found_append (h : Serves captures s) {call : Call}
    (hcall : ∀ c alive, call = .handleWrite c alive → alive = captures) (c : Nat) (alive : Bool)
    (hc : .handleWrite c alive ∈ s.calls ++ [call]) : alive = captures := by
  rcases List.mem_append.1 hc with hold | hnew
  · exact h.found c alive hold
  · exact hcall c alive (List.mem_singleton.1 hnew).symm

/-- Some more texts have been taken at once. -/
theorem Serves.texts_append (h : Serves captures s) (hcaptures : captures = false) {op : Op}
    {taken : List (Op × Bool)} (htaken : ∀ t ∈ taken, t = (op, true)) (c : Nat) :
    (.write c, false) ∉ s.texts ++ taken := by
  intro hc
  rcases List.mem_append.1 hc with hold | hnew
  · exact (h.taken hcaptures).2 c hold
  · cases htaken _ hnew

theorem Serves.complete (h : Serves captures s) {op : Op} (hop : op ∈ s.loop.pending) (result : Result) :
    Serves captures (s.complete op result) := by
  obtain ⟨hloop, hcreated, halive, hcalls, htexts⟩ := complete_eq s op result
  refine ⟨?_, ?_, ?_⟩
  · rw [hcreated, halive, hloop]
    exact h.counted.perm (Callbacks.outstanding_complete hop result).symm
  · rw [hcalls]
    exact h.found
  · intro hcaptures
    obtain ⟨hpending, hwritten⟩ := h.taken hcaptures
    rw [hloop]
    refine ⟨fun c hc => hpending c (List.mem_of_mem_erase hc), ?_⟩
    intro c hc
    rcases htexts _ hc with hold | hnew
    · exact hwritten c hold
    · exact hpending c ((Prod.mk.inj hnew).1 ▸ hop)

/-- A callback that holds a connection is destroyed. -/
theorem Serves.release {c : Nat} (halive : s.alive c = true)
    (hcounted : Counted captures s.created (Function.update s.alive c (held captures s.loop.outstanding c))
      s.loop.outstanding)
    (hfound : ∀ d alive, .handleWrite d alive ∈ s.calls → alive = captures)
    (htaken : captures = false → held captures s.loop.outstanding c = false ∧
      (∀ d, d ≠ c → .write d ∉ s.loop.pending) ∧ ∀ d, (.write d, false) ∉ s.texts) :
    Serves captures (s.release captures c) := by
  obtain ⟨hcreated, hcalls, htexts⟩ := release_same captures c s
  refine ⟨?_, ?_, ?_⟩
  · rw [hcreated, release_alive halive]
    exact hcounted.perm (release_outstanding captures c s).symm
  · rw [hcalls]
    exact hfound
  · intro hcaptures
    obtain ⟨hheld, hpending, hwritten⟩ := htaken hcaptures
    rw [htexts]
    exact ⟨release_pending hheld hpending, hwritten⟩

theorem Serves.call_write (h : Serves captures s) {c : Nat} {result : Result} (immediate : Option Result)
    (hready : (.write c, result) ∈ s.loop.ready) : Serves captures (s.call captures (.write c) result immediate) := by
  have hcounted := h.counted.perm (Callbacks.outstanding_take hready)
  obtain ⟨halive, hrest⟩ := held_write hcounted
  have hfound : ∀ d alive, .handleWrite d alive ∈ s.calls ++ [.handleWrite c (s.alive c)] → alive = captures := by
    apply h.found_append
    intro d alive he
    rw [← (Call.handleWrite.inj he).2, halive]
  have hcalled := hcounted.write
  cases hcaptures : captures with
  | false =>
    subst hcaptures
    have hgone : Function.update s.alive c false = s.alive := by
      rw [← halive]
      exact Function.update_eq_self c s.alive
    rw [hgone] at hcalled
    exact ⟨hcalled, hfound, h.taken⟩
  | true =>
    subst hcaptures
    rw [← hrest] at hcalled
    exact Serves.release (s := handleWrite c {s with loop := s.loop.take (.write c) result}) halive hcalled hfound nofun

theorem Serves.call_accept (h : Serves captures s) {c : Nat} {result : Result} (immediate : Option Result)
    (hready : (.accept c, result) ∈ s.loop.ready) : Serves captures (s.call captures (.accept c) result immediate) := by
  have hcounted := h.counted.perm (Callbacks.outstanding_take hready)
  obtain ⟨loop, taken, writes, hstart, htaken, hwrites, hloop, hpending⟩ :=
    put_if_eq {s with loop := s.loop.take (.accept c) result, calls := s.calls ++ [.handleAccept c result.ec]}
      (.write c) result.ec immediate
  have hcall : s.call captures (.accept c) result immediate =
      (startAccept {s with loop, texts := s.texts ++ taken, calls := s.calls ++ [.handleAccept c result.ec]}).release
        captures c := by
    show (startAccept (if result.ec = 0 then State.put _ (.write c) immediate else _)).release captures c = _
    rw [hstart]
  have houtstanding : (loop.initiate (.accept s.created) none).outstanding.Perm
      (.accept s.created :: (writes ++ (s.loop.take (.accept c) result).outstanding)) :=
    (loop.outstanding_initiate _ none).trans (hloop.cons _)
  have hc : c < s.created := hcounted.created c List.mem_cons_self
  have halive : Function.update s.alive s.created true c = true := by
    rw [Function.update_of_ne (Nat.ne_of_lt hc), hcounted.alive c, held_cons]
    simp [Op.holds]
  rw [hcall]
  apply Serves.release
  · exact halive
  · have haccept := (hcounted.accept hwrites).perm houtstanding.symm
    rw [← held_perm houtstanding] at haccept
    exact haccept
  · exact h.found_append nofun
  · intro hcaptures
    have hwritten := (h.taken hcaptures).1
    refine ⟨?_, ?_, ?_⟩
    · have hrest : held captures (s.loop.take (.accept c) result).outstanding c = false :=
        not_held (List.nodup_cons.1 hcounted.distinct).1
      have hne : ¬ s.created = c := Nat.ne_of_gt hc
      show held captures (loop.initiate (.accept s.created) none).outstanding c = false
      rw [held_perm houtstanding, held_cons]
      rcases hwrites with rfl | rfl
      · simp [Op.holds, hne, hrest]
      · rw [List.singleton_append, held_cons, hrest, hcaptures]
        simp [Op.holds, hne]
    · intro d hd hm
      rcases List.mem_append.1 hm with hold | hnew
      · rcases hpending _ hold with hold | hnew
        · exact hwritten d hold
        · exact hd (Op.write.inj hnew)
      · cases List.mem_singleton.1 hnew
    · exact h.texts_append hcaptures htaken

theorem Serves.call_receive (h : Serves captures s) {result : Result} (immediate : Option Result)
    (hready : (.receive, result) ∈ s.loop.ready) : Serves captures (s.call captures .receive result immediate) := by
  have hcounted := h.counted.perm (Callbacks.outstanding_take hready)
  let replies := if result.ec = 0 then s.replies ++ [s.remoteEndpoint] else s.replies
  obtain ⟨loop, taken, sends, hreply, htaken, hsends, hloop, hpending⟩ :=
    put_if_eq {s with
      loop := s.loop.take .receive result, calls := s.calls ++ [.handleReceive result.ec], replies := replies}
      (.send s.remoteEndpoint) result.ec immediate
  have hcall : s.call captures .receive result immediate =
      startReceive {s with
        loop := loop, texts := s.texts ++ taken, replies := replies, calls := s.calls ++ [.handleReceive result.ec]} := by
    rw [← hreply]
    by_cases hec : result.ec = 0
    · simp only [State.call, handleReceive, replies, if_pos hec]
      rfl
    · simp only [State.call, handleReceive, replies, if_neg hec]
      rfl
  have houtstanding : (loop.initiate .receive none).outstanding.Perm
      (sends ++ .receive :: (s.loop.take .receive result).outstanding) :=
    ((loop.outstanding_initiate _ none).trans (hloop.cons _)).trans List.perm_middle.symm
  rw [hcall]
  refine ⟨?_, ?_, ?_⟩
  · apply Counted.perm _ houtstanding.symm
    rcases hsends with rfl | rfl
    · exact hcounted
    · exact counted_send.2 hcounted
  · exact h.found_append nofun
  · intro hcaptures
    have hwritten := (h.taken hcaptures).1
    constructor
    · intro d hm
      rcases List.mem_append.1 hm with hold | hnew
      · rcases hpending _ hold with hold | hnew
        · exact hwritten d hold
        · cases hnew
      · cases List.mem_singleton.1 hnew
    · exact h.texts_append hcaptures htaken

theorem Serves.call_send (h : Serves captures s) {destination : Endpoint} {result : Result}
    (immediate : Option Result) (hready : (.send destination, result) ∈ s.loop.ready) :
    Serves captures (s.call captures (.send destination) result immediate) := by
  have hcounted := counted_send.1 (h.counted.perm (Callbacks.outstanding_take hready))
  exact ⟨hcounted, h.found_append nofun, h.taken⟩

theorem serves_initial (captures : Bool) : Serves captures .initial := by
  refine ⟨⟨⟨0, rfl⟩, rfl, by decide, ?_, ?_⟩, nofun, fun _ => ⟨?_, nofun⟩⟩
  · intro c hc
    rw [List.mem_singleton.1 hc]
    exact Nat.zero_lt_one
  · intro c
    show Function.update (fun _ => false) 0 true c = held captures [.accept 0, .receive] c
    by_cases hc : c = 0
    · subst hc
      cases captures <;> decide
    · have hne : ¬ 0 = c := fun he => hc he.symm
      rw [Function.update_of_ne hc]
      simp [held, Op.holds, hne]
  · intro c hc
    have hinitial : .write c ∈ [Op.accept 0, Op.receive] := hc
    simp at hinitial

theorem serves_step {l : Label} {s' : State} (h : Serves captures s) (hs : (machine captures).step s l = some s') :
    Serves captures s' := by
  cases l with
  | complete op result =>
    obtain ⟨hop, rfl⟩ : op ∈ s.loop.pending ∧ s.complete op result = s' := by simpa [machine] using hs
    exact h.complete hop result
  | call op result immediate =>
    obtain ⟨hready, rfl⟩ : (op, result) ∈ s.loop.ready ∧ s.call captures op result immediate = s' := by
      simpa [machine] using hs
    cases op with
    | accept newConnection => exact h.call_accept immediate hready
    | write connection => exact h.call_write immediate hready
    | receive => exact h.call_receive immediate hready
    | send destination => exact h.call_send immediate hready

end

/-- **No `handle_write` finds its connection**, in any run: only the connection that is being
accepted exists. The texts are there for what is written at once, and nothing else is.

If the callbacks had the capture, all of them would find it. -/
theorem connections_follow {captures : Bool} {labels : List Label} {s : State}
    (h : (machine captures).run .initial labels = some s) :
    (∃ c, s.loop.outstanding.filterMap Op.accepting = [c]) ∧
      (∀ c, s.alive c = held captures s.loop.outstanding c) ∧
      (∀ c alive, .handleWrite c alive ∈ s.calls → alive = captures) ∧
      (captures = false → ∀ c, (.write c, false) ∉ s.texts) := by
  have hserves : Serves captures s :=
    Machine.run_invariant (fun _ _ _ hs hstep => serves_step hs hstep) (serves_initial captures) h
  exact ⟨hserves.counted.accepts, hserves.counted.alive, hserves.found, fun hc => (hserves.taken hc).2⟩

/-- A client is accepted and is written to at once. -/
def oneClient : List Label :=
  [.complete (.accept 0) ⟨0, ⟨0, 0⟩⟩, .call (.accept 0) ⟨0, ⟨0, 0⟩⟩ (some ⟨0, ⟨0, 0⟩⟩),
    .call (.write 0) ⟨0, ⟨0, 0⟩⟩ none]

theorem connections_follow_oneClient :
    ∃ s, (machine false).run .initial oneClient = some s ∧
      (∃ c, s.loop.outstanding.filterMap Op.accepting = [c]) ∧
      (∀ c, s.alive c = held false s.loop.outstanding c) ∧
      (∀ c alive, .handleWrite c alive ∈ s.calls → alive = false) ∧
      (false = false → ∀ c, (.write c, false) ∉ s.texts) := by
  have hrun : (machine false).run .initial oneClient = some _ := rfl
  exact ⟨_, hrun, connections_follow hrun⟩

/-- With the capture a write need not be aborted, and may come too late for its text. -/
theorem capture_late_text : ∃ labels s, (machine true).run .initial labels = some s ∧ (.write 0, false) ∈ s.texts :=
  ⟨[.complete (.accept 0) ⟨0, ⟨0, 0⟩⟩, .call (.accept 0) ⟨0, ⟨0, 0⟩⟩ none, .complete (.write 0) ⟨0, ⟨0, 0⟩⟩], _,
    rfl, by decide⟩

end ExploreCpp.Daytime
