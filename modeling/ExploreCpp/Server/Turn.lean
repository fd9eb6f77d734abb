import ExploreCpp.Server.Serving

/-! Turns: one step of the server as one step of one conversation.

`Turn` is the protocol between a root and its operation, `Turned` says that a step of
the server is a turn of the root `f` and that nobody else's talk changes. -/
namespace ExploreCpp.Server
open ExploreCpp.Runtime

abbrev ServerEvent := Event Value Op Thread

def Talk.thread : Talk → Option Thread
  | resting _ t | created _ _ t | started _ _ t | completed _ _ _ t | returned _ _ _ t
  | answered _ _ _ t => some t
  | outstanding .. | gone _ => none

/-- What a turn makes of what the threads share. -/
def Talk.shares : Talk → Shared → Shared
  | resting p _, g =>
    match act p with
    | .compute u => (u g).1
    | _ => g
  | _, g => g

/-- The turn of the root `f` in the state `s`, and the events of it. -/
inductive Turn (s : ServerState) (f : Handle) :
    ServerLabel → Talk → Talk → List ServerEvent → Prop
  | compute {t a p u} (hact : act p = .compute u) :
    Turn s f (.run t a) (.resting p t) (.resting (u s.shared).2 t) []
  | ask {t a socket ec} (hok : ec.error = 0) :
    Turn s f (.run t a) (.resting (.listenBranch socket ec) t) (.resting (.listenRemote socket a) t) []
  | call {t a p op g} (hcalls : p.calls = some op) :
    Turn s f (.run t a) (.resting p t) (.created op g t) []
  | start {t a op g} :
    Turn s f (.run t a) (.created op g t) (.started op g t) [.suspended f g, .resumed g .initial]
  | initiate {t a op g} :
    Turn s f (.run t a) (.started op g t) (.outstanding op g) [.initiated g op]
  | complete {t op g v} (hop : (g, op) ∈ s.pending) :
    Turn s f (.complete t g v) (.outstanding op g) (.completed op g v t)
      [.completed g op v, .resumed g (.leaf op)]
  | deliver {t a op g v} :
    Turn s f (.run t a) (.completed op g v t) (.returned op g v t) [.returned g v]
  | resume {t a op g v} :
    Turn s f (.run t a) (.returned op g v t) (.answered op g v t)
      [.resumed f (.awaiting g), .obtained f g v]
  | drop {t a op g v} :
    Turn s f (.run t a) (.answered op g v t) (.resting (op.next v) t) [.destroyed g .final]
  | leave {t a p} (hfails : p.fails = true) :
    Turn s f (.run t a) (.resting p t) (.resting p t) [.returned f .unit]
  | finish {t a p} (hfails : p.fails = true) :
    Turn s f (.run t a) (.resting p t) (.gone p) [.destroyed f .final]
  | spawn {t a socket} :
    Turn s f (.run t a) (.resting (.listenRemote socket (.remoteEndpoint true)) t)
      (.resting .listenLoop t) [.resumed s.created .initial]
  | throw {t a p} (hact : act p = .throw) : Turn s f (.run t a) (.resting p t) (.resting p t) []

/-- The root a turn gives birth to. -/
def Talk.spawns : Talk → Option Talk
  | resting (.listenRemote socket (.remoteEndpoint true)) t => some (.resting (.processLoop socket) t)
  | _ => none

structure Turned (s s' : ServerState) (f : Handle) (a b : Talk) (events : List ServerEvent) :
    Prop where
  before : Talks s.frames f a
  active : ∀ t, (s.frames f).status ≠ .nested t
  after : Talks s'.frames f b
  others : ∀ k talk, k ≠ f → Talks s.frames k talk → Talks s'.frames k talk
  /-- Who waits inside `spawn` does so until the talk on its thread suspends or ends. -/
  nested : ∀ k t, k ≠ f → (s.frames k).status = .nested t →
    (s'.frames k).status = .nested t ∨ a.thread = some t ∧ b.thread = none
  parent : ∀ k, k < s.created → (s'.frames k).parent = (s.frames k).parent
  fresh : ∀ k, s.created ≤ k → k < s'.created → (s'.frames k).parent = none →
    k = s.created ∧ ∃ talk, a.spawns = some talk ∧ Talks s'.frames k talk
  spawned : ∀ talk, a.spawns = some talk → Talks s'.frames s.created talk
  waits : ∀ talk t, a.spawns = some talk → talk.thread = some t → (s'.frames f).status = .nested t
  /-- Only `f` gets new frames of its own. -/
  owner : ∀ k o, s.created ≤ k → (s'.frames k).parent = some o → o = f
  created : s.created ≤ s'.created
  shared : s'.shared = a.shares s.shared
  log : s'.log = s.log ++ events

section Talks
variable {F F' : Handle → ServerFrame} {f g k : Handle} {talk : Talk}

theorem Talks.present (h : Talks F f talk) : (F f).status ≠ .absent := by
  cases h with
  | resting h => rcases h.status with hs | ⟨hs, -⟩ | ⟨hs, -⟩ <;> rw [hs] <;> nofun
  | _ h =>
    rw [h.status]
    nofun

theorem Talks.callee_present (h : Talks F f talk) (hg : talk.callee = some g) :
    (F g).status ≠ .absent ∧ ∀ t, (F g).status ≠ .nested t := by
  cases h <;> cases hg <;> rename_i h <;> rw [h.calleeStatus] <;> exact ⟨nofun, nofun⟩

/-- A change of `f` and what it calls leaves the talks of other roots alone. -/
theorem Talks.apart (h : Talks F k talk) (hk : k ≠ f) (hf : (F f).parent = none)
    (hF : ∀ a, a ≠ f → (F a).parent ≠ some f → (F a).status ≠ .absent → F' a = F a) :
    Talks F' k talk := by
  refine h.congr (hF k hk ?_ h.present) ?_
  · rw [h.root]
    nofun
  · intro g hg
    have howner := h.callee_owner hg
    refine hF g ?_ ?_ (h.callee_present hg).1
    · rintro rfl
      cases howner.symm.trans hf
    · rw [howner]
      exact fun he => hk (Option.some.inj he)

/-- A frame that goes on after `spawn` has still the same talk. -/
theorem Talks.woken {s : ServerState} {t : Thread} {rest : List Handle}
    (h : Talks s.frames k talk) (hrest : ∀ g ∈ rest, (s.frames g).status = .nested t) :
    Talks (wake s t rest) k talk := by
  have hsame : ∀ a, (∀ t, (s.frames a).status ≠ .nested t) → wake s t rest a = s.frames a := by
    intro a ha
    rw [wake, if_neg]
    exact fun he => ha t (hrest a (List.mem_of_mem_head? he))
  by_cases hk : rest.head? = some k
  · have hnested := hrest k (List.mem_of_mem_head? hk)
    have hwake : wake s t rest k = {s.frames k with status := .running t} := by
      rw [wake, if_pos hk]
    cases h with
    | resting hr =>
      rcases hr.status with hs | ⟨hs, -⟩ | ⟨hs, -⟩ <;> cases hnested.symm.trans hs
      exact .resting ⟨by rw [hwake]; exact hr.root, by rw [hwake]; exact hr.body, hr.rests,
        by rw [hwake]; exact hr.tasks, .inl (by rw [hwake])⟩
    | _ hc => cases hnested.symm.trans hc.status
  · have hself : wake s t rest k = s.frames k := by
      rw [wake, if_neg hk]
    exact h.congr hself fun g hg => hsame g (h.callee_present hg).2

end Talks

section Turns
variable {s s' : ServerState} {f g : Handle} {a b : Talk} {events : List ServerEvent}

theorem Serving.unborn_parent (w : Serving s) {k : Handle} (hk : s.created ≤ k) :
    (s.frames k).parent = none :=
  w.runtime.forest.bare k ((w.runtime.forest.born k).mp hk)

/-- Nothing a root calls waits inside `spawn`. -/
theorem Serving.nested_root (w : Serving s) {k : Handle} {t : Thread}
    (hk : (s.frames k).status = .nested t) : (s.frames k).parent ≠ some f := by
  intro hparent
  obtain ⟨_, _, -, hs⟩ | ⟨_, -, hs⟩ | ⟨_, _, _, -, hs⟩ | ⟨_, _, _, -, hs⟩ :=
    w.serves hparent (by rw [hk]; rfl) <;> cases hk.symm.trans hs

/-- A turn that changes `f` and what it calls only. -/
theorem Serving.turned (w : Serving s) (hbefore : Talks s.frames f a)
    (hactive : ∀ t, (s.frames f).status ≠ .nested t) (hafter : Talks s'.frames f b)
    (hapart : ∀ c, c ≠ f → (s.frames c).parent ≠ some f → (s.frames c).status ≠ .absent →
      s'.frames c = s.frames c)
    (hparent : ∀ c, (s'.frames c).parent = (s.frames c).parent) (hspawns : a.spawns = none)
    (hcreated : s'.created = s.created) (hshared : s'.shared = a.shares s.shared)
    (hlog : s'.log = s.log ++ events) : Turned s s' f a b events where
  before := hbefore
  active := hactive
  after := hafter
  others := fun k talk hk ht => ht.apart hk hbefore.root hapart
  nested := fun k t hk hn => by
    rw [hapart k hk (w.nested_root hn) (by rw [hn]; nofun)]
    exact .inl hn
  parent := fun k _ => hparent k
  fresh := fun k hge hlt _ => absurd hlt (by omega)
  spawned := fun talk hs => by cases hspawns.symm.trans hs
  waits := fun talk t hs => by cases hspawns.symm.trans hs
  owner := fun k o hge ho => by
    rw [hparent k, w.unborn_parent hge] at ho
    cases ho
  created := by omega
  shared := hshared
  log := hlog

/-- A turn that also leaves the thread to whoever waits inside `spawn`. -/
theorem Turned.woken {s₁ : ServerState} {t : Thread} {rest : List Handle}
    (h : Turned s s₁ f a b events) (hrest : ∀ g ∈ rest, (s₁.frames g).status = .nested t)
    (ha : a.thread = some t) (hb : b.thread = none) (hspawns : a.spawns = none) :
    Turned s (returnTo s₁ t rest) f a b events := by
  rw [returnTo_eq]
  have hparent : ∀ k, (wake s₁ t rest k).parent = (s₁.frames k).parent := by
    intro k
    rw [wake]
    split <;> rfl
  refine ⟨h.before, h.active, h.after.woken hrest, fun k talk hk ht => (h.others k talk hk ht).woken hrest,
    fun k t' hk hn => ?_, fun k hk => (hparent k).trans (h.parent k hk), ?_,
    fun talk hs => (h.spawned talk hs).woken hrest, ?_,
    fun k o hge ho => h.owner k o hge ((hparent k).symm.trans ho), h.created, h.shared, h.log⟩
  · rcases h.nested k t' hk hn with hn' | hthread
    · by_cases hhead : rest.head? = some k
      · have hnested := hrest k (List.mem_of_mem_head? hhead)
        cases hn'.symm.trans hnested
        exact .inr ⟨ha, hb⟩
      · left
        show (wake s₁ t rest k).status = _
        rw [wake, if_neg hhead]
        exact hn'
    · exact .inr hthread
  · intro k hge hlt hp
    obtain ⟨hk, talk, hs, ht⟩ := h.fresh k hge hlt ((hparent k).symm.trans hp)
    exact ⟨hk, talk, hs, ht.woken hrest⟩
  · intro talk t' hs
    cases hspawns.symm.trans hs

theorem Calls.ne {F : Handle → ServerFrame} {c k : Point} {st st' : Status Op Thread}
    (h : Calls F f g c k st st') : g ≠ f := by
  rintro rfl
  cases h.root.symm.trans h.owner

/-- The points that follow a computation of `listen`. -/
theorem compute_next {p : Point} {u : Shared → Shared × Point} (hact : act p = .compute u)
    (g : Shared) : (u g).2.rests = true ∧ (u g).2.listens = true ∧ p.listens = true := by
  rcases compute_point hact with ⟨rfl, hu⟩ | ⟨ctx, rfl, hu⟩ | ⟨ctx, rfl, hu⟩
  · rcases hu g with ⟨ctx, pool, -, he⟩ | ⟨-, he⟩ <;> rw [he] <;> exact ⟨rfl, rfl, rfl⟩
  · rw [hu]
    exact ⟨rfl, rfl, rfl⟩
  · rw [hu]
    exact ⟨rfl, rfl, rfl⟩

theorem fails_rests {p : Point} (h : p.fails = true) : p.rests = true := by
  cases p with
  | listenBranch | processBranch => rfl
  | _ => cases h

theorem calls_shares {p : Point} {op : Op} (h : p.calls = some op) (t : Thread) (g : Shared) :
    (Talk.resting p t).shares g = g := by
  cases p with
  | processBranch socket result =>
    simp only [Point.calls] at h
    split at h
    · cases h
    · simp [Talk.shares, act, ‹¬result.error ≠ 0›]
  | listenAccept | processLoop => rfl
  | _ => cases h

theorem fails_shares {p : Point} (h : p.fails = true) (t : Thread) (g : Shared) :
    (Talk.resting p t).shares g = g := by
  cases p with
  | listenBranch socket result | processBranch socket result =>
    have he : result.error ≠ 0 := by simpa [Point.fails] using h
    simp [Talk.shares, act, he]
  | _ => cases h

theorem compute_spawns {p : Point} {u : Shared → Shared × Point} (h : act p = .compute u)
    (t : Thread) : (Talk.resting p t).spawns = none := by
  rcases compute_point h with ⟨rfl, -⟩ | ⟨ctx, rfl, -⟩ | ⟨ctx, rfl, -⟩ <;> rfl

theorem calls_spawns {p : Point} {op : Op} (h : p.calls = some op) (t : Thread) :
    (Talk.resting p t).spawns = none := by
  cases p with
  | listenRemote => cases h
  | _ => rfl

theorem fails_spawns {p : Point} (h : p.fails = true) (t : Thread) :
    (Talk.resting p t).spawns = none := by
  cases p with
  | listenRemote => cases h
  | _ => rfl

theorem throw_spawns {p : Point} (h : act p = .throw) (t : Thread) :
    (Talk.resting p t).spawns = none := by
  cases p with
  | listenRemote socket remote =>
    simp only [act] at h
    split at h
    · cases h
    · simp only [Talk.spawns]
      split
      · simp_all
      · rfl
  | _ => rfl

theorem parent_update (F : Handle → ServerFrame) (h : Handle) {fr : ServerFrame}
    (hp : fr.parent = (F h).parent) (c : Handle) : (Function.update F h fr c).parent = (F c).parent :=
  congrFun (view_unchanged Frame.parent F h hp) c

/-- A turn of `f` by itself. -/
theorem Serving.turned_self (w : Serving s) {fr : ServerFrame} (hbefore : Talks s.frames f a)
    (hactive : ∀ t, (s.frames f).status ≠ .nested t)
    (hframes : s'.frames = Function.update s.frames f fr) (hfr : fr.parent = (s.frames f).parent)
    (hafter : Talks (Function.update s.frames f fr) f b) (hspawns : a.spawns = none)
    (hcreated : s'.created = s.created) (hshared : s'.shared = a.shares s.shared)
    (hlog : s'.log = s.log ++ events) :
    Turned s s' f a b events := by
  refine w.turned hbefore hactive (by rw [hframes]; exact hafter) ?_ ?_ hspawns hcreated hshared hlog
  · intro c hc _ _
    rw [hframes, Function.update_of_ne hc]
  · intro c
    rw [hframes]
    exact parent_update _ _ hfr c

/-- A turn of `f` and of `g`, which it calls. -/
theorem Serving.turned_both (w : Serving s) {fr fr' : ServerFrame} (hbefore : Talks s.frames f a)
    (hactive : ∀ t, (s.frames f).status ≠ .nested t)
    (howner : (s.frames g).parent = some f)
    (hframes : s'.frames = Function.update (Function.update s.frames f fr) g fr')
    (hfr : fr.parent = (s.frames f).parent) (hfr' : fr'.parent = (s.frames g).parent)
    (hafter : Talks (Function.update (Function.update s.frames f fr) g fr') f b) (hspawns : a.spawns = none)
    (hcreated : s'.created = s.created) (hshared : s'.shared = a.shares s.shared)
    (hlog : s'.log = s.log ++ events) :
    Turned s s' f a b events := by
  have hgf : g ≠ f := by
    rintro rfl
    cases howner.symm.trans hbefore.root
  refine w.turned hbefore hactive (by rw [hframes]; exact hafter) ?_ ?_ hspawns hcreated hshared hlog
  · intro c hc hown _
    have hcg : c ≠ g := by
      rintro rfl
      exact hown howner
    rw [hframes, Function.update_of_ne hcg, Function.update_of_ne hc]
  · intro c
    rw [hframes, parent_update _ g, parent_update _ f hfr]
    rw [Function.update_of_ne hgf, hfr']

/-- A turn of what `f` calls. -/
theorem Serving.turned_callee (w : Serving s) {fr : ServerFrame} (hbefore : Talks s.frames f a)
    (hactive : ∀ t, (s.frames f).status ≠ .nested t)
    (howner : (s.frames g).parent = some f)
    (hframes : s'.frames = Function.update s.frames g fr) (hfr : fr.parent = (s.frames g).parent)
    (hafter : Talks (Function.update s.frames g fr) f b) (hspawns : a.spawns = none)
    (hcreated : s'.created = s.created) (hshared : s'.shared = a.shares s.shared)
    (hlog : s'.log = s.log ++ events) :
    Turned s s' f a b events := by
  refine w.turned hbefore hactive (by rw [hframes]; exact hafter) ?_ ?_ hspawns hcreated hshared hlog
  · intro c _ hown _
    have hcg : c ≠ g := by
      rintro rfl
      exact hown howner
    rw [hframes, Function.update_of_ne hcg]
  · intro c
    rw [hframes]
    exact parent_update _ _ hfr c

/-- A turn of `f` in which a frame is allocated, one of its own or another root. -/
theorem Serving.turned_new (w : Serving s) {fr new : ServerFrame} {t : Thread}
    (hbefore : Talks s.frames f a) (hrun : (s.frames f).status = .running t)
    (hframes : s'.frames = Function.update (Function.update s.frames s.created new) f fr)
    (hfr : fr.parent = (s.frames f).parent) (hafter : Talks s'.frames f b)
    (howner : ∀ o, new.parent = some o → o = f)
    (hroot : new.parent = none → ∃ talk, a.spawns = some talk)
    (hspawns : ∀ talk, a.spawns = some talk →
      Talks s'.frames s.created talk ∧ ∀ t, talk.thread = some t → fr.status = .nested t)
    (hcreated : s'.created = s.created + 1) (hshared : s'.shared = a.shares s.shared)
    (hlog : s'.log = s.log ++ events) : Turned s s' f a b events := by
  have hnew := w.runtime.not_new hrun
  have hself : s'.frames f = fr := by rw [hframes, Function.update_self]
  have hother : ∀ c, c ≠ f → c ≠ s.created → s'.frames c = s.frames c := by
    intro c hc hcn
    rw [hframes, Function.update_of_ne hc, Function.update_of_ne hcn]
  have hallocated : s'.frames s.created = new := by
    rw [hframes, Function.update_of_ne hnew.symm, Function.update_self]
  have hapart : ∀ c, c ≠ f → (s.frames c).status ≠ .absent → s'.frames c = s.frames c := by
    intro c hc hs
    refine hother c hc ?_
    rintro rfl
    exact hs w.runtime.absent
  refine ⟨hbefore, ?_, hafter, ?_, ?_, ?_, ?_, fun talk hs => (hspawns talk hs).1, ?_, ?_, ?_, hshared, hlog⟩
  · simp [hrun]
  · exact fun k talk hk ht => ht.apart hk hbefore.root fun c hc _ hs => hapart c hc hs
  · intro k t' hk hn
    rw [hapart k hk (by simp [hn])]
    exact .inl hn
  · intro k hk
    by_cases hkf : k = f
    · rw [hkf, hself, hfr]
    · rw [hother k hkf (Nat.ne_of_lt hk)]
  · intro k hge hlt hp
    obtain rfl : k = s.created := by omega
    rw [hallocated] at hp
    obtain ⟨talk, hs⟩ := hroot hp
    exact ⟨rfl, talk, hs, (hspawns talk hs).1⟩
  · intro talk t' hs ht
    rw [hself]
    exact (hspawns talk hs).2 t' ht
  · intro k o hge ho
    have hkf : k ≠ f := by
      rintro rfl
      exact absurd (w.born (by simp [hrun])) (Nat.not_lt.mpr hge)
    by_cases hk : k = s.created
    · rw [hk, hallocated] at ho
      exact howner o ho
    · rw [hother k hkf hk, w.unborn_parent hge] at ho
      cases ho
  · rw [hcreated]
    exact Nat.le_succ _

theorem Rests.update {F : Handle → ServerFrame} {p p' : Point} {t : Thread} {fr : ServerFrame}
    (h : Rests F f p t) (hparent : fr.parent = (F f).parent) (hbody : fr.body = p')
    (hp : p'.rests = true) (htasks : fr.tasks = (F f).tasks)
    (hs : fr.status = .running t ∨ (fr.status = .nested t ∧ p' = .listenLoop) ∨
      (fr.status = .leaving t ∧ p'.fails = true)) :
    Talks (Function.update F f fr) f (.resting p' t) := by
  refine .resting ⟨?_, ?_, hp, ?_, ?_⟩
  · rw [Function.update_self, hparent, h.root]
  · rw [Function.update_self, hbody]
  · rw [Function.update_self, htasks, h.tasks]
  · rw [Function.update_self]
    exact hs

theorem Calls.update {F : Handle → ServerFrame} {c k c' k' : Point} {st su st' su' : Status Op Thread}
    {fr fr' : ServerFrame} (h : Calls F f g c k st su) (hparent : fr.parent = (F f).parent)
    (hbody : fr.body = c') (htasks : fr.tasks = (F f).tasks) (hstatus : fr.status = st')
    (hparent' : fr'.parent = (F g).parent) (hbody' : fr'.body = k') (htasks' : fr'.tasks = (F g).tasks)
    (hstatus' : fr'.status = su') :
    Calls (Function.update (Function.update F f fr) g fr') f g c' k' st' su' := by
  have hf : Function.update (Function.update F f fr) g fr' f = fr := by
    rw [Function.update_of_ne h.ne.symm, Function.update_self]
  have hg : Function.update (Function.update F f fr) g fr' g = fr' := Function.update_self ..
  exact ⟨by rw [hf, hparent, h.root], by rw [hf, hbody], by rw [hf, htasks, h.tasks], by rw [hf, hstatus],
    by rw [hg, hparent', h.owner], by rw [hg, hbody'], by rw [hg, htasks', h.calleeTasks],
    by rw [hg, hstatus']⟩

theorem Calls.update_callee {F : Handle → ServerFrame} {c k k' : Point} {st su su' : Status Op Thread}
    {fr : ServerFrame} (h : Calls F f g c k st su) (hparent : fr.parent = (F g).parent)
    (hbody : fr.body = k') (htasks : fr.tasks = (F g).tasks) (hstatus : fr.status = su') :
    Calls (Function.update F g fr) f g c k' st su' := by
  have hself : Function.update F f (F f) = F := Function.update_eq_self f F
  have hboth : Calls (Function.update (Function.update F f (F f)) g fr) f g c k' st su' :=
    h.update rfl h.body rfl h.status hparent hbody htasks hstatus
  rwa [hself] at hboth

/-- **Each step is one turn of one conversation.** -/
theorem turns {l : ServerLabel} (w : Serving s) (h : Moves s l s') :
    ∃ f a b events, Turned s s' f a b events ∧ Turn s f l a b events := by
  cases h with
  | @compute t ans f rest p u hstack hrun htalk hact =>
    cases htalk with
    | resting hr =>
      refine ⟨f, _, _, _, w.turned_self (.resting hr) (by simp [hrun]) rfl rfl
        (hr.update rfl rfl (compute_next hact _).1 rfl (.inl hrun)) (compute_spawns hact t) rfl ?_
        (List.append_nil _).symm, .compute hact⟩
      simp [Talk.shares, hact]
  | @ask t ans f rest socket ec hstack hrun htalk hok =>
    cases htalk with
    | resting hr =>
      refine ⟨f, _, _, _, w.turned_self (.resting hr) (by simp [hrun]) rfl rfl
        (hr.update rfl rfl rfl rfl (.inl hrun)) rfl rfl ?_ (List.append_nil _).symm, .ask hok⟩
      simp [Talk.shares, act, hok]
  | @call t ans f rest p op hstack hrun htalk hcalls =>
    cases htalk with
    | resting hr =>
      have hnew := w.runtime.not_new hrun
      refine ⟨f, _, .created op s.created t, _, w.turned_new (.resting hr) hrun rfl ?_ ?_ ?_ (by simp) ?_ rfl ?_
        (List.append_nil _).symm, .call hcalls⟩
      · simp [Function.update_of_ne hnew]
      · refine .created ⟨?_, ?_, ?_, ?_, ?_, ?_, ?_, ?_⟩ <;>
          simp [Function.update_of_ne hnew, Function.update_of_ne hnew.symm, hr.root, hr.tasks, hrun]
      · exact fun o ho => (Option.some.inj ho).symm
      · intro talk hs
        cases (calls_spawns hcalls t).symm.trans hs
      · exact (calls_shares hcalls t s.shared).symm
  | @start t ans f rest op g hstack htalk =>
    cases htalk with
    | created hc =>
      refine ⟨f, _, _, _, w.turned_both (.created hc) (by simp [hc.status]) hc.owner rfl rfl ?_
        (.started (hc.update rfl hc.body rfl rfl ?_ ?_ ?_ rfl)) rfl rfl rfl ?_, .start⟩
      · simp [Function.update_of_ne hc.ne]
      · simp [Function.update_of_ne hc.ne]
      · simp [Function.update_of_ne hc.ne, hc.calleeBody]
      · simp [Function.update_of_ne hc.ne]
      · simp
  | @initiate t ans f rest op g hstack htalk =>
    cases htalk with
    | started hc =>
      have hturned : Turned s {(s.modify g fun fr => {fr with status := .leaf op}).emit
          (.initiated g op) with pending := s.pending ++ [(g, op)]} f (.started op g t)
            (.outstanding op g) [.initiated g op] :=
        w.turned_callee (.started hc) (by simp [hc.status]) hc.owner rfl rfl
          (.outstanding (hc.update_callee rfl hc.calleeBody rfl rfl)) rfl rfl rfl rfl
      exact ⟨f, _, _, _, hturned.woken (w.runtime.below hstack _) rfl rfl rfl, .initiate⟩
  | @complete t f op g v hstack hop htalk =>
    cases htalk with
    | outstanding hc =>
      refine ⟨f, _, _, _, w.turned_callee (.outstanding hc) (by simp [hc.status]) hc.owner rfl rfl
        (.completed (hc.update_callee rfl rfl rfl rfl)) rfl rfl rfl ?_, .complete hop⟩
      simp
  | @deliver t ans f rest op g v hstack htalk =>
    cases htalk with
    | completed hc =>
      exact ⟨f, _, _, _, w.turned_callee (.completed hc) (by simp [hc.status]) hc.owner rfl rfl
        (.returned (hc.update_callee rfl hc.calleeBody rfl rfl)) rfl rfl rfl rfl, .deliver⟩
  | @resume t ans f rest op g v hstack htalk =>
    cases htalk with
    | returned hc =>
      have hframes : (((((s.modify g fun fr => {fr with status := .final}).modify f fun fr =>
          {fr with status := .running t, body := .awaited op v}).emit
            (.resumed f (.awaiting g))).emit (.obtained f g v)).setStack t (f :: rest)).frames =
          Function.update (Function.update s.frames f
            {s.frames f with status := .running t, body := .awaited op v}) g
              {s.frames g with status := .final} := by
        simp only [setStack_frames, emit_frames, modify_frames, Function.update_of_ne hc.ne.symm]
        exact Function.update_comm hc.ne ..
      refine ⟨f, _, _, _, w.turned_both (.returned hc) (by simp [hc.status]) hc.owner hframes rfl rfl
        (.answered (hc.update rfl rfl rfl rfl rfl hc.calleeBody rfl rfl)) rfl rfl rfl ?_, .resume⟩
      simp
  | @drop t ans f rest op g v hstack htalk =>
    cases htalk with
    | answered hc =>
      refine ⟨f, _, .resting (op.next v) t, _, w.turned_both (.answered hc) (by simp [hc.status]) hc.owner
        rfl rfl ?_ ?_ rfl rfl rfl rfl, .drop⟩
      · simp [Function.update_of_ne hc.ne]
      · have hrests : (op.next v).rests = true := by cases op <;> rfl
        refine .resting ⟨?_, ?_, hrests, ?_, .inl ?_⟩ <;>
          simp [Function.update_of_ne hc.ne.symm, hc.root, hc.status]
  | @leave t ans f rest p hstack hrun htalk hfails =>
    cases htalk with
    | resting hr =>
      refine ⟨f, _, _, _, w.turned_self (.resting hr) (by simp [hrun]) rfl rfl
        (hr.update rfl hr.body hr.rests rfl (.inr (.inr ⟨rfl, hfails⟩))) (fails_spawns hfails t) rfl ?_
        rfl, .leave hfails⟩
      exact (fails_shares hfails t s.shared).symm
  | @finish t ans f rest p hstack hrun htalk hfails =>
    cases htalk with
    | resting hr =>
      have hgone : Gone (Function.update s.frames f {s.frames f with status := .destroyed}) f p :=
        ⟨by simp [hr.root], by simp [hr.body], hfails, by simp [hr.tasks], by simp⟩
      have hturned : Turned s ((s.modify f fun fr => {fr with status := .destroyed}).emit
          (.destroyed f .final)) f (.resting p t) (.gone p) [.destroyed f .final] :=
        w.turned_self (.resting hr) (by simp [hrun]) rfl rfl (.gone hgone) (fails_spawns hfails t) rfl
          (fails_shares hfails t s.shared).symm rfl
      exact ⟨f, _, _, _, hturned.woken (w.runtime.below hstack _) rfl rfl (fails_spawns hfails t),
        .finish hfails⟩
  | @spawn t ans f rest socket hstack hrun htalk =>
    cases htalk with
    | resting hr =>
      have hnew := w.runtime.not_new hrun
      refine ⟨f, _, .resting .listenLoop t, _, w.turned_new (.resting hr) hrun
        (Function.update_comm hnew _ _ _) rfl ?_ (by simp) (fun _ => ⟨_, rfl⟩) ?_ rfl rfl rfl, .spawn⟩
      · refine .resting ⟨?_, ?_, rfl, ?_, .inr (.inl ⟨?_, rfl⟩)⟩ <;>
          simp [spawned, Function.update_of_ne hnew, hr.root, hr.tasks]
      · intro talk hs
        cases hs
        refine ⟨.resting ⟨?_, ?_, rfl, ?_, .inl ?_⟩, ?_⟩ <;> simp [spawned, Talk.thread]
  | @throw t ans f rest p hstack hrun htalk hact =>
    cases htalk with
    | resting hr =>
      refine ⟨f, _, _, _, w.turned (.resting hr) (by simp [hrun]) (.resting hr) (fun _ _ _ _ => rfl)
        (fun _ => rfl) (throw_spawns hact t) rfl ?_ (List.append_nil _).symm, .throw hact⟩
      simp [Talk.shares, hact]

/-! ### Every step keeps the conversations -/

def Talk.point : Talk → Point
  | resting p _ | gone p => p
  | created op .. | started op .. | outstanding op _ | completed op .. | returned op .. => .awaiting op
  | answered op _ v _ => .awaited op v

theorem Talks.point {F : Handle → ServerFrame} {talk : Talk} (h : Talks F f talk) :
    (F f).body = talk.point := by
  cases h <;> rename_i h <;> exact h.body

/-- `listen` stays in `listen`, and `process` in `process`. -/
theorem Turn.listens {l : ServerLabel} (h : Turn s f l a b events) :
    b.point.listens = a.point.listens := by
  cases h with
  | compute hact =>
    obtain ⟨-, hnext, hlistens⟩ := compute_next hact s.shared
    exact hnext.trans hlistens.symm
  | @call t ans p op g hcalls =>
    cases p with
    | processBranch socket result =>
      simp only [Point.calls] at hcalls
      split at hcalls <;> cases hcalls
      rfl
    | listenAccept | processLoop =>
      cases hcalls
      rfl
    | _ => cases hcalls
  | @resume t ans op g v | @drop t ans op g v => cases op <;> rfl
  | _ => rfl

section Delivered

/-- What `Serving` says of the frames of the operations. -/
structure Delivered (F : Handle → ServerFrame) (log : List ServerEvent) : Prop where
  value : ∀ g v, (F g).parent ≠ none → (F g).value = some v → ∃ op, (F g).body = .deliver op v
  result : ∀ g op v, .completed g op v ∈ log → (F g).parent ≠ none ∧ (F g).body = .deliver op v

variable {F : Handle → ServerFrame} {log log' : List ServerEvent} {h : Handle} {fr : ServerFrame}

/-- A root is changed. -/
theorem Delivered.root (d : Delivered F log) (hh : (F h).parent = none) (hfr : fr.parent = none)
    (hlog : ∀ g op v, .completed g op v ∈ log' → .completed g op v ∈ log) :
    Delivered (Function.update F h fr) log' := by
  constructor
  · intro g v hp hv
    have hgh : g ≠ h := by
      rintro rfl
      rw [Function.update_self] at hp
      exact hp hfr
    rw [Function.update_of_ne hgh] at hp hv ⊢
    exact d.value g v hp hv
  · intro g op v hm
    obtain ⟨hp, hb⟩ := d.result g op v (hlog g op v hm)
    have hgh : g ≠ h := by
      rintro rfl
      exact hp hh
    rw [Function.update_of_ne hgh]
    exact ⟨hp, hb⟩

/-- The frame of an operation is changed. -/
theorem Delivered.inner (d : Delivered F log) (hfr : fr.parent ≠ none)
    (hvalue : ∀ v, fr.value = some v → ∃ op, fr.body = .deliver op v)
    (hlog : ∀ g op v, .completed g op v ∈ log' →
      (g = h ∧ fr.body = .deliver op v) ∨ .completed g op v ∈ log)
    (hbody : (F h).parent ≠ none → ∀ op v, (F h).body = .deliver op v → fr.body = .deliver op v) :
    Delivered (Function.update F h fr) log' := by
  constructor
  · intro g v hp hv
    by_cases hgh : g = h
    · subst hgh
      rw [Function.update_self] at hv ⊢
      exact hvalue v hv
    · rw [Function.update_of_ne hgh] at hp hv ⊢
      exact d.value g v hp hv
  · intro g op v hm
    rcases hlog g op v hm with ⟨rfl, hb⟩ | hold
    · rw [Function.update_self]
      exact ⟨hfr, hb⟩
    · obtain ⟨hp, hb⟩ := d.result g op v hold
      by_cases hgh : g = h
      · subst hgh
        rw [Function.update_self]
        exact ⟨hfr, hbody hp op v hb⟩
      · rw [Function.update_of_ne hgh]
        exact ⟨hp, hb⟩

theorem Delivered.woken {t : Thread} {rest : List Handle} (d : Delivered s.frames log) :
    Delivered (wake s t rest) log := by
  have hsame : ∀ g, (wake s t rest g).parent = (s.frames g).parent ∧
      (wake s t rest g).value = (s.frames g).value ∧
      (wake s t rest g).body = (s.frames g).body := by
    intro g
    rw [wake]
    split <;> exact ⟨rfl, rfl, rfl⟩
  constructor
  · intro g v hp hv
    rw [(hsame g).1] at hp
    rw [(hsame g).2.1] at hv
    rw [(hsame g).2.2]
    exact d.value g v hp hv
  · intro g op v hm
    rw [(hsame g).1, (hsame g).2.2]
    exact d.result g op v hm

end Delivered

theorem moves_delivered {l : ServerLabel} (w : Serving s) (h : Moves s l s') :
    Delivered s'.frames s'.log := by
  have d : Delivered s.frames s.log := ⟨w.delivered, w.completed⟩
  have hnew : (s.frames s.created).parent = none := w.unborn_parent (Nat.le_refl _)
  cases h with
  | compute hstack hrun htalk hact => exact d.root htalk.root htalk.root fun _ _ _ => id
  | ask hstack hrun htalk hok => exact d.root htalk.root htalk.root fun _ _ _ => id
  | @call t ans f rest p op hstack hrun htalk hcalls =>
    have hf := w.runtime.not_new hrun
    have hcall : Delivered (Function.update s.frames s.created
        ⟨.initial, .callback op, none, none, [], some f⟩) s.log :=
      d.inner nofun nofun (fun _ _ _ => .inr) fun hp => absurd hnew hp
    refine hcall.root ?_ ?_ fun _ _ _ => id
    · rw [Function.update_of_ne hf]
      exact htalk.root
    · rw [modify_frames, Function.update_of_ne hf]
      exact htalk.root
  | @start t ans f rest op g hstack htalk =>
    cases htalk with
    | created hc =>
      have hroot : Delivered (Function.update s.frames f {s.frames f with status := .awaiting g})
          s.log := d.root hc.root hc.root fun _ _ _ => id
      refine hroot.inner ?_ ?_ ?_ ?_
      · simp [Function.update_of_ne hc.ne, hc.owner]
      · intro v hv
        simp only [modify_frames, Function.update_of_ne hc.ne] at hv ⊢
        exact d.value g v (by rw [hc.owner]; nofun) hv
      · intro g' op' v hm
        right
        simpa using hm
      · exact fun _ _ _ => id
  | @initiate t ans f rest op g hstack htalk =>
    cases htalk with
    | started hc =>
      rw [returnTo_eq]
      refine Delivered.woken (d.inner ?_ ?_ ?_ ?_)
      · simp [hc.owner]
      · exact fun v hv => d.value g v (by rw [hc.owner]; nofun) hv
      · intro g' op' v hm
        right
        simpa using hm
      · exact fun _ _ _ => id
  | @complete t f op g v hstack hop htalk =>
    cases htalk with
    | outstanding hc =>
      have hvalue : ∀ v', (s.frames g).value ≠ some v' := by
        intro v' hv
        obtain ⟨op', hb⟩ := d.value g v' (by rw [hc.owner]; nofun) hv
        cases hc.calleeBody.symm.trans hb
      refine d.inner ?_ ?_ ?_ ?_
      · simp [hc.owner]
      · exact fun v' hv => absurd hv (hvalue v')
      · intro g' op' v' hm
        simp only [setStack_log, emit_log, modify_log, List.mem_append, List.mem_singleton,
          reduceCtorEq, or_false, Event.completed.injEq] at hm
        rcases hm with hm | ⟨rfl, rfl, rfl⟩
        · exact .inr hm
        · exact .inl ⟨rfl, rfl⟩
      · exact fun _ op' v' hb => by cases hc.calleeBody.symm.trans hb
  | @deliver t ans f rest op g v hstack htalk =>
    cases htalk with
    | completed hc =>
      refine d.inner ?_ ?_ ?_ ?_
      · simp [hc.owner]
      · intro v' hv
        cases hv
        exact ⟨op, hc.calleeBody⟩
      · intro g' op' v' hm
        right
        simpa using hm
      · exact fun _ _ _ => id
  | @resume t ans f rest op g v hstack htalk =>
    cases htalk with
    | returned hc =>
      have hinner : Delivered (Function.update s.frames g {s.frames g with status := .final}) s.log :=
        d.inner (by simp [hc.owner]) (fun v' hv => d.value g v' (by rw [hc.owner]; nofun) hv)
          (fun _ _ _ => .inr) fun _ _ _ => id
      refine hinner.root ?_ ?_ ?_
      · simp [Function.update_of_ne hc.ne.symm, hc.root]
      · simp [Function.update_of_ne hc.ne.symm, hc.root]
      · intro g' op' v' hm
        simpa using hm
  | @drop t ans f rest op g v hstack htalk =>
    cases htalk with
    | answered hc =>
      have hroot : Delivered (Function.update s.frames f {s.frames f with body := op.next v, tasks := []})
          s.log := d.root hc.root hc.root fun _ _ _ => id
      refine hroot.inner ?_ ?_ ?_ ?_
      · simp [Function.update_of_ne hc.ne, hc.owner]
      · intro v' hv
        simp only [modify_frames, emit_frames, Function.update_of_ne hc.ne] at hv ⊢
        exact d.value g v' (by rw [hc.owner]; nofun) hv
      · intro g' op' v' hm
        right
        simpa using hm
      · exact fun _ _ _ => id
  | @leave t ans f rest p hstack hrun htalk hfails =>
    refine d.root htalk.root htalk.root ?_
    intro g op v hm
    simpa using hm
  | @finish t ans f rest p hstack hrun htalk hfails =>
    rw [returnTo_eq]
    refine Delivered.woken (d.root htalk.root htalk.root ?_)
    intro g op v hm
    simpa using hm
  | @spawn t ans f rest socket hstack hrun htalk =>
    have hnested : Delivered (Function.update s.frames f
        {s.frames f with status := .nested t, body := .listenLoop}) s.log :=
      d.root htalk.root htalk.root fun _ _ _ => id
    refine hnested.root ?_ rfl ?_
    · simp [Function.update_of_ne (w.runtime.not_new hrun).symm, hnew]
    · intro g op v hm
      simpa [spawned] using hm
  | throw hstack hrun htalk hact => exact d

theorem moves_serving {l : ServerLabel} (w : Serving s) (hi : Inv s') (hstored : Stored s')
    (h : Moves s l s') : Serving s' := by
  have hdelivered := moves_delivered w h
  obtain ⟨f, a, b, events, turned, turn⟩ := turns w h
  have hborn : f < s.created := w.born turned.before.present
  have hroots : ∀ k, k < s.created → (s'.frames k).parent = none →
      k ≠ f → ∃ talk, Talks s.frames k talk ∧ Talks s'.frames k talk := by
    intro k hk hp hkf
    rw [turned.parent k hk] at hp
    obtain ⟨talk, ht⟩ := w.roots k hk hp
    exact ⟨talk, ht, turned.others k talk hkf ht⟩
  refine ⟨hi, hstored, ?_, ?_, hdelivered.value, hdelivered.result, ?_⟩
  · intro g o ho
    by_cases hg : g < s.created
    · rw [turned.parent g hg] at ho
      have hlt : o < s.created := Nat.lt_trans (w.runtime.forest.older o g ho) hg
      rw [turned.parent o hlt]
      exact w.depth g o ho
    · cases turned.owner g o (Nat.le_of_not_lt hg) ho
      exact turned.after.root
  · intro k hk hp
    by_cases hks : k < s.created
    · by_cases hkf : k = f
      · subst hkf
        exact ⟨b, turned.after⟩
      · obtain ⟨talk, -, ht⟩ := hroots k hks hp hkf
        exact ⟨talk, ht⟩
    · obtain ⟨-, talk, -, ht⟩ := turned.fresh k (Nat.le_of_not_lt hks) hk hp
      exact ⟨talk, ht⟩
  · intro k hk hp
    by_cases hks : k < s.created
    · have hp' := hp
      rw [turned.parent k hks] at hp'
      rw [← w.listen k hks hp']
      by_cases hkf : k = f
      · subst hkf
        rw [turned.after.point, turned.before.point, turn.listens]
      · obtain ⟨talk, ht, ht'⟩ := hroots k hks hp hkf
        rw [ht.point, ht'.point]
    · obtain ⟨rfl, talk, hs, ht⟩ := turned.fresh k (Nat.le_of_not_lt hks) hk hp
      have hpos : s.created ≠ 0 := by
        intro h0
        rw [h0] at hborn
        exact Nat.not_lt_zero _ hborn
      rw [ht.point]
      simp only [hpos, iff_false]
      cases a with
      | resting p t =>
        cases p with
        | listenRemote socket remote =>
          simp only [Talk.spawns] at hs
          split at hs <;> cases hs
          simp [Talk.point, Point.listens]
        | _ => cases hs
      | _ => cases hs

/-- **A step of the server is a turn**, and keeps the conversations. -/
theorem serving_step {server : TcpServer} {l : ServerLabel} (w : Serving s)
    (h : server.machine.step s l = some s') : Moves s l s' ∧ Serving s' := by
  have hstep : server.allows s l = true ∧ step program s l = some s' := by
    simpa [TcpServer.machine] using h
  have hsteps := step_cases w.runtime hstep.2
  have hmoves : Moves s l s' := by
    refine moves w hsteps ?_
    rintro t body rfl
    cases hstep.1
  have hstored : Stored s' := steps_stored Option.some_ne_none w.runtime w.stored hsteps
  exact ⟨hmoves, moves_serving w (steps_inv w.runtime hsteps) hstored hmoves⟩

/-! ### The start -/

/-- What the constructor leaves: `listen` on the constructing thread, at its first point. -/
theorem create_eq {n : Nat} {server : TcpServer} {s : ServerState}
    (h : TcpServer.create n = some (server, s)) :
    ∃ pool, (IOContextPool.create n).getIoContext = some (server.acceptor, pool) ∧
      s = spawned (State.empty ⟨pool, 0⟩) .main .listenLoop := by
  rw [TcpServer.create] at h
  split at h
  · rename_i ctx pool hpool
    cases h
    exact ⟨pool, hpool, spawn_eq program _ _ _⟩
  · cases h

/-- A server can be started on every pool that is not empty. -/
theorem create_some {n : Nat} (hn : 0 < n) : ∃ server s, TcpServer.create n = some (server, s) := by
  have hdraw := IOContextPool.draw_some (IOContextPool.create_inRange hn)
  rw [TcpServer.create, IOContextPool.getIoContext, hdraw]
  exact ⟨_, _, rfl⟩

theorem listen_talks (pool : IOContextPool) :
    Talks (spawned (State.empty ⟨pool, 0⟩ : ServerState) .main .listenLoop).frames 0
      (.resting .listenLoop .main) :=
  .resting ⟨rfl, rfl, rfl, rfl, .inl rfl⟩

theorem create_serving {n : Nat} {server : TcpServer} {s : ServerState}
    (h : TcpServer.create n = some (server, s)) : Serving s := by
  obtain ⟨pool, -, rfl⟩ := create_eq h
  have hstart : step program (State.empty ⟨pool, 0⟩ : ServerState) (.start .main .listenLoop) =
      some (spawned (State.empty ⟨pool, 0⟩) .main .listenLoop) := by
    rw [← spawn_eq program]
    rfl
  have hparent : ∀ k,
      ((spawned (State.empty ⟨pool, 0⟩ : ServerState) .main .listenLoop).frames k).parent = none := by
    intro k
    by_cases hk : k = 0
    · subst hk
      rfl
    · simp [spawned, State.empty, Function.update_of_ne hk, Frame.absent]
  have hsteps := step_cases (inv_empty _) hstart
  refine ⟨steps_inv (inv_empty _) hsteps, steps_stored Option.some_ne_none (inv_empty _) (stored_empty _) hsteps,
    ?_, ?_, ?_, ?_, ?_⟩
  · intro g f hg
    rw [hparent g] at hg
    cases hg
  · intro f hf _
    obtain rfl : f = 0 := by
      simp only [spawned, State.empty, setStack_created, emit_created, modify_created] at hf
      omega
    exact ⟨_, listen_talks pool⟩
  · intro g v hg
    exact absurd (hparent g) hg
  · intro g op v hm
    simp [spawned, State.empty] at hm
  · intro f hf _
    obtain rfl : f = 0 := by
      simp only [spawned, State.empty, setStack_created, emit_created, modify_created] at hf
      omega
    simp [spawned, State.empty, Point.listens]

/-- There is no other talk at the start. -/
theorem create_talk {n : Nat} {server : TcpServer} {s : ServerState} {k : Handle} {talk : Talk}
    (h : TcpServer.create n = some (server, s)) (ht : Talks s.frames k talk) :
    k = 0 ∧ talk = .resting .listenLoop .main := by
  have w := create_serving h
  obtain ⟨pool, -, rfl⟩ := create_eq h
  obtain rfl : k = 0 := Nat.lt_one_iff.mp (w.born ht.present)
  exact ⟨rfl, ht.unique (listen_talks pool)⟩

end Turns

end ExploreCpp.Server
