import ExploreCpp.Machine
import ExploreCpp.Server.Pool

/-! `IOContextPool::run` and `stop`, with the threads of the contexts.

Each context has a thread in `run`. It takes handlers while there are any, and ends when
the context is stopped, which it is also for want of work; but the work guard counts as
work. The thread that calls `IOContextPool::run` starts the threads and joins them, and
`stop` can be called beside it. What the handlers do is left open but for the work they
post. They do not stop or restart a context themselves, which `get_io_context` would let
them do; a handler or a constructor that throws, which ends the program, is left out. -/
namespace ExploreCpp.Lifetime
open Server (Context IOContextPool)

/-- `asio::io_context`, as far as `run` depends on it. -/
structure IoContext where
  /-- The work guard is held. -/
  guard : Bool
  /-- Operations and handlers that are outstanding. -/
  work : Nat
  stopped : Bool
deriving DecidableEq, Repr

/-- Without work a context is stopped. -/
def IoContext.settle (ctx : IoContext) : IoContext :=
  {ctx with stopped := ctx.stopped || (!ctx.guard && ctx.work == 0)}

/-- The thread of a context. -/
inductive Worker where
  | unborn
  | running
  /-- In a handler. -/
  | handling
  | finished
deriving DecidableEq, Repr

/-- Where `IOContextPool::run` is. -/
inductive RunPoint where
  | before
  | starting (i : Nat)
  | joining (i : Nat)
  | after
deriving DecidableEq, Repr

/-- Where `stop` is. -/
inductive StopPoint where
  | before
  | resetting (i : Nat)
  | stopping (i : Nat)
  | after
deriving DecidableEq, Repr

structure PoolState where
  pool : IOContextPool
  contexts : Context → IoContext
  workers : Context → Worker
  run : RunPoint
  stop : StopPoint

namespace PoolState

def size (s : PoolState) : Nat := s.pool.ioContexts.length

/-- The constructor makes a guard for every context. -/
def create (poolSize : Nat) : PoolState :=
  ⟨.create poolSize, fun _ => ⟨true, 0, false⟩, fun _ => .unborn, .before, .before⟩

def setContext (s : PoolState) (i : Context) (ctx : IoContext) : PoolState :=
  {s with contexts := Function.update s.contexts i ctx}

def setWorker (s : PoolState) (i : Context) (worker : Worker) : PoolState :=
  {s with workers := Function.update s.workers i worker}

end PoolState

/-- All that stops a context is `stop`, and the end of its work. -/
inductive PoolStep where
  /-- Work posted by the thread that has made the pool, before it calls `run`. -/
  | initiate (i : Context)
  /-- The next step of `IOContextPool::run`. -/
  | run
  /-- The next step of `IOContextPool::stop`. -/
  | stop
  /-- A context takes a handler, comes to its end, or has nothing left to do. -/
  | take (i : Context)
  | finish (i : Context)
  | leave (i : Context)
  /-- A handler posts work. -/
  | post (i j : Context)
deriving DecidableEq, Repr

namespace PoolState

def stepRun (s : PoolState) : Option PoolState :=
  match s.run with
  | .before => some {s with run := .starting 0}
  | .starting i =>
    if i < s.size then some {s.setWorker i .running with run := .starting (i + 1)}
    else some {s with run := .joining 0}
  | .joining i =>
    if i < s.size then
      if s.workers i = .finished then some {s with run := .joining (i + 1)} else none
    else some {s with run := .after}
  | .after => none

def stepStop (s : PoolState) : Option PoolState :=
  match s.stop with
  | .before => some {s with stop := .resetting 0}
  | .resetting i =>
    if i < s.size then
      some {s.setContext i {s.contexts i with guard := false}.settle with stop := .resetting (i + 1)}
    else some {s with stop := .stopping 0}
  | .stopping i =>
    if i < s.size then some {s.setContext i {s.contexts i with stopped := true} with stop := .stopping (i + 1)}
    else some {s with stop := .after}
  | .after => none

def step (s : PoolState) : PoolStep → Option PoolState
  | .initiate i =>
    if s.run = .before ∧ i < s.size then some (s.setContext i {s.contexts i with work := (s.contexts i).work + 1})
    else none
  | .run => s.stepRun
  | .stop => s.stepStop
  | .take i =>
    if s.workers i = .running ∧ (s.contexts i).stopped = false ∧ 0 < (s.contexts i).work then
      some (s.setWorker i .handling)
    else none
  | .finish i =>
    if s.workers i = .handling then
      some ((s.setWorker i .running).setContext i {s.contexts i with work := (s.contexts i).work - 1}.settle)
    else none
  | .leave i =>
    if s.workers i = .running ∧ (s.contexts i).stopped = true then some (s.setWorker i .finished) else none
  | .post i j =>
    if s.workers i = .handling ∧ j < s.size then
      some (s.setContext j {s.contexts j with work := (s.contexts j).work + 1})
    else none

end PoolState

def poolMachine : Machine PoolState PoolStep := ⟨PoolState.step⟩

/-! ### What a step does -/

/-- All a step can do. -/
inductive Moves (s : PoolState) : PoolStep → PoolState → Prop where
  | initiate (i : Context) : s.run = .before → i < s.size →
    Moves s (.initiate i) (s.setContext i {s.contexts i with work := (s.contexts i).work + 1})
  | begin : s.run = .before → Moves s .run {s with run := .starting 0}
  | start (i : Nat) : s.run = .starting i → i < s.size →
    Moves s .run {s.setWorker i .running with run := .starting (i + 1)}
  | started (i : Nat) : s.run = .starting i → s.size ≤ i → Moves s .run {s with run := .joining 0}
  | join (i : Nat) : s.run = .joining i → i < s.size → s.workers i = .finished →
    Moves s .run {s with run := .joining (i + 1)}
  | joined (i : Nat) : s.run = .joining i → s.size ≤ i → Moves s .run {s with run := .after}
  | beginStop : s.stop = .before → Moves s .stop {s with stop := .resetting 0}
  | reset (i : Nat) : s.stop = .resetting i → i < s.size →
    Moves s .stop {s.setContext i {s.contexts i with guard := false}.settle with stop := .resetting (i + 1)}
  | cleared (i : Nat) : s.stop = .resetting i → s.size ≤ i → Moves s .stop {s with stop := .stopping 0}
  | halt (i : Nat) : s.stop = .stopping i → i < s.size →
    Moves s .stop {s.setContext i {s.contexts i with stopped := true} with stop := .stopping (i + 1)}
  | halted (i : Nat) : s.stop = .stopping i → s.size ≤ i → Moves s .stop {s with stop := .after}
  | take (i : Context) : s.workers i = .running → (s.contexts i).stopped = false → 0 < (s.contexts i).work →
    Moves s (.take i) (s.setWorker i .handling)
  | finish (i : Context) : s.workers i = .handling →
    Moves s (.finish i)
      ((s.setWorker i .running).setContext i {s.contexts i with work := (s.contexts i).work - 1}.settle)
  | leave (i : Context) : s.workers i = .running → (s.contexts i).stopped = true →
    Moves s (.leave i) (s.setWorker i .finished)
  | post (i j : Context) : s.workers i = .handling → j < s.size →
    Moves s (.post i j) (s.setContext j {s.contexts j with work := (s.contexts j).work + 1})

section
variable {s t : PoolState} {l : PoolStep}

theorem of_ite_some {α : Type} {p : Prop} [Decidable p] {a b : α} (h : (if p then some a else none) = some b) :
    p ∧ b = a := by
  obtain ⟨hp, he⟩ := Option.ite_none_right_eq_some.1 h
  exact ⟨hp, (Option.some.inj he).symm⟩

theorem run_moves (h : s.stepRun = some t) : Moves s .run t := by
  rw [PoolState.stepRun] at h
  cases hrun : s.run with
  | before =>
    rw [hrun] at h
    exact Option.some.inj h ▸ .begin hrun
  | starting i =>
    simp only [hrun] at h
    by_cases hi : i < s.size
    · rw [if_pos hi] at h
      exact Option.some.inj h ▸ .start i hrun hi
    · rw [if_neg hi] at h
      exact Option.some.inj h ▸ .started i hrun (Nat.le_of_not_lt hi)
  | joining i =>
    simp only [hrun] at h
    by_cases hi : i < s.size
    · rw [if_pos hi] at h
      obtain ⟨hfinished, ht⟩ := of_ite_some h
      exact ht ▸ .join i hrun hi hfinished
    · rw [if_neg hi] at h
      exact Option.some.inj h ▸ .joined i hrun (Nat.le_of_not_lt hi)
  | after =>
    rw [hrun] at h
    cases h

theorem stop_moves (h : s.stepStop = some t) : Moves s .stop t := by
  rw [PoolState.stepStop] at h
  cases hstop : s.stop with
  | before =>
    rw [hstop] at h
    exact Option.some.inj h ▸ .beginStop hstop
  | resetting i =>
    simp only [hstop] at h
    by_cases hi : i < s.size
    · rw [if_pos hi] at h
      exact Option.some.inj h ▸ .reset i hstop hi
    · rw [if_neg hi] at h
      exact Option.some.inj h ▸ .cleared i hstop (Nat.le_of_not_lt hi)
  | stopping i =>
    simp only [hstop] at h
    by_cases hi : i < s.size
    · rw [if_pos hi] at h
      exact Option.some.inj h ▸ .halt i hstop hi
    · rw [if_neg hi] at h
      exact Option.some.inj h ▸ .halted i hstop (Nat.le_of_not_lt hi)
  | after =>
    rw [hstop] at h
    cases h

theorem moves (h : poolMachine.step s l = some t) : Moves s l t := by
  cases l with
  | run => exact run_moves h
  | stop => exact stop_moves h
  | initiate i =>
    obtain ⟨⟨hrun, hi⟩, ht⟩ := of_ite_some h
    exact ht ▸ .initiate i hrun hi
  | take i =>
    obtain ⟨⟨hrunning, hstopped, hwork⟩, ht⟩ := of_ite_some h
    exact ht ▸ .take i hrunning hstopped hwork
  | finish i =>
    obtain ⟨hhandling, ht⟩ := of_ite_some h
    exact ht ▸ .finish i hhandling
  | leave i =>
    obtain ⟨⟨hrunning, hstopped⟩, ht⟩ := of_ite_some h
    exact ht ▸ .leave i hrunning hstopped
  | post i j =>
    obtain ⟨⟨hhandling, hj⟩, ht⟩ := of_ite_some h
    exact ht ▸ .post i j hhandling hj

theorem Moves.pool (h : Moves s l t) : t.pool = s.pool := by cases h <;> rfl

end

/-! ### Invariant -/

/-- The guards `stop` has released at this point. -/
def StopPoint.Released : StopPoint → Context → Prop
  | .before, _ => False
  | .resetting k, i => i < k
  | .stopping _, _ | .after, _ => True

/-- The contexts it has stopped. -/
def StopPoint.Halted : StopPoint → Context → Prop
  | .before, _ | .resetting _, _ => False
  | .stopping k, i => i < k
  | .after, _ => True

/-- The threads `run` has started at this point. -/
def RunPoint.Started : RunPoint → Context → Prop
  | .before, _ => False
  | .starting k, i => i < k
  | .joining _, _ | .after, _ => True

/-- The threads it has joined. -/
def RunPoint.Joined : RunPoint → Context → Prop
  | .before, _ | .starting _, _ => False
  | .joining k, i => i < k
  | .after, _ => True

/-- Guards are released by `stop` only, and a context with its guard is not stopped. -/
structure Guarded (contexts : Context → IoContext) (stop : StopPoint) (size : Nat) : Prop where
  guard : ∀ i < size, ((contexts i).guard = false ↔ stop.Released i)
  stopped : ∀ i < size, (contexts i).stopped = true → (contexts i).guard = false
  halted : ∀ i < size, stop.Halted i → (contexts i).stopped = true

/-- Every context has its thread, from when it is started. -/
structure Threaded (workers : Context → Worker) (run : RunPoint) (size : Nat) : Prop where
  started : ∀ i < size, (workers i ≠ .unborn ↔ run.Started i)
  outside : ∀ i, size ≤ i → workers i = .unborn
  joined : ∀ i < size, run.Joined i → workers i = .finished

structure Inv (s : PoolState) : Prop where
  guarded : Guarded s.contexts s.stop s.size
  threaded : Threaded s.workers s.run s.size
  /-- A thread ends if its context is stopped. -/
  finished : ∀ i < s.size, s.workers i = .finished → (s.contexts i).guard = false

theorem create_inv (poolSize : Nat) : Inv (.create poolSize) := by
  refine ⟨⟨fun _ _ => ?_, fun _ _ h => ?_, fun _ _ h => ?_⟩, ⟨fun _ _ => ?_, fun _ _ => rfl, fun _ _ h => ?_⟩,
    fun _ _ h => ?_⟩
  · simp [PoolState.create, StopPoint.Released]
  · cases h
  · cases h
  · simp [PoolState.create, RunPoint.Started]
  · cases h
  · cases h

/-- What a step that is not one of `stop` leaves of a context. -/
structure Lasts (ctx ctx' : IoContext) : Prop where
  guard : ctx'.guard = ctx.guard
  stays : ctx.stopped = true → ctx'.stopped = true
  released : ctx'.stopped = true → ctx.stopped = true ∨ ctx.guard = false

theorem Lasts.refl (ctx : IoContext) : Lasts ctx ctx := ⟨rfl, id, .inl⟩

theorem Lasts.work (ctx : IoContext) (work : Nat) : Lasts ctx {ctx with work := work} := ⟨rfl, id, .inl⟩

theorem Lasts.settle (ctx : IoContext) (work : Nat) : Lasts ctx {ctx with work := work}.settle := by
  constructor
  · rfl
  · intro h
    simp [IoContext.settle, h]
  · intro h
    have hor : ctx.stopped = true ∨ ctx.guard = false ∧ work = 0 := by simpa [IoContext.settle] using h
    exact hor.imp_right And.left

theorem Lasts.update {contexts : Context → IoContext} {i : Context} {ctx : IoContext} (h : Lasts (contexts i) ctx)
    (j : Context) : Lasts (contexts j) (Function.update contexts i ctx j) := by
  by_cases hj : j = i
  · rw [hj, Function.update_self]
    exact h
  · rw [Function.update_of_ne hj]
    exact .refl _

theorem Guarded.lasts {contexts contexts' : Context → IoContext} {stop : StopPoint} {size : Nat}
    (h : Guarded contexts stop size) (hl : ∀ j, Lasts (contexts j) (contexts' j)) : Guarded contexts' stop size := by
  refine ⟨fun i hi => ?_, fun i hi hs => ?_, fun i hi hh => (hl i).stays (h.halted i hi hh)⟩
  · rw [(hl i).guard]
    exact h.guard i hi
  · rw [(hl i).guard]
    exact ((hl i).released hs).elim (h.stopped i hi) id

/-! ### Steps of `stop` -/

section
variable {contexts : Context → IoContext} {size : Nat}

/-- The guards before `k` are released, and the next one is. -/
theorem Guarded.reset {k : Nat} (h : Guarded contexts (.resetting k) size) :
    Guarded (Function.update contexts k {contexts k with guard := false}.settle) (.resetting (k + 1)) size := by
  refine ⟨fun i hi => ?_, fun i hi hs => ?_, fun _ _ hh => absurd hh id⟩
  · show _ ↔ i < k + 1
    by_cases hk : i = k
    · rw [hk, Function.update_self]
      simp [IoContext.settle]
    · have hguard : (contexts i).guard = false ↔ i < k := h.guard i hi
      rw [Function.update_of_ne hk, hguard]
      omega
  · by_cases hk : i = k
    · rw [hk, Function.update_self]
      rfl
    · rw [Function.update_of_ne hk] at hs ⊢
      exact h.stopped i hi hs

theorem Guarded.halt {k : Nat} (h : Guarded contexts (.stopping k) size) :
    Guarded (Function.update contexts k {contexts k with stopped := true}) (.stopping (k + 1)) size := by
  have hreleased : ∀ i < size, (contexts i).guard = false := fun i hi => (h.guard i hi).2 trivial
  have hguard : ∀ i < size, (Function.update contexts k {contexts k with stopped := true} i).guard = false := by
    intro i hi
    by_cases hk : i = k
    · rw [hk, Function.update_self]
      exact hreleased k (hk ▸ hi)
    · rw [Function.update_of_ne hk]
      exact hreleased i hi
  refine ⟨fun i hi => ⟨fun _ => trivial, fun _ => hguard i hi⟩, fun i hi _ => hguard i hi, fun i hi hh => ?_⟩
  by_cases hk : i = k
  · rw [hk, Function.update_self]
  · have hlt : i < k + 1 := hh
    rw [Function.update_of_ne hk]
    exact h.halted i hi (show i < k by omega)

end

/-! ### Steps of the threads -/

section
variable {workers : Context → Worker} {run : RunPoint} {size : Nat}

theorem Threaded.started_lt (h : Threaded workers run size) {i : Context} (hborn : workers i ≠ .unborn) : i < size := by
  by_contra hout
  exact hborn (h.outside i (Nat.le_of_not_lt hout))

/-- A thread that has been started stays so. -/
theorem Threaded.update (h : Threaded workers run size) {i : Context} {worker : Worker} (hborn : workers i ≠ .unborn)
    (hnot : worker ≠ .unborn) (hlast : workers i ≠ .finished) : Threaded (Function.update workers i worker) run size := by
  have hin : i < size := h.started_lt hborn
  refine ⟨fun j hj => ?_, fun j hj => ?_, fun j hj hjoined => ?_⟩
  · by_cases hji : j = i
    · rw [hji, Function.update_self, ← h.started i hin]
      exact iff_of_true hnot hborn
    · rw [Function.update_of_ne hji]
      exact h.started j hj
  · rw [Function.update_of_ne (Nat.ne_of_gt (Nat.lt_of_lt_of_le hin hj))]
    exact h.outside j hj
  · by_cases hji : j = i
    · rw [hji] at hjoined
      exact absurd (h.joined i hin hjoined) hlast
    · rw [Function.update_of_ne hji]
      exact h.joined j hj hjoined

theorem Threaded.start {k : Nat} (h : Threaded workers (.starting k) size) (hk : k < size) :
    Threaded (Function.update workers k .running) (.starting (k + 1)) size := by
  refine ⟨fun j hj => ?_, fun j hj => ?_, fun _ _ hjoined => absurd hjoined id⟩
  · show _ ↔ j < k + 1
    by_cases hjk : j = k
    · rw [hjk, Function.update_self]
      simp
    · have hstarted : workers j ≠ .unborn ↔ j < k := h.started j hj
      rw [Function.update_of_ne hjk, hstarted]
      omega
  · rw [Function.update_of_ne (Nat.ne_of_gt (Nat.lt_of_lt_of_le hk hj))]
    exact h.outside j hj

end

theorem finished_of_update {workers : Context → Worker} {i j : Context} {worker : Worker} (hnot : worker ≠ .finished)
    (h : Function.update workers i worker j = .finished) : workers j = .finished := by
  by_cases hji : j = i
  · rw [hji, Function.update_self] at h
    exact absurd h hnot
  · rwa [Function.update_of_ne hji] at h

/-- Every step keeps the invariant. -/
theorem moves_inv {s t : PoolState} {l : PoolStep} (hs : Inv s) (h : Moves s l t) : Inv t := by
  obtain ⟨hguarded, hthreaded, hfinished⟩ := hs
  have hlasts : ∀ {contexts : Context → IoContext}, (∀ j, Lasts (s.contexts j) (contexts j)) →
      Guarded contexts s.stop s.size ∧ ∀ i < s.size, s.workers i = .finished → (contexts i).guard = false := by
    intro contexts hl
    exact ⟨hguarded.lasts hl, fun i hi hf => (hl i).guard.trans (hfinished i hi hf)⟩
  cases h with
  | initiate i hrun hi =>
    obtain ⟨hg, hf⟩ := hlasts (Lasts.update (i := i) (.work _ ((s.contexts i).work + 1)))
    exact ⟨hg, hthreaded, hf⟩
  | begin hrun =>
    rw [hrun] at hthreaded
    have hstarted : ∀ j < s.size, s.workers j ≠ .unborn ↔ j < 0 := fun j hj =>
      (hthreaded.started j hj).trans (iff_of_false id (Nat.not_lt_zero j))
    exact ⟨hguarded, ⟨hstarted, hthreaded.outside, fun _ _ hj => absurd hj id⟩, hfinished⟩
  | start i hrun hi =>
    rw [hrun] at hthreaded
    refine ⟨hguarded, hthreaded.start hi, fun j hj hf => ?_⟩
    have hne : j ≠ i := by
      intro he
      have hrunning : Function.update s.workers i .running j = .finished := hf
      rw [he, Function.update_self] at hrunning
      cases hrunning
    exact hfinished j hj ((Function.update_of_ne hne ..).symm.trans hf)
  | started i hrun hi =>
    rw [hrun] at hthreaded
    have hborn : ∀ j < s.size, s.workers j ≠ .unborn ↔ True := fun j hj =>
      (hthreaded.started j hj).trans (iff_true_intro (Nat.lt_of_lt_of_le hj hi))
    exact ⟨hguarded, ⟨hborn, hthreaded.outside, fun j _ hj => absurd hj (Nat.not_lt_zero j)⟩, hfinished⟩
  | join i hrun hi hlast =>
    rw [hrun] at hthreaded
    refine ⟨hguarded, ⟨hthreaded.started, hthreaded.outside, fun j hj hjoined => ?_⟩, hfinished⟩
    have hle : j < i + 1 := hjoined
    by_cases hji : j = i
    · rw [hji]
      exact hlast
    · exact hthreaded.joined j hj (Nat.lt_of_le_of_ne (Nat.le_of_lt_succ hle) hji)
  | joined i hrun hi =>
    rw [hrun] at hthreaded
    exact ⟨hguarded, ⟨hthreaded.started, hthreaded.outside,
      fun j hj _ => hthreaded.joined j hj (Nat.lt_of_lt_of_le hj hi)⟩, hfinished⟩
  | beginStop hstop =>
    rw [hstop] at hguarded
    refine ⟨⟨fun j hj => ?_, hguarded.stopped, hguarded.halted⟩, hthreaded, hfinished⟩
    exact (hguarded.guard j hj).trans (iff_of_false id (Nat.not_lt_zero j))
  | reset i hstop hi =>
    rw [hstop] at hguarded
    refine ⟨hguarded.reset, hthreaded, fun j hj hf => ?_⟩
    show (Function.update s.contexts i {s.contexts i with guard := false}.settle j).guard = false
    by_cases hji : j = i
    · rw [hji, Function.update_self]
      rfl
    · rw [Function.update_of_ne hji]
      exact hfinished j hj hf
  | cleared i hstop hi =>
    rw [hstop] at hguarded
    refine ⟨⟨fun j hj => ?_, hguarded.stopped, fun j _ hh => absurd hh (Nat.not_lt_zero j)⟩, hthreaded, hfinished⟩
    exact (hguarded.guard j hj).trans (iff_true_intro (Nat.lt_of_lt_of_le hj hi))
  | halt i hstop hi =>
    rw [hstop] at hguarded
    exact ⟨hguarded.halt, hthreaded, fun j hj _ => (hguarded.halt.guard j hj).2 trivial⟩
  | halted i hstop hi =>
    rw [hstop] at hguarded
    exact ⟨⟨hguarded.guard, hguarded.stopped, fun j hj _ => hguarded.halted j hj (Nat.lt_of_lt_of_le hj hi)⟩,
      hthreaded, hfinished⟩
  | take i hrunning hstopped hwork =>
    refine ⟨hguarded, hthreaded.update (by simp [hrunning]) (by simp) (by simp [hrunning]), fun j hj hf => ?_⟩
    exact hfinished j hj (finished_of_update (by simp) hf)
  | finish i hhandling =>
    obtain ⟨hg, hf⟩ := hlasts (Lasts.update (i := i) (.settle _ ((s.contexts i).work - 1)))
    exact ⟨hg, hthreaded.update (by simp [hhandling]) (by simp) (by simp [hhandling]),
      fun j hj hlast => hf j hj (finished_of_update (by simp) hlast)⟩
  | leave i hrunning hstopped =>
    refine ⟨hguarded, hthreaded.update (by simp [hrunning]) (by simp) (by simp [hrunning]), fun j hj hf => ?_⟩
    by_cases hji : j = i
    · rw [hji] at hj ⊢
      exact hguarded.stopped i hj hstopped
    · exact hfinished j hj ((Function.update_of_ne hji ..).symm.trans hf)
  | post i j hhandling hj =>
    obtain ⟨hg, hf⟩ := hlasts (Lasts.update (i := j) (.work _ ((s.contexts j).work + 1)))
    exact ⟨hg, hthreaded, hf⟩

theorem step_inv {s t : PoolState} {l : PoolStep} (hs : Inv s) (h : poolMachine.step s l = some t) : Inv t :=
  moves_inv hs (moves h)

theorem reachable_inv {poolSize : Nat} {s : PoolState} (h : poolMachine.Reaches (.create poolSize) s) : Inv s :=
  h.invariant (fun _ _ _ => step_inv) (create_inv poolSize)

theorem size_step {s t : PoolState} {l : PoolStep} (h : poolMachine.step s l = some t) : t.size = s.size :=
  congrArg (fun pool : IOContextPool => pool.ioContexts.length) (moves h).pool

theorem size_reachable {poolSize : Nat} {s : PoolState} (h : poolMachine.Reaches (.create poolSize) s) :
    s.size = poolSize := by
  have hcreate : (PoolState.create poolSize).size = poolSize := List.length_range
  exact h.invariant (fun _ _ _ hs hl => (size_step hl).trans hs) hcreate

end ExploreCpp.Lifetime
