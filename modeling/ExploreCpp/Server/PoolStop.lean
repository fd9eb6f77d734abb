import ExploreCpp.Server.PoolRun

/-! How `IOContextPool::run` comes to its end.

It waits for threads whose guards only `stop` releases; and once `stop` is through, every
step but those that post work leaves fewer (`left_step`), and there is one until `run` has
returned (`step_left`). -/
namespace ExploreCpp.Lifetime
open Server (Context)

/-- It joins threads of contexts whose guard is released. -/
theorem Inv.released {s : PoolState} (h : Inv s) {i : Context} (hi : i < s.size) (hjoined : s.run.Joined i) :
    s.stop.Released i :=
  (h.guarded.guard i hi).1 (h.finished i hi (h.threaded.joined i hi hjoined))

/-- Steps of the pool itself, without those that post work. -/
def PoolStep.counted : PoolStep → Bool
  | .initiate _ => false
  | .post _ _ => false
  | _ => true

def Worker.left : Worker → Nat
  | .unborn | .running => 1
  | .handling => 2
  | .finished => 0

/-- The steps the threads before `n` have left. -/
def threadsLeft (workers : Context → Worker) : Nat → Nat
  | 0 => 0
  | n + 1 => threadsLeft workers n + (workers n).left

def runLeft (size : Nat) : RunPoint → Nat
  | .before => 2 * size + 3
  | .starting i => (size - i) + (size + 2)
  | .joining i => (size - i) + 1
  | .after => 0

def left (s : PoolState) : Nat := runLeft s.size s.run + threadsLeft s.workers s.size

theorem threadsLeft_outside {workers : Context → Worker} {i n : Nat} (h : n ≤ i) (worker : Worker) :
    threadsLeft (Function.update workers i worker) n = threadsLeft workers n := by
  induction n with
  | zero => rfl
  | succ n ih =>
    have hne : n ≠ i := by omega
    rw [threadsLeft, threadsLeft, ih (by omega), Function.update_of_ne hne]

theorem threadsLeft_update (workers : Context → Worker) {i n : Nat} (h : i < n) (worker : Worker) :
    threadsLeft (Function.update workers i worker) n + (workers i).left = threadsLeft workers n + worker.left := by
  induction n with
  | zero => exact absurd h (Nat.not_lt_zero i)
  | succ n ih =>
    rw [threadsLeft, threadsLeft]
    by_cases hi : i = n
    · rw [hi, threadsLeft_outside (Nat.le_refl n), Function.update_self]
      omega
    · have hne : n ≠ i := fun he => hi he.symm
      have hrest := ih (by omega)
      rw [Function.update_of_ne hne]
      omega

theorem threadsLeft_le (workers : Context → Worker) (n : Nat) : threadsLeft workers n ≤ 2 * n := by
  induction n with
  | zero => exact Nat.le_refl 0
  | succ n ih =>
    have hone : (workers n).left ≤ 2 := by cases workers n <;> decide
    rw [threadsLeft]
    omega

theorem left_le (s : PoolState) : left s ≤ 4 * s.size + 3 := by
  have hthreads := threadsLeft_le s.workers s.size
  have hrun : runLeft s.size s.run ≤ 2 * s.size + 3 := by
    cases s.run <;> simp only [runLeft] <;> omega
  rw [left]
  omega

/-- A step of `run` itself. -/
theorem left_run {s : PoolState} {point : RunPoint} (h : runLeft s.size point + 1 ≤ runLeft s.size s.run) :
    left {s with run := point} + 1 ≤ left s := by
  show runLeft s.size point + threadsLeft s.workers s.size + 1 ≤ runLeft s.size s.run + threadsLeft s.workers s.size
  omega

/-- A step of a thread. -/
theorem left_worker {s : PoolState} {i : Context} {worker : Worker} (hi : i < s.size)
    (h : worker.left + 1 ≤ (s.workers i).left) : left (s.setWorker i worker) + 1 ≤ left s := by
  have hthreads := threadsLeft_update s.workers hi worker
  show runLeft s.size s.run + threadsLeft (Function.update s.workers i worker) s.size + 1 ≤
    runLeft s.size s.run + threadsLeft s.workers s.size
  omega

/-- Once the contexts are stopped, a step leaves fewer. -/
theorem left_step {s t : PoolState} {l : PoolStep} (hs : Inv s ∧ s.stop = .after)
    (h : poolMachine.step s l = some t) : left t + (if l.counted then 1 else 0) ≤ left s := by
  obtain ⟨hinv, hstop⟩ := hs
  have hin : ∀ i, s.workers i ≠ .unborn → i < s.size := fun i hborn => hinv.threaded.started_lt hborn
  cases moves h with
  | initiate i hrun hi => exact Nat.le_refl _
  | begin hrun =>
    apply left_run
    rw [hrun]
    simp only [runLeft]
    omega
  | start i hrun hi =>
    have hunborn : s.workers i = .unborn := by
      by_contra hborn
      have hstarted := (hinv.threaded.started i hi).1 hborn
      rw [hrun] at hstarted
      exact Nat.lt_irrefl i hstarted
    have hthreads := threadsLeft_update s.workers hi .running
    rw [hunborn] at hthreads
    show runLeft s.size (.starting (i + 1)) + threadsLeft (Function.update s.workers i .running) s.size + 1 ≤ left s
    rw [left, hrun]
    simp only [runLeft, Worker.left] at hthreads ⊢
    omega
  | started i hrun hi =>
    apply left_run
    rw [hrun]
    simp only [runLeft]
    omega
  | join i hrun hi hlast =>
    apply left_run
    rw [hrun]
    simp only [runLeft]
    omega
  | joined i hrun hi =>
    apply left_run
    rw [hrun]
    simp only [runLeft]
    omega
  | beginStop hbefore => cases hstop.symm.trans hbefore
  | reset i hreset hi => cases hstop.symm.trans hreset
  | cleared i hreset hi => cases hstop.symm.trans hreset
  | halt i hhalt hi => cases hstop.symm.trans hhalt
  | halted i hhalt hi => cases hstop.symm.trans hhalt
  | take i hrunning hnot hwork =>
    have hstopped := hinv.guarded.halted i (hin i (by simp [hrunning])) (by rw [hstop]; trivial)
    cases hnot.symm.trans hstopped
  | finish i hhandling =>
    apply left_worker (hin i (by simp [hhandling]))
    rw [hhandling]
    exact Nat.le_refl _
  | leave i hrunning _ =>
    apply left_worker (hin i (by simp [hrunning]))
    rw [hrunning]
    exact Nat.le_refl _
  | post i j hhandling hj => exact Nat.le_refl _

/-- And there is one until `run` returns. -/
theorem step_left {s : PoolState} (hs : Inv s) (hstop : s.stop = .after) (hrun : s.run ≠ .after) :
    ∃ l t, l.counted = true ∧ poolMachine.step s l = some t := by
  have hstopped : ∀ i < s.size, (s.contexts i).stopped = true := fun i hi =>
    hs.guarded.halted i hi (by rw [hstop]; trivial)
  cases hpoint : s.run with
  | before => exact ⟨.run, {s with run := .starting 0}, rfl, by simp [poolMachine, PoolState.step, PoolState.stepRun, hpoint]⟩
  | starting i =>
    by_cases hi : i < s.size
    · exact ⟨.run, {s.setWorker i .running with run := .starting (i + 1)}, rfl,
        by simp [poolMachine, PoolState.step, PoolState.stepRun, hpoint, hi]⟩
    · exact ⟨.run, {s with run := .joining 0}, rfl,
        by simp [poolMachine, PoolState.step, PoolState.stepRun, hpoint, hi]⟩
  | joining i =>
    by_cases hi : i < s.size
    · cases hworker : s.workers i with
      | unborn =>
        have hborn := (hs.threaded.started i hi).2 (by rw [hpoint]; trivial)
        exact absurd hworker hborn
      | running =>
        exact ⟨.leave i, s.setWorker i .finished, rfl, by simp [poolMachine, PoolState.step, hworker, hstopped i hi]⟩
      | handling => exact ⟨.finish i, _, rfl, if_pos hworker⟩
      | finished =>
        exact ⟨.run, {s with run := .joining (i + 1)}, rfl,
          by simp [poolMachine, PoolState.step, PoolState.stepRun, hpoint, hi, hworker]⟩
    · exact ⟨.run, {s with run := .after}, rfl,
        by simp [poolMachine, PoolState.step, PoolState.stepRun, hpoint, hi]⟩
  | after => exact absurd hpoint hrun

theorem stop_after_step {s t : PoolState} {l : PoolStep} (hs : s.stop = .after)
    (h : poolMachine.step s l = some t) : t.stop = .after := by
  cases moves h with
  | beginStop hbefore => cases hs.symm.trans hbefore
  | reset i hreset hi => cases hs.symm.trans hreset
  | cleared i hreset hi => cases hs.symm.trans hreset
  | halt i hhalt hi => cases hs.symm.trans hhalt
  | halted i hhalt hi => cases hs.symm.trans hhalt
  | _ => exact hs

/-- **`stop` lets `run` return, and nothing else does**: whatever work is posted, `run` does
not return before `stop` has released every guard; and once `stop` is through, the threads
take at most four steps each and three more, in whatever order, until it has returned. -/
theorem stop_ends_run {poolSize : Nat} {s : PoolState} (h : poolMachine.Reaches (.create poolSize) s) :
    (s.run = .after → ∀ i < poolSize, s.stop.Released i) ∧
      (s.stop = .after → ∀ labels t, poolMachine.run s labels = some t →
        labels.countP PoolStep.counted ≤ 4 * poolSize + 3 ∧
        (t.run ≠ .after → ∃ l u, l.counted = true ∧ poolMachine.step t l = some u)) := by
  have hinv := reachable_inv h
  have hsize := size_reachable h
  constructor
  · intro hafter i hi
    exact hinv.released (hsize ▸ hi) (by rw [hafter]; trivial)
  · intro hstop labels t ht
    have hkeep : ∀ (s : PoolState) l t, Inv s ∧ s.stop = .after → poolMachine.step s l = some t →
        Inv t ∧ t.stop = .after := fun s l t hs hl => ⟨step_inv hs.1 hl, stop_after_step hs.2 hl⟩
    have hlast := Machine.run_invariant hkeep ⟨hinv, hstop⟩ ht
    have hcount := Machine.run_counted hkeep (fun _ _ _ => left_step) ⟨hinv, hstop⟩ ht
    have hbound := left_le s
    rw [hsize] at hbound
    exact ⟨by omega, fun hrun => step_left hlast.1 hlast.2 hrun⟩

/-- A pool of one context that is stopped while it is in a handler. -/
def stoppedInHandler : List PoolStep :=
  [.initiate 0, .run, .run, .run, .take 0, .stop, .stop, .stop, .stop, .stop]

theorem stop_ends_run_handling :
    ∃ s, poolMachine.run (.create 1) stoppedInHandler = some s ∧ s.workers 0 = .handling ∧
      ∀ labels t, poolMachine.run s labels = some t → labels.countP PoolStep.counted ≤ 4 * 1 + 3 ∧
        (t.run ≠ .after → ∃ l u, l.counted = true ∧ poolMachine.step t l = some u) :=
  ⟨_, rfl, rfl, (stop_ends_run ⟨stoppedInHandler, rfl⟩).2 rfl⟩

end ExploreCpp.Lifetime
