import ExploreCpp.Limits.ResourceLimit
import ExploreCpp.Server.PoolStop

/-! The `main` of `benchmark_mt.cpp`, from the raised limit to the one that is to be put back.

Only the destructor of the pool calls `stop`, and it does so behind `pool.run()`, which
waits for it (`benchmark_never_restores`). -/
namespace ExploreCpp.Lifetime

inductive MainPoint where
  | entry
  /-- With the right number of arguments. -/
  | checked
  /-- Behind `raise_resource_limits`. -/
  | raised
  /-- With the pool and the server, in `pool.run()`. -/
  | serving (pool : PoolState)
  /-- Behind `restore_resource_limits`, in the destructor of the pool. -/
  | destroying (pool : PoolState)
  | returned (code : Int)

structure Benchmark where
  process : Limits.Process
  point : MainPoint

inductive MainStep where
  | check (argc : Nat)
  | raise (get set : Bool)
  | construct (numThreads : Nat)
  /-- Of the threads, or of `main` in the pool. -/
  | pool (l : PoolStep)
  | restore (set : Bool)
  | leave

namespace Benchmark

def start (limit : Limits.RLimit) : Benchmark := ⟨.start limit, .entry⟩

/-- Without a context the constructor of the server is undefined. -/
def step (s : Benchmark) (l : MainStep) : Option Benchmark :=
  match s.point, l with
  | .entry, .check argc => some {s with point := if argc ≠ 2 then .returned (-1) else .checked}
  | .checked, .raise get set => some ⟨Limits.raiseResourceLimits get set s.process, .raised⟩
  | .raised, .construct numThreads =>
    if numThreads = 0 then none else some {s with point := .serving (.create numThreads)}
  | .serving pool, .pool l =>
    if l = .stop then none else (pool.step l).map fun pool => {s with point := .serving pool}
  | .serving pool, .restore set =>
    if pool.run = .after then some ⟨Limits.restoreResourceLimits set s.process, .destroying pool⟩ else none
  | .destroying pool, .pool .stop => pool.stepStop.map fun pool => {s with point := .destroying pool}
  | .destroying pool, .leave => if pool.stop = .after then some {s with point := .returned 0} else none
  | _, _ => none

end Benchmark

def benchmark : Machine Benchmark MainStep := ⟨Benchmark.step⟩

/-- How far `main` gets. -/
def Benchmark.Fits (limit : Limits.RLimit) (s : Benchmark) : Prop :=
  match s.point with
  | .entry | .checked => s.process = .start limit
  | .raised => ∃ get set, s.process = Limits.raiseResourceLimits get set (.start limit)
  | .serving pool => (∃ get set, s.process = Limits.raiseResourceLimits get set (.start limit)) ∧
    pool.stop = .before ∧ ∃ poolSize, 0 < poolSize ∧ poolMachine.Reaches (.create poolSize) pool
  | .destroying _ => False
  | .returned code => code = -1 ∧ s.process = .start limit

theorem stop_before_step {s t : PoolState} {l : PoolStep} (hl : l ≠ .stop) (h : poolMachine.step s l = some t) :
    t.stop = s.stop := by
  cases moves h with
  | beginStop => exact absurd rfl hl
  | reset => exact absurd rfl hl
  | cleared => exact absurd rfl hl
  | halt => exact absurd rfl hl
  | halted => exact absurd rfl hl
  | _ => rfl

/-- Without `stop` the pool goes on, so `main` does not get behind `pool.run()`. -/
theorem run_goes_on {poolSize : Nat} {pool : PoolState} (hpos : 0 < poolSize) (hstop : pool.stop = .before)
    (h : poolMachine.Reaches (.create poolSize) pool) : pool.run ≠ .after := by
  intro hafter
  have hreleased := (stop_ends_run h).1 hafter 0 hpos
  rw [hstop] at hreleased
  exact hreleased

theorem benchmark_step {limit : Limits.RLimit} {s t : Benchmark} {l : MainStep} (hs : s.Fits limit)
    (h : benchmark.step s l = some t) : t.Fits limit := by
  obtain ⟨process, point⟩ := s
  cases point with
  | entry =>
    cases l with
    | check argc =>
      obtain rfl := Option.some.inj h
      show Benchmark.Fits limit ⟨process, if argc ≠ 2 then .returned (-1) else .checked⟩
      by_cases hargc : argc ≠ 2
      · rw [if_pos hargc]
        exact ⟨rfl, hs⟩
      · rw [if_neg hargc]
        exact hs
    | _ => cases h
  | checked =>
    cases l with
    | raise get set =>
      obtain rfl := Option.some.inj h
      have hprocess : process = .start limit := hs
      rw [hprocess]
      exact ⟨get, set, rfl⟩
    | _ => cases h
  | raised =>
    cases l with
    | construct numThreads =>
      have hne : ¬ numThreads = 0 := by
        intro hzero
        simp [benchmark, Benchmark.step, hzero] at h
      have ht : t = ⟨process, .serving (.create numThreads)⟩ := by
        simpa [benchmark, Benchmark.step, hne, eq_comm] using h
      rw [ht]
      exact ⟨hs, rfl, numThreads, Nat.pos_of_ne_zero hne, .refl _⟩
    | _ => cases h
  | serving pool =>
    obtain ⟨hprocess, hstop, poolSize, hpos, hreaches⟩ := hs
    cases l with
    | pool l =>
      have hl : l ≠ .stop := by
        intro he
        simp [benchmark, Benchmark.step, he] at h
      obtain ⟨pool', hstep, ht⟩ : ∃ pool', pool.step l = some pool' ∧ ⟨process, .serving pool'⟩ = t := by
        simpa [benchmark, Benchmark.step, hl] using h
      rw [← ht]
      exact ⟨hprocess, (stop_before_step hl hstep).trans hstop, poolSize, hpos, hreaches.step hstep⟩
    | restore set =>
      have hnot := run_goes_on hpos hstop hreaches
      simp [benchmark, Benchmark.step, hnot] at h
    | _ => cases h
  | destroying pool => exact absurd hs id
  | returned code => cases h

/-- **The limits are not put back**: in every run of `main`, whatever the handlers do, it does
not get behind `pool.run()`. The limits stay as raising them has left them, and `main` returns
for a wrong number of arguments only, before it touches them. -/
theorem benchmark_never_restores {limit : Limits.RLimit} {s : Benchmark} (h : benchmark.Reaches (.start limit) s) :
    (∀ pool, s.point ≠ .destroying pool) ∧
      (∀ code, s.point = .returned code → code = -1 ∧ s.process = .start limit) ∧
      (s.process = .start limit ∨ ∃ get set, s.process = Limits.raiseResourceLimits get set (.start limit)) := by
  have hfits : s.Fits limit := h.invariant (fun _ _ _ => benchmark_step) rfl
  obtain ⟨process, point⟩ := s
  cases point with
  | entry => exact ⟨by simp, by simp, .inl hfits⟩
  | checked => exact ⟨by simp, by simp, .inl hfits⟩
  | raised => exact ⟨by simp, by simp, .inr hfits⟩
  | serving pool => exact ⟨by simp, by simp, .inr hfits.1⟩
  | destroying pool => exact absurd hfits id
  | returned code =>
    refine ⟨by simp, fun other he => ?_, .inl hfits.2⟩
    obtain rfl := MainPoint.returned.inj he
    exact hfits

/-- Two contexts, of which one has finished a handler. -/
def servingTwo : List MainStep :=
  [.check 2, .raise true true, .construct 2, .pool (.initiate 0), .pool .run, .pool .run, .pool .run, .pool .run,
    .pool (.take 0), .pool (.finish 0)]

theorem benchmark_never_restores_serving :
    ∃ s, benchmark.run (.start ⟨1024, 524288⟩) servingTwo = some s ∧ s.process.limit = ⟨65536, 524288⟩ ∧
      (s.process = .start ⟨1024, 524288⟩ ∨
        ∃ get set, s.process = Limits.raiseResourceLimits get set (.start ⟨1024, 524288⟩)) :=
  ⟨_, rfl, by decide, (benchmark_never_restores ⟨servingTwo, rfl⟩).2.2⟩

end ExploreCpp.Lifetime
