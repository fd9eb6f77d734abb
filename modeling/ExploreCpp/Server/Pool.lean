/-! `IOContextPool`: the contexts and the cursor that hands them out in turn.

`get_io_context` reads the cursor, advances it and wraps it, without a lock; the two
halves are kept apart (`draw` and `wrap`), so that calls on two threads can overlap. -/
namespace ExploreCpp.Server

/-- A context, by its place in `io_contexts_`. -/
abbrev Context := Nat

structure IOContextPool where
  ioContexts : List Context
  nextIoContext : Nat
deriving DecidableEq, Repr

namespace IOContextPool

def create (poolSize : Nat) : IOContextPool := ⟨List.range poolSize, 0⟩

/-- `*io_contexts_[next_io_context_++]`, which is undefined out of range. -/
def draw (p : IOContextPool) : Option (Context × IOContextPool) :=
  match p.ioContexts[p.nextIoContext]? with
  | some ctx => some (ctx, {p with nextIoContext := p.nextIoContext + 1})
  | none => none

def wrap (p : IOContextPool) : IOContextPool :=
  if p.nextIoContext = p.ioContexts.length then {p with nextIoContext := 0} else p

def getIoContext (p : IOContextPool) : Option (Context × IOContextPool) :=
  match p.draw with
  | some (ctx, p') => some (ctx, p'.wrap)
  | none => none

/-- The cursor is inside the pool. -/
def InRange (p : IOContextPool) : Prop := p.nextIoContext < p.ioContexts.length

theorem create_inRange {n : Nat} (hn : 0 < n) : (create n).InRange := by
  simpa [InRange, create] using hn

theorem draw_some {p : IOContextPool} (h : p.InRange) :
    p.draw = some (p.ioContexts.get ⟨p.nextIoContext, h⟩,
      {p with nextIoContext := p.nextIoContext + 1}) := by
  rw [draw, List.getElem?_eq_getElem h]
  rfl

@[simp] theorem wrap_ioContexts (p : IOContextPool) : p.wrap.ioContexts = p.ioContexts := by
  unfold wrap
  split <;> rfl

/-- Between the two halves of a call the cursor may be at the end of the pool. -/
theorem wrap_inRange {p : IOContextPool} (h : p.nextIoContext ≤ p.ioContexts.length)
    (hpos : 0 < p.ioContexts.length) : p.wrap.InRange := by
  by_cases he : p.nextIoContext = p.ioContexts.length
  · simpa [wrap, he, InRange] using hpos
  · simp only [wrap, if_neg he, InRange]
    omega

end IOContextPool

end ExploreCpp.Server
