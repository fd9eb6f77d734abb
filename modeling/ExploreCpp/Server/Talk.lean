import ExploreCpp.Server.Program
import ExploreCpp.Task.Preservation

/-! The conversations of the server's root frames.

`listen` and every `process` are roots, and what they call are the coroutines of one
operation each, one at a time. A `Talk` says where a root stands with its operation:
resting, or with the `Task` of one operation, from the call to the result. `Moves`
lists what one step does to the talk of one root; all others are left alone. -/
namespace ExploreCpp.Server
open ExploreCpp.Runtime

abbrev ServerFrame := Frame Point Value Op Thread

/-- Between two operations, in `listen` or `process`. -/
def Point.rests : Point → Bool
  | callback _ | deliver .. | awaiting _ | awaited .. => false
  | _ => true

/-- The operation called at this point. -/
def Point.calls : Point → Option Op
  | listenAccept socket => some (.accept socket)
  | processLoop socket => some (.read socket)
  | processBranch socket result => if result.error ≠ 0 then none else some (.write socket)
  | _ => none

/-- Where `co_return` is reached: an accept or a read has failed. -/
def Point.fails : Point → Bool
  | listenBranch _ ec => ec.error ≠ 0
  | processBranch _ result => result.error ≠ 0
  | _ => false

/-- In `listen`, not in `process`. -/
def Point.listens : Point → Bool
  | awaiting (.accept _) | awaited (.accept _) _ => true
  | listenLoop | listenWrap _ | listenSocket _ | listenAccept _ | listenBranch ..
  | listenRemote .. | outOfRange => true
  | _ => false

/-- Where the caller goes on with the result of an operation. -/
def Op.next : Op → Value → Point
  | accept socket, ec => .listenBranch socket ec
  | read socket, result => .processBranch socket result
  | write socket, _ => .processLoop socket

inductive Talk where
  | resting (p : Point) (t : Thread)
  | created (op : Op) (g : Handle) (t : Thread)
  | started (op : Op) (g : Handle) (t : Thread)
  | outstanding (op : Op) (g : Handle)
  | completed (op : Op) (g : Handle) (v : Value) (t : Thread)
  | returned (op : Op) (g : Handle) (v : Value) (t : Thread)
  | answered (op : Op) (g : Handle) (v : Value) (t : Thread)
  | gone (p : Point)
deriving DecidableEq, Repr

def Talk.callee : Talk → Option Handle
  | created _ g _ | started _ g _ | outstanding _ g => some g
  | completed _ g _ _ | returned _ g _ _ | answered _ g _ _ => some g
  | resting .. | gone _ => none

/-- The root `f` calls `g` for `op`. -/
structure Calls (F : Handle → ServerFrame) (f g : Handle) (caller callee : Point)
    (status calleeStatus : Status Op Thread) : Prop where
  root : (F f).parent = none
  body : (F f).body = caller
  tasks : (F f).tasks = [⟨some g⟩]
  status : (F f).status = status
  owner : (F g).parent = some f
  calleeBody : (F g).body = callee
  calleeTasks : (F g).tasks = []
  calleeStatus : (F g).status = calleeStatus

structure Rests (F : Handle → ServerFrame) (f : Handle) (p : Point) (t : Thread) : Prop where
  root : (F f).parent = none
  body : (F f).body = p
  rests : p.rests = true
  tasks : (F f).tasks = []
  status : (F f).status = .running t ∨ ((F f).status = .nested t ∧ p = .listenLoop) ∨
    ((F f).status = .leaving t ∧ p.fails = true)

structure Gone (F : Handle → ServerFrame) (f : Handle) (p : Point) : Prop where
  root : (F f).parent = none
  body : (F f).body = p
  fails : p.fails = true
  tasks : (F f).tasks = []
  status : (F f).status = .destroyed

/-- The root `f` stands there. -/
inductive Talks (F : Handle → ServerFrame) (f : Handle) : Talk → Prop
  | resting {p t} (h : Rests F f p t) : Talks F f (.resting p t)
  | created {op g t} (h : Calls F f g (.awaiting op) (.callback op) (.running t) .initial) :
    Talks F f (.created op g t)
  | started {op g t} (h : Calls F f g (.awaiting op) (.callback op) (.awaiting g) (.running t)) :
    Talks F f (.started op g t)
  | outstanding {op g} (h : Calls F f g (.awaiting op) (.callback op) (.awaiting g) (.leaf op)) :
    Talks F f (.outstanding op g)
  | completed {op g v t}
    (h : Calls F f g (.awaiting op) (.deliver op v) (.awaiting g) (.running t)) :
    Talks F f (.completed op g v t)
  | returned {op g v t}
    (h : Calls F f g (.awaiting op) (.deliver op v) (.awaiting g) (.leaving t)) :
    Talks F f (.returned op g v t)
  | answered {op g v t} (h : Calls F f g (.awaited op v) (.deliver op v) (.running t) .final) :
    Talks F f (.answered op g v t)
  | gone {p} (h : Gone F f p) : Talks F f (.gone p)

section Talks
variable {F F' : Handle → ServerFrame} {f g g' : Handle}

theorem Calls.unique {c c' k k' : Point} {s s' t t' : Status Op Thread} (h : Calls F f g c k s t)
    (h' : Calls F f g' c' k' s' t') : g = g' ∧ c = c' ∧ k = k' ∧ s = s' ∧ t = t' := by
  obtain rfl : g = g' := by simpa using h.tasks.symm.trans h'.tasks
  exact ⟨rfl, h.body.symm.trans h'.body, h.calleeBody.symm.trans h'.calleeBody,
    h.status.symm.trans h'.status, h.calleeStatus.symm.trans h'.calleeStatus⟩

theorem Rests.unique {p p' : Point} {t t' : Thread} (h : Rests F f p t) (h' : Rests F f p' t') :
    p = p' ∧ t = t' := by
  refine ⟨h.body.symm.trans h'.body, ?_⟩
  rcases h.status with hs | ⟨hs, -⟩ | ⟨hs, -⟩ <;> rcases h'.status with hs' | ⟨hs', -⟩ | ⟨hs', -⟩ <;>
    cases hs.symm.trans hs' <;> rfl

theorem Rests.not_calls {p c k : Point} {t : Thread} {s s' : Status Op Thread} (h : Rests F f p t)
    (h' : Calls F f g c k s s') : False := by
  have := h.tasks.symm.trans h'.tasks
  cases this

theorem Gone.not_calls {p c k : Point} {s s' : Status Op Thread} (h : Gone F f p)
    (h' : Calls F f g c k s s') : False := by
  have := h.tasks.symm.trans h'.tasks
  cases this

theorem Gone.not_rests {p p' : Point} {t : Thread} (h : Gone F f p) (h' : Rests F f p' t) : False := by
  rcases h'.status with hs | ⟨hs, -⟩ | ⟨hs, -⟩ <;> rw [h.status] at hs <;> cases hs

theorem Talks.unique {a b : Talk} (ha : Talks F f a) (hb : Talks F f b) : a = b := by
  cases ha with
  | resting h =>
    cases hb with
    | resting h' =>
      obtain ⟨rfl, rfl⟩ := h.unique h'
      rfl
    | gone h' => exact (h'.not_rests h).elim
    | _ h' => exact (h.not_calls h').elim
  | gone h =>
    cases hb with
    | resting h' => exact (h.not_rests h').elim
    | gone h' => rw [← h.body, ← h'.body]
    | _ h' => exact (h.not_calls h').elim
  | _ h =>
    cases hb with
    | resting h' => exact (h'.not_calls h).elim
    | gone h' => exact (h'.not_calls h).elim
    | _ h' =>
      obtain ⟨rfl, hc, hk, hs, ht⟩ := h.unique h'
      clear h h'
      simp_all

theorem Talks.root {talk : Talk} (h : Talks F f talk) : (F f).parent = none := by
  cases h <;> rename_i h <;> exact h.root

theorem Talks.callee_owner {talk : Talk} (h : Talks F f talk) (hg : talk.callee = some g) :
    (F g).parent = some f := by
  cases h <;> cases hg <;> rename_i h <;> exact h.owner

/-- A talk depends on the frames of the two that have it. -/
theorem Talks.congr {talk : Talk} (h : Talks F f talk) (hf : F' f = F f)
    (hg : ∀ g, talk.callee = some g → F' g = F g) : Talks F' f talk := by
  have calls : ∀ {g c k s s'}, Calls F f g c k s s' → F' g = F g → Calls F' f g c k s s' := by
    rintro g c k s s' ⟨h1, h2, h3, h4, h5, h6, h7, h8⟩ hg
    exact ⟨by rw [hf, h1], by rw [hf, h2], by rw [hf, h3], by rw [hf, h4], by rw [hg, h5],
      by rw [hg, h6], by rw [hg, h7], by rw [hg, h8]⟩
  cases h with
  | resting h =>
    exact .resting ⟨by rw [hf, h.root], by rw [hf, h.body], h.rests, by rw [hf, h.tasks],
      by rw [hf]; exact h.status⟩
  | created h => exact .created (calls h (hg _ rfl))
  | started h => exact .started (calls h (hg _ rfl))
  | outstanding h => exact .outstanding (calls h (hg _ rfl))
  | completed h => exact .completed (calls h (hg _ rfl))
  | returned h => exact .returned (calls h (hg _ rfl))
  | answered h => exact .answered (calls h (hg _ rfl))
  | gone h =>
    exact .gone ⟨by rw [hf, h.root], by rw [hf, h.body], h.fails, by rw [hf, h.tasks],
      by rw [hf, h.status]⟩

end Talks

end ExploreCpp.Server
