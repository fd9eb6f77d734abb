import Mathlib.Algebra.Group.Nat.Defs
import Mathlib.Order.Fin.Basic
import Mathlib.Order.MinMax

/-! `resource_limit.hpp`: the limit on open files, raised for the benchmark and put back.

The limit is a soft value under a hard one. `getrlimit` and `setrlimit` take the outcome
they are to have as an argument, and a call that fails leaves everything as it was. A
failed `getrlimit` is reported but not returned from: the function goes on with the
record it has, which is all zero at the start of the process. -/
namespace ExploreCpp.Limits

/-- `rlim_t` -/
abbrev Rlim := Fin (2 ^ 64)

def rlimInfinity : Rlim := ⊤

structure RLimit where
  rlimCur : Rlim
  rlimMax : Rlim
deriving DecidableEq, Repr

/-- The limits the system lets a process have. -/
def RLimit.Legal (limit : RLimit) : Prop := limit.rlimCur ≤ limit.rlimMax

instance (limit : RLimit) : Decidable limit.Legal := inferInstanceAs (Decidable (_ ≤ _))

structure Process where
  limit : RLimit
  initialFdLimit : RLimit
  /-- What `setrlimit` has been called with, whether it succeeded or not. -/
  asked : List RLimit
  log : List String
deriving DecidableEq, Repr

def Process.start (limit : RLimit) : Process := ⟨limit, ⟨0, 0⟩, [], []⟩

def Process.logError (p : Process) (text : String) : Process := {p with log := p.log ++ [text]}

/-- `getrlimit(RLIMIT_NOFILE, &initial_fd_limit)` -/
def getrlimit (succeeds : Bool) (p : Process) : Int × Process :=
  if succeeds then (0, {p with initialFdLimit := p.limit}) else (-1, p)

/-- `setrlimit(RLIMIT_NOFILE, &limit)` -/
def setrlimit (succeeds : Bool) (limit : RLimit) (p : Process) : Int × Process :=
  let p := {p with asked := p.asked ++ [limit]}
  if succeeds then (0, {p with limit := limit}) else (-1, p)

/-- `new_limit`, from `initial_fd_limit`. -/
def newLimit (initial : RLimit) : RLimit :=
  let new := {initial with rlimCur := max initial.rlimCur 65536}
  if new.rlimMax ≠ rlimInfinity then {new with rlimCur := min new.rlimCur new.rlimMax} else new

def raiseResourceLimits (get set : Bool) (p : Process) : Process :=
  let (result, p) := getrlimit get p
  let p := if result < 0 then p.logError "Failed to get file descriptor limit" else p
  let new := newLimit p.initialFdLimit
  if new.rlimCur ≠ p.initialFdLimit.rlimCur then
    let (result, p) := setrlimit set new p
    if result < 0 then p.logError "Failed to set file descriptor limit" else p
  else p

def restoreResourceLimits (set : Bool) (p : Process) : Process :=
  if p.initialFdLimit.rlimCur = 0 ∧ p.initialFdLimit.rlimMax = 0 then p
  else
    let (result, p) := setrlimit set p.initialFdLimit p
    if result < 0 then p.logError "Failed to set file descriptor limit" else p

/-! ### The new limit -/

/-- A bound raised as far as a cap allows, where the cap may be none. -/
theorem raised_eq {α : Type} [LinearOrder α] [OrderTop α] {soft hard : α} (wanted : α) (h : soft ≤ hard) :
    (if hard ≠ ⊤ then min (max soft wanted) hard else max soft wanted) = max soft (min wanted hard) := by
  by_cases htop : hard = ⊤
  · rw [if_neg (not_not.2 htop), htop, min_top_right]
  · rw [if_pos htop, min_max_distrib_right, min_eq_left h]

/-- The hard limit is kept. -/
theorem newLimit_fields (initial : RLimit) :
    newLimit initial = ⟨if initial.rlimMax ≠ ⊤ then min (max initial.rlimCur 65536) initial.rlimMax
      else max initial.rlimCur 65536, initial.rlimMax⟩ := by
  unfold newLimit rlimInfinity
  by_cases htop : initial.rlimMax = ⊤
  · simp only [htop, ne_eq, not_true_eq_false, if_false]
  · simp only [htop, ne_eq, not_false_eq_true, if_true]

theorem newLimit_eq {initial : RLimit} (h : initial.Legal) :
    newLimit initial = ⟨max initial.rlimCur (min 65536 initial.rlimMax), initial.rlimMax⟩ := by
  rw [newLimit_fields, raised_eq 65536 h]

theorem newLimit_legal {initial : RLimit} (h : initial.Legal) : (newLimit initial).Legal := by
  rw [newLimit_eq h]
  exact max_le h (min_le_right _ _)

/-- Nothing is raised from an all-zero record, whose hard limit is zero. -/
theorem newLimit_zero : newLimit ⟨0, 0⟩ = ⟨0, 0⟩ := by
  have hlegal : RLimit.Legal ⟨0, 0⟩ := le_refl (0 : Rlim)
  rw [newLimit_eq hlegal, min_eq_right (Fin.zero_le _), max_self]

theorem newLimit_same {initial : RLimit} (h : (newLimit initial).rlimCur = initial.rlimCur) :
    newLimit initial = initial := by
  rw [newLimit_fields] at h ⊢
  exact congrArg (RLimit.mk · initial.rlimMax) h

/-! ### What the functions leave -/

theorem newLimit_changed {initial : RLimit} :
    (newLimit initial).rlimCur ≠ initial.rlimCur ↔ newLimit initial ≠ initial :=
  not_congr ⟨newLimit_same, congrArg RLimit.rlimCur⟩

/-- The record `raise_resource_limits` goes on with, and what it does with it. -/
theorem raise_cases (get set : Bool) (p : Process) :
    let saved := if get then p.limit else p.initialFdLimit
    let raised := raiseResourceLimits get set p
    raised.initialFdLimit = saved ∧
    ((newLimit saved = saved ∧ raised.asked = p.asked ∧ raised.limit = p.limit) ∨
      (newLimit saved ≠ saved ∧ raised.asked = p.asked ++ [newLimit saved] ∧
        raised.limit = if set then newLimit saved else p.limit)) := by
  unfold raiseResourceLimits getrlimit setrlimit Process.logError
  cases get <;> simp only [newLimit_changed, Bool.false_eq_true, if_false, if_true]
  · by_cases hn : newLimit p.initialFdLimit = p.initialFdLimit
    · simp [hn]
    · cases set <;> simp [hn]
  · by_cases hn : newLimit p.limit = p.limit
    · simp [hn]
    · cases set <;> simp [hn]

/-- An all-zero record counts as none. -/
theorem restore_cases (set : Bool) (p : Process) :
    let restored := restoreResourceLimits set p
    (p.initialFdLimit = ⟨0, 0⟩ ∧ restored = p) ∨
    (p.initialFdLimit ≠ ⟨0, 0⟩ ∧ restored.asked = p.asked ++ [p.initialFdLimit] ∧
      restored.limit = if set then p.initialFdLimit else p.limit) := by
  have hzero : (p.initialFdLimit.rlimCur = 0 ∧ p.initialFdLimit.rlimMax = 0) ↔ p.initialFdLimit = ⟨0, 0⟩ := by
    cases p.initialFdLimit
    simp
  unfold restoreResourceLimits
  by_cases hn : p.initialFdLimit = ⟨0, 0⟩
  · exact .inl ⟨hn, if_pos (hzero.2 hn)⟩
  · rw [if_neg (mt hzero.1 hn)]
    cases set <;> exact .inr ⟨hn, rfl, rfl⟩

/-! ### Raising and putting back -/

/-- What raising the limit and putting it back are to keep. -/
structure Undone (initial : RLimit) (get set back : Bool) (raised restored : Process) : Prop where
  soft : initial.rlimCur ≤ raised.limit.rlimCur
  hard : raised.limit.rlimMax = initial.rlimMax
  asked : ∀ limit ∈ restored.asked, limit.rlimCur ≤ limit.rlimMax ∧ limit.rlimMax = initial.rlimMax
  /-- If the calls there are succeed. -/
  raises : get = true → set = true ∨ raised.asked = [] →
    raised.limit.rlimCur = max initial.rlimCur (min 65536 initial.rlimMax)
  /-- If there is no call, or it succeeds. -/
  restores : restored.asked = raised.asked ∨ back = true → restored.limit = initial

/-- With the record of a successful `getrlimit`. -/
theorem raise_read (initial : RLimit) (set : Bool) :
    let raised := raiseResourceLimits true set (.start initial)
    raised.initialFdLimit = initial ∧
    (raised.limit = initial ∨ raised.limit = newLimit initial) ∧
    (∀ limit ∈ raised.asked, limit = newLimit initial) ∧
    (set = true ∨ raised.asked = [] → raised.limit = newLimit initial) := by
  intro raised
  obtain ⟨hsaved, ⟨hn, hasked, hlimit⟩ | ⟨hn, hasked, hlimit⟩⟩ := raise_cases true set (.start initial)
  · have hnone : raised.asked = [] := hasked
    exact ⟨hsaved, .inl hlimit, fun limit hm => absurd (hnone ▸ hm) List.not_mem_nil,
      fun _ => hlimit.trans hn.symm⟩
  · have hone : raised.asked = [newLimit initial] := hasked
    refine ⟨hsaved, ?_, fun limit hm => List.mem_singleton.1 (hone ▸ hm), ?_⟩
    · cases set
      · exact .inl hlimit
      · exact .inr hlimit
    · rintro (rfl | hnone)
      · exact hlimit
      · cases hone.symm.trans hnone

/-- Without a record there is nothing to raise. -/
theorem raise_unread (initial : RLimit) (set : Bool) :
    let raised := raiseResourceLimits false set (.start initial)
    raised.initialFdLimit = ⟨0, 0⟩ ∧ raised.limit = initial ∧ raised.asked = [] := by
  obtain ⟨hsaved, ⟨-, hasked, hlimit⟩ | ⟨hn, -⟩⟩ := raise_cases false set (.start initial)
  · exact ⟨hsaved, hlimit, hasked⟩
  · exact absurd newLimit_zero hn

theorem raise_undone_unread (initial : RLimit) (set back : Bool) :
    let raised := raiseResourceLimits false set (.start initial)
    Undone initial false set back raised (restoreResourceLimits back raised) := by
  intro raised
  obtain ⟨hsaved, hlimit, hasked⟩ := raise_unread initial set
  have hrestored : restoreResourceLimits back raised = raised := by
    obtain ⟨-, hr⟩ | ⟨hn, -⟩ := restore_cases back raised
    · exact hr
    · exact absurd hsaved hn
  rw [hrestored]
  exact ⟨le_of_eq (congrArg RLimit.rlimCur hlimit).symm, congrArg RLimit.rlimMax hlimit,
    fun limit hm => absurd (hasked ▸ hm) List.not_mem_nil, nofun, fun _ => hlimit⟩

theorem raise_undone_read {initial : RLimit} (h : initial.Legal) (set back : Bool) :
    let raised := raiseResourceLimits true set (.start initial)
    Undone initial true set back raised (restoreResourceLimits back raised) := by
  intro raised
  obtain ⟨hsaved, hlimit, hasked, hraises⟩ := raise_read initial set
  have hnew := newLimit_eq h
  have hsoft : initial.rlimCur ≤ (newLimit initial).rlimCur := by
    rw [hnew]
    exact le_max_left _ _
  have hmax : (newLimit initial).rlimMax = initial.rlimMax := by rw [hnew]
  have hraised : initial.rlimCur ≤ raised.limit.rlimCur ∧ raised.limit.rlimMax = initial.rlimMax := by
    obtain hl | hl : raised.limit = initial ∨ raised.limit = newLimit initial := hlimit
    · rw [hl]
      exact ⟨le_rfl, rfl⟩
    · rw [hl]
      exact ⟨hsoft, hmax⟩
  have hrequest : ∀ limit, limit = newLimit initial ∨ limit = initial →
      limit.rlimCur ≤ limit.rlimMax ∧ limit.rlimMax = initial.rlimMax := by
    rintro limit (rfl | rfl)
    · exact ⟨newLimit_legal h, hmax⟩
    · exact ⟨h, rfl⟩
  have hraises' : set = true ∨ raised.asked = [] →
      raised.limit.rlimCur = max initial.rlimCur (min 65536 initial.rlimMax) := by
    intro hset
    rw [hraises hset, hnew]
  obtain ⟨hzero, hr⟩ | ⟨-, hback, hlast⟩ := restore_cases back raised
  · -- The initial pair is the mark for no record, and cannot have been raised.
    have hsame : newLimit initial = initial := by
      rw [hsaved.symm.trans hzero]
      exact newLimit_zero
    have hkept : raised.limit = initial := hlimit.elim id fun hl => hl.trans hsame
    rw [hr]
    exact ⟨hraised.1, hraised.2, fun limit hm => hrequest limit (.inl (hasked limit hm)),
      fun _ => hraises', fun _ => hkept⟩
  · rw [hsaved] at hback hlast
    refine ⟨hraised.1, hraised.2, fun limit hm => ?_, fun _ => hraises', ?_⟩
    · rw [hback, List.mem_append, List.mem_singleton] at hm
      exact hrequest limit (hm.imp_left (hasked limit))
    · rintro (hnone | rfl)
      · rw [hback] at hnone
        simp at hnone
      · exact hlast

/-- **The limit is raised as far as it may be and put back exactly**, whichever calls fail. -/
theorem raise_undone {initial : RLimit} (h : initial.Legal) (get set back : Bool) :
    let raised := raiseResourceLimits get set (.start initial)
    Undone initial get set back raised (restoreResourceLimits back raised) := by
  cases get with
  | false => exact raise_undone_unread initial set back
  | true => exact raise_undone_read h set back

/-- From a soft limit of 1024 and a hard one of 524288, if all calls succeed. -/
theorem raise_undone_usual :
    let raised := raiseResourceLimits true true (.start ⟨1024, 524288⟩)
    raised.limit = ⟨65536, 524288⟩ ∧
      Undone ⟨1024, 524288⟩ true true true raised (restoreResourceLimits true raised) :=
  ⟨by decide, raise_undone (by decide) true true true⟩

end ExploreCpp.Limits
