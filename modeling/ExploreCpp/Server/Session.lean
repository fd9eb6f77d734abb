import ExploreCpp.Machine
import Mathlib.Data.List.Induction

/-! The life of one socket, as the server means it to be.

It is accepted or refused, then read from and written to in turn until a read fails;
whether a write fails makes no difference. `Past` says what the acts that led to a
state have in common. -/
namespace ExploreCpp.Server

inductive Kind where
  | accept
  | read
  | write
deriving DecidableEq, Repr

/-- An operation on the socket is initiated, or it completes, with success or not. -/
inductive Act where
  | initiate (kind : Kind)
  | finish (kind : Kind) (ok : Bool)
deriving DecidableEq, Repr

inductive Session where
  | fresh
  | accepting
  | refused
  | connected
  | reading
  | closed
  | received
  | writing
deriving DecidableEq, Repr

namespace Session

def next : Session → Act → Option Session
  | fresh, .initiate .accept => some accepting
  | accepting, .finish .accept true => some connected
  | accepting, .finish .accept false => some refused
  | connected, .initiate .read => some reading
  | reading, .finish .read true => some received
  | reading, .finish .read false => some closed
  | received, .initiate .write => some writing
  | writing, .finish .write _ => some connected
  | _, _ => none

def machine : Machine Session Act := ⟨next⟩

/-- `acts` is what a socket has gone through when it is in state `st`. -/
def Follows (acts : List Act) (st : Session) : Prop := machine.run fresh acts = some st

theorem follows_nil : Follows [] fresh := rfl

theorem Follows.snoc {acts : List Act} {st st' : Session} {a : Act} (h : Follows acts st)
    (hn : st.next a = some st') : Follows (acts ++ [a]) st' := by
  rw [Follows, Machine.run_append, h]
  show ((st.next a).bind fun t => some t) = some st'
  rw [hn]
  rfl

theorem Follows.unique {acts : List Act} {st st' : Session} (h : Follows acts st)
    (h' : Follows acts st') : st = st' := Option.some.inj (h.symm.trans h')

theorem follows_snoc {acts : List Act} {st' : Session} {a : Act} (h : Follows (acts ++ [a]) st') :
    ∃ st, Follows acts st ∧ st.next a = some st' := by
  rw [Follows, Machine.run_append] at h
  obtain ⟨st, hst, hn⟩ := Option.bind_eq_some_iff.mp h
  refine ⟨st, hst, ?_⟩
  obtain ⟨t, ht, hr⟩ := Machine.run_cons hn
  cases hr
  exact ht

/-! ### What has happened so far -/

/-- The socket has been accepted, and so has a coroutine that serves it. -/
def served : Session → Bool
  | connected | reading | closed | received | writing => true
  | fresh | accepting | refused => false

/-- A read has been initiated. -/
def opened : Session → Bool
  | reading | closed | received | writing => true
  | fresh | accepting | refused | connected => false

/-- A write is owed for the last successful read. -/
def owesWrite : Session → Bool
  | received => true
  | _ => false

/-- The next operation to initiate is a read. -/
def readsNext : Session → Bool
  | reading | closed | received => false
  | fresh | accepting | refused | connected | writing => true

/-- Read, write, read, write, …: `n` of them. -/
def alternate : Nat → List Kind
  | 0 => []
  | n + 1 => alternate n ++ [if n % 2 = 0 then .read else .write]

/-- The reads and writes that have been initiated, in order. -/
def transfers (acts : List Act) : List Kind :=
  acts.filterMap fun
    | .initiate .read => some .read
    | .initiate .write => some .write
    | _ => none

structure Past (acts : List Act) (st : Session) : Prop where
  accepted : .finish .accept true ∈ acts ↔ st.served = true
  refused : .finish .accept false ∈ acts ↔ st = .refused
  ended : acts.count (.finish .read false) = if st = .closed then 1 else 0
  opened : .initiate .read ∈ acts → st.served = true
  opening : st.opened = true → .initiate .read ∈ acts
  turns : ∃ n, transfers acts = alternate n ∧ (n % 2 = 0 ↔ st.readsNext = true)
  balance : acts.count (.finish .read true) =
    acts.count (.initiate .write) + if st.owesWrite then 1 else 0

theorem past_nil : Past [] fresh := by
  refine ⟨?_, ?_, ?_, ?_, ?_, ⟨0, rfl, ?_⟩, rfl⟩ <;> decide

/-- What one act changes. -/
theorem next_changes {st st' : Session} {a : Act} (hn : st.next a = some st') :
    (st'.served = true ↔ st.served = true ∨ .finish .accept true = a) ∧
    (st' = .refused ↔ st = .refused ∨ .finish .accept false = a) ∧
    (st.served = true ∨ .initiate .read = a → st'.served = true) ∧
    (st'.opened = true → st.opened = true ∨ .initiate .read = a) := by
  unfold next at hn
  split at hn <;> cases hn <;> simp [served, opened]

/-- Whose turn it is after an act. -/
theorem next_turn {st st' : Session} {a : Act} (hn : st.next a = some st') :
    (transfers [a] = [] ∧ st'.readsNext = st.readsNext) ∨
    (transfers [a] = [.read] ∧ st.readsNext = true ∧ st'.readsNext = false) ∨
    (transfers [a] = [.write] ∧ st.readsNext = false ∧ st'.readsNext = true) := by
  unfold next at hn
  split at hn <;> cases hn <;> simp [transfers, readsNext]

/-- What an act adds to the successful reads and to the writes they ask for. -/
theorem next_balance {st st' : Session} {a : Act} (hn : st.next a = some st') :
    [a].count (.finish .read true) + (if st.owesWrite then 1 else 0) =
      [a].count (.initiate .write) + if st'.owesWrite then 1 else 0 := by
  unfold next at hn
  split at hn <;> cases hn <;> simp [owesWrite]

/-- A read fails once, and nothing follows. -/
theorem next_ended {st st' : Session} {a : Act} (hn : st.next a = some st') :
    (if st = .closed then 1 else 0) + [a].count (.finish .read false) =
      if st' = .closed then 1 else 0 := by
  unfold next at hn
  split at hn <;> cases hn <;> simp

theorem Past.snoc {acts : List Act} {st st' : Session} {a : Act} (h : Past acts st)
    (hn : st.next a = some st') : Past (acts ++ [a]) st' := by
  obtain ⟨hserved, hrefused, hkept, hopened⟩ := next_changes hn
  have hmem : ∀ b, b ∈ acts ++ [a] ↔ b ∈ acts ∨ b = a := by simp
  refine ⟨?_, ?_, ?_, ?_, ?_, ?_, ?_⟩
  · rw [hmem, h.accepted, hserved]
  · rw [hmem, h.refused, hrefused]
  · rw [List.count_append, h.ended, next_ended hn]
  · rw [hmem]
    exact fun hb => hkept (hb.imp_left h.opened)
  · rw [hmem]
    exact fun ho => (hopened ho).imp_left h.opening
  · obtain ⟨n, hn', hparity⟩ := h.turns
    have happend : transfers (acts ++ [a]) = alternate n ++ transfers [a] := by
      rw [← hn']
      exact List.filterMap_append
    rcases next_turn hn with ⟨ht, hst⟩ | ⟨ht, hr, hr'⟩ | ⟨ht, hr, hr'⟩
    · refine ⟨n, ?_, ?_⟩
      · rw [happend, ht, List.append_nil]
      · rw [hst]
        exact hparity
    · have heven : n % 2 = 0 := hparity.mpr hr
      refine ⟨n + 1, ?_, ?_⟩
      · rw [happend, ht, alternate, if_pos heven]
      · rw [hr']
        simp only [Bool.false_eq_true, iff_false]
        omega
    · have hodd : ¬ n % 2 = 0 := fun he => by simp [hparity.mp he] at hr
      refine ⟨n + 1, ?_, ?_⟩
      · rw [happend, ht, alternate, if_neg hodd]
      · rw [hr']
        simp only [iff_true]
        omega
  · have hb := next_balance hn
    have hbal := h.balance
    rw [List.count_append, List.count_append]
    omega

/-- **The life of a socket**, read off the acts that led to its state. -/
theorem Follows.past {acts : List Act} {st : Session} (h : Follows acts st) : Past acts st := by
  induction acts using List.reverseRecOn generalizing st with
  | nil =>
    cases h
    exact past_nil
  | append_singleton acts a ih =>
    obtain ⟨st₀, h₀, hn⟩ := follows_snoc h
    exact (ih h₀).snoc hn

end Session

end ExploreCpp.Server
