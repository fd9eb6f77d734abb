import Mathlib.Data.List.Perm.Basic

/-! Asynchronous operations and their callbacks, on one thread.

An operation is initiated, completes at some time, and its callback is called some time
after that, never by the initiation itself. What is `outstanding` has been initiated and not
been called back. Completing or cancelling an operation leaves that alone, up to the order. -/
namespace ExploreCpp

structure Callbacks (Op Result : Type) where
  pending : List Op
  ready : List (Op × Result)

namespace Callbacks
variable {Op Result : Type}

def outstanding (l : Callbacks Op Result) : List Op := l.pending ++ l.ready.map Prod.fst

/-- With what it completes at once, if it does. -/
def initiate (l : Callbacks Op Result) (op : Op) (immediate : Option Result) : Callbacks Op Result :=
  match immediate with
  | none => {l with pending := l.pending ++ [op]}
  | some result => {l with ready := l.ready ++ [(op, result)]}

def complete [DecidableEq Op] (l : Callbacks Op Result) (op : Op) (result : Result) : Callbacks Op Result :=
  ⟨l.pending.erase op, l.ready ++ [(op, result)]⟩

def cancel (l : Callbacks Op Result) (p : Op → Bool) (result : Result) : Callbacks Op Result :=
  ⟨l.pending.filter fun op => !p op, l.ready ++ (l.pending.filter p).map fun op => (op, result)⟩

/-- Its callback is called. -/
def take [DecidableEq Op] [DecidableEq Result] (l : Callbacks Op Result) (op : Op) (result : Result) :
    Callbacks Op Result :=
  {l with ready := l.ready.erase (op, result)}

theorem outstanding_initiate (l : Callbacks Op Result) (op : Op) (immediate : Option Result) :
    (l.initiate op immediate).outstanding.Perm (op :: l.outstanding) := by
  cases immediate with
  | none =>
    show ((l.pending ++ [op]) ++ l.ready.map Prod.fst).Perm _
    rw [List.append_assoc]
    exact List.perm_middle
  | some result =>
    show (l.pending ++ (l.ready ++ [(op, result)]).map Prod.fst).Perm _
    rw [List.map_append, ← List.append_assoc]
    exact List.perm_append_singleton op _

theorem pending_initiate {l : Callbacks Op Result} {op : Op} {immediate : Option Result} {o : Op}
    (h : o ∈ (l.initiate op immediate).pending) : o ∈ l.pending ∨ o = op := by
  cases immediate with
  | none => exact (List.mem_append.1 h).imp_right List.mem_singleton.1
  | some result => exact .inl h

theorem outstanding_complete [DecidableEq Op] {l : Callbacks Op Result} {op : Op} (h : op ∈ l.pending)
    (result : Result) : (l.complete op result).outstanding.Perm l.outstanding := by
  have hlast : (l.complete op result).outstanding.Perm (op :: (l.pending.erase op ++ l.ready.map Prod.fst)) := by
    show (l.pending.erase op ++ (l.ready ++ [(op, result)]).map Prod.fst).Perm _
    rw [List.map_append, ← List.append_assoc]
    exact List.perm_append_singleton op _
  exact hlast.trans ((List.perm_cons_erase h).symm.append_right _)

theorem outstanding_cancel (l : Callbacks Op Result) (p : Op → Bool) (result : Result) :
    (l.cancel p result).outstanding.Perm l.outstanding := by
  have hcancelled : ((l.pending.filter p).map fun op => (op, result)).map Prod.fst = l.pending.filter p := by
    rw [List.map_map]
    exact List.map_id _
  have hpending : (l.pending.filter (fun op => !p op) ++ l.pending.filter p).Perm l.pending :=
    List.perm_append_comm.trans (List.filter_append_perm p l.pending)
  show (l.pending.filter (fun op => !p op) ++ (l.ready ++ (l.pending.filter p).map fun op => (op, result)).map
    Prod.fst).Perm (l.pending ++ l.ready.map Prod.fst)
  rw [List.map_append, hcancelled]
  have hswap : (l.pending.filter (fun op => !p op) ++ (l.ready.map Prod.fst ++ l.pending.filter p)).Perm
      ((l.pending.filter (fun op => !p op) ++ l.pending.filter p) ++ l.ready.map Prod.fst) := by
    rw [List.append_assoc]
    exact List.perm_append_comm.append_left _
  exact hswap.trans (hpending.append_right _)

theorem outstanding_take [DecidableEq Op] [DecidableEq Result] {l : Callbacks Op Result} {op : Op} {result : Result}
    (h : (op, result) ∈ l.ready) : l.outstanding.Perm (op :: (l.take op result).outstanding) := by
  have hready : (l.ready.map Prod.fst).Perm (op :: (l.ready.erase (op, result)).map Prod.fst) :=
    (List.perm_cons_erase h).map Prod.fst
  exact (hready.append_left l.pending).trans List.perm_middle

/-! ### Callbacks that are to be called -/

section
variable {l : Callbacks Op Result} {q : Op × Result → Bool}

/-- Of the operations outstanding. -/
theorem countP_le [DecidableEq Op] {op : Op} (h : ∀ a, q a = true → a.1 = op) :
    l.ready.countP q + l.pending.count op ≤ l.outstanding.count op := by
  have hmap : (l.ready.map Prod.fst).count op = l.ready.countP fun a => a.1 == op := by
    rw [List.count, List.countP_map]
    rfl
  have hready : l.ready.countP q ≤ (l.ready.map Prod.fst).count op := by
    rw [hmap]
    exact List.countP_mono_left fun a _ ha => by simpa using h a ha
  rw [outstanding, List.count_append, Nat.add_comm]
  exact Nat.add_le_add_left hready _

end

end Callbacks

end ExploreCpp
