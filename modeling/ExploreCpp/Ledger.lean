import Mathlib.Data.List.Nodup
import Mathlib.Logic.Function.Basic

/-! Ledgers of outstanding work.

A ledger lists who has something outstanding and what; `Balanced` says that it agrees
with what each party itself believes to have outstanding, and lists nobody twice. -/
namespace ExploreCpp.Ledger
variable {κ ω : Type}

structure Balanced (ledger : List (κ × ω)) (owes : κ → Option ω) : Prop where
  entry : ∀ k w, (k, w) ∈ ledger ↔ owes k = some w
  single : (ledger.map Prod.fst).Nodup

theorem balanced_empty : Balanced ([] : List (κ × ω)) fun _ => none :=
  ⟨fun _ _ => by simp, List.nodup_nil⟩

namespace Balanced
variable {ledger : List (κ × ω)} {owes : κ → Option ω}

theorem not_listed {k : κ} (b : Balanced ledger owes) (hk : owes k = none) :
    k ∉ ledger.map Prod.fst := by
  intro hm
  obtain ⟨⟨k', w⟩, he, rfl⟩ := List.mem_map.mp hm
  rw [(b.entry k' w).mp he] at hk
  cases hk

variable [DecidableEq κ]

/-- Looking a party up in the ledger is asking it. -/
theorem lookup (b : Balanced ledger owes) (k : κ) : ledger.lookup k = owes k := by
  cases hl : ledger.lookup k with
  | some w =>
    obtain ⟨l₁, l₂, he, -⟩ := List.lookup_eq_some_iff.mp hl
    exact ((b.entry k w).mp (by simp [he])).symm
  | none =>
    cases ho : owes k with
    | none => rfl
    | some w =>
      have hne := List.lookup_eq_none_iff.mp hl (k, w) ((b.entry k w).mpr ho)
      simp at hne

/-- One more thing is outstanding. -/
theorem enter (b : Balanced ledger owes) {k : κ} (w : ω) (hk : owes k = none) :
    Balanced (ledger ++ [(k, w)]) (Function.update owes k (some w)) := by
  have hnot := b.not_listed hk
  constructor
  · intro k' w'
    rw [List.mem_append, b.entry, List.mem_singleton, Prod.mk.injEq, Function.update_apply]
    split
    · rename_i he
      rw [he, hk]
      simp [eq_comm]
    · rename_i he
      simp [he]
  · rw [List.map_append, List.nodup_append]
    refine ⟨b.single, List.nodup_singleton _, ?_⟩
    intro x hx y hy he
    obtain rfl : y = k := by simpa using hy
    exact hnot (he ▸ hx)

theorem eraseP_entry (h : (ledger.map Prod.fst).Nodup) (k k' : κ) (w : ω) :
    (k', w) ∈ ledger.eraseP (·.1 == k) ↔ k' ≠ k ∧ (k', w) ∈ ledger := by
  induction ledger with
  | nil => simp
  | cons e rest ih =>
    obtain ⟨hnot, hrest⟩ := List.nodup_cons.mp h
    by_cases he : e.1 = k
    · rw [List.eraseP_cons_of_pos (by simpa using he), List.mem_cons]
      constructor
      · intro hm
        refine ⟨?_, .inr hm⟩
        rintro rfl
        exact hnot (List.mem_map.mpr ⟨_, hm, he.symm⟩)
      · rintro ⟨hne, rfl | hm⟩
        · exact absurd he hne
        · exact hm
    · rw [List.eraseP_cons_of_neg (by simpa using he), List.mem_cons, List.mem_cons, ih hrest]
      constructor
      · rintro (rfl | ⟨hne, hm⟩)
        · exact ⟨he, .inl rfl⟩
        · exact ⟨hne, .inr hm⟩
      · rintro ⟨hne, rfl | hm⟩
        · exact .inl rfl
        · exact .inr ⟨hne, hm⟩

/-- What was outstanding is settled. -/
theorem settle (b : Balanced ledger owes) (k : κ) :
    Balanced (ledger.eraseP (·.1 == k)) (Function.update owes k none) := by
  constructor
  · intro k' w
    rw [eraseP_entry b.single, b.entry, Function.update_apply]
    split
    · simp_all
    · simp_all
  · exact b.single.sublist (List.eraseP_sublist.map Prod.fst)

end Balanced

end ExploreCpp.Ledger
