import Mathlib.Data.List.AList
import Mathlib.Data.List.Induction

/-! Entries that are written over one another.

Of several entries for one key the last counts: `overwrite` is what a list of entries makes
of a partial map, and an `AList` they are inserted into has it for its lookups. -/
namespace ExploreCpp

variable {κ ν : Type} [DecidableEq κ]

def overwrite (f : κ → Option ν) (entries : List (κ × ν)) : κ → Option ν :=
  entries.foldl (fun f e => Function.update f e.1 (some e.2)) f

/-- What the last entry for each key says. -/
abbrev lastEntry (entries : List (κ × ν)) : κ → Option ν := overwrite (fun _ => none) entries

theorem overwrite_append (f : κ → Option ν) (a b : List (κ × ν)) :
    overwrite f (a ++ b) = overwrite (overwrite f a) b := List.foldl_append

/-- With one entry for each key, the entries are what is said. -/
theorem lastEntry_eq_some {entries : List (κ × ν)} (h : (entries.map Prod.fst).Nodup) {k : κ} {v : ν} :
    lastEntry entries k = some v ↔ (k, v) ∈ entries := by
  induction entries using List.reverseRecOn with
  | nil => simp [overwrite]
  | append_singleton entries e ih =>
    rw [List.map_append, List.nodup_append] at h
    obtain ⟨hentries, -, hne⟩ := h
    have hlast : lastEntry (entries ++ [e]) = Function.update (lastEntry entries) e.1 (some e.2) :=
      overwrite_append ..
    rw [hlast, List.mem_append, List.mem_singleton]
    by_cases hk : k = e.1
    · have habsent : (k, v) ∉ entries := by
        intro hm
        exact hne k (List.mem_map_of_mem hm) e.1 (List.mem_singleton_self _) hk
      rw [hk, Function.update_self]
      rw [hk] at habsent
      simp only [habsent, false_or, Option.some.injEq]
      constructor
      · intro hv
        rw [← hv]
      · intro he
        rw [← he]
    · have hne : (k, v) ≠ e := fun he => hk (by rw [← he])
      rw [Function.update_of_ne hk, ih hentries]
      simp [hne]

section
variable {β : Type}

/-- Insertion into a list of entries, as an `AList`. -/
def insertAll (values : AList fun _ : κ => β) (entries : List (κ × β)) : AList fun _ : κ => β :=
  entries.foldl (fun values e => values.insert e.1 e.2) values

theorem lookup_insertAll (values : AList fun _ : κ => β) (entries : List (κ × β)) :
    (fun k => (insertAll values entries).lookup k) = overwrite (fun k => values.lookup k) entries := by
  induction entries generalizing values with
  | nil => rfl
  | cons e entries ih =>
    have hinsert : (fun k => (values.insert e.1 e.2).lookup k) =
        Function.update (fun k => values.lookup k) e.1 (some e.2) := by
      funext k
      by_cases hk : k = e.1
      · rw [hk, Function.update_self, AList.lookup_insert]
      · rw [Function.update_of_ne hk, AList.lookup_insert_ne hk]
    show (fun k => (insertAll (values.insert e.1 e.2) entries).lookup k) = _
    rw [ih, hinsert]
    rfl

end

end ExploreCpp
