import Mathlib.Data.List.Nodup
import Mathlib.Data.Int.CardIntervalMod

/-! Taking turns.

`n` items are taken in turn, beginning with the first. `rotation n a m` is what the calls
`a`, …, `a + m - 1` take. No window of calls favours an item by more than one. -/
namespace ExploreCpp

def rotation (n a m : Nat) : List Nat := (List.range m).map fun i => (a + i) % n

section Rotation
variable {n a m c d : Nat}

theorem rotation_succ (n a m : Nat) : rotation n a (m + 1) = a % n :: rotation n (a + 1) m := by
  rw [rotation, List.range_succ_eq_map, List.map_cons, List.map_map]
  congr 1
  apply List.map_congr_left
  intro i _
  simp only [Function.comp_apply, Nat.succ_eq_add_one]
  congr 1
  omega

theorem rotation_getElem? (h : c < m) : (rotation n a m)[c]? = some ((a + c) % n) := by
  simp [rotation, h]

/-- As long as all have not had a turn, nobody has had two. -/
theorem rotation_nodup (h : m ≤ n) : (rotation n a m).Nodup := by
  refine List.Nodup.map_on ?_ List.nodup_range
  intro i hi j hj he
  have hin : i < n := Nat.lt_of_lt_of_le (List.mem_range.1 hi) h
  have hjn : j < n := Nat.lt_of_lt_of_le (List.mem_range.1 hj) h
  have hmod : i ≡ j [MOD n] := Nat.ModEq.add_left_cancel' a he
  rw [← Nat.mod_eq_of_lt hin, ← Nat.mod_eq_of_lt hjn]
  exact hmod

/-- How many turns an item has had before a call. -/
def taken (n a c : Nat) : Nat := a / n + if c < a % n then 1 else 0

theorem taken_eq (hc : c < n) (a : Nat) : taken n a c = Nat.count (· ≡ c [MOD n]) a := by
  rw [Nat.count_modEq_card a (Nat.zero_lt_of_lt hc) c, Nat.mod_eq_of_lt hc]
  rfl

theorem taken_succ (hc : c < n) : taken n (a + 1) c = taken n a c + if a % n = c then 1 else 0 := by
  have hturn : a ≡ c [MOD n] ↔ a % n = c := by
    show a % n = c % n ↔ a % n = c
    rw [Nat.mod_eq_of_lt hc]
  rw [taken_eq hc, taken_eq hc, Nat.count_succ]
  simp only [hturn]

theorem rotation_count (hc : c < n) : taken n a c + (rotation n a m).count c = taken n (a + m) c := by
  induction m generalizing a with
  | zero => rfl
  | succ m ih =>
    have hrest := ih (a := a + 1)
    rw [taken_succ hc] at hrest
    rw [rotation_succ, List.count_cons, ← Nat.add_assoc a m 1, Nat.add_right_comm a m 1, ← hrest]
    simp only [beq_iff_eq]
    omega

/-- **No window of turns favours an item by more than one.** -/
theorem rotation_balanced (hc : c < n) (hd : d < n) :
    (rotation n a m).count c ≤ (rotation n a m).count d + 1 := by
  have hcountc := rotation_count (a := a) (m := m) hc
  have hcountd := rotation_count (a := a) (m := m) hd
  unfold taken at hcountc hcountd
  by_cases hwrap : a % n ≤ (a + m) % n
  · split_ifs at hcountc hcountd <;> omega
  · split_ifs at hcountc hcountd <;> omega

end Rotation

end ExploreCpp
