import Mathlib.Logic.Function.Basic

/-! Texts written from the back.

A `Writer` fills cells from the cursor downwards, one symbol at a time. Any number of
`put`s is a text put as a whole (`puts`), and what the cells hold afterwards depends on
that text and on where the writer started only (`puts_cells`). -/
namespace ExploreCpp

structure Writer (α : Type) where
  cells : Int → α
  cursor : Int
  /-- The places written so far, the latest first. -/
  written : List Int

namespace Writer
variable {α : Type}

def put (w : Writer α) (a : α) : Writer α where
  cells := Function.update w.cells (w.cursor - 1) a
  cursor := w.cursor - 1
  written := (w.cursor - 1) :: w.written

/-- The symbols of the text are put, the last one first. -/
def puts (w : Writer α) (text : List α) : Writer α := text.foldr (fun a v => v.put a) w

@[simp] theorem puts_nil (w : Writer α) : w.puts [] = w := rfl

@[simp] theorem puts_cons (w : Writer α) (a : α) (text : List α) :
    w.puts (a :: text) = (w.puts text).put a := rfl

theorem puts_append (w : Writer α) (xs ys : List α) : w.puts (xs ++ ys) = (w.puts ys).puts xs :=
  List.foldr_append ..

theorem puts_cursor (w : Writer α) (text : List α) :
    (w.puts text).cursor = w.cursor - text.length := by
  induction text with
  | nil => simp
  | cons a text ih =>
    simp only [puts_cons, put, ih, List.length_cons]
    omega

/-- Every place below the cursor is written once, and in order. -/
theorem puts_written (w : Writer α) (text : List α) :
    (w.puts text).written =
      (List.range text.length).map (fun k : Nat => w.cursor - text.length + k) ++ w.written := by
  induction text with
  | nil => simp
  | cons a text ih =>
    simp only [puts_cons, put, ih, puts_cursor, List.length_cons, List.range_succ_eq_map, List.map_cons,
      List.map_map, List.cons_append, List.cons.injEq, List.append_cancel_right_eq]
    constructor
    · omega
    · apply List.map_congr_left
      intro k _
      simp only [Function.comp_apply]
      omega

/-- What the cells hold. -/
theorem puts_cells (w : Writer α) (text : List α) (i : Int) :
    (w.puts text).cells i = if i < w.cursor - text.length then w.cells i
      else (text[(i - (w.cursor - text.length)).toNat]?).getD (w.cells i) := by
  induction text with
  | nil => simp
  | cons a text ih =>
    simp only [puts_cons, put, puts_cursor, Function.update_apply, List.length_cons, ih]
    rcases Int.lt_trichotomy i (w.cursor - text.length - 1) with hlt | heq | hgt
    · rw [if_neg (by omega), if_pos (by omega), if_pos (by omega)]
    · have hindex : (i - (w.cursor - ((text.length + 1 : Nat) : Int))).toNat = 0 := by omega
      rw [if_pos heq, if_neg (by omega), hindex]
      rfl
    · have hindex : (i - (w.cursor - ((text.length + 1 : Nat) : Int))).toNat =
          (i - (w.cursor - text.length)).toNat + 1 := by omega
      rw [if_neg (by omega), if_neg (by omega), if_neg (by omega), hindex, List.getElem?_cons_succ]

/-- The other cells are left alone. -/
theorem puts_outside (w : Writer α) (text : List α) {i : Int} (h : i < w.cursor - text.length ∨ w.cursor ≤ i) :
    (w.puts text).cells i = w.cells i := by
  rw [puts_cells]
  rcases h with hlow | hhigh
  · rw [if_pos hlow]
  · rw [if_neg (by omega), List.getElem?_eq_none (by omega), Option.getD_none]

/-- A text may be written again over the end of another one. -/
theorem puts_again (w : Writer α) (xs ys zs : List α) (written : List Int) (h : ys.length = zs.length) :
    (puts ⟨(w.puts (xs ++ ys)).cells, w.cursor, written⟩ zs).cells = (w.puts (xs ++ zs)).cells := by
  funext i
  simp only [puts_cells, List.length_append, h]
  by_cases hlow : i < w.cursor - zs.length
  · rw [if_pos hlow]
    by_cases hout : i < w.cursor - ((xs.length + zs.length : Nat) : Int)
    · rw [if_pos hout, if_pos hout]
    · have hindex : (i - (w.cursor - ((xs.length + zs.length : Nat) : Int))).toNat < xs.length := by omega
      rw [if_neg hout, if_neg hout, List.getElem?_append_left hindex, List.getElem?_append_left hindex]
  · have hindex : (i - (w.cursor - ((xs.length + zs.length : Nat) : Int))).toNat =
        xs.length + (i - (w.cursor - zs.length)).toNat := by omega
    have hin : ¬ i < w.cursor - ((xs.length + zs.length : Nat) : Int) := by omega
    rw [if_neg hlow, if_neg hin, if_neg hin, hindex, List.getElem?_append_right (Nat.le_add_right ..),
      List.getElem?_append_right (Nat.le_add_right ..), Nat.add_sub_cancel_left]
    by_cases hend : (i - (w.cursor - zs.length)).toNat < zs.length
    · rw [List.getElem?_eq_getElem hend]
      rfl
    · rw [List.getElem?_eq_none (by omega), List.getElem?_eq_none (by omega)]
      rfl

end Writer

end ExploreCpp
