import Mathlib.Data.List.Forall2
import Mathlib.Data.List.Lex
import Mathlib.Order.Lattice

/-! Codes of a fixed width.

A `Code` writes values as texts of one length that compare as the values do. Of several
codes, one after the other, the same is true with the values taken as a list: a row of
columns is read back whole (`unrow_row`), and rows compare as the lists (`row_lt_iff`). -/
namespace ExploreCpp

structure Code (α V : Type) [LinearOrder α] [LinearOrder V] where
  width : Nat
  fits : V → Prop
  encode : V → List α
  decode : List α → V
  encode_length : ∀ v, (encode v).length = width
  decode_encode : ∀ v, fits v → decode (encode v) = v
  encode_lt : ∀ v w, fits v → fits w → (encode v < encode w ↔ v < w)

namespace Code
variable {α V : Type} [LinearOrder α] [LinearOrder V]

/-- Texts of one length decide, if they are not the same. -/
theorem append_lt_append_iff {xs ys us vs : List α} (h : xs.length = ys.length) :
    xs ++ us < ys ++ vs ↔ xs < ys ∨ (xs = ys ∧ us < vs) := by
  induction xs generalizing ys with
  | nil =>
    obtain rfl : ys = [] := List.length_eq_zero_iff.1 h.symm
    simp
  | cons x xs ih =>
    cases ys with
    | nil => cases h
    | cons y ys =>
      have htail := ih (Nat.succ.inj h)
      rw [List.cons_append, List.cons_append, List.cons_lt_cons_iff, List.cons_lt_cons_iff, htail,
        List.cons.injEq]
      tauto

theorem encode_inj (code : Code α V) {v w : V} (hv : code.fits v) (hw : code.fits w) :
    code.encode v = code.encode w ↔ v = w := by
  constructor
  · intro h
    rw [← code.decode_encode v hv, h, code.decode_encode w hw]
  · exact congrArg code.encode

/-- The same code behind a symbol. -/
def after (c : α) (code : Code α V) : Code α V where
  width := code.width + 1
  fits := code.fits
  encode v := c :: code.encode v
  decode text := code.decode text.tail
  encode_length v := congrArg Nat.succ (code.encode_length v)
  decode_encode v hv := code.decode_encode v hv
  encode_lt v w hv hw := by
    rw [List.cons_lt_cons_iff, code.encode_lt v w hv hw]
    exact ⟨fun h => h.elim (fun hc => absurd hc (lt_irrefl c)) And.right, fun h => .inr ⟨rfl, h⟩⟩

/-! ### Rows -/

def row : List (Code α V) → List V → List α
  | code :: codes, v :: vs => code.encode v ++ row codes vs
  | _, _ => []

def unrow : List (Code α V) → List α → List V
  | [], _ => []
  | code :: codes, text => code.decode (text.take code.width) :: unrow codes (text.drop code.width)

/-- Every value fits its column. -/
abbrev Fits (codes : List (Code α V)) (vs : List V) : Prop := List.Forall₂ Code.fits codes vs

section Row
variable {codes : List (Code α V)} {vs ws : List V}

theorem unrow_row (h : Fits codes vs) : unrow codes (row codes vs) = vs := by
  induction h with
  | nil => rfl
  | @cons code v codes vs hv hvs ih =>
    have hlength := code.encode_length v
    rw [row, unrow, List.take_left' hlength, List.drop_left' hlength, ih, code.decode_encode v hv]

theorem row_lt_iff (h : Fits codes vs) (h' : Fits codes ws) : row codes vs < row codes ws ↔ vs < ws := by
  induction h generalizing ws with
  | nil =>
    cases h'
    simp [row]
  | @cons code v codes vs hv hvs ih =>
    cases h' with
    | @cons _ w _ ws hw hws =>
      have hlength : (code.encode v).length = (code.encode w).length := by
        rw [code.encode_length, code.encode_length]
      rw [row, row, append_lt_append_iff hlength, code.encode_lt v w hv hw, code.encode_inj hv hw, ih hws,
        List.cons_lt_cons_iff]

end Row

end Code

end ExploreCpp
