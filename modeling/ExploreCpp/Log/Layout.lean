import ExploreCpp.FixedWidth
import ExploreCpp.Log.Cache
import Mathlib.Data.Char
import Mathlib.Data.Int.Order.Basic

/-! The full timestamp as a row of columns.

Its fields have fixed widths and separators, so it is read back field by field, and
timestamps compare as the tuples of their fields (`full_timestamp`). -/
namespace ExploreCpp.Log

/-! ### Numbers of a fixed width -/

/-- The number a text of digits stands for. -/
def number (text : List Char) : Nat := text.foldl (fun n c => 10 * n + (c.toNat - '0'.toNat)) 0

theorem number_snoc (text : List Char) (c : Char) :
    number (text ++ [c]) = 10 * number text + (c.toNat - '0'.toNat) := by
  simp [number]

theorem digitChar_toNat : ∀ d < 10, (Nat.digitChar d).toNat - '0'.toNat = d := by decide

theorem digitChar_lt : ∀ d < 10, ∀ e < 10, (Nat.digitChar d < Nat.digitChar e ↔ d < e) := by decide

theorem number_fixed {n num : Nat} (h : num < 10 ^ n) : number (fixed n num) = num := by
  induction n generalizing num with
  | zero =>
    have hzero : num = 0 := by omega
    rw [hzero]
    rfl
  | succ n ih =>
    have hrest : num / 10 < 10 ^ n := by omega
    have hdigit : num % 10 < 10 := Nat.mod_lt num (by decide)
    rw [fixed, number_snoc, ih hrest, digitChar_toNat _ hdigit]
    omega

theorem fixed_lt {n a b : Nat} (ha : a < 10 ^ n) (hb : b < 10 ^ n) : fixed n a < fixed n b ↔ a < b := by
  induction n generalizing a b with
  | zero =>
    have hnot : ¬ a < b := by omega
    simp [fixed, hnot]
  | succ n ih =>
    have ha' : a / 10 < 10 ^ n := by omega
    have hb' : b / 10 < 10 ^ n := by omega
    have hlength : (fixed n (a / 10)).length = (fixed n (b / 10)).length := by
      rw [fixed_length, fixed_length]
    have heq : fixed n (a / 10) = fixed n (b / 10) ↔ a / 10 = b / 10 := by
      constructor
      · intro h
        rw [← number_fixed ha', h, number_fixed hb']
      · exact congrArg (fixed n)
    have hdigit : [Nat.digitChar (a % 10)] < [Nat.digitChar (b % 10)] ↔ a % 10 < b % 10 := by
      rw [List.cons_lt_cons_iff, digitChar_lt _ (Nat.mod_lt a (by decide)) _ (Nat.mod_lt b (by decide))]
      simp
    rw [fixed, fixed, Code.append_lt_append_iff hlength, ih ha' hb', heq, hdigit]
    omega

theorem uint64_eq {v : Int} (h : 0 ≤ v) (hlt : v < 2 ^ 64) : (uint64 v : Int) = v := by
  rw [uint64, Int.emod_eq_of_lt h hlt, Int.toNat_of_nonneg h]

theorem uint64_lt {n : Nat} {v : Int} (h : 0 ≤ v) (hlt : v < 2 ^ 64) (hn : v < 10 ^ n) :
    uint64 v < 10 ^ n := by
  rw [← uint64_eq h hlt] at hn
  exact_mod_cast hn

/-- A field as `to_int` writes it, without its separator. -/
def digits (n : Nat) : Code Char Int where
  width := n
  fits v := 0 ≤ v ∧ v < 2 ^ 64 ∧ v < 10 ^ n
  encode v := fixed n (uint64 v)
  decode text := number text
  encode_length v := fixed_length n (uint64 v)
  decode_encode v hv := by
    obtain ⟨hpos, hword, hn⟩ := hv
    rw [number_fixed (uint64_lt hpos hword hn), uint64_eq hpos hword]
  encode_lt v w hv hw := by
    obtain ⟨hpos, hword, hn⟩ := hv
    obtain ⟨hpos', hword', hn'⟩ := hw
    have hv' := uint64_eq hpos hword
    have hw' := uint64_eq hpos' hword'
    rw [fixed_lt (uint64_lt hpos hword hn) (uint64_lt hpos' hword' hn')]
    omega

/-! ### The columns of a timestamp -/

/-- `YYYY-MM-DD HH:MM:SS.mmm` -/
def columns : List (Code Char Int) :=
  [digits 4, (digits 2).after '-', (digits 2).after '-', (digits 2).after ' ', (digits 2).after ':',
    (digits 2).after ':', (digits 3).after '.']

/-- The fields in the order of the columns: the date, the time of day and the milliseconds. -/
def fields (localtime : Int → Tm) (now : Int) : List Int :=
  let tm := localtime (seconds now)
  [tm.tmYear + 1900, tm.tmMon + 1, tm.tmMday, tm.tmHour, tm.tmMin, tm.tmSec, milliseconds now]

/-- What `localtime` yields for the years 0 to 9999. -/
structure Tm.Legal (tm : Tm) : Prop where
  year : 0 ≤ tm.tmYear + 1900 ∧ tm.tmYear + 1900 ≤ 9999
  mon : 0 ≤ tm.tmMon ∧ tm.tmMon ≤ 11
  mday : 1 ≤ tm.tmMday ∧ tm.tmMday ≤ 31
  hour : 0 ≤ tm.tmHour ∧ tm.tmHour ≤ 23
  min : 0 ≤ tm.tmMin ∧ tm.tmMin ≤ 59
  sec : 0 ≤ tm.tmSec ∧ tm.tmSec ≤ 60

/-- They are counted from the beginning of the second. -/
theorem milliseconds_eq {now : Int} (h : 0 ≤ now) : milliseconds now = now / 1000000 % 1000 := by
  have hseconds : seconds now = now / 1000000000 := Int.tdiv_eq_ediv_of_nonneg h
  have hrest : 0 ≤ now - now / 1000000000 * 1000000000 := by omega
  rw [milliseconds, hseconds, Int.tdiv_eq_ediv_of_nonneg hrest]
  omega

theorem milliseconds_range {now : Int} (h : 0 ≤ now) :
    0 ≤ milliseconds now ∧ milliseconds now ≤ 999 := by
  rw [milliseconds_eq h]
  omega

theorem stamp_eq_row (localtime : Int → Tm) (now : Int) :
    stamp localtime now = Code.row columns (fields localtime now) := by
  simp [stamp, date, millis, field, columns, fields, Code.row, Code.after, digits]

theorem fields_fit {localtime : Int → Tm} {now : Int} (hlegal : (localtime (seconds now)).Legal)
    (hnow : 0 ≤ now) : Code.Fits columns (fields localtime now) := by
  obtain ⟨hyear, hmon, hmday, hhour, hmin, hsec⟩ := hlegal
  have hmillis := milliseconds_range hnow
  simp only [columns, fields, Code.Fits, Code.after, digits, List.forall₂_cons, List.Forall₂.nil,
    and_true]
  omega

/-! ### A call for another second -/

/-- The calls of `to_int` that write all fields, with the value of each. -/
def calls (localtime : Int → Tm) (now : Int) : List (Nat × Char × Int) :=
  let tm := localtime (seconds now)
  [(3, '.', milliseconds now), (2, ':', tm.tmSec), (2, ':', tm.tmMin), (2, ' ', tm.tmHour),
    (2, '-', tm.tmMday), (2, '-', tm.tmMon + 1), (4, ' ', tm.tmYear + 1900)]

/-- The writer after some of them. -/
def afterCalls (p : Writer Char) (calls : List (Nat × Char × Int)) : Writer Char :=
  calls.foldl (fun p (n, c, num) => toInt n c (uint64 num) p) p

theorem allFields_calls (localtime : Int → Tm) (buf : Int → Char) (now : Int) :
    allFields localtime buf now = afterCalls ⟨buf, 23, []⟩ (calls localtime now) := rfl

theorem afterCalls_cursor (p : Writer Char) (calls : List (Nat × Char × Int)) :
    (afterCalls p calls).cursor ≤ p.cursor := by
  induction calls generalizing p with
  | nil => exact le_rfl
  | cons call calls ih =>
    have hcall : (toInt call.1 call.2.1 (uint64 call.2.2) p).cursor ≤ p.cursor := by
      rw [toInt_eq, Writer.puts_cursor]
      omega
    exact le_trans (ih _) hcall

/-- The second of the time point is not in the buffer, and `localtime` is in range. -/
structure Another (localtime : Int → Tm) (s : ThreadLocal) (now : Int) : Prop where
  nonneg : 0 ≤ now
  legal : (localtime (seconds now)).Legal
  second : s.lastSecond ≠ seconds now
  /-- Behind the text the buffer has not been written to. -/
  rest : ∀ i, 23 ≤ i → i < 33 → s.buf i = nul

/-- The string a call returns. -/
def text (localtime : Int → Tm) (s : ThreadLocal) (now : Int) : List Char :=
  cString (getTimestamp localtime s now).buf

/-- All fields are written, each in its place. -/
structure Faithful (localtime : Int → Tm) (s : ThreadLocal) (now : Int) : Prop where
  returns : getTimestamp localtime s now = ⟨(allFields localtime s.buf now).cells, seconds now⟩
  /-- Every place of the text is written once, and no other. -/
  places : (allFields localtime s.buf now).written = (List.range 23).map (fun k : Nat => (k : Int))
  kept : ∀ i, i < 0 ∨ 23 ≤ i → (getTimestamp localtime s now).buf i = s.buf i
  /-- Between the calls of `to_int`, and in the end. -/
  cursor : ∀ k, 0 ≤ (afterCalls ⟨s.buf, 23, []⟩ ((calls localtime now).take k)).cursor
  ends : (allFields localtime s.buf now).cursor = 0
  length : (text localtime s now).length = 23
  layout : text localtime s now = Code.row columns (fields localtime now)
  decoded : Code.unrow columns (text localtime s now) = fields localtime now
  fraction : (fields localtime now).getLast? = some (now / 1000000 % 1000)

section Another
variable {localtime : Int → Tm} {s s' : ThreadLocal} {now now' : Int}

theorem Another.returns (h : Another localtime s now) :
    getTimestamp localtime s now = ⟨(allFields localtime s.buf now).cells, seconds now⟩ := by
  rw [getTimestamp, if_neg h.second]

theorem Another.text_eq (h : Another localtime s now) : text localtime s now = stamp localtime now := by
  rw [text, h.returns, allFields_eq]
  exact cString_puts h.rest (stamp_length localtime now) (nul_not_stamp localtime now)

theorem Another.kept (h : Another localtime s now) {i : Int} (hi : i < 0 ∨ 23 ≤ i) :
    (getTimestamp localtime s now).buf i = s.buf i := by
  have hlength : (date (localtime (seconds now)) ++ millis now).length = 23 := stamp_length localtime now
  have houtside := Writer.puts_outside ⟨s.buf, 23, []⟩ (date (localtime (seconds now)) ++ millis now)
    (i := i) (by rw [hlength]; exact hi)
  rw [h.returns, allFields_eq]
  exact houtside

/-- The cursor only goes down, and ends in front of the text. -/
theorem calls_cursor (localtime : Int → Tm) (buf : Int → Char) (now : Int) (k : Nat) :
    0 ≤ (afterCalls ⟨buf, 23, []⟩ ((calls localtime now).take k)).cursor := by
  have hend := (allFields_places localtime buf now).2
  rw [allFields_calls] at hend
  rw [← List.take_append_drop k (calls localtime now), afterCalls, List.foldl_append] at hend
  have hle := afterCalls_cursor (afterCalls ⟨buf, 23, []⟩ ((calls localtime now).take k))
    ((calls localtime now).drop k)
  exact hend ▸ hle

theorem Another.faithful (h : Another localtime s now) : Faithful localtime s now where
  returns := h.returns
  places := (allFields_places localtime s.buf now).1
  kept _ := h.kept
  cursor := calls_cursor localtime s.buf now
  ends := (allFields_places localtime s.buf now).2
  length := by rw [h.text_eq, stamp_length]
  layout := by rw [h.text_eq, stamp_eq_row]
  decoded := by rw [h.text_eq, stamp_eq_row, Code.unrow_row (fields_fit h.legal h.nonneg)]
  fraction := congrArg some (milliseconds_eq h.nonneg)

/-- **The full timestamp is a row of its fields**: well placed, read back exactly, and in the order
of the fields. -/
theorem full_timestamp (h : Another localtime s now) (h' : Another localtime s' now') :
    Faithful localtime s now ∧
      (text localtime s now < text localtime s' now' ↔ fields localtime now < fields localtime now') := by
  refine ⟨h.faithful, ?_⟩
  rw [h.text_eq, h'.text_eq, stamp_eq_row, stamp_eq_row]
  exact Code.row_lt_iff (fields_fit h.legal h.nonneg) (fields_fit h'.legal h'.nonneg)

/-- Five and seven seconds after the epoch, in UTC, on a thread that has not logged before. -/
theorem full_timestamp_utc :
    let localtime := fun second : Int => (⟨second, 0, 0, 1, 0, 70⟩ : Tm)
    Faithful localtime .initial 5004000000 ∧
      text localtime .initial 5004000000 < text localtime .initial 7000000000 := by
  intro localtime
  have h : Another localtime .initial 5004000000 :=
    ⟨by decide, by constructor <;> decide, by decide, fun _ _ _ => rfl⟩
  have h' : Another localtime .initial 7000000000 :=
    ⟨by decide, by constructor <;> decide, by decide, fun _ _ _ => rfl⟩
  obtain ⟨hfaithful, horder⟩ := full_timestamp h h'
  exact ⟨hfaithful, horder.2 (by decide)⟩

end Another

end ExploreCpp.Log
