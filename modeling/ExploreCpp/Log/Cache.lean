import ExploreCpp.Log.Timestamp
import Mathlib.Data.List.Basic

/-! The cached timestamps against those with all fields written anew.

`stamp` is the text of a time point. Once a thread has written all fields its buffer
holds the text of its last call, and stays so whichever way the clock goes
(`getTimestamp_holds`); before that the second zero is taken for one it has written. -/
namespace ExploreCpp.Log

def stamp (localtime : Int → Tm) (now : Int) : List Char :=
  date (localtime (seconds now)) ++ millis now

/-- The string for a time point if all fields are written. -/
def fullTimestamp (localtime : Int → Tm) (now : Int) : List Char :=
  cString (allFields localtime ThreadLocal.initial.buf now).cells

/-- The writer of a call, in a buffer that has not been used. -/
def start : Writer Char := ⟨ThreadLocal.initial.buf, 23, []⟩

/-! ### Texts -/

theorem fixed_digits (n num : Nat) : ∀ c ∈ fixed n num, c.isDigit = true := by
  induction n generalizing num with
  | zero => nofun
  | succ n ih =>
    intro c hc
    rw [fixed, List.mem_append, List.mem_singleton] at hc
    rcases hc with hc | rfl
    · exact ih (num / 10) c hc
    · rw [Nat.isDigit_digitChar]
      exact decide_eq_true (Nat.mod_lt num (by decide))

theorem nul_not_field (n num : Nat) {c : Char} (hc : c ≠ nul) : nul ∉ field n c num := by
  have hdigits : nul ∉ fixed n num := by
    intro hm
    have hdigit := fixed_digits n num nul hm
    revert hdigit
    decide
  unfold field
  split
  · rw [List.mem_cons]
    exact not_or.mpr ⟨hc.symm, hdigits⟩
  · exact hdigits

theorem nul_not_stamp (localtime : Int → Tm) (now : Int) : nul ∉ stamp localtime now := by
  simp only [stamp, date, millis, List.mem_append, not_or]
  exact ⟨⟨⟨⟨⟨⟨nul_not_field _ _ (by decide), nul_not_field _ _ (by decide)⟩,
    nul_not_field _ _ (by decide)⟩, nul_not_field _ _ (by decide)⟩, nul_not_field _ _ (by decide)⟩,
    nul_not_field _ _ (by decide)⟩, nul_not_field _ _ (by decide)⟩

theorem stamp_length (localtime : Int → Tm) (now : Int) : (stamp localtime now).length = 23 := by
  rw [stamp, List.length_append, date_length, millis_length]

/-- A text of 23 characters is read back whole, if nothing stands behind it. -/
theorem cString_puts {buf : Int → Char} {text : List Char} (hrest : ∀ i, 23 ≤ i → i < 33 → buf i = nul)
    (hlen : text.length = 23) (hnul : nul ∉ text) :
    cString ((⟨buf, 23, []⟩ : Writer Char).puts text).cells = text := by
  have hcells : (List.range 33).map (fun i : Nat => ((⟨buf, 23, []⟩ : Writer Char).puts text).cells i) =
      text ++ List.replicate 10 nul := by
    apply List.ext_getElem
    · simp [hlen]
    · intro i hi hi'
      have hlt : i < 33 := by simpa using hi
      rw [List.getElem_map, List.getElem_range, Writer.puts_cells, hlen]
      show (if (i : Int) < 23 - ((23 : Nat) : Int) then buf i else
        (text[((i : Int) - (23 - ((23 : Nat) : Int))).toNat]?).getD (buf i)) = _
      have hindex : ((i : Int) - (23 - ((23 : Nat) : Int))).toNat = i := by omega
      rw [if_neg (by omega)]
      rw [hindex]
      by_cases hin : i < text.length
      · rw [List.getElem_append_left hin, List.getElem?_eq_getElem hin]
        rfl
      · rw [List.getElem_append_right (Nat.le_of_not_lt hin), List.getElem_replicate,
          List.getElem?_eq_none (Nat.le_of_not_lt hin), Option.getD_none]
        exact hrest i (by omega) (by omega)
  have hkeep : ∀ c ∈ text, decide (c ≠ nul) = true := by
    intro c hc
    exact decide_eq_true fun he => hnul (he ▸ hc)
  rw [cString, hcells, List.takeWhile_append_of_pos hkeep]
  have hstop : (List.replicate 10 nul).takeWhile (fun c => decide (c ≠ nul)) = [] := by decide
  rw [hstop, List.append_nil]

theorem cString_stamp (localtime : Int → Tm) (now : Int) :
    cString (start.puts (stamp localtime now)).cells = stamp localtime now :=
  cString_puts (fun _ _ _ => rfl) (stamp_length localtime now) (nul_not_stamp localtime now)

theorem fullTimestamp_eq (localtime : Int → Tm) (now : Int) :
    fullTimestamp localtime now = stamp localtime now := by
  rw [fullTimestamp, allFields_eq]
  exact cString_stamp localtime now

/-! ### The buffer -/

/-- The buffer holds a text of the second it was last written for. -/
def Holds (localtime : Int → Tm) (s : ThreadLocal) : Prop :=
  ∃ now, s.lastSecond = seconds now ∧ s.buf = (start.puts (stamp localtime now)).cells

theorem getTimestamp_first {localtime : Int → Tm} {now : Int} (h : seconds now ≠ 0) :
    getTimestamp localtime .initial now = ⟨(start.puts (stamp localtime now)).cells, seconds now⟩ := by
  have hsecond : ThreadLocal.initial.lastSecond ≠ seconds now := h.symm
  rw [getTimestamp, if_neg hsecond, allFields_eq]
  rfl

/-- Over a text of the same second the milliseconds are enough. -/
theorem sameSecond_again {localtime : Int → Tm} {last now : Int} (h : seconds last = seconds now) :
    (sameSecond (start.puts (stamp localtime last)).cells now).cells =
      (start.puts (stamp localtime now)).cells := by
  have hmillis : (millis last).length = (millis now).length := by rw [millis_length, millis_length]
  have hcursor : start.cursor = 23 := rfl
  rw [sameSecond_eq, stamp, stamp, h, ← hcursor]
  exact Writer.puts_again start (date (localtime (seconds now))) (millis last) (millis now) [] hmillis

/-- All fields may be written over any text. -/
theorem allFields_again (localtime : Int → Tm) (last now : Int) :
    (allFields localtime (start.puts (stamp localtime last)).cells now).cells =
      (start.puts (stamp localtime now)).cells := by
  have hlength : (stamp localtime last).length = (stamp localtime now).length := by
    rw [stamp_length, stamp_length]
  have hcursor : start.cursor = 23 := rfl
  rw [allFields_eq, ← hcursor]
  exact Writer.puts_again start [] (stamp localtime last) (stamp localtime now) [] hlength

theorem getTimestamp_holds {localtime : Int → Tm} {s : ThreadLocal} (h : Holds localtime s) (now : Int) :
    getTimestamp localtime s now = ⟨(start.puts (stamp localtime now)).cells, seconds now⟩ := by
  obtain ⟨last, hsecond, hbuf⟩ := h
  by_cases hsame : s.lastSecond = seconds now
  · rw [getTimestamp, if_pos hsame, hbuf, hsame, sameSecond_again (hsecond.symm.trans hsame)]
  · rw [getTimestamp, if_neg hsame, hbuf, allFields_again]

/-- From then on every call gives the full timestamp. -/
theorem timestamps_holds {localtime : Int → Tm} {s : ThreadLocal} (h : Holds localtime s)
    (calls : List Int) : timestamps localtime s calls = calls.map (fullTimestamp localtime) := by
  induction calls generalizing s with
  | nil => rfl
  | cons now rest ih =>
    rw [timestamps, getTimestamp_holds h now, List.map_cons, fullTimestamp_eq, cString_stamp,
      ih ⟨now, rfl, rfl⟩]

/-- Before anything is written a call in the second zero leaves the date empty. -/
theorem cString_second_zero {localtime : Int → Tm} {now : Int} (h : seconds now = 0) :
    cString (getTimestamp localtime .initial now).buf = [] := by
  have hsecond : ThreadLocal.initial.lastSecond = seconds now := h.symm
  have hfirst : (start.puts (millis now)).cells ((0 : Nat) : Int) = nul := by
    rw [Writer.puts_cells, millis_length]
    rfl
  rw [getTimestamp, if_pos hsecond, sameSecond_eq]
  show cString (start.puts (millis now)).cells = []
  rw [cString, List.range_succ_eq_map, List.map_cons, List.takeWhile_cons, hfirst]
  rfl

/-- **The cached timestamps are the full ones**, in every run of calls, exactly if the first
call of the thread is not in the second zero. -/
theorem timestamps_eq_full_iff (localtime : Int → Tm) (calls : List Int) :
    timestamps localtime .initial calls = calls.map (fullTimestamp localtime) ↔
      ∀ now ∈ calls.head?, seconds now ≠ 0 := by
  cases calls with
  | nil => simp [timestamps]
  | cons now rest =>
    have hhead : (∀ t ∈ (now :: rest).head?, seconds t ≠ 0) ↔ seconds now ≠ 0 := by simp
    rw [hhead]
    constructor
    · intro h hzero
      have hempty := (List.cons.inj h).1
      rw [cString_second_zero hzero, fullTimestamp_eq] at hempty
      have hlen := stamp_length localtime now
      rw [← hempty] at hlen
      cases hlen
    · intro h
      rw [timestamps, getTimestamp_first h, List.map_cons, fullTimestamp_eq, cString_stamp,
        timestamps_holds ⟨now, rfl, rfl⟩]

/-- Five milliseconds after the epoch, in UTC. -/
theorem timestamps_epoch :
    timestamps (fun _ => ⟨0, 0, 0, 1, 0, 70⟩) .initial [5000000] = [[]] ∧
    fullTimestamp (fun _ => ⟨0, 0, 0, 1, 0, 70⟩) 5000000 =
      ['1', '9', '7', '0', '-', '0', '1', '-', '0', '1', ' ', '0', '0', ':', '0', '0', ':', '0', '0',
        '.', '0', '0', '5'] ∧
    timestamps (fun _ => ⟨0, 0, 0, 1, 0, 70⟩) .initial [5000000] ≠
      [5000000].map (fullTimestamp fun _ => ⟨0, 0, 0, 1, 0, 70⟩) := by
  decide

end ExploreCpp.Log
