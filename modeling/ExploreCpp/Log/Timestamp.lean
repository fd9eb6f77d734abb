import ExploreCpp.Backward
import Mathlib.Algebra.Group.Nat.Defs
import Mathlib.Algebra.Ring.Int.Defs

/-! `get_timestamp` of `log.hpp`, with the `to_int` it writes its fields with.

The buffer and the second it was last written for are the two `thread_local` variables.
While the second stays the same only the milliseconds are written; otherwise all fields
are, from the right to the left.

`localtime` is a parameter, as a function of the second. -/
namespace ExploreCpp.Log

def nul : Char := Char.ofNat 0

/-- The loop of `to_int`. -/
def putDigits : Nat → Nat → Writer Char → Writer Char
  | 0, _, p => p
  | n + 1, num, p => putDigits n (num / 10) (p.put (Nat.digitChar (num % 10)))

/-- `to_int<N, c>(num, p, size)`, where the writer is the span with its cursor `size`. -/
def toInt (n : Nat) (c : Char) (num : Nat) (p : Writer Char) : Writer Char :=
  let p := putDigits n num p
  if n ≠ 4 then p.put c else p

structure Tm where
  tmSec : Int
  tmMin : Int
  tmHour : Int
  tmMday : Int
  tmMon : Int
  tmYear : Int
deriving DecidableEq, Repr

/-- The conversion of an argument to `uint64_t`. -/
def uint64 (n : Int) : Nat := (n % 2 ^ 64).toNat

/-! ### Time points, in nanoseconds since the epoch -/

def seconds (now : Int) : Int := now.tdiv 1000000000

def milliseconds (now : Int) : Int := (now - seconds now * 1000000000).tdiv 1000000

/-! ### The timestamp -/

structure ThreadLocal where
  buf : Int → Char
  lastSecond : Int

def ThreadLocal.initial : ThreadLocal := ⟨fun _ => nul, 0⟩

/-- The branch for the second that is in the buffer. -/
def sameSecond (buf : Int → Char) (now : Int) : Writer Char :=
  toInt 3 '.' (uint64 (milliseconds now)) ⟨buf, 23, []⟩

/-- All fields. -/
def allFields (localtime : Int → Tm) (buf : Int → Char) (now : Int) : Writer Char :=
  let tm := localtime (seconds now)
  let p := toInt 3 '.' (uint64 (milliseconds now)) ⟨buf, 23, []⟩
  let p := toInt 2 ':' (uint64 tm.tmSec) p
  let p := toInt 2 ':' (uint64 tm.tmMin) p
  let p := toInt 2 ' ' (uint64 tm.tmHour) p
  let p := toInt 2 '-' (uint64 tm.tmMday) p
  let p := toInt 2 '-' (uint64 (tm.tmMon + 1)) p
  toInt 4 ' ' (uint64 (tm.tmYear + 1900)) p

def getTimestamp (localtime : Int → Tm) (s : ThreadLocal) (now : Int) : ThreadLocal :=
  if s.lastSecond = seconds now then ⟨(sameSecond s.buf now).cells, s.lastSecond⟩
  else ⟨(allFields localtime s.buf now).cells, seconds now⟩

/-- The string that starts at `buf.data()`. -/
def cString (buf : Int → Char) : List Char :=
  ((List.range 33).map fun i : Nat => buf i).takeWhile (· ≠ nul)

/-- What a thread gets from its calls. -/
def timestamps (localtime : Int → Tm) : ThreadLocal → List Int → List (List Char)
  | _, [] => []
  | s, now :: rest =>
    let s' := getTimestamp localtime s now
    cString s'.buf :: timestamps localtime s' rest

/-! ### The fields -/

/-- The last `n` decimal digits. -/
def fixed : Nat → Nat → List Char
  | 0, _ => []
  | n + 1, num => fixed n (num / 10) ++ [Nat.digitChar (num % 10)]

/-- What `to_int<N, c>(num, …)` writes. -/
def field (n : Nat) (c : Char) (num : Nat) : List Char :=
  if n ≠ 4 then c :: fixed n num else fixed n num

/-- The fields of the date and the time of day. -/
def date (tm : Tm) : List Char :=
  field 4 ' ' (uint64 (tm.tmYear + 1900)) ++ field 2 '-' (uint64 (tm.tmMon + 1)) ++
    field 2 '-' (uint64 tm.tmMday) ++ field 2 ' ' (uint64 tm.tmHour) ++
    field 2 ':' (uint64 tm.tmMin) ++ field 2 ':' (uint64 tm.tmSec)

def millis (now : Int) : List Char := field 3 '.' (uint64 (milliseconds now))

theorem putDigits_eq (n num : Nat) (p : Writer Char) : putDigits n num p = p.puts (fixed n num) := by
  induction n generalizing num p with
  | zero => rfl
  | succ n ih => rw [putDigits, ih, fixed, Writer.puts_append, Writer.puts_cons, Writer.puts_nil]

theorem toInt_eq (n : Nat) (c : Char) (num : Nat) (p : Writer Char) :
    toInt n c num p = p.puts (field n c num) := by
  by_cases h : n = 4
  · simp [toInt, field, h, putDigits_eq]
  · simp [toInt, field, h, putDigits_eq]

theorem sameSecond_eq (buf : Int → Char) (now : Int) :
    sameSecond buf now = (⟨buf, 23, []⟩ : Writer Char).puts (millis now) := toInt_eq ..

theorem allFields_eq (localtime : Int → Tm) (buf : Int → Char) (now : Int) :
    allFields localtime buf now =
      (⟨buf, 23, []⟩ : Writer Char).puts (date (localtime (seconds now)) ++ millis now) := by
  simp only [allFields, toInt_eq, date, millis, Writer.puts_append]

theorem fixed_length (n num : Nat) : (fixed n num).length = n := by
  induction n generalizing num with
  | zero => rfl
  | succ n ih => simp [fixed, ih]

theorem date_length (tm : Tm) : (date tm).length = 19 := by simp [date, field, fixed_length]

theorem millis_length (now : Int) : (millis now).length = 4 := by simp [millis, field, fixed_length]

/-- Every place up to the cursor is written once, and the cursor ends in front of the first. -/
theorem allFields_places (localtime : Int → Tm) (buf : Int → Char) (now : Int) :
    (allFields localtime buf now).written = (List.range 23).map (fun k : Nat => (k : Int)) ∧
      (allFields localtime buf now).cursor = 0 := by
  rw [allFields_eq, Writer.puts_written, Writer.puts_cursor, List.length_append, date_length, millis_length]
  constructor
  · simp
  · rfl

end ExploreCpp.Log
