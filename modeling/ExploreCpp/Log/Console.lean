import ExploreCpp.Log.Cache
import ExploreCpp.Terminal

/-! `ConsoleLogger` of `log.hpp`, the logger behind the macros of `debug.hpp`.

All threads share the level and the style; the buffer of the timestamps is each thread's
own, and only a call that passes the filter writes to it. So a line is an entry with the
timestamp of a thread that has `begun` to write full ones or not (`run_clog`).

`std::vformat` is a parameter, without a result where it throws; such a call leaves no
line. Calls follow one another, whichever threads make them: `level_`, `style_` and the
`tm` of `localtime` are shared without synchronisation, and a line goes to `std::clog`
as a whole. -/
namespace ExploreCpp.Log

abbrev Text := List Char

inductive LogLevel where
  | trace
  | debug
  | info
  | warn
  | error
  | fatal
deriving DecidableEq, Repr

/-- The enumerators compare by their values. -/
def LogLevel.value : LogLevel → Nat
  | .trace => 0
  | .debug => 1
  | .info => 2
  | .warn => 3
  | .error => 4
  | .fatal => 5

inductive LogStyle where
  | fg
  | bg
deriving DecidableEq, Repr

def LogLevel.toString : LogLevel → Text
  | .trace => ['T', 'R', 'A', 'C', 'E']
  | .debug => ['D', 'E', 'B', 'U', 'G']
  | .info => ['I', 'N', 'F', 'O', ' ']
  | .warn => ['W', 'A', 'R', 'N', ' ']
  | .error => ['E', 'R', 'R', 'O', 'R']
  | .fatal => ['F', 'A', 'T', 'A', 'L']

def toColorFg : LogLevel → Text
  | .trace => [esc, '[', '3', '6', 'm']
  | .debug => [esc, '[', '9', '4', 'm']
  | .info => [esc, '[', '3', '2', 'm']
  | .warn => [esc, '[', '3', '3', 'm']
  | .error => [esc, '[', '3', '1', 'm']
  | .fatal => [esc, '[', '3', '5', 'm']

def toColorBg : LogLevel → Text
  | .trace => [esc, '[', '9', '7', ';', '4', '6', 'm']
  | .debug => [esc, '[', '9', '7', ';', '4', '4', 'm']
  | .info => [esc, '[', '9', '7', ';', '4', '2', 'm']
  | .warn => [esc, '[', '9', '0', ';', '4', '3', 'm']
  | .error => [esc, '[', '9', '7', ';', '4', '1', 'm']
  | .fatal => [esc, '[', '9', '7', ';', '4', '5', 'm']

def toColor (level : LogLevel) : LogStyle → Text
  | .fg => toColorFg level
  | .bg => toColorBg level

structure SourceLocation where
  fileName : Text
  line : Nat
  functionName : Text

def functionName (level : LogLevel) (loc : SourceLocation) : Text :=
  if level.value ≤ LogLevel.debug.value then '|' :: (loc.functionName ++ ['|']) else []

def sourceColor : Text := [esc, '[', '9', '0', 'm']

def resetColor : Text := [esc, '[', '0', 'm']

structure FmtWithSourceLocation where
  fmt : Text
  sourceLocation : SourceLocation

/-! ### Lines -/

/-- `{:<n}` -/
def leftAligned (n : Nat) (text : Text) : Text := text ++ List.replicate (n - text.length) ' '

/-- What a line is made of. -/
structure Line where
  timestamp : Text
  level : LogLevel
  style : LogStyle
  fileName : Text
  line : Nat
  /-- Between bars, or empty. -/
  functionName : Text
  message : Text

/-- `"{} |{}{:<5}{}| {}{}:{}{}{} {}\n"` -/
def Line.text (l : Line) : Text :=
  l.timestamp ++ ([' ', '|'] ++ (toColor l.level l.style ++ (leftAligned 5 l.level.toString ++ (resetColor ++
    (['|', ' '] ++ (sourceColor ++ (l.fileName ++ ([':'] ++ (Nat.toDigits 10 l.line ++ (l.functionName ++
      (resetColor ++ ([' '] ++ (l.message ++ ['\n'])))))))))))))

def texts (lines : List Line) : Text := (lines.map Line.text).flatten

/-! ### The logger -/

structure ConsoleLogger where
  level : LogLevel := .debug
  style : LogStyle := .fg

def ConsoleLogger.setLevel (logger : ConsoleLogger) (level : LogLevel) : ConsoleLogger :=
  {logger with level := level}

def ConsoleLogger.setStyle (logger : ConsoleLogger) (style : LogStyle) : ConsoleLogger :=
  {logger with style := style}

/-- The logger with what its calls read and write. -/
structure Console (Thread : Type) where
  logger : ConsoleLogger
  locals : Thread → ThreadLocal
  clog : Text

def Console.initial {Thread : Type} : Console Thread := ⟨{}, fun _ => .initial, []⟩

/-- A call by a thread, with the time it reads from the clock. -/
structure Call (Thread Args : Type) where
  thread : Thread
  fwsl : FmtWithSourceLocation
  args : Args
  now : Int

section
variable {Thread Args : Type} [DecidableEq Thread] (localtime : Int → Tm) (vformat : Text → Args → Option Text)

def log (level : LogLevel) (call : Call Thread Args) (s : Console Thread) : Console Thread :=
  if level.value < s.logger.level.value then s
  else match vformat call.fwsl.fmt call.args with
    | none => s
    | some message =>
      let loc := call.fwsl.sourceLocation
      let buffer := getTimestamp localtime (s.locals call.thread) call.now
      let line : Line := ⟨cString buffer.buf, level, s.logger.style, loc.fileName, loc.line,
        functionName level loc, message⟩
      {s with locals := Function.update s.locals call.thread buffer, clog := s.clog ++ line.text}

def trace : Call Thread Args → Console Thread → Console Thread := log localtime vformat .trace
def debug : Call Thread Args → Console Thread → Console Thread := log localtime vformat .debug
def info : Call Thread Args → Console Thread → Console Thread := log localtime vformat .info
def warn : Call Thread Args → Console Thread → Console Thread := log localtime vformat .warn
def error : Call Thread Args → Console Thread → Console Thread := log localtime vformat .error
def fatal : Call Thread Args → Console Thread → Console Thread := log localtime vformat .fatal

end

/-- What the threads do with the logger, in the order it takes effect. -/
inductive Use (Thread Args : Type) where
  | setLevel (level : LogLevel)
  | setStyle (style : LogStyle)
  | log (level : LogLevel) (call : Call Thread Args)

section
variable {Thread Args : Type} [DecidableEq Thread] (localtime : Int → Tm) (vformat : Text → Args → Option Text)

def Console.next (s : Console Thread) : Use Thread Args → Console Thread
  | .setLevel level => {s with logger := s.logger.setLevel level}
  | .setStyle style => {s with logger := s.logger.setStyle style}
  | .log .trace call => trace localtime vformat call s
  | .log .debug call => debug localtime vformat call s
  | .log .info call => info localtime vformat call s
  | .log .warn call => warn localtime vformat call s
  | .log .error call => error localtime vformat call s
  | .log .fatal call => fatal localtime vformat call s

def Console.run (s : Console Thread) (uses : List (Use Thread Args)) : Console Thread :=
  uses.foldl (Console.next localtime vformat) s

/-! ### What is logged -/

/-- A call that is logged, as the settings in force have it. -/
structure Entry (Thread Args : Type) where
  call : Call Thread Args
  level : LogLevel
  style : LogStyle
  message : Text

def Entry.line (e : Entry Thread Args) (timestamp : Text) : Line :=
  ⟨timestamp, e.level, e.style, e.call.fwsl.sourceLocation.fileName, e.call.fwsl.sourceLocation.line,
    functionName e.level e.call.fwsl.sourceLocation, e.message⟩

/-- The calls at or above the level, if their message can be written. -/
def logged : ConsoleLogger → List (Use Thread Args) → List (Entry Thread Args)
  | _, [] => []
  | logger, .setLevel level :: uses => logged (logger.setLevel level) uses
  | logger, .setStyle style :: uses => logged (logger.setStyle style) uses
  | logger, .log level call :: uses =>
    if level.value < logger.level.value then logged logger uses
    else ((vformat call.fwsl.fmt call.args).map fun message => ⟨call, level, logger.style, message⟩).toList ++
      logged logger uses

/-- The lines with all timestamps written in full. -/
def fullLines (entries : List (Entry Thread Args)) : List Line :=
  entries.map fun e => e.line (fullTimestamp localtime e.call.now)

/-- The lines if these threads have written a full timestamp before. -/
def lines (begun : Thread → Bool) : List (Entry Thread Args) → List Line
  | [] => []
  | e :: entries =>
    let begun := Function.update begun e.call.thread (begun e.call.thread || decide (seconds e.call.now ≠ 0))
    e.line (if begun e.call.thread then fullTimestamp localtime e.call.now else []) :: lines begun entries

end

/-! ### The buffers -/

/-- Nothing of a date has been written. -/
structure Blank (s : ThreadLocal) : Prop where
  lastSecond : s.lastSecond = 0
  first : s.buf 0 = nul
  rest : ∀ i, i < 0 ∨ 23 ≤ i → s.buf i = nul

/-- The buffer of a thread that has or has not begun to write full timestamps. -/
def Known (localtime : Int → Tm) (begun : Bool) (s : ThreadLocal) : Prop :=
  if begun then Holds localtime s else Blank s

theorem known_initial (localtime : Int → Tm) : Known localtime false .initial := ⟨rfl, rfl, fun _ _ => rfl⟩

theorem Blank.cString_eq {s : ThreadLocal} (h : Blank s) : cString s.buf = [] := by
  have hfirst : s.buf ((0 : Nat) : Int) = nul := h.first
  rw [cString, List.range_succ_eq_map, List.map_cons, List.takeWhile_cons, hfirst]
  rfl

/-- The milliseconds alone leave the date blank. -/
theorem Blank.getTimestamp {localtime : Int → Tm} {s : ThreadLocal} (h : Blank s) {now : Int}
    (hzero : seconds now = 0) : Blank (getTimestamp localtime s now) := by
  have hsame : s.lastSecond = seconds now := h.lastSecond.trans hzero.symm
  rw [Log.getTimestamp, if_pos hsame, sameSecond_eq]
  have hcells : ∀ i : Int, i < 19 ∨ 23 ≤ i → ((⟨s.buf, 23, []⟩ : Writer Char).puts (millis now)).cells i = s.buf i := by
    intro i hi
    apply Writer.puts_outside
    rw [millis_length]
    exact hi
  constructor
  · exact h.lastSecond
  · exact (hcells 0 (.inl (by decide))).trans h.first
  · intro i hi
    exact (hcells i (by omega)).trans (h.rest i hi)

/-- Over a blank buffer all fields give what they give over a new one. -/
theorem puts_blank {s : ThreadLocal} (h : Blank s) {text : Text} (hlength : text.length = 23) :
    ((⟨s.buf, 23, []⟩ : Writer Char).puts text).cells = (start.puts text).cells := by
  have hcursor : start.cursor = 23 := rfl
  funext i
  rw [Writer.puts_cells, Writer.puts_cells, hcursor, hlength]
  by_cases hi : i < 0 ∨ 23 ≤ i
  · have hcell : s.buf i = start.cells i := h.rest i hi
    rw [← hcell]
  · have hlow : ¬ i < 23 - ((23 : Nat) : Int) := by omega
    have hin : (i - (23 - ((23 : Nat) : Int))).toNat < text.length := by omega
    rw [if_neg hlow, if_neg hlow, List.getElem?_eq_getElem hin]
    rfl

theorem Blank.allFields {localtime : Int → Tm} {s : ThreadLocal} (h : Blank s) (now : Int) :
    (allFields localtime s.buf now).cells = (start.puts (stamp localtime now)).cells := by
  rw [allFields_eq]
  exact puts_blank h (stamp_length localtime now)

/-- A call of a thread, whether it has begun to write full timestamps or begins to now. -/
theorem Known.getTimestamp {localtime : Int → Tm} {begun : Bool} {s : ThreadLocal}
    (h : Known localtime begun s) (now : Int) :
    Known localtime (begun || decide (seconds now ≠ 0)) (getTimestamp localtime s now) ∧
      cString (Log.getTimestamp localtime s now).buf =
        if begun || decide (seconds now ≠ 0) then fullTimestamp localtime now else [] := by
  have hfull : Log.getTimestamp localtime s now = ⟨(start.puts (stamp localtime now)).cells, seconds now⟩ →
      Holds localtime (Log.getTimestamp localtime s now) ∧
        cString (Log.getTimestamp localtime s now).buf = fullTimestamp localtime now := by
    intro he
    rw [he]
    exact ⟨⟨now, rfl, rfl⟩, by rw [fullTimestamp_eq, cString_stamp]⟩
  cases begun with
  | true => exact hfull (getTimestamp_holds h now)
  | false =>
    by_cases hzero : seconds now = 0
    · have hblank : Blank (Log.getTimestamp localtime s now) := Blank.getTimestamp h hzero
      rw [hzero]
      exact ⟨hblank, hblank.cString_eq⟩
    · have hother : s.lastSecond ≠ seconds now := fun he => hzero (he.symm.trans h.lastSecond)
      have hsteps := hfull (by rw [Log.getTimestamp, if_neg hother, Blank.allFields h])
      simp only [hzero, ne_eq, not_false_eq_true, decide_true, Bool.or_true, if_true]
      exact hsteps

/-! ### Runs -/

section
variable {Thread Args : Type} [DecidableEq Thread] {localtime : Int → Tm} {vformat : Text → Args → Option Text}

theorem texts_cons (l : Line) (ls : List Line) : texts (l :: ls) = l.text ++ texts ls := rfl

theorem next_log (s : Console Thread) (level : LogLevel) (call : Call Thread Args) :
    s.next localtime vformat (.log level call) = log localtime vformat level call s := by
  cases level with
  | _ => rfl

/-- What is written in a run, from the buffers on: the lines of the calls that are logged. -/
theorem run_clog {s : Console Thread} {begun : Thread → Bool}
    (h : ∀ thread, Known localtime (begun thread) (s.locals thread)) (uses : List (Use Thread Args)) :
    (s.run localtime vformat uses).clog =
      s.clog ++ texts (lines localtime begun (logged vformat s.logger uses)) := by
  induction uses generalizing s begun with
  | nil => exact (List.append_nil s.clog).symm
  | cons use uses ih =>
    show ((s.next localtime vformat use).run localtime vformat uses).clog = _
    cases use with
    | setLevel level => exact ih (s := {s with logger := s.logger.setLevel level}) h
    | setStyle style => exact ih (s := {s with logger := s.logger.setStyle style}) h
    | log level call =>
      rw [next_log, log, logged]
      by_cases hlevel : level.value < s.logger.level.value
      · rw [if_pos hlevel, if_pos hlevel]
        exact ih h
      · rw [if_neg hlevel, if_neg hlevel]
        cases hmessage : vformat call.fwsl.fmt call.args with
        | none => exact ih h
        | some message =>
          obtain ⟨hknown, htext⟩ := (h call.thread).getTimestamp call.now
          have hbuffers : ∀ thread, Known localtime
              (Function.update begun call.thread (begun call.thread || decide (seconds call.now ≠ 0)) thread)
              (Function.update s.locals call.thread
                (getTimestamp localtime (s.locals call.thread) call.now) thread) := by
            intro thread
            by_cases hthread : thread = call.thread
            · rw [hthread, Function.update_self, Function.update_self]
              exact hknown
            · rw [Function.update_of_ne hthread, Function.update_of_ne hthread]
              exact h thread
          rw [ih hbuffers]
          simp only [Option.map_some, Option.toList_some, List.singleton_append, lines, texts_cons,
            Function.update_self, htext, List.append_assoc]
          rfl

end

end ExploreCpp.Log
