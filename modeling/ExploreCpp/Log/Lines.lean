import ExploreCpp.Log.Console
import Mathlib.Data.Bool.Basic

/-! What the threads' calls leave in `std::clog`.

The timestamps are full unless a thread's first line is of the second zero
(`clog_full_iff`); the lines are read back from the text (`clog_readable`); and on a
terminal each part of a line has its own rendition, which does not reach past it
(`clog_shown`). -/
namespace ExploreCpp.Log

section
variable {Thread Args : Type} [DecidableEq Thread] {localtime : Int → Tm} {vformat : Text → Args → Option Text}

/-! ### Timestamps -/

theorem stamp_begins (localtime : Int → Tm) (now : Int) :
    ∃ c rest, stamp localtime now = c :: rest ∧ c.isDigit = true := by
  have hyear : ∀ n, ∃ c rest, fixed 4 n = c :: rest ∧ c.isDigit = true := by
    intro n
    obtain ⟨c, rest, hc⟩ := List.exists_cons_of_length_pos (l := fixed 4 n) (by rw [fixed_length]; decide)
    exact ⟨c, rest, hc, fixed_digits 4 n c (hc ▸ List.mem_cons_self)⟩
  obtain ⟨c, rest, hc, hdigit⟩ := hyear (uint64 ((localtime (seconds now)).tmYear + 1900))
  exact ⟨c, _, by simp [stamp, date, field, hc]; rfl, hdigit⟩

omit [DecidableEq Thread] in
/-- A line without a timestamp is told from one that has it by its first symbol. -/
theorem blank_ne_full (e : Entry Thread Args) (rest rest' : Text) :
    (e.line []).text ++ rest ≠ (e.line (fullTimestamp localtime e.call.now)).text ++ rest' := by
  obtain ⟨c, tail, hc, hdigit⟩ := stamp_begins localtime e.call.now
  rw [fullTimestamp_eq, hc]
  intro he
  have hspace : ' ' = c := (List.cons.inj he).1
  rw [← hspace] at hdigit
  cases hdigit

/-- The first line of each of the threads that have not begun is not of the second zero. -/
def Timely (begun : Thread → Bool) (entries : List (Entry Thread Args)) : Prop :=
  ∀ thread, begun thread = false →
    ∀ e ∈ (entries.filter (·.call.thread = thread)).head?, seconds e.call.now ≠ 0

theorem timely_cons {begun : Thread → Bool} {e : Entry Thread Args} {entries : List (Entry Thread Args)}
    (h : (begun e.call.thread || decide (seconds e.call.now ≠ 0)) = true) :
    Timely begun (e :: entries) ↔ Timely (Function.update begun e.call.thread true) entries := by
  have hother : ∀ thread, thread ≠ e.call.thread →
      (e :: entries).filter (·.call.thread = thread) = entries.filter (·.call.thread = thread) :=
    fun thread hne => List.filter_cons_of_neg (by simpa using hne.symm)
  constructor
  · intro ht thread hbegun
    have hne : thread ≠ e.call.thread := by
      intro he
      rw [he, Function.update_self] at hbegun
      cases hbegun
    rw [Function.update_of_ne hne] at hbegun
    rw [← hother thread hne]
    exact ht thread hbegun
  · intro ht thread hbegun
    by_cases hthread : thread = e.call.thread
    · intro first hfirst
      rw [hthread] at hbegun hfirst
      rw [List.filter_cons_of_pos (by simp)] at hfirst
      rw [← Option.some.inj hfirst]
      simpa [hbegun] using h
    · rw [hother thread hthread]
      exact ht thread (by rwa [Function.update_of_ne hthread])

theorem lines_full_iff (begun : Thread → Bool) (entries : List (Entry Thread Args)) :
    texts (lines localtime begun entries) = texts (fullLines localtime entries) ↔ Timely begun entries := by
  induction entries generalizing begun with
  | nil => simp [lines, fullLines, Timely]
  | cons e entries ih =>
    have hfull : texts (fullLines localtime (e :: entries)) =
        (e.line (fullTimestamp localtime e.call.now)).text ++ texts (fullLines localtime entries) := rfl
    rw [hfull, lines]
    cases hnow : begun e.call.thread || decide (seconds e.call.now ≠ 0) with
    | true =>
      rw [timely_cons hnow, ← ih, texts_cons, Function.update_self, if_pos rfl]
      exact List.append_right_inj _
    | false =>
      have hnot : ¬ Timely begun (e :: entries) := by
        intro ht
        rw [Bool.or_eq_false_iff] at hnow
        have hfirst := ht e.call.thread hnow.1 e (by rw [List.filter_cons_of_pos (by simp)]; rfl)
        exact absurd hfirst (of_decide_eq_false hnow.2)
      rw [texts_cons, Function.update_self]
      exact iff_of_false (blank_ne_full e _ _) hnot

/-- **What is written is the line of every call at or above the level**, in the order of the
calls and with the full timestamps, exactly if no thread's first line is of the second zero. -/
theorem clog_full_iff (uses : List (Use Thread Args)) :
    (Console.initial.run localtime vformat uses).clog = texts (fullLines localtime (logged vformat {} uses)) ↔
      ∀ thread, ∀ e ∈ ((logged vformat {} uses).filter (·.call.thread = thread)).head?,
        seconds e.call.now ≠ 0 := by
  have hclog : (Console.initial.run localtime vformat uses).clog =
      texts (lines localtime (fun _ => false) (logged vformat {} uses)) :=
    run_clog (fun _ => known_initial localtime) uses
  rw [hclog, lines_full_iff]
  exact forall_congr' fun _ => forall_prop_of_true rfl

/-! ### Reading the lines back -/

/-- The numbers of the colours, as they stand in the sequences. -/
def numbers (level : LogLevel) : LogStyle → List Nat
  | .fg => match level with
    | .trace => [36]
    | .debug => [94]
    | .info => [32]
    | .warn => [33]
    | .error => [31]
    | .fatal => [35]
  | .bg => match level with
    | .trace => [97, 46]
    | .debug => [97, 44]
    | .info => [97, 42]
    | .warn => [90, 43]
    | .error => [97, 41]
    | .fatal => [97, 45]

theorem toColor_eq (level : LogLevel) (style : LogStyle) :
    toColor level style = Terminal.sgr (numbers level style) := by
  cases style <;> cases level <;> rfl

theorem toColor_inj {level level' : LogLevel} {style style' : LogStyle}
    (h : toColor level style = toColor level' style') : level = level' ∧ style = style' := by
  revert h
  cases style <;> cases style' <;> cases level <;> cases level' <;> decide

/-- Numbers and semicolons, up to the `m`. -/
theorem m_not_numbers (first : Bool) (ns : List Nat) :
    'm' ∉ separated [';'] first (ns.map (Nat.toDigits 10)) := by
  have hdigits : ∀ n, 'm' ∉ Nat.toDigits 10 n := by
    intro n hm
    have hdigit : ('m').isDigit = true := Nat.isDigit_of_mem_toDigits (by decide) (by decide) hm
    cases hdigit
  induction ns generalizing first with
  | nil => cases first <;> exact List.not_mem_nil
  | cons n ns ih => cases first <;> simp [separated, hdigits n, ih]

/-- The colour is read to its end, and tells the level and the style. -/
theorem read_color {level level' : LogLevel} {style style' : LogStyle} {rest rest' : Text}
    (he : toColor level style ++ rest = toColor level' style' ++ rest') :
    level = level' ∧ style = style' ∧ rest = rest' := by
  have hopen : ∀ ns, Terminal.sgr ns =
      (esc :: '[' :: separated [';'] true (ns.map (Nat.toDigits 10))) ++ ['m'] := fun _ => rfl
  have hm : ∀ ns : List Nat, 'm' ∉ esc :: '[' :: separated [';'] true (ns.map (Nat.toDigits 10)) := by
    intro ns
    rw [List.mem_cons, List.mem_cons, not_or, not_or]
    exact ⟨by decide, by decide, m_not_numbers true ns⟩
  rw [toColor_eq, toColor_eq, hopen, hopen, List.append_assoc, List.append_assoc] at he
  obtain ⟨hnumbers, hrest⟩ := cut (hm _) (hm _) he
  have hcolor : toColor level style = toColor level' style' := by
    rw [toColor_eq, toColor_eq, hopen, hopen, hnumbers]
  exact ⟨(toColor_inj hcolor).1, (toColor_inj hcolor).2, hrest⟩

/-- None of the parts has the symbol that ends it. -/
structure Line.Legible (l : Line) : Prop where
  timestamp : esc ∉ l.timestamp
  fileName : ':' ∉ l.fileName
  functionName : esc ∉ l.functionName ∧ Stops (fun c => c.isDigit = false) l.functionName
  message : '\n' ∉ l.message

theorem line_readable : Readable Line.Legible (fun _ => True) Line.text := by
  intro a b rest rest' ha hb _ _ he
  obtain ⟨timestamp, level, style, fileName, line, functionName, message⟩ := a
  obtain ⟨timestamp', level', style', fileName', line', functionName', message'⟩ := b
  have hcolor : ∀ level style, toColor level style = esc :: (toColor level style).tail := by
    intro level style
    rw [toColor_eq]
    rfl
  simp only [Line.text, List.append_assoc] at he
  -- The timestamp ends at the colour.
  have htime : ∀ {t : Text}, esc ∉ t → esc ∉ t ++ [' ', '|'] := by
    intro t ht
    rw [List.mem_append, not_or]
    exact ⟨ht, by decide⟩
  have hstart := he
  rw [hcolor level, hcolor level', ← List.append_assoc, ← List.append_assoc timestamp',
    List.cons_append, List.cons_append] at hstart
  obtain ⟨htimestamp, -⟩ := cut (htime ha.timestamp) (htime hb.timestamp) hstart
  obtain rfl : timestamp = timestamp' := List.append_cancel_right htimestamp
  obtain ⟨rfl, rfl, hbehind⟩ := read_color (List.append_cancel_left (List.append_cancel_left he))
  -- The level, and what leads to the source location, are the same.
  have hlocation := List.append_cancel_left (List.append_cancel_left (List.append_cancel_left
    (List.append_cancel_left hbehind)))
  obtain ⟨rfl, hnumber⟩ := cut ha.fileName hb.fileName hlocation
  -- The number and the function name end at the next sequence.
  have hdigits : ∀ {n : Nat} {f : Text}, esc ∉ f → esc ∉ Nat.toDigits 10 n ++ f := by
    intro n f hf
    rw [List.mem_append, not_or]
    exact ⟨Terminal.esc_not_digits n, hf⟩
  change Nat.toDigits 10 line ++ (functionName ++ _) = Nat.toDigits 10 line' ++ (functionName' ++ _) at hnumber
  rw [← List.append_assoc, ← List.append_assoc (Nat.toDigits 10 line')] at hnumber
  obtain ⟨hfunction, hreset⟩ := cut (hdigits ha.functionName.1) (hdigits hb.functionName.1) hnumber
  obtain ⟨rfl, rfl⟩ := digits_readable line line' _ _ trivial trivial ha.functionName.2 hb.functionName.2 hfunction
  have hmessage := (List.cons.inj (List.cons.inj (List.cons.inj (List.cons.inj hreset).2).2).2).2
  obtain ⟨rfl, hrest⟩ := cut ha.message hb.message hmessage
  exact ⟨rfl, hrest⟩

theorem line_begins : Begins (fun _ => True) Line.text := by
  intro l
  cases ht : l.timestamp with
  | nil => exact ⟨' ', _, by rw [Line.text, ht]; rfl, trivial⟩
  | cons c rest => exact ⟨c, _, by rw [Line.text, ht]; rfl, trivial⟩

/-- A call whose source location and message leave its line legible. -/
structure Entry.Legible (e : Entry Thread Args) : Prop where
  fileName : ':' ∉ e.call.fwsl.sourceLocation.fileName
  functionName : esc ∉ e.call.fwsl.sourceLocation.functionName
  message : '\n' ∉ e.message

theorem esc_not_stamp (localtime : Int → Tm) (now : Int) : esc ∉ stamp localtime now := by
  have hdigits : ∀ n num, esc ∉ fixed n num := by
    intro n num hm
    have hdigit := fixed_digits n num esc hm
    revert hdigit
    decide
  have hfield : ∀ n num, ∀ c, c ≠ esc → esc ∉ field n c num := by
    intro n num c hc
    unfold field
    split
    · exact List.not_mem_cons_of_ne_of_not_mem hc.symm (hdigits n num)
    · exact hdigits n num
  simp only [stamp, date, millis, List.mem_append, not_or]
  exact ⟨⟨⟨⟨⟨⟨hfield _ _ _ (by decide), hfield _ _ _ (by decide)⟩, hfield _ _ _ (by decide)⟩,
    hfield _ _ _ (by decide)⟩, hfield _ _ _ (by decide)⟩, hfield _ _ _ (by decide)⟩, hfield _ _ _ (by decide)⟩

theorem mem_lines {begun : Thread → Bool} {entries : List (Entry Thread Args)} {l : Line}
    (h : l ∈ lines localtime begun entries) : ∃ e ∈ entries, ∃ timestamp, esc ∉ timestamp ∧ l = e.line timestamp := by
  induction entries generalizing begun with
  | nil => cases h
  | cons e entries ih =>
    rw [lines, List.mem_cons] at h
    rcases h with h | h
    · refine ⟨e, List.mem_cons_self, _, ?_, h⟩
      split
      · rw [fullTimestamp_eq]
        exact esc_not_stamp localtime e.call.now
      · exact List.not_mem_nil
    · obtain ⟨e', he, hl⟩ := ih h
      exact ⟨e', List.mem_cons_of_mem e he, hl⟩

omit [DecidableEq Thread] in
theorem Entry.Legible.line {e : Entry Thread Args} (h : e.Legible) {timestamp : Text} (ht : esc ∉ timestamp) :
    (e.line timestamp).Legible := by
  constructor
  · exact ht
  · exact h.fileName
  · show esc ∉ Log.functionName e.level e.call.fwsl.sourceLocation ∧ Stops _ (Log.functionName e.level _)
    unfold Log.functionName
    split
    · refine ⟨?_, stops_cons (by decide)⟩
      rw [List.mem_cons, List.mem_append, List.mem_singleton, not_or, not_or]
      exact ⟨by decide, h.functionName, by decide⟩
    · exact ⟨List.not_mem_nil, stops_nil⟩
  · exact h.message

variable (localtime vformat) in
/-- The lines of a run. -/
def written (uses : List (Use Thread Args)) : List Line :=
  lines localtime (fun _ => false) (logged vformat {} uses)

theorem clog_written (uses : List (Use Thread Args)) :
    (Console.initial.run localtime vformat uses).clog = texts (written localtime vformat uses) :=
  run_clog (fun _ => known_initial localtime) uses

theorem written_legible {uses : List (Use Thread Args)} (h : ∀ e ∈ logged vformat {} uses, e.Legible) :
    ∀ l ∈ written localtime vformat uses, l.Legible := by
  intro l hl
  obtain ⟨e, he, timestamp, ht, rfl⟩ := mem_lines hl
  exact (h e he).line ht

/-- **The log is read back**: runs that leave the same text, wherever and with whatever formats,
have written the same lines, one by one the timestamps, levels, styles, places and messages. -/
theorem clog_readable {localtime' : Int → Tm} {vformat' : Text → Args → Option Text}
    {uses uses' : List (Use Thread Args)} (h : ∀ e ∈ logged vformat {} uses, e.Legible)
    (h' : ∀ e ∈ logged vformat' {} uses', e.Legible)
    (he : (Console.initial.run localtime vformat uses).clog =
      (Console.initial.run localtime' vformat' uses').clog) :
    written localtime vformat uses = written localtime' vformat' uses' := by
  rw [clog_written, clog_written] at he
  exact line_readable.many line_begins (fun _ _ => trivial) (written_legible h) (written_legible h') he

/-- A call of the main thread, with a message that is written as it stands. -/
def sayHi : Call Unit Unit :=
  ⟨(), ⟨['h', 'i'], ⟨['m', 'a', 'i', 'n', '.', 'c', 'p', 'p'], 7, ['m', 'a', 'i', 'n']⟩⟩, (), 1000000000⟩

/-- What is filtered leaves nothing to read, and one second after the epoch two clocks agree. -/
theorem clog_readable_filtered :
    written (fun _ => ⟨1, 0, 0, 1, 0, 70⟩) (fun fmt _ => some fmt)
        [.log .fatal sayHi, .setLevel .warn, .log .info sayHi, .log .error sayHi] =
      written (fun second => ⟨second, 0, 0, 1, 0, 70⟩) (fun fmt _ => some fmt)
        [.log .fatal sayHi, .log .error sayHi] :=
  clog_readable (List.forall_mem_cons.2 ⟨⟨by decide, by decide, by decide⟩,
      List.forall_mem_singleton.2 ⟨by decide, by decide, by decide⟩⟩)
    (List.forall_mem_cons.2 ⟨⟨by decide, by decide, by decide⟩,
      List.forall_mem_singleton.2 ⟨by decide, by decide, by decide⟩⟩)
    (by rw [clog_written, clog_written]; rfl)

/-! ### On a terminal -/

def LogLevel.colour : LogLevel → LogStyle → Rendition
  | .trace, .fg => {fg := some 6}
  | .debug, .fg => {fg := some 12}
  | .info, .fg => {fg := some 2}
  | .warn, .fg => {fg := some 3}
  | .error, .fg => {fg := some 1}
  | .fatal, .fg => {fg := some 5}
  | .trace, .bg => {fg := some 15, bg := some 6}
  | .debug, .bg => {fg := some 15, bg := some 4}
  | .info, .bg => {fg := some 15, bg := some 2}
  | .warn, .bg => {fg := some 8, bg := some 3}
  | .error, .bg => {fg := some 15, bg := some 1}
  | .fatal, .bg => {fg := some 15, bg := some 5}

/-- The level in its colour, the place in grey, and the rest as the terminal has it. -/
def Line.cells (l : Line) : List (Char × Rendition) :=
  Terminal.cells {} (l.timestamp ++ [' ', '|']) ++ (Terminal.cells (l.level.colour l.style) l.level.toString ++
    (Terminal.cells {} ['|', ' '] ++
      (Terminal.cells {fg := some 8} (l.fileName ++ ([':'] ++ (Nat.toDigits 10 l.line ++ l.functionName))) ++
        Terminal.cells {} ([' '] ++ (l.message ++ ['\n'])))))

/-- No part has sequences of its own. -/
structure Line.Plain (l : Line) : Prop where
  timestamp : esc ∉ l.timestamp
  fileName : esc ∉ l.fileName
  functionName : esc ∉ l.functionName
  message : esc ∉ l.message

theorem shows_color (level : LogLevel) (style : LogStyle) :
    Terminal.Shows {} (toColor level style) [] ⟨.text, level.colour style⟩ := by
  have hselect : (numbers level style).foldl Rendition.select {} = level.colour style := by
    cases style <;> cases level <;> rfl
  have hne : numbers level style ≠ [] := by cases style <;> cases level <;> simp [numbers]
  rw [toColor_eq, ← hselect]
  exact Terminal.shows_sgr {} hne

theorem shows_reset (r : Rendition) : Terminal.Shows ⟨.text, r⟩ resetColor [] {} := by
  have hreset : resetColor = Terminal.sgr [0] := rfl
  rw [hreset]
  exact Terminal.shows_sgr r (List.cons_ne_nil 0 [])

theorem shows_source : Terminal.Shows {} sourceColor [] ⟨.text, {fg := some 8}⟩ := by
  have hsource : sourceColor = Terminal.sgr [90] := rfl
  rw [hsource]
  exact Terminal.shows_sgr {} (List.cons_ne_nil 90 [])

theorem shows_line {l : Line} (h : l.Plain) : Terminal.Shows {} l.text l.cells {} := by
  have hlevel : leftAligned 5 l.level.toString = l.level.toString := by cases l.level <;> rfl
  have hname : esc ∉ l.level.toString := by cases l.level <;> decide
  have hbar : esc ∉ ['|', ' '] := by decide
  have htime : esc ∉ l.timestamp ++ [' ', '|'] := by
    rw [List.mem_append, not_or]
    exact ⟨h.timestamp, by decide⟩
  have hplace : esc ∉ l.fileName ++ ([':'] ++ (Nat.toDigits 10 l.line ++ l.functionName)) := by
    simp only [List.mem_append, not_or]
    exact ⟨h.fileName, by decide, Terminal.esc_not_digits l.line, h.functionName⟩
  have hmessage : esc ∉ [' '] ++ (l.message ++ ['\n']) := by
    simp only [List.mem_append, not_or]
    exact ⟨by decide, h.message, by decide⟩
  have hend := (shows_reset {fg := some 8}).append (Terminal.shows_plain hmessage)
  have hgrey := shows_source.append ((Terminal.shows_plain hplace).append hend)
  have hrest := (shows_reset (l.level.colour l.style)).append ((Terminal.shows_plain hbar).append hgrey)
  have hshows := (Terminal.shows_plain htime).append
    ((shows_color l.level l.style).append ((Terminal.shows_plain hname).append hrest))
  have htext : l.text = (l.timestamp ++ [' ', '|']) ++ (toColor l.level l.style ++ (l.level.toString ++
      (resetColor ++ (['|', ' '] ++ (sourceColor ++ ((l.fileName ++ ([':'] ++ (Nat.toDigits 10 l.line ++
        l.functionName))) ++ (resetColor ++ ([' '] ++ (l.message ++ ['\n']))))))))) := by
    simp only [Line.text, hlevel, List.append_assoc]
  rw [htext]
  exact hshows

theorem shows_texts {ls : List Line} (h : ∀ l ∈ ls, l.Plain) :
    Terminal.Shows {} (texts ls) (ls.flatMap Line.cells) {} := by
  induction ls with
  | nil => exact .nil
  | cons l ls ih =>
    have hrest := ih fun l' hl => h l' (List.mem_cons_of_mem l hl)
    rw [texts_cons, List.flatMap_cons]
    exact (shows_line (h l List.mem_cons_self)).append hrest

/-- A call whose source location and message have no sequences of their own. -/
structure Entry.Plain (e : Entry Thread Args) : Prop where
  fileName : esc ∉ e.call.fwsl.sourceLocation.fileName
  functionName : esc ∉ e.call.fwsl.sourceLocation.functionName
  message : esc ∉ e.message

omit [DecidableEq Thread] in
theorem Entry.Plain.line {e : Entry Thread Args} (h : e.Plain) {timestamp : Text} (ht : esc ∉ timestamp) :
    (e.line timestamp).Plain := by
  constructor
  · exact ht
  · exact h.fileName
  · show esc ∉ Log.functionName e.level e.call.fwsl.sourceLocation
    unfold Log.functionName
    split
    · rw [List.mem_cons, List.mem_append, List.mem_singleton, not_or, not_or]
      exact ⟨by decide, h.functionName, by decide⟩
    · exact List.not_mem_nil
  · exact h.message

/-- **Colours stay where they belong**: on a terminal every line shows its level in the colour
of the level and the style in force, its place in grey, and everything else in the rendition
of the terminal, which is what the run leaves selected, if no place and no message has
sequences of its own. -/
theorem clog_shown {uses : List (Use Thread Args)} (h : ∀ e ∈ logged vformat {} uses, e.Plain) :
    Terminal.Shows {} (Console.initial.run localtime vformat uses).clog
      ((written localtime vformat uses).flatMap Line.cells) {} := by
  rw [clog_written]
  apply shows_texts
  intro l hl
  obtain ⟨e, he, timestamp, ht, rfl⟩ := mem_lines hl
  exact (h e he).line ht

theorem clog_shown_styles :
    Terminal.Shows {} (Console.initial.run (fun _ => ⟨1, 0, 0, 1, 0, 70⟩) (fun fmt _ => some fmt)
        [.log .debug sayHi, .setStyle .bg, .log .error sayHi]).clog
      ((written (fun _ => ⟨1, 0, 0, 1, 0, 70⟩) (fun fmt _ => some fmt)
        [.log .debug sayHi, .setStyle .bg, .log .error sayHi]).flatMap Line.cells) {} :=
  clog_shown (List.forall_mem_cons.2 ⟨⟨by decide, by decide, by decide⟩,
    List.forall_mem_singleton.2 ⟨by decide, by decide, by decide⟩⟩)

end

end ExploreCpp.Log
