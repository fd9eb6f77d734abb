import ExploreCpp.Rang.Control
import Mathlib.Data.Nat.Bitwise

/-! The colours of `rang.hpp` on a Windows console.

A console that knows no sequences has an attribute, which the symbols written to it get.
`setWinColorNative` keeps what is selected in `current_state`, writes out what the stream
still holds and sets the attribute by `SGR2Attr`. `attributes` says what of a rendition such
a console shows; the screen has that of the renditions a terminal has which gets the
sequences (`native_as_ansi`).

The handles of standard output and standard error are the console's, and the mode for the
terminal is set before the run. -/
namespace ExploreCpp.Rang.Windows

/-! ### Renditions -/

def foregroundIntensity : Nat := 8
def backgroundIntensity : Nat := 128

structure SGR where
  fgColor : Nat
  bgColor : Nat
  bold : Nat
  underline : Nat
  inverse : Bool
  conceal : Bool
deriving DecidableEq, Repr

/-- `AttrColor`, in the order of the colours. -/
def rev : List Nat := [0, 4, 2, 6, 1, 5, 3, 7]

def ansi2attr (rgb : Nat) : Nat := rev.getD rgb 0

/-- With the attributes of the console, if it can be asked for them. -/
def defaultState (info : Option Nat) : SGR :=
  let attrib := info.getD 7
  ⟨attrib &&& 0x0F, (attrib &&& 0xF0) >>> 4, 0, 0, false, false⟩

section
variable (default : SGR)

def setWinStyle (style : Style) (state : SGR) : SGR :=
  match style with
  | .reset => default
  | .bold => {state with bold := foregroundIntensity}
  | .underline | .blink => {state with underline := backgroundIntensity}
  | .reversed => {state with inverse := true}
  | .conceal => {state with conceal := true}
  | _ => state

def setWinSGR (value : Item) (state : SGR) : SGR :=
  match value with
  | .bg col => {state with bgColor := ansi2attr ((Item.bg col).value - 40)}
  | .bgReset => {state with bgColor := default.bgColor}
  | .fg col => {state with fgColor := ansi2attr ((Item.fg col).value - 30)}
  | .fgReset => {state with fgColor := default.fgColor}
  | .bgB col => {state with bgColor := (backgroundIntensity >>> 4) ||| ansi2attr ((Item.bgB col).value - 100)}
  | .fgB col => {state with fgColor := foregroundIntensity ||| ansi2attr ((Item.fgB col).value - 90)}
  | .style style => setWinStyle default style state

end

def sgr2Attr (state : SGR) : Nat :=
  if state.conceal then
    if state.inverse then
      let attrib := (state.fgColor <<< 4) ||| state.fgColor
      if state.bold ≠ 0 then attrib ||| (foregroundIntensity ||| backgroundIntensity) else attrib
    else
      let attrib := (state.bgColor <<< 4) ||| state.bgColor
      if state.underline ≠ 0 then attrib ||| (foregroundIntensity ||| backgroundIntensity) else attrib
  else if state.inverse then
    let attrib := (state.fgColor <<< 4) ||| state.bgColor
    let attrib := if state.bold ≠ 0 then attrib ||| backgroundIntensity else attrib
    if state.underline ≠ 0 then attrib ||| foregroundIntensity else attrib
  else state.fgColor ||| (state.bgColor <<< 4) ||| state.bold ||| state.underline

/-! ### Streams on the console -/

inductive WinTerm where
  | auto
  | ansi
  | native
deriving DecidableEq, Repr

/-- The mode for the terminal, with what `supportsAnsi` says of the streams. -/
structure Setting where
  termMode : WinTerm
  coutAnsi : Bool
  cerrAnsi : Bool

def Setting.supportsAnsi (setting : Setting) : Stream → Bool
  | .cout => setting.coutAnsi
  | .cerr | .clog => setting.cerrAnsi
  | .other _ => false

/-- Whether `setColor` writes the sequence. -/
def Setting.ansi (setting : Setting) (os : Stream) : Bool :=
  match setting.termMode with
  | .auto => setting.supportsAnsi os
  | .ansi => true
  | .native => false

structure Console where
  wAttributes : Nat
  /-- What has been written, each symbol with the attribute at the time. -/
  written : List (Char × Nat)

def Console.write (console : Console) (text : Text) : Console :=
  {console with written := console.written ++ text.map (·, console.wAttributes)}

/-- Whether `getConsoleHandle` has a handle. -/
def onConsole : Stream → Bool
  | .other _ => false
  | _ => true

structure State where
  /-- `result` is a constant here. -/
  statics : Statics
  defaultSgr : Option SGR
  currentState : Option SGR
  /-- What the streams hold back. -/
  buffer : Stream → Text
  console : Console

def State.initial (attrib : Nat) : State := ⟨.initial, none, none, fun _ => [], ⟨attrib, []⟩⟩

def State.put (s : State) (os : Stream) (text : Text) : State :=
  {s with buffer := Function.update s.buffer os (s.buffer os ++ text)}

def State.flush (s : State) (os : Stream) : State :=
  let s' := {s with buffer := Function.update s.buffer os []}
  if onConsole os then {s' with console := s.console.write (s.buffer os)} else s'

/-- The static of `defaultState`. -/
def State.default (s : State) : SGR := s.defaultSgr.getD (defaultState (some s.console.wAttributes))

/-- `current_state()` -/
def State.current (s : State) : SGR := s.currentState.getD s.default

def setWinColorAnsi (os : Stream) (value : Item) (s : State) : State := s.put os (setColor value)

def setWinColorNative (os : Stream) (value : Item) (s : State) : State :=
  if onConsole os then
    let sgr := setWinSGR s.default value s.current
    -- what is held back still gets the attribute before
    let s' := {s with defaultSgr := some s.default, currentState := some sgr}.flush os
    {s' with console := {s'.console with wAttributes := sgr2Attr sgr}}
  else s

/-- As elsewhere, with `supportsColor` a constant. -/
def allows (env : Environment) (os : Stream) (s : Statics) : Bool × Statics :=
  match s.controlMode with
  | .auto => isTerminal env os s
  | .force => (true, s)
  | .off => (false, s)

/-- Streams are flushed by themselves, too. -/
inductive Event where
  | setControlMode (value : Control)
  | text (os : Stream) (text : Text)
  | item (os : Stream) (value : Item) (env : Environment)
  | flush (os : Stream)

def State.next (setting : Setting) (s : State) : Event → State
  | .setControlMode value => {s with statics := {s.statics with controlMode := value}}
  | .text os text => s.put os text
  | .item os value env =>
    let (allowed, statics) := allows env os s.statics
    let s' := {s with statics := statics}
    if allowed then if setting.ansi os then setWinColorAnsi os value s' else setWinColorNative os value s' else s'
  | .flush os => s.flush os

def State.run (setting : Setting) (s : State) (events : List Event) : State := events.foldl (State.next setting) s

/-! ### What a console shows of a rendition -/

/-- The bits of a colour the other way round, and the intensity. -/
def bgr (n : Nat) : Nat := n / 8 % 2 * 8 + n % 2 * 4 + n / 2 % 2 * 2 + n / 4 % 2

section
variable (attrib : Nat)

def foreground (r : Rendition) : Nat :=
  r.fg.elim (attrib % 16) bgr ||| if r.bold then 8 else 0

def background (r : Rendition) : Nat :=
  r.bg.elim (attrib / 16 % 16) bgr ||| if r.underline || r.blink then 8 else 0

/-- Bold is a bright foreground, what is underlined or blinks has a bright background; what is
reversed has them swapped, and what is concealed has the background twice. -/
def attributes (r : Rendition) : Nat :=
  let (fg, bg) := if r.reversed then (background attrib r, foreground attrib r)
    else (foreground attrib r, background attrib r)
  (if r.conceal then bg else fg) ||| (bg <<< 4)

end

/-- A state that stands for a rendition. -/
structure Follows (attrib : Nat) (sgr : SGR) (r : Rendition) : Prop where
  fgColor : sgr.fgColor = r.fg.elim (attrib % 16) bgr
  bgColor : sgr.bgColor = r.bg.elim (attrib / 16 % 16) bgr
  bold : sgr.bold = if r.bold then 8 else 0
  underline : sgr.underline = if r.underline || r.blink then 128 else 0
  inverse : sgr.inverse = r.reversed
  conceal : sgr.conceal = r.conceal

theorem follows_default (attrib : Nat) : Follows attrib (defaultState (some attrib)) {} := by
  have hlow : attrib &&& 0x0F = attrib % 16 := Nat.and_two_pow_sub_one_eq_mod attrib 4
  have hhigh : (attrib &&& 0xF0) >>> 4 = attrib / 16 % 16 := by
    have hshift : (attrib &&& 0xF0) >>> 4 = (attrib >>> 4) &&& 0x0F := Nat.shiftRight_and_distrib
    rw [hshift, Nat.shiftRight_eq_div_pow]
    exact Nat.and_two_pow_sub_one_eq_mod _ 4
  exact ⟨hlow, hhigh, rfl, rfl, rfl, rfl⟩

/-- A bright colour in the place of the background. -/
theorem bright_shifted (colour : Nat) : (colour ||| 8) <<< 4 = colour <<< 4 ||| 128 := Nat.shiftLeft_or_distrib

theorem Follows.sgr2Attr {attrib : Nat} {sgr : SGR} {r : Rendition} (h : Follows attrib sgr r) :
    sgr2Attr sgr = attributes attrib r := by
  rw [Windows.sgr2Attr, attributes, foreground, background, h.inverse, h.conceal, h.bold, h.underline, ← h.fgColor,
    ← h.bgColor]
  cases r.conceal <;> cases r.reversed <;> cases r.bold <;> cases (r.underline || r.blink) <;>
    simp [-Nat.reduceOr, bright_shifted, foregroundIntensity, backgroundIntensity] <;> ac_rfl

theorem select_fg (r : Rendition) (col : Color) :
    r.select (Item.fg col).value = {r with fg := some col.value} := by cases col <;> rfl

theorem select_bg (r : Rendition) (col : Color) :
    r.select (Item.bg col).value = {r with bg := some col.value} := by cases col <;> rfl

theorem select_fgB (r : Rendition) (col : Color) :
    r.select (Item.fgB col).value = {r with fg := some (col.value + 8)} := by cases col <;> rfl

theorem select_bgB (r : Rendition) (col : Color) :
    r.select (Item.bgB col).value = {r with bg := some (col.value + 8)} := by cases col <;> rfl

/-- A colour, and a bright one, by its value behind the first of its kind. -/
theorem ansi2attr_sub (first : Nat) (col : Color) :
    ansi2attr (first + col.value - first) = bgr col.value ∧
      8 ||| ansi2attr (first + col.value - first) = bgr (col.value + 8) := by
  rw [Nat.add_sub_cancel_left]
  cases col <;> decide

theorem Follows.setWinStyle {attrib : Nat} {sgr : SGR} {r : Rendition} (h : Follows attrib sgr r) (style : Style) :
    Follows attrib (setWinStyle (defaultState (some attrib)) style sgr) (r.select style.value) := by
  have hblink : 128 = if r.underline || true then 128 else 0 := by rw [Bool.or_true, if_pos rfl]
  cases style with
  | reset => exact follows_default attrib
  | bold => exact ⟨h.fgColor, h.bgColor, rfl, h.underline, h.inverse, h.conceal⟩
  | underline => exact ⟨h.fgColor, h.bgColor, h.bold, rfl, h.inverse, h.conceal⟩
  | blink => exact ⟨h.fgColor, h.bgColor, h.bold, hblink, h.inverse, h.conceal⟩
  | reversed => exact ⟨h.fgColor, h.bgColor, h.bold, h.underline, rfl, h.conceal⟩
  | conceal => exact ⟨h.fgColor, h.bgColor, h.bold, h.underline, h.inverse, rfl⟩
  | dim | italic | rblink | crossed =>
    -- a console has nothing for these
    exact ⟨h.fgColor, h.bgColor, h.bold, h.underline, h.inverse, h.conceal⟩

theorem Follows.setWinSGR {attrib : Nat} {sgr : SGR} {r : Rendition} (h : Follows attrib sgr r) (value : Item) :
    Follows attrib (setWinSGR (defaultState (some attrib)) value sgr) (r.select value.value) := by
  have hdefault := follows_default attrib
  cases value with
  | style style => exact h.setWinStyle style
  | fg col =>
    rw [select_fg]
    have hcol : ansi2attr (30 + col.value - 30) = bgr col.value := (ansi2attr_sub 30 col).1
    exact ⟨hcol, h.bgColor, h.bold, h.underline, h.inverse, h.conceal⟩
  | fgReset => exact ⟨hdefault.fgColor, h.bgColor, h.bold, h.underline, h.inverse, h.conceal⟩
  | bg col =>
    rw [select_bg]
    have hcol : ansi2attr (40 + col.value - 40) = bgr col.value := (ansi2attr_sub 40 col).1
    exact ⟨h.fgColor, hcol, h.bold, h.underline, h.inverse, h.conceal⟩
  | bgReset => exact ⟨h.fgColor, hdefault.bgColor, h.bold, h.underline, h.inverse, h.conceal⟩
  | fgB col =>
    rw [select_fgB]
    have hcol : 8 ||| ansi2attr (90 + col.value - 90) = bgr (col.value + 8) := (ansi2attr_sub 90 col).2
    exact ⟨hcol, h.bgColor, h.bold, h.underline, h.inverse, h.conceal⟩
  | bgB col =>
    rw [select_bgB]
    have hcol : 8 ||| ansi2attr (100 + col.value - 100) = bgr (col.value + 8) := (ansi2attr_sub 100 col).2
    exact ⟨h.fgColor, hcol, h.bold, h.underline, h.inverse, h.conceal⟩

theorem attributes_initial (attrib : Nat) : attributes attrib {} = attrib % 256 := by
  have hor : attrib % 16 ||| (attrib / 16 % 16) <<< 4 = (attrib / 16 % 16) <<< 4 + attrib % 16 := by
    rw [Nat.or_comm, Nat.shiftLeft_add_eq_or_of_lt (i := 4) (by omega)]
  show (attrib % 16 ||| 0) ||| (attrib / 16 % 16 ||| 0) <<< 4 = _
  rw [Nat.or_zero, Nat.or_zero, hor, Nat.shiftLeft_eq]
  omega

theorem bright_lt {colour : Nat} (h : colour < 16) (bright : Bool) : (colour ||| if bright then 8 else 0) < 16 := by
  cases bright with
  | false => simpa using h
  | true => exact Nat.or_lt_two_pow (n := 4) h (by decide)

theorem attributes_lt (attrib : Nat) (r : Rendition) : attributes attrib r < 256 := by
  have hcolour : ∀ colour : Option Nat, ∀ n, n < 16 → colour.elim n bgr < 16 := by
    intro colour n hn
    cases colour with
    | none => exact hn
    | some c =>
      show bgr c < 16
      unfold bgr
      omega
  have hfg : foreground attrib r < 16 := bright_lt (hcolour r.fg _ (by omega)) r.bold
  have hbg : background attrib r < 16 := bright_lt (hcolour r.bg _ (by omega)) (r.underline || r.blink)
  have hboth : ∀ a b, a < 16 → b < 16 → a ||| b <<< 4 < 256 := by
    intro a b ha hb
    have hshift : b <<< 4 < 256 := by
      rw [Nat.shiftLeft_eq]
      omega
    exact Nat.or_lt_two_pow (n := 8) (by omega) hshift
  unfold attributes
  cases r.reversed <;> cases r.conceal <;> apply hboth <;> assumption

/-! ### The two ways -/

def Console.text (console : Console) : Text := console.written.map Prod.fst

/-- The symbols on the screen in their colours. -/
def Console.shown (console : Console) : List (Char × Nat) := console.written.map fun (c, attrib) => (c, attrib % 256)

/-- With a flush behind every item that passes. -/
def flushed : Statics → List Event → List Event
  | _, [] => []
  | s, .setControlMode value :: events => .setControlMode value :: flushed {s with controlMode := value} events
  | s, .text os text :: events => .text os text :: flushed s events
  | s, .item os value env :: events =>
    .item os value env :: ((if (allows env os s).1 then [.flush os] else []) ++ flushed (allows env os s).2 events)
  | s, .flush os :: events => .flush os :: flushed s events

theorem text_write (console : Console) (text : Text) : (console.write text).text = console.text ++ text := by
  simp [Console.write, Console.text, Function.comp_def]

theorem shown_write (console : Console) (text : Text) :
    (console.write text).shown = console.shown ++ text.map (·, console.wAttributes % 256) := by
  simp [Console.write, Console.shown]

/-- A state of the console with attributes, and one of the terminal with the sequences. -/
structure Alike (attrib : Nat) (native ansi : State) (r : Rendition) : Prop where
  statics : native.statics = ansi.statics
  buffer : ∀ os, onConsole os = true → native.buffer os = ansi.buffer os ∧ esc ∉ ansi.buffer os
  default : native.default = defaultState (some attrib)
  current : Follows attrib native.current r
  wAttributes : native.console.wAttributes % 256 = attributes attrib r
  screen : ∃ cells, Terminal.Shows {} ansi.console.text cells ⟨.text, r⟩ ∧
    native.console.shown = cells.map fun (c, r) => (c, attributes attrib r)

section
variable {attrib : Nat} {native ansi : State} {r : Rendition}

theorem alike_initial (attrib : Nat) : Alike attrib (.initial attrib) (.initial attrib) {} where
  statics := rfl
  buffer := fun _ _ => ⟨rfl, List.not_mem_nil⟩
  default := rfl
  current := follows_default attrib
  wAttributes := (attributes_initial attrib).symm
  screen := ⟨[], .nil, rfl⟩

theorem Alike.put (h : Alike attrib native ansi r) {text : Text} (htext : esc ∉ text) (os : Stream) :
    Alike attrib (native.put os text) (ansi.put os text) r := by
  refine ⟨h.statics, ?_, h.default, h.current, h.wAttributes, h.screen⟩
  intro os' hos'
  obtain ⟨hsame, hplain⟩ := h.buffer os' hos'
  by_cases hos : os' = os
  · subst hos
    simp [State.put, hsame, hplain, htext]
  · simp only [State.put, Function.update_of_ne hos]
    exact ⟨hsame, hplain⟩

theorem flush_console {os : Stream} (hos : onConsole os = true) (s : State) :
    s.flush os = {s with buffer := Function.update s.buffer os [], console := s.console.write (s.buffer os)} :=
  if_pos hos

theorem flush_elsewhere {os : Stream} (hos : onConsole os = false) (s : State) :
    s.flush os = {s with buffer := Function.update s.buffer os []} :=
  if_neg (by rw [hos]; decide)

theorem ne_of_onConsole {os os' : Stream} (hos : onConsole os = false) (hos' : onConsole os' = true) : os' ≠ os := by
  intro he
  rw [he, hos] at hos'
  cases hos'

/-- What is not on the console makes no difference. -/
theorem Alike.other (h : Alike attrib native ansi r) {buffer buffer' : Stream → Text}
    (hbuffer : ∀ os, onConsole os = true → buffer os = native.buffer os ∧ buffer' os = ansi.buffer os) :
    Alike attrib {native with buffer := buffer} {ansi with buffer := buffer'} r := by
  refine ⟨h.statics, ?_, h.default, h.current, h.wAttributes, h.screen⟩
  intro os hos
  obtain ⟨hnative, hansi⟩ := hbuffer os hos
  show buffer os = buffer' os ∧ esc ∉ buffer' os
  rw [hnative, hansi]
  exact h.buffer os hos

/-- What is held back is shown in the rendition selected now. -/
theorem Alike.flush (h : Alike attrib native ansi r) (os : Stream) :
    Alike attrib (native.flush os) (ansi.flush os) r := by
  cases hos : onConsole os with
  | false =>
    rw [flush_elsewhere hos, flush_elsewhere hos]
    apply h.other
    intro os' hos'
    have hne : os' ≠ os := ne_of_onConsole hos hos'
    exact ⟨Function.update_of_ne hne _ _, Function.update_of_ne hne _ _⟩
  | true =>
    obtain ⟨hsame, hplain⟩ := h.buffer os hos
    obtain ⟨cells, hshows, hshown⟩ := h.screen
    rw [flush_console hos, flush_console hos, hsame]
    refine ⟨h.statics, ?_, h.default, h.current, h.wAttributes, cells ++ Terminal.cells r (ansi.buffer os), ?_, ?_⟩
    · intro os' hos'
      show Function.update native.buffer os [] os' = Function.update ansi.buffer os [] os' ∧
        esc ∉ Function.update ansi.buffer os [] os'
      by_cases he : os' = os
      · subst he
        simp
      · rw [Function.update_of_ne he, Function.update_of_ne he]
        exact h.buffer os' hos'
    · rw [text_write]
      exact hshows.append (Terminal.shows_plain hplain)
    · rw [shown_write, List.map_append, hshown, h.wAttributes]
      simp [Terminal.cells]

/-- An item takes effect at once here, and with its sequence there. -/
theorem Alike.setWinColor (h : Alike attrib native ansi r) {os : Stream} (hos : onConsole os = true) (value : Item) :
    Alike attrib (setWinColorNative os value native) ((setWinColorAnsi os value ansi).flush os)
      (r.select value.value) := by
  have hflush := h.flush os
  obtain ⟨cells, hshows, hshown⟩ := hflush.screen
  have hcurrent : Follows attrib (Windows.setWinSGR native.default value native.current) (r.select value.value) := by
    rw [h.default]
    exact h.current.setWinSGR value
  have hansi : (setWinColorAnsi os value ansi).flush os =
      {ansi.flush os with console := (ansi.flush os).console.write (setColor value)} := by
    rw [flush_console hos, flush_console hos]
    simp [setWinColorAnsi, State.put, Console.write]
  have hnative : setWinColorNative os value native =
      {native.flush os with
        defaultSgr := some native.default
        currentState := some (Windows.setWinSGR native.default value native.current)
        console := {(native.flush os).console with
          wAttributes := Windows.sgr2Attr (Windows.setWinSGR native.default value native.current)}} := by
    simp only [setWinColorNative, if_pos hos, flush_console hos]
  rw [hansi, hnative]
  refine ⟨hflush.statics, hflush.buffer, h.default, hcurrent, ?_, cells, ?_, hshown⟩
  · show Windows.sgr2Attr _ % 256 = _
    rw [hcurrent.sgr2Attr]
    exact Nat.mod_eq_of_lt (attributes_lt attrib _)
  · rw [text_write, ← List.append_nil cells]
    exact hshows.append (shows_setColor r value)

theorem Alike.statics_set (h : Alike attrib native ansi r) (statics : Statics) :
    Alike attrib {native with statics := statics} {ansi with statics := statics} r :=
  ⟨rfl, h.buffer, h.default, h.current, h.wAttributes, h.screen⟩

/-- An item that passes. -/
theorem Alike.item (h : Alike attrib native ansi r) {setting setting' : Setting}
    (hnative : ∀ os, onConsole os = true → setting.ansi os = false)
    (hansi : ∀ os, onConsole os = true → setting'.ansi os = true) (os : Stream) (value : Item) :
    ∃ r', Alike attrib
      (if setting.ansi os then setWinColorAnsi os value native else setWinColorNative os value native)
      ((if setting'.ansi os then setWinColorAnsi os value ansi else setWinColorNative os value ansi).flush os) r' := by
  cases hos : onConsole os with
  | true =>
    rw [hnative os hos, hansi os hos]
    exact ⟨_, h.setWinColor hos value⟩
  | false =>
    have hput : ∀ (s : State) (text : Text) (os' : Stream), onConsole os' = true →
        (s.put os text).buffer os' = s.buffer os' := by
      intro s text os' hos'
      exact Function.update_of_ne (ne_of_onConsole hos hos') _ _
    have heither : ∀ (s : State) (ansi : Bool), ∃ buffer,
        (if ansi then setWinColorAnsi os value s else setWinColorNative os value s) = {s with buffer := buffer} ∧
          ∀ os', onConsole os' = true → buffer os' = s.buffer os' := by
      intro s ansi
      cases ansi with
      | true => exact ⟨_, rfl, fun os' hos' => hput s _ os' hos'⟩
      | false => exact ⟨s.buffer, by simp [setWinColorNative, hos], fun _ _ => rfl⟩
    obtain ⟨buffer, hfirst, hbuffer⟩ := heither native (setting.ansi os)
    obtain ⟨buffer', hsecond, hbuffer'⟩ := heither ansi (setting'.ansi os)
    rw [hfirst, hsecond, flush_elsewhere hos]
    refine ⟨r, h.other ?_⟩
    intro os' hos'
    have hne : os' ≠ os := ne_of_onConsole hos hos'
    exact ⟨hbuffer os' hos', (Function.update_of_ne hne _ _).trans (hbuffer' os' hos')⟩

theorem flush_statics (s : State) (os : Stream) : (s.flush os).statics = s.statics := by
  unfold State.flush
  split <;> rfl

theorem setColor_statics (ansi : Bool) (os : Stream) (value : Item) (s : State) :
    (if ansi then setWinColorAnsi os value s else setWinColorNative os value s).statics = s.statics := by
  cases ansi with
  | true => rfl
  | false =>
    show (setWinColorNative os value s).statics = s.statics
    unfold setWinColorNative
    split
    · exact flush_statics _ os
    · rfl

/-- The two ways side by side. -/
theorem Alike.run (h : Alike attrib native ansi r) {setting setting' : Setting}
    (hnative : ∀ os, onConsole os = true → setting.ansi os = false)
    (hansi : ∀ os, onConsole os = true → setting'.ansi os = true) {events : List Event}
    (htext : ∀ os text, .text os text ∈ events → esc ∉ text) :
    ∃ r', Alike attrib (native.run setting events) (ansi.run setting' (flushed ansi.statics events)) r' := by
  induction events generalizing native ansi r with
  | nil => exact ⟨r, h⟩
  | cons event events ih =>
    have hrest : ∀ os text, .text os text ∈ events → esc ∉ text :=
      fun os text ht => htext os text (List.mem_cons_of_mem _ ht)
    cases event with
    | setControlMode value =>
      have hmode := h.statics_set {ansi.statics with controlMode := value}
      have hstep := ih hmode hrest
      have hsame : native.next setting (.setControlMode value) =
          {native with statics := {ansi.statics with controlMode := value}} := by
        rw [← h.statics]
        rfl
      show ∃ r', Alike attrib ((native.next setting (.setControlMode value)).run setting events) _ r'
      rw [hsame]
      exact hstep
    | text os text => exact ih (h.put (htext os text List.mem_cons_self) os) hrest
    | flush os =>
      have hstep := ih (h.flush os) hrest
      rw [flush_statics] at hstep
      exact hstep
    | item os value env =>
      have hset := h.statics_set (allows env os ansi.statics).2
      show ∃ r', Alike attrib ((native.next setting (.item os value env)).run setting events)
        ((ansi.next setting' (.item os value env)).run setting'
          ((if (allows env os ansi.statics).1 then [.flush os] else []) ++
            flushed (allows env os ansi.statics).2 events)) r'
      rw [State.next, State.next, h.statics]
      cases hallowed : (allows env os ansi.statics).1 with
      | false =>
        simp only [hallowed, Bool.false_eq_true, if_false]
        exact ih hset hrest
      | true =>
        obtain ⟨r', hitem⟩ := hset.item hnative hansi os value
        have hstep := ih hitem hrest
        rw [flush_statics, setColor_statics] at hstep
        simp only [hallowed, if_true]
        exact hstep

end

/-- **The console shows what a terminal would**: wherever texts without sequences of their own,
items and flushes of the streams fall, the screen has the symbols a terminal shows which gets
the sequences at once, and of each its rendition as far as a console has it. -/
theorem native_as_ansi {setting setting' : Setting} (hnative : ∀ os, onConsole os = true → setting.ansi os = false)
    (hansi : ∀ os, onConsole os = true → setting'.ansi os = true) (attrib : Nat) {events : List Event}
    (htext : ∀ os text, .text os text ∈ events → esc ∉ text) :
    ((State.initial attrib).run setting events).console.shown =
      (Terminal.shown {} ((State.initial attrib).run setting' (flushed .initial events)).console.text).map
        fun (c, r) => (c, attributes attrib r) := by
  obtain ⟨r, h⟩ := (alike_initial attrib).run hnative hansi htext
  obtain ⟨cells, hshows, hshown⟩ := h.screen
  have hcells : Terminal.shown {} ((State.initial attrib).run setting' (flushed .initial events)).console.text =
      cells := hshows.shown
  rw [hcells]
  exact hshown

/-- The texts of two streams, and a heading. -/
def heading : List Event :=
  [.setControlMode .force, .text .cout ['H'], .item .cerr (.style .reversed) ⟨none, false, false⟩, .text .cerr ['E'],
    .flush .cerr, .item .cout (.bgB .red) ⟨none, false, false⟩, .flush .cout]

theorem native_as_ansi_heading :
    ((State.initial 7).run ⟨.native, true, true⟩ heading).console.shown =
      (Terminal.shown {} ((State.initial 7).run ⟨.ansi, false, false⟩ (flushed .initial heading)).console.text).map
        fun (c, r) => (c, attributes 7 r) := by
  apply native_as_ansi
  · exact fun _ _ => rfl
  · exact fun _ _ => rfl
  · intro os text ht
    simp only [heading, List.mem_cons, reduceCtorEq, false_or, Event.text.injEq, List.not_mem_nil, or_false] at ht
    rcases ht with ⟨_, rfl⟩ | ⟨_, rfl⟩ <;> decide

end ExploreCpp.Rang.Windows
