import ExploreCpp.Readable

/-! A terminal that understands the sequences which select a graphic rendition.

The terminal takes a text symbol by symbol. What stands between `ESC [` and `m` are the
numbers of what to select; everything else is shown, in the rendition selected last.
`Terminal.shown` is what a text looks like, and `Terminal.after` what it leaves selected
for the text behind it. -/
namespace ExploreCpp

def esc : Char := Char.ofNat 27

/-- Colours are numbered from 0 to 7, and from 8 to 15 where they are bright. -/
structure Rendition where
  fg : Option Nat := none
  bg : Option Nat := none
  bold : Bool := false
  dim : Bool := false
  italic : Bool := false
  underline : Bool := false
  blink : Bool := false
  rblink : Bool := false
  reversed : Bool := false
  conceal : Bool := false
  crossed : Bool := false
deriving DecidableEq, Repr

def Rendition.select (r : Rendition) (n : Nat) : Rendition :=
  match n with
  | 0 => {}
  | 1 => {r with bold := true}
  | 2 => {r with dim := true}
  | 3 => {r with italic := true}
  | 4 => {r with underline := true}
  | 5 => {r with blink := true}
  | 6 => {r with rblink := true}
  | 7 => {r with reversed := true}
  | 8 => {r with conceal := true}
  | 9 => {r with crossed := true}
  | 39 => {r with fg := none}
  | 49 => {r with bg := none}
  | n =>
    if 30 ≤ n ∧ n < 38 then {r with fg := some (n - 30)}
    else if 40 ≤ n ∧ n < 48 then {r with bg := some (n - 40)}
    else if 90 ≤ n ∧ n < 98 then {r with fg := some (n - 90 + 8)}
    else if 100 ≤ n ∧ n < 108 then {r with bg := some (n - 100 + 8)}
    else r

/-- Where in a sequence the terminal is. -/
inductive Reading where
  | text
  | escape
  /-- With what the numbers before select, and the number so far. -/
  | numbers (selected : Rendition) (n : Nat)
deriving DecidableEq, Repr

structure Terminal where
  reading : Reading := .text
  rendition : Rendition := {}
deriving DecidableEq, Repr

namespace Terminal

def next (t : Terminal) (c : Char) : Terminal :=
  match t.reading with
  | .text => if c = esc then {t with reading := .escape} else t
  | .escape => if c = '[' then {t with reading := .numbers t.rendition 0} else {t with reading := .text}
  | .numbers selected n =>
    if c = 'm' then ⟨.text, selected.select n⟩
    else if c = ';' then {t with reading := .numbers (selected.select n) 0}
    else if c.isDigit then {t with reading := .numbers selected (10 * n + (c.toNat - '0'.toNat))}
    else {t with reading := .text}

def cell (t : Terminal) (c : Char) : List (Char × Rendition) :=
  if t.reading = .text ∧ c ≠ esc then [(c, t.rendition)] else []

def after (t : Terminal) (text : List Char) : Terminal := text.foldl next t

def shown : Terminal → List Char → List (Char × Rendition)
  | _, [] => []
  | t, c :: text => t.cell c ++ shown (t.next c) text

theorem after_append (t : Terminal) (a b : List Char) : t.after (a ++ b) = (t.after a).after b :=
  List.foldl_append

theorem shown_append (t : Terminal) (a b : List Char) :
    t.shown (a ++ b) = t.shown a ++ (t.after a).shown b := by
  induction a generalizing t with
  | nil => rfl
  | cons c a ih =>
    show t.cell c ++ (t.next c).shown (a ++ b) = t.cell c ++ (t.next c).shown a ++ _
    rw [ih, List.append_assoc]
    rfl

/-- From the one terminal to the other the text shows these cells. -/
structure Shows (t : Terminal) (text : List Char) (cells : List (Char × Rendition)) (t' : Terminal) : Prop where
  shown : t.shown text = cells
  after : t.after text = t'

variable {t t' t'' : Terminal} {r : Rendition}

theorem Shows.append {a b : List Char} {cells cells' : List (Char × Rendition)} (h : Shows t a cells t')
    (h' : Shows t' b cells' t'') : Shows t (a ++ b) (cells ++ cells') t'' := by
  constructor
  · rw [shown_append, h.after, h.shown, h'.shown]
  · rw [after_append, h.after, h'.after]

theorem Shows.nil : Shows t [] [] t := ⟨rfl, rfl⟩

theorem Shows.one (t : Terminal) (c : Char) : Shows t [c] (t.cell c) (t.next c) :=
  ⟨List.append_nil _, rfl⟩

/-! ### Plain text -/

/-- The text in one rendition. -/
def cells (r : Rendition) (text : List Char) : List (Char × Rendition) := text.map (·, r)

theorem shows_plain {text : List Char} (h : esc ∉ text) :
    Shows ⟨.text, r⟩ text (cells r text) ⟨.text, r⟩ := by
  induction text with
  | nil => exact .nil
  | cons c text ih =>
    obtain ⟨hc, htext⟩ := List.ne_and_not_mem_of_not_mem_cons h
    have hcell : (⟨.text, r⟩ : Terminal).cell c = [(c, r)] := by simp [cell, hc.symm]
    have hnext : (⟨.text, r⟩ : Terminal).next c = ⟨.text, r⟩ := by simp [next, hc.symm]
    have hfirst := Shows.one ⟨.text, r⟩ c
    rw [hcell, hnext] at hfirst
    exact hfirst.append (ih htext)

/-! ### Sequences -/

/-- The sequence that selects by these numbers. -/
def sgr (numbers : List Nat) : List Char :=
  esc :: '[' :: (separated [';'] true (numbers.map (Nat.toDigits 10)) ++ ['m'])

theorem esc_not_digits (n : Nat) : esc ∉ Nat.toDigits 10 n := by
  intro hm
  have hdigit : esc.isDigit = true := Nat.isDigit_of_mem_toDigits (by decide) (by decide) hm
  revert hdigit
  decide

/-- Within a sequence nothing is shown. -/
theorem shows_one (h : t.reading ≠ .text) (c : Char) : Shows t [c] [] (t.next c) := by
  have hcell : t.cell c = [] := by simp [cell, h]
  have hone := Shows.one t c
  rwa [hcell] at hone

theorem next_digit {selected : Rendition} {n : Nat} {c : Char} (h : c.isDigit = true) :
    (⟨.numbers selected n, r⟩ : Terminal).next c =
      ⟨.numbers selected (10 * n + (c.toNat - '0'.toNat)), r⟩ := by
  have hm : c ≠ 'm' := by
    intro he
    rw [he] at h
    cases h
  have hsemi : c ≠ ';' := by
    intro he
    rw [he] at h
    cases h
  simp [next, h, hm, hsemi]

theorem shows_digits {selected : Rendition} {digits : List Char} (h : ∀ c ∈ digits, c.isDigit = true)
    (n : Nat) :
    Shows ⟨.numbers selected n, r⟩ digits [] ⟨.numbers selected (Nat.ofDigitChars 10 digits n), r⟩ := by
  induction digits generalizing n with
  | nil => exact .nil
  | cons c digits ih =>
    have hfirst := shows_one (t := ⟨.numbers selected n, r⟩) (by simp) c
    rw [next_digit (h c List.mem_cons_self)] at hfirst
    have hrest := ih (fun d hd => h d (List.mem_cons_of_mem c hd)) (10 * n + (c.toNat - '0'.toNat))
    rw [Nat.ofDigitChars_cons]
    exact hfirst.append hrest

theorem shows_number (selected : Rendition) (n : Nat) :
    Shows ⟨.numbers selected 0, r⟩ (Nat.toDigits 10 n) [] ⟨.numbers selected n, r⟩ := by
  have hdigits : ∀ c ∈ Nat.toDigits 10 n, c.isDigit = true :=
    fun c hc => Nat.isDigit_of_mem_toDigits (by decide) (by decide) hc
  have hshows : Shows ⟨.numbers selected 0, r⟩ (Nat.toDigits 10 n) []
      ⟨.numbers selected (Nat.ofDigitChars 10 (Nat.toDigits 10 n) 0), r⟩ := shows_digits hdigits 0
  rwa [Nat.ofDigitChars_ten_toDigits] at hshows

/-- The numbers behind the first, up to the end of the sequence. -/
theorem shows_numbers (selected : Rendition) (n : Nat) (numbers : List Nat) :
    Shows ⟨.numbers selected n, r⟩ (separated [';'] false (numbers.map (Nat.toDigits 10)) ++ ['m']) []
      ⟨.text, numbers.foldl Rendition.select (selected.select n)⟩ := by
  induction numbers generalizing selected n with
  | nil => exact shows_one (by simp) 'm'
  | cons m numbers ih =>
    have hsemi : Shows ⟨.numbers selected n, r⟩ [';'] [] ⟨.numbers (selected.select n) 0, r⟩ :=
      shows_one (by simp) ';'
    have hrest := (hsemi.append (shows_number (selected.select n) m)).append (ih (selected.select n) m)
    rw [List.map_cons, separated, List.append_assoc]
    exact hrest

theorem shows_sgr (r : Rendition) {numbers : List Nat} (h : numbers ≠ []) :
    Shows ⟨.text, r⟩ (sgr numbers) [] ⟨.text, numbers.foldl Rendition.select r⟩ := by
  obtain ⟨n, rest, rfl⟩ := List.exists_cons_of_ne_nil h
  have hopen : Shows ⟨.text, r⟩ [esc, '['] [] ⟨.numbers r 0, r⟩ := ⟨rfl, rfl⟩
  have hrest := (hopen.append (shows_number r n)).append (shows_numbers r n rest)
  rw [List.append_assoc] at hrest
  show Shows ⟨.text, r⟩ ([esc, '['] ++ ((Nat.toDigits 10 n ++ separated [';'] false _) ++ ['m'])) _ _
  rw [List.append_assoc]
  exact hrest

end Terminal

end ExploreCpp
