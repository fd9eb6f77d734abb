import ExploreCpp.Print.Unique

/-! What calls of `print` leave in the standard output.

A call puts blanks between its arguments and a newline behind them. Strings may have both, so
neither a blank nor a newline says where an argument ends; with the types of the calls known
the output still says what was printed (`output_readable`). -/
namespace ExploreCpp.Print

/-- The types of the arguments of a call, of which there is one at least. -/
abbrev Site := Shape × List Shape

abbrev Site.Arguments (site : Site) : Type := Value site.1 × Values site.2

/-- The fold over `ts`. -/
def printRest : (elems : List Shape) → Values elems → Text
  | [], _ => []
  | elem :: elems, ts => ' ' :: (printTo elem ts.1 ++ printRest elems ts.2)

/-- `print_hpp::print`, for one argument and for several. -/
def print : (site : Site) → site.Arguments → Text
  | (elem, []), (t, _) => printTo elem t ++ ['\n']
  | (elem, elems), (t, ts) => printTo elem t ++ (printRest elems ts ++ ['\n'])

/-- What the calls of a run leave in `std::cout`. -/
def output (calls : List (Sigma Site.Arguments)) : Text := calls.flatMap fun call => print call.1 call.2

def Site.Distinct (site : Site) : Prop := site.1.Distinct ∧ AllDistinct site.2

def Site.Quoteless (site : Site) (arguments : site.Arguments) : Prop :=
  Print.Quoteless site.1 arguments.1 ∧ AllQuoteless site.2 arguments.2

theorem print_eq (site : Site) (arguments : site.Arguments) :
    print site arguments = (printTo site.1 arguments.1 ++ printRest site.2 arguments.2) ++ ['\n'] := by
  obtain ⟨elem, elems⟩ := site
  obtain ⟨t, ts⟩ := arguments
  cases elems with
  | nil =>
    show printTo elem t ++ ['\n'] = (printTo elem t ++ []) ++ ['\n']
    rw [List.append_nil]
  | cons next elems => exact (List.append_assoc ..).symm

theorem print_ne_nil (site : Site) (arguments : site.Arguments) : print site arguments ≠ [] := by
  rw [print_eq]
  exact List.append_ne_nil_of_right_ne_nil _ (List.cons_ne_nil _ _)

/-- Behind an argument stands a blank or what is behind the last one. -/
theorem printRest_stops (elems : List Shape) (ts : Values elems) {rest : Text} (h : Stops Stop rest) :
    Stops Stop (printRest elems ts ++ rest) := by
  cases elems with
  | nil => exact h
  | cons elem elems => exact stops_cons (by decide)

theorem printRest_readable (elems : List Shape) (h : AllDistinct elems) :
    Readable (AllQuoteless elems) Stop (printRest elems) := by
  induction elems with
  | nil => exact fun _ _ _ _ _ _ _ _ he => ⟨rfl, he⟩
  | cons elem elems ih =>
    have hpair := (printTo_readable elem h.1).pair (ih h.2) fun ts _ => printRest_stops elems ts
    exact hpair.after [' ']

theorem print_readable (site : Site) (h : site.Distinct) : Readable site.Quoteless (fun _ => True) (print site) := by
  have hpair := (printTo_readable site.1 h.1).pair (printRest_readable site.2 h.2)
    fun ts _ => printRest_stops site.2 ts
  have hprint : print site = fun arguments => (printTo site.1 arguments.1 ++ printRest site.2 arguments.2) ++ ['\n'] := by
    funext arguments
    exact print_eq site arguments
  have hnewline : Stop '\n' := by decide
  rw [hprint]
  exact hpair.closed hnewline

/-- **The output can be read back**: two runs that come by the same calls, as far as they get,
and leave the same output have printed the same values, call by call, if the calls print
strings without quotes and types whose optionals and variants are told by their text. -/
theorem output_readable {sites : List Site} (hsites : ∀ site ∈ sites, site.Distinct)
    {calls calls' : List (Sigma Site.Arguments)} (hcalls : calls.map Sigma.fst <+: sites)
    (hcalls' : calls'.map Sigma.fst <+: sites) (hquoteless : ∀ call ∈ calls, call.1.Quoteless call.2)
    (hquoteless' : ∀ call ∈ calls', call.1.Quoteless call.2) (h : output calls = output calls') :
    calls = calls' :=
  Readable.sequence print_readable print_ne_nil hsites hcalls hcalls' hquoteless hquoteless' h

/-- A string that ends like an argument and like a line, and a number. -/
def line : Sigma Site.Arguments := ⟨(.string, [.integral]), (['a', ' ', '\n'], (7 : Int), ())⟩

theorem output_readable_line : List.replicate 2 line = [line, line] := by
  have hsites : ∀ site ∈ [line.1, line.1], site.Distinct := by simp [line, Site.Distinct, Shape.Distinct, AllDistinct]
  have hprefix : [line, line].map Sigma.fst <+: [line.1, line.1] := List.prefix_refl _
  have hline : '"' ∉ ['a', ' ', '\n'] := by decide
  have hquoteless : ∀ call ∈ [line, line], call.1.Quoteless call.2 := by
    intro call hcall
    obtain rfl : call = line := by simpa using hcall
    exact ⟨hline, trivial, trivial⟩
  exact output_readable hsites hprefix hprefix hquoteless hquoteless rfl

example : output [line, ⟨(.bool, []), (true, ())⟩] =
    ['"', 'a', ' ', '\n', '"', ' ', '7', '\n', 't', 'r', 'u', 'e', '\n'] := rfl

end ExploreCpp.Print
