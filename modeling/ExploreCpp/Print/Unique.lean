import ExploreCpp.Print.Printer
import Mathlib.Tactic.IntervalCases

/-! What `P` prints is uniquely readable.

Everything printed ends before a symbol that is not a digit, which is all that separates
an integer from what is behind it, and begins with one of the symbols of its type. -/
namespace ExploreCpp.Print

/-! ### Types -/

mutual

/-- The symbols a value may begin with. -/
def Shape.first : Shape → List Char
  | .integral => ['-', '0', '1', '2', '3', '4', '5', '6', '7', '8', '9']
  | .bool => ['t', 'f']
  | .string => ['"']
  | .nullopt => ['n']
  | .sequence _ => ['[']
  | .mappable _ _ => ['{']
  | .tuple _ => ['(']
  | .optional value => 'n' :: value.first
  | .variant alternatives => firstOf alternatives

def firstOf : List Shape → List Char
  | [] => []
  | alternative :: alternatives => alternative.first ++ firstOf alternatives

end

mutual

/-- No value of an optional begins like `nullopt`, and no two alternatives of a variant
begin alike. -/
def Shape.Distinct : Shape → Prop
  | .integral | .bool | .string | .nullopt => True
  | .sequence elem => elem.Distinct
  | .mappable key mapped => key.Distinct ∧ mapped.Distinct
  | .tuple elems => AllDistinct elems
  | .optional value => 'n' ∉ value.first ∧ value.Distinct
  | .variant alternatives => alternatives.Pairwise (fun a b => a.first.Disjoint b.first) ∧
    AllDistinct alternatives

def AllDistinct : List Shape → Prop
  | [] => True
  | elem :: elems => elem.Distinct ∧ AllDistinct elems

end

mutual

/-- No string of the value contains a double quote. -/
def Quoteless : (s : Shape) → Value s → Prop
  | .integral, _ | .bool, _ | .nullopt, _ => True
  | .string, t => '"' ∉ (show Text from t)
  | .sequence elem, t => ∀ a ∈ (show List (Value elem) from t), Quoteless elem a
  | .mappable key mapped, t => ∀ a ∈ (show List (Value key × Value mapped) from t),
    Quoteless key a.1 ∧ Quoteless mapped a.2
  | .tuple elems, t => AllQuoteless elems t
  | .optional value, t => ∀ a ∈ (show Option (Value value) from t), Quoteless value a
  | .variant alternatives, t => OneQuoteless alternatives t

def AllQuoteless : (elems : List Shape) → Values elems → Prop
  | [], _ => True
  | elem :: elems, t => Quoteless elem t.1 ∧ AllQuoteless elems t.2

def OneQuoteless : (alternatives : List Shape) → OneOf alternatives → Prop
  | [], t => nomatch t
  | alternative :: alternatives, t =>
    Sum.elim (Quoteless alternative) (OneQuoteless alternatives) t

end

/-! ### Integers -/

/-- What may stand behind a value. -/
def Stop (c : Char) : Prop := c.isDigit = false ∧ c ≠ '-'

instance : DecidablePred Stop := fun _ => inferInstanceAs (Decidable (_ ∧ _))

theorem digit_mem {c : Char} (h : c.isDigit = true) : c ∈ Shape.integral.first := by
  have hlow : 48 ≤ c.toNat ∧ c.toNat ≤ 57 := by simpa [Char.isDigit, UInt32.le_iff_toNat_le] using h
  obtain ⟨n, hn⟩ : ∃ n, c.toNat = n := ⟨_, rfl⟩
  rw [← Char.ofNat_toNat c, hn]
  rw [hn] at hlow
  obtain ⟨hl, hu⟩ := hlow
  interval_cases n <;> decide

theorem decimal_begins : Begins (· ∈ Shape.integral.first) decimal := by
  intro n
  cases n with
  | ofNat n =>
    obtain ⟨c, rest, hc⟩ := List.exists_cons_of_ne_nil (Nat.toDigits_ne_nil (n := n) (b := 10))
    refine ⟨c, rest, hc, digit_mem ?_⟩
    exact Nat.isDigit_of_mem_toDigits (by decide) (by decide) (hc ▸ List.mem_cons_self)
  | negSucc n => exact ⟨'-', _, rfl, by decide⟩

theorem toDigits_injective {m n : Nat} (h : Nat.toDigits 10 m = Nat.toDigits 10 n) : m = n := by
  have hm : Nat.ofDigitChars 10 (Nat.toDigits 10 m) 0 = m := Nat.ofDigitChars_ten_toDigits
  rw [← hm, h, Nat.ofDigitChars_ten_toDigits]

theorem decimal_injective {m n : Int} (h : decimal m = decimal n) : m = n := by
  have hminus : ∀ {m n : Nat}, Nat.toDigits 10 m ≠ '-' :: Nat.toDigits 10 n := by
    intro m n he
    have hdigit : ('-' : Char).isDigit = true :=
      Nat.isDigit_of_mem_toDigits (by decide) (by decide) (he ▸ List.mem_cons_self)
    cases hdigit
  cases m with
  | ofNat m =>
    cases n with
    | ofNat n => rw [toDigits_injective h]
    | negSucc n => exact absurd h hminus
  | negSucc m =>
    cases n with
    | ofNat n => exact absurd h.symm hminus
    | negSucc n =>
      have hmn := toDigits_injective (List.cons.inj h).2
      rw [Nat.succ.inj hmn]

theorem decimal_readable : Readable (fun _ => True) Stop decimal := by
  have hin : ∀ n : Int, True → ∀ c ∈ decimal n, c.isDigit = true ∨ c = '-' := by
    intro n _ c hc
    cases n with
    | ofNat n => exact .inl (Nat.isDigit_of_mem_toDigits (by decide) (by decide) hc)
    | negSucc n =>
      rcases List.mem_cons.mp hc with rfl | hc
      · exact .inr rfl
      · exact .inl (Nat.isDigit_of_mem_toDigits (by decide) (by decide) hc)
  refine Readable.span hin (fun m n _ _ => decimal_injective) ?_
  rintro c ⟨hdigit, hminus⟩ (h | h)
  · cases hdigit.symm.trans h
  · exact hminus h

/-! ### Where values begin -/

mutual

theorem printTo_begins : (s : Shape) → Begins (· ∈ s.first) (printTo s)
  | .integral => decimal_begins
  | .bool => fun b => by
    cases b
    · exact ⟨'f', ['a', 'l', 's', 'e'], rfl, by simp [Shape.first]⟩
    · exact ⟨'t', ['r', 'u', 'e'], rfl, by simp [Shape.first]⟩
  | .string => begins_cons (by simp [Shape.first])
  | .nullopt => begins_cons (by simp [Shape.first])
  | .sequence _ => begins_cons (by simp [Shape.first])
  | .mappable _ _ => begins_cons (by simp [Shape.first])
  | .tuple _ => begins_cons (by simp [Shape.first])
  | .optional value => fun o => by
    cases o with
    | none => exact ⟨'n', _, rfl, by simp [Shape.first]⟩
    | some a =>
      obtain ⟨c, rest, hc, hm⟩ := printTo_begins value a
      exact ⟨c, rest, hc, List.mem_cons_of_mem _ hm⟩
  | .variant alternatives => visit_begins alternatives

theorem visit_begins : (alternatives : List Shape) → Begins (· ∈ firstOf alternatives) (visit alternatives)
  | [] => fun t => nomatch t
  | alternative :: alternatives => fun t => by
    cases t with
    | inl a =>
      obtain ⟨c, rest, hc, hm⟩ := printTo_begins alternative a
      exact ⟨c, rest, hc, List.mem_append_left _ hm⟩
    | inr t =>
      obtain ⟨c, rest, hc, hm⟩ := visit_begins alternatives t
      exact ⟨c, rest, hc, List.mem_append_right _ hm⟩

end

mutual

/-- No value begins with a closing bracket. -/
theorem first_opens : (s : Shape) → ']' ∉ s.first ∧ '}' ∉ s.first
  | .integral | .bool | .string | .nullopt | .sequence _ | .mappable _ _ | .tuple _ => by
    simp [Shape.first]
  | .optional value => by
    have hvalue := first_opens value
    simp [Shape.first, hvalue]
  | .variant alternatives => firstOf_opens alternatives

theorem firstOf_opens : (alternatives : List Shape) →
    ']' ∉ firstOf alternatives ∧ '}' ∉ firstOf alternatives
  | [] => by simp [firstOf]
  | alternative :: alternatives => by
    have hhead := first_opens alternative
    have htail := firstOf_opens alternatives
    simp [firstOf, hhead, htail]

end

/-! ### Where they end -/

theorem stop_comma : Stop ',' := by decide

theorem bool_readable : Readable (fun _ => True) Stop (printTo .bool) := by
  intro a b rest rest' _ _ _ _ he
  cases a <;> cases b
  · exact ⟨rfl, List.append_cancel_left he⟩
  · cases (List.cons.inj he).1
  · cases (List.cons.inj he).1
  · exact ⟨rfl, List.append_cancel_left he⟩

/-- Behind an argument of a tuple stands a comma or what is behind the tuple. -/
theorem args_stops (args : List Text) {rest : Text} (h : Stops Stop rest) :
    Stops Stop (separated [',', ' '] false args ++ rest) := by
  cases args with
  | nil => exact h
  | cons arg args => exact stops_cons stop_comma

theorem firstOf_disjoint {s : Shape} {alternatives : List Shape}
    (h : ∀ a ∈ alternatives, s.first.Disjoint a.first) (c : Char) (hc : c ∈ s.first) :
    c ∉ firstOf alternatives := by
  induction alternatives with
  | nil => exact List.not_mem_nil
  | cons a alternatives ih =>
    intro hm
    rcases List.mem_append.mp hm with hm | hm
    · exact h a List.mem_cons_self hc hm
    · exact ih (fun b hb => h b (List.mem_cons_of_mem a hb)) hm

/-- A key and what it is mapped to. -/
theorem entry_readable {key mapped : Shape} (hkey : Readable (Quoteless key) Stop (printTo key))
    (hmapped : Readable (Quoteless mapped) Stop (printTo mapped)) :
    Readable (fun e : Value key × Value mapped => Quoteless key e.1 ∧ Quoteless mapped e.2) Stop
      fun e => printTo key e.1 ++ ([':', ' '] ++ printTo mapped e.2) :=
  hkey.pair (hmapped.after [':', ' ']) fun _ _ _ => stops_cons (by decide)

theorem entry_begins (key mapped : Shape) : Begins (· ∈ key.first)
    fun e : Value key × Value mapped => printTo key e.1 ++ ([':', ' '] ++ printTo mapped e.2) := by
  intro e
  obtain ⟨c, rest, hc, hm⟩ := printTo_begins key e.1
  exact ⟨c, rest ++ ([':', ' '] ++ printTo mapped e.2), congrArg (· ++ ([':', ' '] ++ printTo mapped e.2)) hc, hm⟩

theorem printTo_mappable (key mapped : Shape) (t : List (Value key × Value mapped)) :
    printTo (.mappable key mapped) t = ['{'] ++ (separated [',', ' '] true
      (t.map fun e => printTo key e.1 ++ ([':', ' '] ++ printTo mapped e.2)) ++ ['}']) := by
  show '{' :: (separated [',', ' '] true
    ((t.map fun e => (printTo key e.1, printTo mapped e.2)).map
      fun elem => elem.1 ++ ([':', ' '] ++ elem.2)) ++ ['}']) = _
  rw [List.map_map]
  rfl

theorem args_cons (elem : Shape) (elems : List Shape) (first : Bool) :
    (fun t => separated [',', ' '] first (offersAll (elem :: elems) t)) =
      fun t : Value elem × Values elems => (if first then [] else [',', ' ']) ++
        (printTo elem t.1 ++ separated [',', ' '] false (offersAll elems t.2)) := by
  funext t
  cases first with
  | true => rfl
  | false => exact List.append_assoc ..

mutual

theorem printTo_readable : (s : Shape) → s.Distinct → Readable (Quoteless s) Stop (printTo s)
  | .integral, _ => decimal_readable
  | .bool, _ => bool_readable
  | .nullopt, _ => fun _ _ _ _ _ _ _ _ he => ⟨rfl, List.append_cancel_left he⟩
  | .string, _ => (Readable.quoted '"').after ['"']
  | .sequence elem, h =>
    ((printTo_readable elem h).list [' '] (printTo_begins elem) stop_comma (by decide) (by decide)
      (first_opens elem).1).after ['[']
  | .mappable key mapped, h => by
    have hentry := entry_readable (printTo_readable key h.1) (printTo_readable mapped h.2)
    have hlist := (hentry.list [' '] (entry_begins key mapped) stop_comma (by decide) (by decide)
      (first_opens key).2).after ['{']
    have hprint : printTo (.mappable key mapped) = _ := funext (printTo_mappable key mapped)
    rw [hprint]
    exact hlist
  | .tuple elems, h => ((args_readable elems h true).closed (by decide)).after ['(']
  | .optional value, h => (printTo_readable value h.2).option (printTo_begins value) h.1
  | .variant alternatives, h => visit_readable alternatives h.1 h.2

theorem args_readable : (elems : List Shape) → AllDistinct elems → (first : Bool) →
    Readable (AllQuoteless elems) Stop fun t => separated [',', ' '] first (offersAll elems t)
  | [], _, _ => fun _ _ _ _ _ _ _ _ he => ⟨rfl, he⟩
  | elem :: elems, h, first => by
    have htail := args_readable elems h.2 false
    have hpair := (printTo_readable elem h.1).pair htail fun t _ => args_stops (offersAll elems t)
    rw [args_cons]
    exact hpair.after _

theorem visit_readable : (alternatives : List Shape) →
    alternatives.Pairwise (fun a b => a.first.Disjoint b.first) → AllDistinct alternatives →
    Readable (OneQuoteless alternatives) Stop (visit alternatives)
  | [], _, _ => fun t => nomatch t
  | alternative :: alternatives, hp, h =>
    (printTo_readable alternative h.1).sum (visit_readable alternatives (List.pairwise_cons.mp hp).2 h.2)
      (printTo_begins alternative) (visit_begins alternatives)
      (firstOf_disjoint (List.pairwise_cons.mp hp).1)

end

/-- **What `P` prints is uniquely readable**: no two values of a type, without double quotes in
their strings, have the same text. -/
theorem unique_readability (s : Shape) (hs : s.Distinct) (a b : Value s) (ha : Quoteless s a)
    (hb : Quoteless s b) (h : P s a = P s b) : a = b :=
  (printTo_readable s hs).injective ha hb h

/-- A map from strings to optional numbers or sequences of flags. -/
def flags : Shape := .mappable .string (.variant [.optional .integral, .sequence .bool])

/-- Its strings may be made of the symbols of the notation. -/
theorem unique_readability_flags :
    (List.replicate 2 ([',', ' ', '}'], .inl (some (7 : Int))) : Value flags) =
      ([([',', ' ', '}'], .inl (some (7 : Int))), ([',', ' ', '}'], .inl (some (7 : Int)))] :
        List (Text × _)) := by
  have hdistinct : flags.Distinct := by simp [flags, Shape.Distinct, AllDistinct, Shape.first]
  have hstring : '"' ∉ [',', ' ', '}'] := by decide
  have hquoteless : Quoteless flags (List.replicate 2 ([',', ' ', '}'], .inl (some (7 : Int)))) := by
    intro e he
    obtain rfl := (List.mem_replicate.mp he).2
    exact ⟨hstring, fun _ _ => trivial⟩
  exact unique_readability flags hdistinct _ _ hquoteless hquoteless rfl

end ExploreCpp.Print
