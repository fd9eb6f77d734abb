import ExploreCpp.Readable

/-! `print_to` of `print.hpp`, for the types it prints without help.

Which branch a type takes is decided by traits that more than one type has: a map can be
iterated as well, a string too. `Offers` holds what the traits find on a type, and
`Offers.print` asks for them in the order of the source.

Not modelled: floating-point and character types, `print_custom::printer`, and the text
for types nothing is found on. -/
namespace ExploreCpp.Print

abbrev Text := List Char

/-- The types, with `std::pair` as a tuple and all other containers as sequences. -/
inductive Shape where
  /-- An integral type, but not `bool`. -/
  | integral
  | bool
  | string
  | nullopt
  | sequence (elem : Shape)
  /-- With `key_type`, `mapped_type` and `operator[]`. -/
  | mappable (key mapped : Shape)
  | tuple (elems : List Shape)
  | optional (value : Shape)
  | variant (alternatives : List Shape)

/-! ### Values -/

mutual

/-- Containers hold their elements in the order of iteration. -/
def Value : Shape → Type
  | .integral => Int
  | .bool => Bool
  | .string => Text
  | .nullopt => Unit
  | .sequence elem => List (Value elem)
  | .mappable key mapped => List (Value key × Value mapped)
  | .tuple elems => Values elems
  | .optional value => Option (Value value)
  | .variant alternatives => OneOf alternatives

def Values : List Shape → Type
  | [] => Unit
  | elem :: elems => Value elem × Values elems

def OneOf : List Shape → Type
  | [] => Empty
  | alternative :: alternatives => Value alternative ⊕ OneOf alternatives

end

/-! ### Printing -/

/-- `out << t` for an integer, in the C locale. -/
def decimal : Int → Text
  | .ofNat n => Nat.toDigits 10 n
  | .negSucc n => '-' :: Nat.toDigits 10 (n + 1)

/-- The loop over the parts of a container, with its variable `first`. -/
def commaSeparated (parts : List Text) : Text := separated [',', ' '] true parts

/-- What the traits find on a type and, for a value of it, what the operations they ask
for give. Parts are given by the texts `print_to` prints them as. -/
structure Offers where
  stringView : Option Text := none
  integral : Option Int := none
  bool : Option Bool := none
  /-- `first` and `second` of the elements. -/
  mappable : Option (List (Text × Text)) := none
  iterable : Option (List Text) := none
  /-- The alternative that is visited. -/
  variant : Option Text := none
  /-- `value()`, if there is one. -/
  optional : Option (Option Text) := none
  nullopt : Bool := false
  tuple : Option (List Text) := none

/-- The chain of `if constexpr`. -/
def Offers.print (t : Offers) : Text :=
  if let some s := t.stringView then '"' :: (s ++ ['"'])
  else if let some n := t.integral then decimal n
  else if let some b := t.bool then if b then ['t', 'r', 'u', 'e'] else ['f', 'a', 'l', 's', 'e']
  else if let some elems := t.mappable then
    '{' :: (commaSeparated (elems.map fun elem => elem.1 ++ ([':', ' '] ++ elem.2)) ++ ['}'])
  else if let some elems := t.iterable then '[' :: (commaSeparated elems ++ [']'])
  else if let some value := t.variant then value
  else if let some o := t.optional then o.getD ['n', 'u', 'l', 'l', 'o', 'p', 't']
  else if t.nullopt then ['n', 'u', 'l', 'l', 'o', 'p', 't']
  else if let some args := t.tuple then '(' :: (commaSeparated args ++ [')'])
  else []

mutual

def offers : (s : Shape) → Value s → Offers
  | .integral, n => {integral := some n}
  | .bool, b => {bool := some b}
  | .string, t => {stringView := some t, iterable := some (List.map (fun c => [c]) t)}
  | .nullopt, _ => {nullopt := true}
  | .sequence elem, t => {iterable := some (List.map (fun a => (offers elem a).print) t)}
  | .mappable key mapped, t =>
    let elems := List.map (fun elem => ((offers key elem.1).print, (offers mapped elem.2).print)) t
    {mappable := some elems,
     iterable := some (elems.map fun elem => Offers.print {tuple := some [elem.1, elem.2]})}
  | .tuple elems, t => {tuple := some (offersAll elems t)}
  | .optional value, t => {optional := some (Option.map (fun a => (offers value a).print) t)}
  | .variant alternatives, t => {variant := some (visit alternatives t)}

/-- The arguments `std::apply` passes on. -/
def offersAll : (elems : List Shape) → Values elems → List Text
  | [], _ => []
  | elem :: elems, t => (offers elem t.1).print :: offersAll elems t.2

/-- `std::visit`. -/
def visit : (alternatives : List Shape) → OneOf alternatives → Text
  | [], t => nomatch t
  | alternative :: alternatives, t =>
    Sum.elim (fun a => (offers alternative a).print) (visit alternatives) t

end

def printTo (s : Shape) (t : Value s) : Text := (offers s t).print

/-- `print_hpp::P`, the text left in a fresh stream. -/
def P (s : Shape) (t : Value s) : Text := printTo s t

/-- Two lines of `test_print.cpp`. -/
example : P (.mappable .string (.variant [.string, .integral]))
    [(['a', 'b'], .inl ['c']), (['d'], .inr (.inl (996 : Int)))] =
    ['{', '"', 'a', 'b', '"', ':', ' ', '"', 'c', '"', ',', ' ', '"', 'd', '"', ':', ' ', '9', '9', '6', '}'] :=
  rfl

end ExploreCpp.Print
