import ExploreCpp.Overload

/-! `std::optional`, over the classes and scalars of a program.

A type is a class or scalar, `std::nullopt_t`, or `std::optional` of a type, to any depth.
What classes can be made of, converted from and assigned is left open (`Classes`). What
optionals can be follows from it: the traits of `std::optional<T>` from those of `T`, what
its constructors make of an operand, and which `operator=` overload resolution selects. -/
namespace ExploreCpp.Optional

inductive Ty (B : Type) where
  | base (b : B)
  | nullopt
  | optional (t : Ty B)
deriving DecidableEq, Repr

/-- What `F &&` makes of the category of an argument. -/
inductive Category where
  | lvalue
  | constLvalue
  | rvalue
  | constRvalue
deriving DecidableEq, Repr

def Category.all : List Category := [lvalue, constLvalue, rvalue, constRvalue]

theorem Category.mem_all (category : Category) : category ∈ all := by
  cases category <;> decide

/-- A type with its reference, as the traits take it. -/
structure Ref (B : Type) where
  type : Ty B
  category : Category
deriving DecidableEq, Repr

abbrev Val {B : Type} (El : B → Type) : Ty B → Type
  | .base b => El b
  | .nullopt => Unit
  | .optional t => Option (Val El t)

structure Operand {B : Type} (El : B → Type) where
  type : Ty B
  category : Category
  value : Val El type

def Operand.ref {B : Type} {El : B → Type} (e : Operand El) : Ref B := ⟨e.type, e.category⟩

/-- The classes and scalars of a program; none is `std::in_place_t`, and none has a conversion
function to `std::nullopt_t`. `init` and `assign` matter where the traits allow them. -/
structure Classes {B : Type} (El : B → Type) where
  isScalar : B → Bool
  /-- Arrays and functions decay to pointers, the others are left as they are. -/
  decay : B → B
  isConstructible : B → Ref B → Bool
  isConvertible : B → Ref B → Bool
  isAssignable : B → Ref B → Bool
  /-- Direct initialisation from an operand. -/
  init : (b : B) → Operand El → El b
  assign : (b : B) → El b → Operand El → El b
  /-- A conversion function to `std::optional<T>`: how the operand binds to its object, and
  whether it is a template. -/
  toOptional : B → Category → Ty B → Option (Conversion × Bool)
  optionalOf : (b : B) → Category → (t : Ty B) → El b → Option (Val El t)
  /-- A copy has the value of the original. -/
  init_copy : ∀ b category v, init b ⟨.base b, category, v⟩ = v

structure Traits (B : Type) where
  isScalar : Bool
  isConstructible : Ref B → Bool
  isConvertible : Ref B → Bool
  isAssignable : Ref B → Bool

section Types
variable {B : Type} [DecidableEq B] {El : B → Type} (C : Classes El)

/-! ### Constructors -/

inductive Constructor where
  /-- `optional(nullopt_t)` -/
  | nullopt
  /-- `optional(const optional &)` and `optional(optional &&)` -/
  | copy
  /-- `optional(U &&)` -/
  | value
  /-- `optional(const optional<U> &)` -/
  | copyOptional
  /-- `optional(optional<U> &&)` -/
  | moveOptional
deriving DecidableEq, Repr

/-- `T` can be constructed or converted from `optional<U>`, with some reference. -/
def Traits.takes (T : Traits B) (u : Ty B) : Bool :=
  Category.all.any fun category =>
    T.isConstructible ⟨.optional u, category⟩ || T.isConvertible ⟨.optional u, category⟩

/-- What a `T` may be made of by a constructor of `std::optional<T>` that is not explicit. -/
def Traits.converts (T : Traits B) (r : Ref B) : Bool := T.isConstructible r && T.isConvertible r

/-- The constructor of `std::optional<T>` for an `optional<U>`, where `allows` says of which
operands the `T` may be made. -/
def Traits.ofOptional (t : Ty B) (T : Traits B) (allows : Ref B → Bool) (u : Ty B) (category : Category) :
    Option Constructor :=
  if u = t then some .copy
  else if allows ⟨.optional u, category⟩ then some .value
  else if T.takes u then none
  else if category = .rvalue ∧ allows ⟨u, .rvalue⟩ = true then some .moveOptional
  else if allows ⟨u, .constLvalue⟩ then some .copyOptional
  else none

/-- Direct initialisation of a `std::optional<T>`. -/
def constructor (t : Ty B) (T : Traits B) (r : Ref B) : Option Constructor :=
  match r.type with
  | .nullopt => some .nullopt
  | .optional u => T.ofOptional t T.isConstructible u r.category
  | .base b =>
    if T.isConstructible r then some .value
    else (C.toOptional b r.category t).map fun _ => .copy

/-- Implicit conversion to `std::optional<T>`, where constructors and the conversion function
of the operand compete. -/
def conversion (t : Ty B) (T : Traits B) (r : Ref B) : Option Constructor :=
  match r.type with
  | .nullopt => some .nullopt
  | .optional u => T.ofOptional t T.converts u r.category
  | .base b =>
    resolve ((if T.converts r then [⟨.value, .identity, true⟩] else []) ++
      (C.toOptional b r.category t).toList.map fun (binding, template) => ⟨.copy, binding, template⟩)

/-- The conversion for a parameter `const optional &` or `optional &&`, which binds to the
result of a conversion function if there is one. -/
def binding (t : Ty B) (T : Traits B) (r : Ref B) : Option Constructor :=
  match r.type with
  | .base b => if (C.toOptional b r.category t).isSome then some .copy else conversion C t T r
  | _ => conversion C t T r

/-! ### Assignments -/

inductive Assignment where
  /-- `operator=(nullopt_t)` -/
  | reset
  /-- `operator=(const optional &)` -/
  | copy
  /-- `operator=(optional &&)` -/
  | move
  /-- `operator=(U &&)` -/
  | value
  /-- `operator=(const optional<U> &)` -/
  | copyOptional
  /-- `operator=(optional<U> &&)` -/
  | moveOptional
deriving DecidableEq, Repr

/-- How an operand binds to a reference to `const` of its type. -/
def Category.toConst : Category → Conversion
  | constLvalue => .identity
  | _ => .qualified

def decay : Ty B → Ty B
  | .base b => .base (C.decay b)
  | t => t

/-- `T` can be constructed and assigned from that operand. -/
def Traits.accepts (T : Traits B) (r : Ref B) : Bool := T.isConstructible r && T.isAssignable r

/-- `operator=(U &&)` of `std::optional<T>` takes that operand. -/
def takesValue (t : Ty B) (T : Traits B) (r : Ref B) : Bool :=
  r.type ≠ .optional t && !(T.isScalar && decay C r.type = t) && T.accepts r

/-- `T` can be constructed, converted or assigned from `optional<U>`, with some reference. -/
def Traits.takesOrAssigns (T : Traits B) (u : Ty B) : Bool :=
  T.takes u || Category.all.any fun category => T.isAssignable ⟨.optional u, category⟩

/-- The `operator=` for an `optional<U>`. -/
def Traits.optionalAssignments (T : Traits B) (u : Ty B) (category : Category) :
    List (Candidate Assignment) :=
  if T.takesOrAssigns u then []
  else (if T.accepts ⟨u, .constLvalue⟩ then [⟨.copyOptional, category.toConst, true⟩] else []) ++
    if category = .rvalue ∧ T.accepts ⟨u, .rvalue⟩ = true then [⟨.moveOptional, .identity, true⟩] else []

/-- The viable `operator=` of `std::optional<T>`. -/
def assignments (t : Ty B) (T : Traits B) (r : Ref B) : List (Candidate Assignment) :=
  let value := if takesValue C t T r then [⟨.value, .identity, true⟩] else []
  let converted : List (Candidate Assignment) :=
    if (binding C t T r).isSome then [⟨.copy, .convertedConst, false⟩, ⟨.move, .converted, false⟩] else []
  match r.type with
  | .nullopt => ⟨.reset, .identity, false⟩ :: converted ++ value
  | .base _ => converted ++ value
  | .optional u =>
    (if u = t then
      ⟨.copy, r.category.toConst, false⟩ :: if r.category = .rvalue then [⟨.move, .identity, false⟩] else []
    else converted) ++ value ++ T.optionalAssignments u r.category

/-! ### Every type -/

def traits : Ty B → Traits B
  | .base b => ⟨C.isScalar b, C.isConstructible b, C.isConvertible b, C.isAssignable b⟩
  | .nullopt => ⟨false, (·.type = .nullopt), (·.type = .nullopt), (·.type = .nullopt)⟩
  | .optional t =>
    { isScalar := false
      isConstructible := fun r => (constructor C t (traits t) r).isSome
      isConvertible := fun r => (conversion C t (traits t) r).isSome
      isAssignable := fun r => (resolve (assignments C t (traits t) r)).isSome }

/-- An operand as a `std::optional<T>`, which it is or has a conversion function to. -/
def Operand.asOptional (t : Ty B) : Operand El → Option (Val El t)
  | ⟨.optional u, _, v⟩ => if h : u = t then h ▸ v else none
  | ⟨.base b, category, v⟩ => C.optionalOf b category t v
  | ⟨.nullopt, _, _⟩ => none

/-- What is made of the value in an optional, taken with another category. -/
def Operand.mapValue {α : Type} (make : Operand El → α) (category : Category) : Operand El → Option α
  | ⟨.optional u, _, v⟩ => v.map fun v => make ⟨u, category, v⟩
  | _ => none

/-- The `std::optional<T>` that a constructor makes; `make` makes the contained value. -/
def construct (t : Ty B) (make : Operand El → Val El t) (e : Operand El) :
    Option Constructor → Option (Val El t)
  | some .copy => e.asOptional C t
  | some .value => some (make e)
  | some .copyOptional => e.mapValue make .constLvalue
  | some .moveOptional => e.mapValue make .rvalue
  | some .nullopt | none => none

/-- `T(std::forward<U>(e))` -/
def init : (t : Ty B) → Operand El → Val El t
  | .base b, e => C.init b e
  | .nullopt, _ => ()
  | .optional t, e => construct C t (init t) e (constructor C t (traits C t) e.ref)

/-- The `std::optional<T>` that a parameter `const optional &` or `optional &&` is bound to. -/
def bound (t : Ty B) (e : Operand El) : Option (Val El t) :=
  construct C t (init C t) e (binding C t (traits C t) e.ref)

/-- The `operator=` of `std::optional<T>` that is called for an operand. -/
def assignment (t : Ty B) (r : Ref B) : Option Assignment := resolve (assignments C t (traits C t) r)

/-- `x = std::forward<U>(e)` -/
def assign : (t : Ty B) → Val El t → Operand El → Val El t
  | .base b, x, e => C.assign b x e
  | .nullopt, _, _ => ()
  | .optional t, slot, e =>
    -- The contained value is assigned to if there is one, else initialised.
    let store := fun e : Operand El =>
      match slot with
      | some x => assign t x e
      | none => init C t e
    match assignment C t e.ref with
    | some .reset => none
    | some .copy => (bound C t e).map fun v => store ⟨t, .constLvalue, v⟩
    | some .move => (bound C t e).map fun v => store ⟨t, .rvalue, v⟩
    | some .value => some (store e)
    | some .copyOptional => e.mapValue store .constLvalue
    | some .moveOptional => e.mapValue store .rvalue
    | none => slot

end Types

end ExploreCpp.Optional
