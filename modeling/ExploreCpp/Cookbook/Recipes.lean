import ExploreCpp.Flight.Store
import ExploreCpp.Outcome
import ExploreCpp.Overwriting

/-! The recipes of `common.cc`, and the `main` that dumps them.

A test starts a recipe, writes to `rout` and ends the recipe; what was written is then in
the two builders, until `DumpRecipeOutput` merges it into a file. The builders, `rout` and
the recipe in progress live as long as the program, the files longer.

What Arrow makes of a table in a file, and in which order an `std::unordered_map` is
walked, is left open but for what is documented (`Arrow`), and what the file system does
with each dump comes from outside (`Conditions`). The builders do not run out of room, so
that appending to them succeeds, and different filenames are different files. -/
namespace ExploreCpp.Cookbook
open Outcome
open Flight (Status)

abbrev Text := List Char

/-! ### Tables -/

/-- A record batch with the columns `Recipe Name` and `Recipe Output`. -/
structure Batch where
  length : Nat
  names : List Text
  outputs : List Text
deriving DecidableEq, Repr

/-- The chunks of its columns. -/
abbrev Table := List Batch

def Table.numRows (table : Table) : Nat := table.foldr (fun batch n => batch.length + n) 0

/-- The columns are as long as the batch is said to be. -/
structure Batch.Aligned (batch : Batch) : Prop where
  names : batch.names.length = batch.length
  outputs : batch.outputs.length = batch.length

/-- `std::unordered_map<std::string, std::string>` -/
abbrev Values := AList fun _ : Text => Text

/-- Where the writing of a stream breaks off. -/
inductive Cut where
  /-- Within a message; `0` is before the schema. -/
  | within (position : Nat)
  | behindSchema
  /-- Behind the record batch, without the end of the stream. -/
  | behindBatch
deriving DecidableEq, Repr

structure Arrow (Content : Type) where
  /-- Opening a stream reader and `ToTable`. -/
  toTable : Content → Except Status Table
  /-- What `WriteTable` and `Close` leave in a file. -/
  writeTable : Table → Content
  /-- What they leave that break off. -/
  cutOff : Table → Cut → Content
  /-- The pairs in the order of iteration. -/
  iterate : Values → List (Text × Text)
  /-- A batch without rows is not written. -/
  toTable_writeTable : ∀ batch : Batch, batch.Aligned →
    toTable (writeTable [batch]) = .ok (if batch.length = 0 then [] else [batch])
  toTable_within : ∀ (batch : Batch) (position : Nat), batch.Aligned →
    Raises (toTable (cutOff [batch] (.within position)))
  /-- A stream ends where there is no further message. -/
  toTable_behindSchema : ∀ batch : Batch, batch.Aligned → toTable (cutOff [batch] .behindSchema) = .ok []
  toTable_behindBatch : ∀ batch : Batch, batch.Aligned →
    toTable (cutOff [batch] .behindBatch) = toTable (writeTable [batch])
  iterate_perm : ∀ values, (iterate values).Perm (values.entries.map fun e => (e.1, e.2))

/-! ### State -/

/-- What a test can fail of. -/
inductive Failure where
  | notFinished (recipeName currentRecipe : Text)
  | emptyName
  | notInProgress (recipeName : Text)
  /-- An assertion of the test itself, on a status or something else. -/
  | assertion (status : Option Status)
deriving DecidableEq, Repr

/-- The texts of the failures in this file. -/
def Failure.message : Failure → Option String
  | .notFinished recipeName currentRecipe => some ("Attempt to start a recipe " ++ String.ofList recipeName ++
      " but the recipe " ++ String.ofList currentRecipe ++ " has not been marked finished")
  | .emptyName => some "Invalid empty recipe name"
  | .notInProgress recipeName => some ("Attempt to end a recipe " ++ String.ofList recipeName ++
      " but the recipe was not in progress")
  | .assertion _ => none

structure State (Content : Type) where
  testNames : List Text
  testOutputs : List Text
  currentRecipe : Text
  rout : Text
  failures : List Failure
  files : Text → Option Content

variable {Content : Type}

def State.fail (s : State Content) (failure : Failure) : State Content :=
  {s with failures := s.failures ++ [failure]}

def startRecipe (recipeName : Text) (s : State Content) : State Content :=
  if s.currentRecipe ≠ [] then s.fail (.notFinished recipeName s.currentRecipe)
  else if recipeName = [] then s.fail .emptyName
  else {s with currentRecipe := recipeName, rout := []}

def endRecipe (recipeName : Text) (s : State Content) : State Content :=
  if s.currentRecipe ≠ recipeName then s.fail (.notInProgress recipeName)
  else {s with
    testNames := s.testNames ++ [recipeName]
    testOutputs := s.testOutputs ++ [s.rout]
    currentRecipe := [] }

def hasRecipeOutput (s : State Content) : Bool := s.testNames.length > 0

/-! ### Dumping -/

def makeEmptyRecipesTable : Table := [⟨0, [], []⟩]

/-- `Finish` leaves the builders empty. -/
def createRecipeOutputTable : EStateM Status (State Content) Table := do
  let table ← reading fun s => .ok [⟨s.testNames.length, s.testNames, s.testOutputs⟩]
  writing fun s => {s with testNames := [], testOutputs := []}
  pure table

/-- The rows are read from the first chunk. -/
def populateMap (table : Table) (values : Values) : Values :=
  if table.numRows = 0 then values
  else
    let names := (table.head?.map Batch.names).getD []
    let outputs := (table.head?.map Batch.outputs).getD []
    (List.range table.numRows).foldl (fun values i => values.insert (names.getD i []) (outputs.getD i [])) values

/-- What becomes of the file that is written. -/
inductive Output where
  | written
  /-- It is not opened. -/
  | refused (status : Status)
  /-- Writing or closing fails. -/
  | brokenOff (status : Status) (cut : Cut)
deriving DecidableEq, Repr

/-- What the file system does with a dump. -/
structure Conditions where
  /-- The file can be opened for reading if it exists. -/
  opens : Bool := true
  output : Output := .written
deriving DecidableEq, Repr

def openInputFile (filename : Text) (opens : Bool) (files : Text → Option Content) : Option Content :=
  if opens then files filename else none

section
variable (arrow : Arrow Content)

def loadExistingRecipeOutputTable (filename : Text) (opens : Bool) (files : Text → Option Content) :
    Except Status Table :=
  match openInputFile filename opens files with
  | none => .ok makeEmptyRecipesTable
  | some content => arrow.toTable content

def mergeRecipeTables (oldTable newTable : Table) : Table :=
  let pairs := arrow.iterate (populateMap newTable (populateMap oldTable ∅))
  [⟨pairs.length, pairs.map Prod.fst, pairs.map Prod.snd⟩]

def State.write (s : State Content) (filename : Text) (content : Content) : State Content :=
  {s with files := Function.update s.files filename (some content)}

def writeRecipes (filename : Text) (table : Table) : Output → EStateM Status (State Content) Unit
  | .written => writing (·.write filename (arrow.writeTable table))
  | .refused status => reading fun _ => .error status
  | .brokenOff status cut => do
    writing (·.write filename (arrow.cutOff table cut))
    reading fun _ => .error status

def dumpRecipeOutput (outputFilename : Text) (conditions : Conditions) :
    EStateM Status (State Content) Unit := do
  let newTable ← createRecipeOutputTable
  let oldTable ← reading fun s => loadExistingRecipeOutputTable arrow outputFilename conditions.opens s.files
  writeRecipes arrow outputFilename (mergeRecipeTables arrow oldTable newTable) conditions.output

/-! ### Programs -/

/-- What the tests of a program do with the recipes. -/
inductive Action where
  | startRecipe (recipeName : Text)
  | print (text : Text)
  | endRecipe (recipeName : Text)
  /-- `ASSERT_OK(DumpRecipeOutput(…))` -/
  | dump (outputFilename : Text) (conditions : Conditions)
  | fail

def State.next (s : State Content) : Action → State Content
  | .startRecipe recipeName => Cookbook.startRecipe recipeName s
  | .print text => {s with rout := s.rout ++ text}
  | .endRecipe recipeName => Cookbook.endRecipe recipeName s
  | .dump outputFilename conditions =>
    match (dumpRecipeOutput arrow outputFilename conditions).run s with
    | .ok _ t => t
    | .error status t => t.fail (.assertion (some status))
  | .fail => s.fail (.assertion none)

def State.run (s : State Content) (actions : List Action) : State Content :=
  actions.foldl (State.next arrow) s

/-- Before the first test. -/
def State.initial (files : Text → Option Content) : State Content := ⟨[], [], [], [], [], files⟩

structure Program where
  tests : List Action
  /-- For the dump of `main`. -/
  last : Conditions

def recipesOut : Text :=
  ['r', 'e', 'c', 'i', 'p', 'e', 's', '_', 'o', 'u', 't', '.', 'a', 'r', 'r', 'o', 'w']

/-- `RUN_ALL_TESTS` returns 1 if a test has failed. -/
def main (program : Program) (files : Text → Option Content) : Int × (Text → Option Content) :=
  let s := (State.initial files).run arrow program.tests
  let retval : Int := if s.failures = [] then 0 else 1
  if retval = 0 ∧ hasRecipeOutput s then
    match (dumpRecipeOutput arrow recipesOut program.last).run s with
    | .ok _ t => (retval, t.files)
    | .error _ t => (-1, t.files)
  else (retval, s.files)

end

end ExploreCpp.Cookbook
