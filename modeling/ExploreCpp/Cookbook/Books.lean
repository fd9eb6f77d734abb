import ExploreCpp.Cookbook.Recipes
import ExploreCpp.Responder

/-! The recipe files as books that recipes are written into.

A book holds the recipes dumped into it, in the order of the dumps. One that is there but
is not opened counts as missing, so that its recipes are lost with the next dump; what a
dump that breaks off leaves can be a book that cannot be read, or has lost its recipes.
Over every history of programs the files stand for such books, each recipe with the output
dumped last, and the programs return what is read off the books (`programs_keep_books`). -/
namespace ExploreCpp.Cookbook
open Outcome
open Flight (Status)

/-! ### Books -/

inductive Book where
  | missing
  /-- A dump into it broke off. -/
  | damaged
  | recipes (dumped : List (Text × Text))

/-- What is found of it. -/
def Book.found (opens : Bool) (book : Book) : Book := if opens then book else .missing

/-- What is left of it. -/
def Book.cutOff : Cut → Book → Book
  | .within _, _ => .damaged
  | .behindSchema, _ => .recipes []
  | .behindBatch, book => book

/-- With more recipes, if it can be read. -/
def Book.write (recorded : List (Text × Text)) : Book → Option Book
  | .missing => some (.recipes recorded)
  | .damaged => none
  | .recipes dumped => some (.recipes (dumped ++ recorded))

abbrev Books := Text → Book

/-- What the tests of a program come to, with the recipes recorded since the last dump. -/
structure Session where
  currentRecipe : Text
  rout : Text
  recorded : List (Text × Text)
  passed : Bool
  books : Books

/-- Whether a dump succeeds, and what it comes to. The recipes are no longer recorded either way. -/
def Session.dumped (s : Session) (filename : Text) (conditions : Conditions) : Bool × Session :=
  match ((s.books filename).found conditions.opens).write s.recorded with
  | none => (false, {s with recorded := []})
  | some book => match conditions.output with
    | .written => (true, {s with recorded := [], books := Function.update s.books filename book})
    | .refused _ => (false, {s with recorded := []})
    | .brokenOff _ cut =>
      (false, {s with recorded := [], books := Function.update s.books filename (book.cutOff cut)})

def Session.next (s : Session) : Action → Session
  | .startRecipe recipeName =>
    if s.currentRecipe = [] ∧ recipeName ≠ [] then {s with currentRecipe := recipeName, rout := []}
    else {s with passed := false}
  | .print text => {s with rout := s.rout ++ text}
  | .endRecipe recipeName =>
    if s.currentRecipe = recipeName then
      {s with currentRecipe := [], recorded := s.recorded ++ [(recipeName, s.rout)]}
    else {s with passed := false}
  | .dump filename conditions =>
    let t := s.dumped filename conditions
    {t.2 with passed := t.2.passed && t.1}
  | .fail => {s with passed := false}

def Session.run (s : Session) (actions : List Action) : Session := actions.foldl Session.next s

/-- What a program returns, and the books after it. -/
def Session.main (program : Program) (books : Books) : Int × Books :=
  let s := Session.run ⟨[], [], [], true, books⟩ program.tests
  if s.passed then
    if s.recorded = [] then (0, s.books)
    else
      let t := s.dumped recipesOut program.last
      (if t.1 then 0 else -1, t.2.books)
  else (1, s.books)

/-! ### Files -/

/-- The rows of a table. -/
def Table.rows (table : Table) : List (Text × Text) := table.flatMap fun batch => batch.names.zip batch.outputs

/-- At most one chunk. -/
def Table.Single (table : Table) : Prop := table = [] ∨ ∃ batch : Batch, table = [batch] ∧ batch.Aligned

/-- One row for each recipe, with the output dumped last. -/
structure Table.Lists (table : Table) (dumped : List (Text × Text)) : Prop where
  single : table.Single
  once : (table.rows.map Prod.fst).Nodup
  last : ∀ name output, (name, output) ∈ table.rows ↔ lastEntry dumped name = some output

section
variable {Content : Type} (arrow : Arrow Content)

def Represents (content : Option Content) : Book → Prop
  | .missing => content = none
  | .damaged => ∃ c, content = some c ∧ Raises (arrow.toTable c)
  | .recipes dumped => ∃ c table, content = some c ∧ arrow.toTable c = .ok table ∧ table.Lists dumped

/-- The tests have come to this. -/
structure Follows (s : State Content) (t : Session) : Prop where
  currentRecipe : s.currentRecipe = t.currentRecipe
  rout : s.rout = t.rout
  names : s.testNames = t.recorded.map Prod.fst
  outputs : s.testOutputs = t.recorded.map Prod.snd
  passed : s.failures = [] ↔ t.passed = true
  books : ∀ filename, Represents arrow (s.files filename) (t.books filename)

end

/-! ### Tables -/

theorem range_getD {α β : Type} (a : α) (b : β) (xs : List α) (ys : List β) (h : xs.length = ys.length) :
    (List.range xs.length).map (fun i => (xs.getD i a, ys.getD i b)) = xs.zip ys := by
  apply List.ext_getElem
  · simp [h]
  · intro i hi hi'
    have hx : i < xs.length := by simpa using hi
    simp [List.getD_eq_getElem?_getD, hx, h ▸ hx]

theorem populateMap_single {table : Table} (h : table.Single) (values : Values) :
    populateMap table values = insertAll values table.rows := by
  obtain rfl | ⟨batch, rfl, hbatch⟩ := h
  · rfl
  · have hnum : Table.numRows [batch] = batch.names.length := by
      simp [Table.numRows, hbatch.names]
    have hrows : Table.rows [batch] = batch.names.zip batch.outputs := by simp [Table.rows]
    have hlength : batch.names.length = batch.outputs.length := hbatch.names.trans hbatch.outputs.symm
    rw [hrows, ← range_getD [] [] _ _ hlength, insertAll, List.foldl_map, populateMap, hnum]
    split
    · next hzero => rw [hzero]; rfl
    · rfl

theorem zip_fst_snd (rows : List (Text × Text)) : (rows.map Prod.fst).zip (rows.map Prod.snd) = rows :=
  (List.zip_map' ..).trans (List.map_id rows)

/-- The table with these rows, in one chunk. -/
def tableOf (rows : List (Text × Text)) : Table := [⟨rows.length, rows.map Prod.fst, rows.map Prod.snd⟩]

theorem tableOf_aligned (rows : List (Text × Text)) :
    Batch.Aligned ⟨rows.length, rows.map Prod.fst, rows.map Prod.snd⟩ :=
  ⟨List.length_map .., List.length_map ..⟩

theorem tableOf_single (rows : List (Text × Text)) : (tableOf rows).Single := .inr ⟨_, rfl, tableOf_aligned rows⟩

theorem tableOf_rows (rows : List (Text × Text)) : (tableOf rows).rows = rows := by
  have hrows : (tableOf rows).rows = (rows.map Prod.fst).zip (rows.map Prod.snd) := List.append_nil _
  rw [hrows, zip_fst_snd]

theorem Table.Lists.rows_last {table : Table} {dumped : List (Text × Text)} (h : table.Lists dumped) :
    lastEntry table.rows = lastEntry dumped := by
  funext name
  apply Option.ext
  intro output
  rw [lastEntry_eq_some h.once, h.last]

theorem empty_lists : makeEmptyRecipesTable.Lists [] :=
  ⟨tableOf_single [], List.nodup_nil, fun _ _ => by simp [makeEmptyRecipesTable, Table.rows, overwrite]⟩

section
variable {Content : Type} {arrow : Arrow Content}

variable (arrow) in
/-- The merged table has the new outputs in place of the old. -/
theorem merge_lists {old : Table} {dumped : List (Text × Text)} (h : old.Lists dumped)
    (recorded : List (Text × Text)) :
    ∃ rows, mergeRecipeTables arrow old (tableOf recorded) = tableOf rows ∧
      (tableOf rows).Lists (dumped ++ recorded) := by
  let values := populateMap (tableOf recorded) (populateMap old ∅)
  have hlookup : (fun name => values.lookup name) = lastEntry (dumped ++ recorded) := by
    have hvalues : values = insertAll (insertAll ∅ old.rows) recorded := by
      show populateMap (tableOf recorded) (populateMap old ∅) = _
      rw [populateMap_single (tableOf_single recorded), populateMap_single h.single, tableOf_rows]
    have hold : overwrite (fun name => (∅ : Values).lookup name) old.rows = lastEntry dumped := h.rows_last
    rw [hvalues, lookup_insertAll, lookup_insertAll, hold]
    exact (overwrite_append ..).symm
  have hperm := arrow.iterate_perm values
  refine ⟨arrow.iterate values, rfl, tableOf_single _, ?_, ?_⟩
  · have hkeys : ((arrow.iterate values).map Prod.fst).Perm values.keys := by
      have hfst := hperm.map Prod.fst
      rwa [List.map_map] at hfst
    rw [tableOf_rows]
    exact hkeys.nodup_iff.2 values.keys_nodup
  · intro name output
    rw [tableOf_rows, hperm.mem_iff, ← hlookup, ← Option.mem_def, AList.mem_lookup_iff, List.mem_map]
    constructor
    · intro hm
      obtain ⟨e, he, heq⟩ := hm
      cases heq
      exact he
    · exact fun he => ⟨⟨name, output⟩, he, rfl⟩

theorem represents_read {content : Content} {rows dumped : List (Text × Text)} (h : (tableOf rows).Lists dumped)
    (hread : arrow.toTable content = arrow.toTable (arrow.writeTable (tableOf rows))) :
    Represents arrow (some content) (.recipes dumped) := by
  have hwritten := arrow.toTable_writeTable _ (tableOf_aligned rows)
  by_cases hzero : rows.length = 0
  · have hrows : rows = [] := List.length_eq_zero_iff.1 hzero
    rw [if_pos hzero] at hwritten
    refine ⟨_, [], rfl, hread.trans hwritten, .inl rfl, List.nodup_nil, fun name output => ?_⟩
    have hlast := h.last name output
    rwa [tableOf_rows, hrows] at hlast
  · rw [if_neg hzero] at hwritten
    exact ⟨_, tableOf rows, rfl, hread.trans hwritten, h⟩

/-- A table that has been written is read as one that lists the same. -/
theorem represents_written {rows dumped : List (Text × Text)} (h : (tableOf rows).Lists dumped) :
    Represents arrow (some (arrow.writeTable (tableOf rows))) (.recipes dumped) := represents_read h rfl

/-- One that has been cut off, as what is left. -/
theorem represents_cutOff {rows dumped : List (Text × Text)} (h : (tableOf rows).Lists dumped) (cut : Cut) :
    Represents arrow (some (arrow.cutOff (tableOf rows) cut)) ((Book.recipes dumped).cutOff cut) := by
  cases cut with
  | within position => exact ⟨_, rfl, arrow.toTable_within _ position (tableOf_aligned rows)⟩
  | behindSchema =>
    have hread := arrow.toTable_behindSchema _ (tableOf_aligned rows)
    exact ⟨_, [], rfl, hread, .inl rfl, List.nodup_nil, fun _ _ => by simp [Table.rows, overwrite]⟩
  | behindBatch => exact represents_read h (arrow.toTable_behindBatch _ (tableOf_aligned rows))

/-! ### Dumps -/

def State.finished (s : State Content) : State Content := {s with testNames := [], testOutputs := []}

theorem dump_run (s : State Content) (filename : Text) (conditions : Conditions) :
    (dumpRecipeOutput arrow filename conditions).run s =
      match loadExistingRecipeOutputTable arrow filename conditions.opens s.files with
      | .error status => .error status s.finished
      | .ok table => (writeRecipes arrow filename (mergeRecipeTables arrow table
          [⟨s.testNames.length, s.testNames, s.testOutputs⟩]) conditions.output).run s.finished := by
  show (reading (fun s => loadExistingRecipeOutputTable arrow filename conditions.opens s.files) >>= _).run
    s.finished = _
  have hload : reading (fun s : State Content =>
        loadExistingRecipeOutputTable arrow filename conditions.opens s.files) s.finished =
      match loadExistingRecipeOutputTable arrow filename conditions.opens s.files with
      | .error status => .error status s.finished
      | .ok table => .ok table s.finished := by
    have hfiles : s.finished.files = s.files := rfl
    rw [reading, hfiles]
    cases loadExistingRecipeOutputTable arrow filename conditions.opens s.files <;> rfl
  simp only [bind, EStateM.bind, EStateM.run, hload]
  cases loadExistingRecipeOutputTable arrow filename conditions.opens s.files <;> rfl

theorem represents_found {files : Text → Option Content} {filename : Text} {book : Book}
    (h : Represents arrow (files filename) book) (opens : Bool) :
    Represents arrow (openInputFile filename opens files) (book.found opens) := by
  cases opens with
  | true => exact h
  | false => exact rfl

theorem load_cases {files : Text → Option Content} {filename : Text} {opens : Bool} {book : Book}
    (h : Represents arrow (openInputFile filename opens files) book) :
    ((∀ recorded, book.write recorded = none) ∧
        Raises (loadExistingRecipeOutputTable arrow filename opens files)) ∨
      ∃ dumped table, (∀ recorded, book.write recorded = some (.recipes (dumped ++ recorded))) ∧
        loadExistingRecipeOutputTable arrow filename opens files = .ok table ∧ table.Lists dumped := by
  unfold loadExistingRecipeOutputTable
  cases book with
  | missing =>
    have hnone : openInputFile filename opens files = none := h
    rw [hnone]
    exact .inr ⟨[], _, fun _ => rfl, rfl, empty_lists⟩
  | damaged =>
    obtain ⟨c, hc, hraises⟩ := h
    rw [hc]
    exact .inl ⟨fun _ => rfl, hraises⟩
  | recipes dumped =>
    obtain ⟨c, table, hc, htable, hlists⟩ := h
    rw [hc]
    exact .inr ⟨dumped, table, fun _ => rfl, htable, hlists⟩

theorem Follows.write {s : State Content} {t : Session} (h : Follows arrow s t) {filename : Text}
    {content : Content} {book : Book} (hbook : Represents arrow (some content) book) :
    Follows arrow (s.finished.write filename content)
      {t with recorded := [], books := Function.update t.books filename book} := by
  refine ⟨h.currentRecipe, h.rout, rfl, rfl, h.passed, fun other => ?_⟩
  show Represents arrow (Function.update s.files filename (some content) other)
    (Function.update t.books filename book other)
  by_cases hother : other = filename
  · rw [hother, Function.update_self, Function.update_self]
    exact hbook
  · rw [Function.update_of_ne hother, Function.update_of_ne hother]
    exact h.books other

theorem Follows.finished {s : State Content} {t : Session} (h : Follows arrow s t) :
    Follows arrow s.finished {t with recorded := []} :=
  ⟨h.currentRecipe, h.rout, rfl, rfl, h.passed, h.books⟩

/-- How a dump ends, and what it comes to. -/
structure Dumps (arrow : Arrow Content) (result : EStateM.Result Status (State Content) Unit) (t : Bool × Session) :
    Prop where
  succeeds : ∀ s, result = .ok () s → t.1 = true ∧ Follows arrow s t.2
  fails : ∀ status s, result = .error status s → t.1 = false ∧ Follows arrow s t.2

theorem Dumps.ok {s : State Content} {t : Session} (h : Follows arrow s t) : Dumps arrow (.ok () s) (true, t) := by
  constructor
  · intro s' he
    cases he
    exact ⟨rfl, h⟩
  · intro _ _ he
    cases he

theorem Dumps.error {s : State Content} {t : Session} (status : Status) (h : Follows arrow s t) :
    Dumps arrow (.error status s) (false, t) := by
  constructor
  · intro _ he
    cases he
  · intro _ s' he
    cases he
    exact ⟨rfl, h⟩

theorem dump_follows {s : State Content} {t : Session} (h : Follows arrow s t) (filename : Text)
    (conditions : Conditions) :
    Dumps arrow ((dumpRecipeOutput arrow filename conditions).run s) (t.dumped filename conditions) := by
  rw [dump_run, Session.dumped]
  have hfound := represents_found (h.books filename) conditions.opens
  rcases load_cases hfound with ⟨hwrite, status, hstatus⟩ | ⟨dumped, table, hwrite, htable, hlists⟩
  · -- The file is no table: nothing is written.
    rw [hstatus, hwrite]
    exact .error status h.finished
  · have hbatch : [⟨s.testNames.length, s.testNames, s.testOutputs⟩] = tableOf t.recorded := by
      rw [h.names, h.outputs, List.length_map]
      rfl
    obtain ⟨rows, hmerged, hrows⟩ := merge_lists arrow hlists t.recorded
    rw [htable, hwrite]
    show Dumps arrow ((writeRecipes arrow filename (mergeRecipeTables arrow table _)
      conditions.output).run s.finished) _
    rw [hbatch, hmerged]
    cases conditions.output with
    | written => exact .ok (h.write (represents_written hrows))
    | refused status => exact .error status h.finished
    | brokenOff status cut => exact .error status (h.write (represents_cutOff hrows cut))

/-! ### Programs -/

theorem Follows.fail {s : State Content} {t : Session} (h : Follows arrow s t) (failure : Failure) :
    Follows arrow (s.fail failure) {t with passed := false} := by
  refine ⟨h.currentRecipe, h.rout, h.names, h.outputs, ?_, h.books⟩
  simp [State.fail]

theorem next_follows {s : State Content} {t : Session} (h : Follows arrow s t) (action : Action) :
    Follows arrow (s.next arrow action) (t.next action) := by
  cases action with
  | startRecipe recipeName =>
    show Follows arrow (startRecipe recipeName s) _
    rw [startRecipe, Session.next, h.currentRecipe]
    by_cases hopen : t.currentRecipe = []
    · by_cases hname : recipeName = []
      · rw [if_neg (not_not_intro hopen), if_pos hname, if_neg (fun hc => hc.2 hname)]
        exact h.fail .emptyName
      · rw [if_neg (not_not_intro hopen), if_neg hname, if_pos ⟨hopen, hname⟩]
        exact ⟨rfl, rfl, h.names, h.outputs, h.passed, h.books⟩
    · rw [if_pos hopen, if_neg (fun hc => hopen hc.1)]
      exact h.fail _
  | print text =>
    exact ⟨h.currentRecipe, congrArg (· ++ text) h.rout, h.names, h.outputs, h.passed, h.books⟩
  | endRecipe recipeName =>
    show Follows arrow (endRecipe recipeName s) _
    rw [endRecipe, Session.next, h.currentRecipe]
    by_cases hname : t.currentRecipe = recipeName
    · rw [if_neg (not_not_intro hname), if_pos hname]
      refine ⟨rfl, h.rout, ?_, ?_, h.passed, h.books⟩
      · rw [List.map_append, ← h.names]
        rfl
      · rw [List.map_append, ← h.outputs, ← h.rout]
        rfl
    · rw [if_pos hname, if_neg hname]
      exact h.fail _
  | dump filename conditions =>
    have hdumps := dump_follows h filename conditions
    simp only [State.next, Session.next]
    cases hresult : (dumpRecipeOutput arrow filename conditions).run s with
    | ok u s' =>
      obtain ⟨hok, hfollows⟩ := hdumps.succeeds s' hresult
      rw [hok, Bool.and_true]
      exact hfollows
    | error status s' =>
      obtain ⟨hok, hfollows⟩ := hdumps.fails status s' hresult
      rw [hok, Bool.and_false]
      exact hfollows.fail _
  | fail => exact h.fail _

theorem run_follows {s : State Content} {t : Session} (h : Follows arrow s t) (actions : List Action) :
    Follows arrow (s.run arrow actions) (t.run actions) := by
  induction actions generalizing s t with
  | nil => exact h
  | cons action actions ih => exact ih (next_follows h action)

/-- A program returns what is read off the books, and leaves files that stand for them. -/
theorem main_follows {files : Text → Option Content} {books : Books}
    (h : ∀ filename, Represents arrow (files filename) (books filename)) (program : Program) :
    (main arrow program files).1 = (Session.main program books).1 ∧
      ∀ filename, Represents arrow ((main arrow program files).2 filename) ((Session.main program books).2 filename) := by
  have hinitial : Follows arrow (State.initial files) ⟨[], [], [], true, books⟩ :=
    ⟨rfl, rfl, rfl, rfl, by simp [State.initial], h⟩
  have hrun := run_follows hinitial program.tests
  rw [main, Session.main]
  generalize (State.initial files).run arrow program.tests = s at hrun
  generalize Session.run ⟨[], [], [], true, books⟩ program.tests = t at hrun
  cases hpassed : t.passed with
  | false =>
    have hfailed : s.failures ≠ [] := fun he => by simp [hrun.passed.1 he] at hpassed
    simp only [hfailed, if_false]
    exact ⟨rfl, hrun.books⟩
  | true =>
    have hnone : s.failures = [] := hrun.passed.2 hpassed
    by_cases hrecorded : t.recorded = []
    · have hout : hasRecipeOutput s = false := by simp [hasRecipeOutput, hrun.names, hrecorded]
      simp only [hnone, hout, hrecorded, if_true]
      exact ⟨rfl, hrun.books⟩
    · have hout : hasRecipeOutput s = true := by
        simpa [hasRecipeOutput, hrun.names, List.length_pos_iff] using hrecorded
      have hdumps := dump_follows hrun recipesOut program.last
      simp only [hnone, hout, hrecorded, if_true, if_false, and_self]
      cases hresult : (dumpRecipeOutput arrow recipesOut program.last).run s with
      | ok u s' =>
        obtain ⟨hok, hfollows⟩ := hdumps.succeeds s' hresult
        exact ⟨by rw [hok]; rfl, hfollows.books⟩
      | error status s' =>
        obtain ⟨hok, hfollows⟩ := hdumps.fails status s' hresult
        exact ⟨by rw [hok]; rfl, hfollows.books⟩

variable (arrow) in
/-- Programs that are run one after the other in a directory. -/
def programs : Responder (Text → Option Content) Program Int where
  respond files program := main arrow program files

/-- What they are to return and to make of the books. -/
def bookkeeping : Responder.Promise Books Program Int where
  next books program := (Session.main program books).2
  meets books program code := code = (Session.main program books).1

/-- **The files are kept as books**: over every history of programs, whatever their tests do,
whichever files are not opened and wherever a dump breaks off, the programs return what the
books say they do, and the files go on standing for the books, one row for each recipe with
the output that was dumped last. -/
theorem programs_keep_books {files : Text → Option Content} {books : Books}
    (h : ∀ filename, Represents arrow (files filename) (books filename)) (history : List Program) :
    bookkeeping.Kept books history ((programs arrow).answers files history) ∧
      ∀ filename, Represents arrow ((programs arrow).after files history filename)
        (history.foldl bookkeeping.next books filename) := by
  have hstep : ∀ (files : Text → Option Content) (books : Books) (program : Program),
      (∀ filename, Represents arrow (files filename) (books filename)) → True →
        bookkeeping.meets books program ((programs arrow).respond files program).1 ∧
          ∀ filename, Represents arrow (((programs arrow).respond files program).2 filename)
            (bookkeeping.next books program filename) :=
    fun _ _ program hfiles _ => main_follows hfiles program
  exact ⟨Responder.answers_kept hstep h fun _ _ => trivial, Responder.after_kept hstep h fun _ _ => trivial⟩

end

/-- Tables as they are, and files that are none. -/
def plainArrow : Arrow (Option Table) where
  toTable content := match content with
    | none => .error ⟨.invalid, ""⟩
    | some table => .ok (table.filter (·.length ≠ 0))
  writeTable table := some table
  cutOff table cut := match cut with
    | .within _ => none
    | .behindSchema => some []
    | .behindBatch => some table
  iterate values := values.entries.map fun e => (e.1, e.2)
  toTable_writeTable batch _ := by by_cases h : batch.length = 0 <;> simp [h]
  toTable_within _ _ _ := ⟨_, rfl⟩
  toTable_behindSchema _ _ := rfl
  toTable_behindBatch _ _ := rfl
  iterate_perm values := .refl _

/-- The tests record a recipe. -/
def recording (rout : Text) (last : Conditions) : Program :=
  ⟨[.startRecipe ['A'], .print rout, .endRecipe ['A']], last⟩

/-- Two programs write the recipe, the dump of a third breaks off, and a fourth does not find the file. -/
def fourPrograms : List Program :=
  [recording ['1'] {}, recording ['2'] {}, recording ['3'] {output := .brokenOff ⟨.ioError, ""⟩ .behindBatch},
    recording ['4'] {opens := false}]

theorem programs_keep_books_four :
    (programs plainArrow).answers (fun _ => none) fourPrograms = [0, 0, -1, 0] ∧
      Represents plainArrow ((programs plainArrow).after (fun _ => none) (fourPrograms.take 3) recipesOut)
        (.recipes [(['A'], ['1']), (['A'], ['2']), (['A'], ['3'])]) ∧
      Represents plainArrow ((programs plainArrow).after (fun _ => none) fourPrograms recipesOut)
        (.recipes [(['A'], ['4'])]) := by
  have hnone : ∀ filename : Text, Represents plainArrow ((fun _ => none : Text → Option (Option Table)) filename)
      ((fun _ => .missing : Books) filename) := fun _ => rfl
  refine ⟨?_, (programs_keep_books hnone (fourPrograms.take 3)).2 recipesOut,
    (programs_keep_books hnone fourPrograms).2 recipesOut⟩
  obtain ⟨a, t, ha, h1, b, u, hb, h2, c, v, hc, h3, d, w, hd, h4, hw⟩ := (programs_keep_books hnone fourPrograms).1
  rw [ha, hb, hc, hd, hw, h1, h2, h3, h4]
  decide

end ExploreCpp.Cookbook
