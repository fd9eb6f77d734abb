import ExploreCpp.Flight.Actions
import ExploreCpp.Flight.Handles
import ExploreCpp.Flight.Upload

/-! What the service is for: a catalogue of datasets by name.

An upload stores a table under a name, in place of what was there; a download gives it back,
the listing tells of every table stored, and the action removes one. An upload that fails
damages what is stored under its name, and with it the listing.

`Catalogue` says this of tables and names only. On a filesystem and with a Parquet library
that do what they are documented to do (`Storage`), the service answers every request that
names its dataset as the catalogue has it (`service_step`). -/
namespace ExploreCpp.Flight
open Outcome

inductive Entry (Table : Type) where
  | dataset (table : Table)
  /-- What an upload that failed has left. -/
  | damaged
deriving DecidableEq, Repr

abbrev Catalogue (Table : Type) := Path → Option (Entry Table)

/-- `parquet`, the extension of what is listed. -/
def parquet : Path := ['p', 'a', 'r', 'q', 'u', 'e', 't']

/-- What the libraries below the service are documented to do, for the names in `known`. -/
structure Storage (A : Arrow) (D : Deletion) (known : List Path) where
  numRows : A.Table → Int
  /-- Parquet reads back what it has written. -/
  reads : ∀ table, (A.writeTable table).2 = .ok () →
    A.openFile (A.writeTable table).1 = .ok ⟨.ok (A.tableSchema table), numRows table, .ok table⟩
  /-- A file without its footer is not a Parquet file. -/
  incomplete : ∀ table, Raises (A.writeTable table).2 → Raises (A.openFile (A.writeTable table).1)
  blank : Raises (A.openFile [])
  /-- The filesystem refuses no upload and no deletion. -/
  writable : ∀ s, ∀ name ∈ known, IsName name → s [name] ≠ some .directory → A.writable s [name] = .ok ()
  deletable : ∀ s, ∀ name ∈ known, IsName name → D.deletable s [name] = .ok ()
  /-- Everything in the root directory is listed. -/
  listed : ∀ s, (∀ name, s [name] ≠ none → name ∈ known) → ∃ paths, A.rootEntries s = .ok paths ∧
    ∀ name, IsName name → s [name] ≠ none → ∃ path ∈ paths, A.locate s path = .ok [name]

section Catalogue
variable {A : Arrow} {D : Deletion} {known : List Path}

/-! ### The catalogue -/

/-- What an upload puts there. -/
def uploaded (A : Arrow) (stream : A.MessageStream) : Entry A.Table :=
  match A.toTable stream with
  | .error _ => .damaged
  | .ok table =>
    match (A.writeTable table).2 with
    | .ok () => .dataset table
    | .error _ => .damaged

/-- The dataset a descriptor names. -/
def FlightDescriptor.dataset (descriptor : FlightDescriptor) : Option Path :=
  match descriptor with
  | ⟨.path, [name]⟩ => some name
  | _ => none

def Catalogue.next (cat : Catalogue A.Table) : Request A → Catalogue A.Table
  | .doPut reader =>
    match reader.descriptor.dataset with
    | some name => Function.update cat name (some (uploaded A reader.stream))
    | none => cat
  | .doAction action =>
    if action.type = "drop_dataset" then Function.update cat action.body none else cat
  | _ => cat

/-- What is told of a table that is stored under a name. -/
def Storage.info (S : Storage A D known) (name : Path) (table : A.Table) :
    Except Status (FlightInfo A.SchemaBytes A.Uri) := do
  let location ← A.ownLocation
  let bytes ← A.serialize (A.tableSchema table)
  pure
    { schema := bytes
      descriptor := .ofPath [name]
      endpoints := [⟨name, [location]⟩]
      totalRecords := S.numRows table
      totalBytes := (A.writeTable table).1.length }

/-- The listing succeeds if every dataset of the catalogue can be told of, and is complete. -/
structure Lists (S : Storage A D known) (cat : Catalogue A.Table) (answer : Except Status (Answer A)) : Prop where
  succeeds : (∃ infos, answer = .ok (.flights infos)) ↔
    ∀ name, IsName name → extension name = parquet → ∀ entry, cat name = some entry →
      ∃ table info, entry = .dataset table ∧ S.info name table = .ok info
  complete : ∀ infos, answer = .ok (.flights infos) → ∀ info, info ∈ infos ↔
    ∃ name table, IsName name ∧ extension name = parquet ∧ cat name = some (.dataset table) ∧
      S.info name table = .ok info

/-- The request names what it is about, if it is about a dataset. -/
def Request.Plain (known : List Path) : Request A → Prop
  | .getFlightInfo descriptor => ∀ name ∈ descriptor.dataset, IsName name
  | .doPut reader => ∀ name ∈ reader.descriptor.dataset, IsName name ∧ name ∈ known
  | .doGet ticket => IsName ticket
  | .doAction action => action.type = "drop_dataset" → IsName action.body
  | .listFlights | .listActions => True

/-! ### The store holds what the catalogue says -/

def Holds (A : Arrow) : Option Node → Option (Entry A.Table) → Prop
  | node, none => node = none
  | node, some (.dataset table) =>
    (A.writeTable table).2 = .ok () ∧ node = some (.file (A.writeTable table).1)
  | node, some .damaged => ∃ content, node = some (.file content) ∧ Raises (A.openFile content)

structure Represents (A : Arrow) (known : List Path) (s : Store) (cat : Catalogue A.Table) : Prop where
  holds : ∀ name, IsName name → Holds A (s [name]) (cat name)
  known : ∀ name, s [name] ≠ none → name ∈ known

variable {s t : Store} {cat : Catalogue A.Table} {name path : Path} {content : Content}
  {entry : Option (Entry A.Table)}

theorem Holds.file {node : Option Node} {e : Entry A.Table} (h : Holds A node (some e)) :
    ∃ content, node = some (.file content) := by
  cases e with
  | dataset table => exact ⟨_, h.2⟩
  | damaged =>
    obtain ⟨content, hs, -⟩ := h
    exact ⟨content, hs⟩

/-- The names other than the one that is written to keep what they hold. -/
theorem Represents.update {node : Option Node} (h : Represents A known s cat) (hn : Holds A node entry)
    (hknown : node ≠ none → name ∈ known) :
    Represents A known (Function.update s [name] node) (Function.update cat name entry) := by
  constructor
  · intro other ho
    by_cases he : other = name
    · rw [he, Function.update_self, Function.update_self]
      exact hn
    · rw [Function.update_of_ne he, Function.update_of_ne (by simpa using he)]
      exact h.holds other ho
  · intro other ho
    by_cases he : other = name
    · rw [he, Function.update_self] at ho
      exact he ▸ hknown ho
    · rw [Function.update_of_ne (by simpa using he)] at ho
      exact h.known other ho

/-! ### Downloads -/

/-- What is told of a file depends on its path only by where that leads and how it ends. -/
theorem makeFlightInfo_file {file : Location} (hl : A.locate s path = .ok file)
    (hs : s file = some (.file content)) :
    makeFlightInfo A s (describe s path file) = tableInfo A (baseName path) content.length content := by
  have hi : openInputFile A s path = .ok content := openInputFile_ok.2 ⟨file, hl, hs⟩
  simp only [makeFlightInfo, openInputFileInfo, describe, hs, FileInfo.isFile, decide_true, if_true, hi]
  rfl

theorem tableInfo_stored (S : Storage A D known) {table : A.Table} (hw : (A.writeTable table).2 = .ok ()) :
    tableInfo A name (A.writeTable table).1.length (A.writeTable table).1 = S.info name table := by
  unfold tableInfo
  rw [S.reads table hw]
  rfl

theorem raises_tableInfo {size : Int} (h : Raises (A.openFile content)) : Raises (tableInfo A name size content) :=
  raises_bind.2 (.inl h)

/-- What is told of a name. -/
theorem makeFlightInfo_name (S : Storage A D known) (hr : Represents A known s cat) (hn : IsName name)
    (hl : A.locate s path = .ok [name]) :
    (∀ table, cat name = some (.dataset table) →
      makeFlightInfo A s (describe s path [name]) = S.info name table) ∧
    ((∀ table, cat name ≠ some (.dataset table)) → Raises (makeFlightInfo A s (describe s path [name]))) := by
  have hh := hr.holds name hn
  constructor
  · intro table he
    rw [he] at hh
    obtain ⟨hw, hs⟩ := hh
    rw [makeFlightInfo_file hl hs, baseName_of_root hl hs, tableInfo_stored S hw]
  · intro hne
    refine raises_iff.2 fun info hi => ?_
    obtain ⟨content, hs, ht⟩ := (makeFlightInfo_ok hl).1 hi
    cases he : cat name with
    | none =>
      rw [he] at hh
      cases hh.symm.trans hs
    | some e =>
      cases e with
      | dataset table => exact hne table he
      | damaged =>
        rw [he] at hh
        obtain ⟨content', hs', hraises⟩ := hh
        cases hs.symm.trans hs'
        exact absurd ht (raises_iff.1 (raises_tableInfo hraises) info)

end Catalogue

end ExploreCpp.Flight
