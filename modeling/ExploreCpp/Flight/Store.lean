import Mathlib.Logic.Function.Basic

/-! The filesystem and the libraries below the dataset service of `flight.cc`.

What the service stores is a tree of files, each at a location: the names on the way
from the root. What a path leads to, what Parquet makes of a file, and which calls fail
is left open (`Arrow`), but for what is documented of them. -/
namespace ExploreCpp.Flight

abbrev Path := List Char

abbrev Content := List UInt8

/-- The names of the directories from the root, and that of the file. -/
abbrev Location := List Path

inductive Node where
  | file (content : Content)
  | directory
deriving DecidableEq, Repr

abbrev Store := Location → Option Node

def Store.write (s : Store) (sink : Location) (content : Content) : Store :=
  Function.update s sink (some (.file content))

@[simp] theorem Store.write_write {s : Store} {sink : Location} {content content' : Content} :
    (s.write sink content).write sink content' = s.write sink content' := by
  simp [Store.write]

inductive StatusCode where
  | invalid
  | ioError
  | notImplemented
deriving DecidableEq, Repr

structure Status where
  code : StatusCode
  message : String
deriving DecidableEq, Repr

/-! ### Paths -/

/-- `FileInfo::base_name()`: the part of the path after its last `/`. -/
def baseName (path : Path) : Path := ((path.splitOn '/').getLast?).getD []

/-- `FileInfo::extension()`: the part of the base name after its last dot. -/
def extension (path : Path) : Path :=
  match (baseName path).splitOn '.' with
  | [_] => []
  | parts => parts.getLast?.getD []

/-- One component of a path that stays in its directory. -/
structure IsName (name : Path) : Prop where
  nonempty : name ≠ []
  plain : '/' ∉ name
  proper : name ≠ ['.'] ∧ name ≠ ['.', '.']

/-! ### Libraries -/

structure ParquetReader (Schema Table : Type) where
  getSchema : Except Status Schema
  numRows : Int
  readTable : Except Status Table

/-- `arrow::fs::FileSystem`, below a root directory and without links. -/
structure FileSystem where
  /-- The location a path leads to, which need not exist. -/
  locate : Store → Path → Except Status Location
  /-- `path()` of the `FileInfo` for a path. -/
  reported : Store → Path → Path
  /-- The paths `GetFileInfo` reports for the selector of all that is directly in `/`. -/
  rootEntries : Store → Except Status (List Path)
  /-- What opening a file fails with that is not there, or is a directory. -/
  unreadable : Path → Status
  /-- Whether a file at the location can be opened for writing. -/
  writable : Store → Location → Except Status Unit
  reported_locate : ∀ s path, locate s (reported s path) = locate s path
  locate_name : ∀ s name, IsName name → locate s name = .ok [name]
  /-- A path that leads to a file ends in its name. -/
  locate_file : ∀ s path location content, locate s path = .ok location →
    s location = some (.file content) →
    IsName (baseName path) ∧ ∃ directories, location = directories ++ [baseName path]
  root_entry : ∀ s paths, rootEntries s = .ok paths → ∀ path ∈ paths, ∃ name, locate s path = .ok [name]

/-- What the service uses of Arrow. -/
structure Arrow extends FileSystem where
  Schema : Type
  SchemaBytes : Type
  Table : Type
  RecordBatch : Type
  DataStream : Type
  MessageStream : Type
  Uri : Type
  /-- `parquet::arrow::OpenFile`. -/
  openFile : Content → Except Status (ParquetReader Schema Table)
  /-- `parquet::arrow::WriteTable`: what it writes to its sink, and how it ends. -/
  writeTable : Table → Content × Except Status Unit
  /-- `FlightMessageReader::ToTable`, on what the client sends. -/
  toTable : MessageStream → Except Status Table
  tableSchema : Table → Schema
  toRecordBatches : Table → Except Status (List RecordBatch)
  /-- `RecordBatchReader::Make`, in a `RecordBatchStream`. -/
  recordBatchStream : List RecordBatch → Schema → Except Status DataStream
  /-- `Location::ForGrpcTcp` of the server itself. -/
  ownLocation : Except Status Uri
  /-- What `FlightInfo::Make` does to the schema. -/
  serialize : Schema → Except Status SchemaBytes

end ExploreCpp.Flight
