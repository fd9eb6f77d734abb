import ExploreCpp.Flight.Store
import ExploreCpp.Outcome

/-! `ParquetStorageService`.

The operations that only ask are functions of the store; `DoPut` is a command, whose
effects stay if it fails. `Actions` adds `ListActions` and `DoAction`. -/
namespace ExploreCpp.Flight
open Outcome

inductive FileType where
  | notFound
  | file
  | directory
deriving DecidableEq, Repr

structure FileInfo where
  path : Path
  type : FileType
  /-- `kNoSize`, which is -1, for all but files. -/
  size : Int
deriving DecidableEq, Repr

def FileInfo.isFile (info : FileInfo) : Bool := info.type = .file

inductive DescriptorType where
  | unknown
  | path
  | cmd
deriving DecidableEq, Repr

structure FlightDescriptor where
  type : DescriptorType
  path : List Path
deriving DecidableEq, Repr

def FlightDescriptor.ofPath (path : List Path) : FlightDescriptor := ⟨.path, path⟩

structure FlightEndpoint (Uri : Type) where
  ticket : Path
  locations : List Uri
deriving DecidableEq

structure FlightInfo (SchemaBytes Uri : Type) where
  schema : SchemaBytes
  descriptor : FlightDescriptor
  endpoints : List (FlightEndpoint Uri)
  totalRecords : Int
  totalBytes : Int
deriving DecidableEq

structure FlightMessageReader (MessageStream : Type) where
  descriptor : FlightDescriptor
  stream : MessageStream

variable (A : Arrow)

/-! ### The filesystem -/

def describe (s : Store) (path : Path) (location : Location) : FileInfo :=
  match s location with
  | none => ⟨path, .notFound, -1⟩
  | some .directory => ⟨path, .directory, -1⟩
  | some (.file content) => ⟨path, .file, content.length⟩

def getFileInfo (s : Store) (path : Path) : Except Status FileInfo := do
  let location ← A.locate s path
  pure (describe s (A.reported s path) location)

/-- `GetFileInfo` for the selector. -/
def listRoot (s : Store) : Except Status (List FileInfo) := do
  let paths ← A.rootEntries s
  paths.mapM fun path => do
    let location ← A.locate s path
    pure (describe s path location)

def openInputFile (s : Store) (path : Path) : Except Status Content := do
  let location ← A.locate s path
  match s location with
  | some (.file content) => pure content
  | _ => throw (A.unreadable path)

/-- `OpenInputFile` for a `FileInfo`. -/
def openInputFileInfo (s : Store) (info : FileInfo) : Except Status Content :=
  if info.isFile then openInputFile A s info.path else throw (A.unreadable info.path)

/-- The file is created, or truncated, when it is opened. -/
def openOutputStream (path : Path) : EStateM Status Store Location := do
  let sink ← reading fun s => A.locate s path
  reading fun s => A.writable s sink
  writing fun s => s.write sink []
  pure sink

/-! ### Helpers of the service -/

def makeFlightInfo (s : Store) (info : FileInfo) : Except Status (FlightInfo A.SchemaBytes A.Uri) := do
  let input ← openInputFileInfo A s info
  let reader ← A.openFile input
  let schema ← reader.getSchema
  let location ← A.ownLocation
  let bytes ← A.serialize schema
  pure
    { schema := bytes
      descriptor := .ofPath [baseName info.path]
      endpoints := [⟨baseName info.path, [location]⟩]
      totalRecords := reader.numRows
      totalBytes := info.size }

def fileInfoFromDescriptor (s : Store) (descriptor : FlightDescriptor) : Except Status FileInfo :=
  if descriptor.type ≠ .path then
    throw ⟨.invalid, "Must provide PATH-type FlightDescriptor"⟩
  else
    match descriptor.path with
    | [path] => getFileInfo A s path
    | _ => throw ⟨.invalid, "Must provide PATH-type FlightDescriptor with one path component"⟩

/-! ### Operations -/

def listFlights (s : Store) : Except Status (List (FlightInfo A.SchemaBytes A.Uri)) := do
  let listing ← listRoot A s
  (listing.filter fun info => info.isFile && extension info.path = ['p', 'a', 'r', 'q', 'u', 'e', 't']).mapM
    (makeFlightInfo A s)

def getFlightInfo (s : Store) (descriptor : FlightDescriptor) :
    Except Status (FlightInfo A.SchemaBytes A.Uri) := do
  let info ← fileInfoFromDescriptor A s descriptor
  makeFlightInfo A s info

def doPut (reader : FlightMessageReader A.MessageStream) : EStateM Status Store Unit := do
  let info ← reading fun s => fileInfoFromDescriptor A s reader.descriptor
  let sink ← openOutputStream A info.path
  let table ← reading fun _ => A.toTable reader.stream
  writing fun s => s.write sink (A.writeTable table).1
  reading fun _ => (A.writeTable table).2

/-- What `DoGet` makes of the file it has opened. -/
def streamFile (input : Content) : Except Status A.DataStream := do
  let reader ← A.openFile input
  let table ← reader.readTable
  let batches ← A.toRecordBatches table
  A.recordBatchStream batches (A.tableSchema table)

def doGet (s : Store) (ticket : Path) : Except Status A.DataStream := do
  let input ← openInputFile A s ticket
  streamFile A input

end ExploreCpp.Flight
