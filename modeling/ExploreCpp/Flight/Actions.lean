import ExploreCpp.Flight.Service
import ExploreCpp.Responder

/-! The actions of `ParquetStorageService`, and the service as a whole.

There is one action, which deletes a dataset. A request is answered in one piece: what a
failed one has done to the store stays. -/
namespace ExploreCpp.Flight
open Outcome

structure ActionType where
  type : String
  description : String
deriving DecidableEq, Repr

/-- An action as a client asks for it. -/
structure Action where
  type : String
  body : Path
deriving DecidableEq, Repr

def kActionDropDataset : ActionType := ⟨"drop_dataset", "Delete a dataset."⟩

/-- `DeleteFile` of the filesystem. -/
structure Deletion where
  /-- What deleting fails with if there is no file. -/
  undeletable : Path → Status
  deletable : Store → Location → Except Status Unit

def Store.remove (s : Store) (location : Location) : Store := Function.update s location none

variable (A : Arrow) (D : Deletion)

def deleteFile (path : Path) : EStateM Status Store Unit := do
  let location ← reading fun s => A.locate s path
  reading fun s =>
    match s location with
    | some (.file _) => D.deletable s location
    | _ => .error (D.undeletable path)
  writing fun s => s.remove location

def doActionDropDataset (key : Path) : EStateM Status Store Unit := deleteFile A D key

def listActions : List ActionType := [kActionDropDataset]

/-- The stream of results is empty. -/
def doAction (action : Action) : EStateM Status Store (List Content) :=
  if action.type = kActionDropDataset.type then do
    let results := []
    doActionDropDataset A D action.body
    pure results
  else
    throw ⟨.notImplemented, "Unknown action type: " ++ action.type⟩

/-! ### Requests -/

inductive Request where
  | listFlights
  | getFlightInfo (descriptor : FlightDescriptor)
  | doPut (reader : FlightMessageReader A.MessageStream)
  | doGet (ticket : Path)
  | listActions
  | doAction (action : Action)

inductive Answer where
  | flights (infos : List (FlightInfo A.SchemaBytes A.Uri))
  | info (info : FlightInfo A.SchemaBytes A.Uri)
  | done
  | stream (stream : A.DataStream)
  | actions (actions : List ActionType)
  | results (results : List Content)

section Outcomes
variable {A D} {s t : Store}

end Outcomes

end ExploreCpp.Flight
