import ExploreCpp.Flight.Service
import Mathlib.Data.List.Basic

/-! A filesystem and a table format to run the service on.

Paths are taken apart at `/`, and nothing else is read into them. A dataset has a byte
for each row, after one that marks it as a table; a client sends its rows, or breaks off. -/
namespace ExploreCpp.Flight

instance : DecidablePred IsName := fun name =>
  decidable_of_iff (name ≠ [] ∧ '/' ∉ name ∧ name ≠ ['.'] ∧ name ≠ ['.', '.'])
    ⟨fun ⟨hn, hp, hd⟩ => ⟨hn, hp, hd⟩, fun h => ⟨h.nonempty, h.plain, h.proper⟩⟩

namespace Rows

def locate (path : Path) : Except Status Location :=
  if ∀ part ∈ path.splitOn '/', IsName part then .ok (path.splitOn '/')
  else .error ⟨.invalid, "Not a path of names"⟩

/-- Those of the names that the root directory has. -/
def rootEntries (names : List Path) (s : Store) : List Path :=
  names.filter fun name => IsName name ∧ (s [name]).isSome

def writable (s : Store) (location : Location) : Except Status Unit :=
  if s location = some .directory then .error ⟨.ioError, "Is a directory"⟩
  else if location.dropLast = [] ∨ s location.dropLast = some .directory then .ok ()
  else .error ⟨.ioError, "No such file or directory"⟩

abbrev Table := List UInt8

def magic : UInt8 := 80

def openFile : Content → Except Status (ParquetReader Unit Table)
  | first :: rows =>
    if first = magic then .ok ⟨.ok (), rows.length, .ok rows⟩
    else .error ⟨.invalid, "Parquet magic bytes not found in footer."⟩
  | [] => .error ⟨.invalid, "Parquet file size is 0 bytes"⟩

theorem locate_ok {path : Path} {location : Location} (h : locate path = .ok location) :
    (∀ name ∈ location, IsName name) ∧ location = path.splitOn '/' := by
  unfold locate at h
  split at h
  · cases h
    exact ⟨‹_›, rfl⟩
  · cases h

theorem locate_name {name : Path} (hn : IsName name) : locate name = .ok [name] := by
  have hs : name.splitOn '/' = [name] := List.splitOn_eq_singleton hn.plain
  simp [locate, hs, hn]

theorem locate_baseName {path : Path} {location : Location} (h : locate path = .ok location) :
    IsName (baseName path) ∧ location = location.dropLast ++ [baseName path] := by
  obtain ⟨hn, hl⟩ := locate_ok h
  have hne : location ≠ [] := hl ▸ List.splitOn_ne_nil '/' path
  have hb : baseName path = location.getLast hne := by
    rw [baseName, ← hl, List.getLast?_eq_some_getLast hne, Option.getD_some]
  rw [hb]
  exact ⟨hn _ (List.getLast_mem hne), (List.dropLast_append_getLast hne).symm⟩

end Rows

/-- The root directory may hold files of the names given. -/
def rows (names : List Path) : Arrow where
  locate _ path := Rows.locate path
  reported _ path := path
  rootEntries s := .ok (Rows.rootEntries names s)
  unreadable _ := ⟨.ioError, "Cannot open for reading"⟩
  writable := Rows.writable
  reported_locate _ _ := rfl
  locate_name _ _ hn := Rows.locate_name hn
  locate_file _ _ _ _ hl _ :=
    have ⟨hn, hb⟩ := Rows.locate_baseName hl
    ⟨hn, _, hb⟩
  root_entry s paths hp path hm := by
    cases hp
    have hn := (of_decide_eq_true (List.mem_filter.1 hm).2).1
    exact ⟨path, Rows.locate_name hn⟩
  Schema := Unit
  SchemaBytes := Unit
  Table := Rows.Table
  RecordBatch := Rows.Table
  DataStream := Rows.Table
  MessageStream := Except Status Rows.Table
  Uri := String
  openFile := Rows.openFile
  writeTable table := (Rows.magic :: table, .ok ())
  toTable stream := stream
  tableSchema _ := ()
  toRecordBatches table := .ok [table]
  recordBatchStream batches _ := .ok batches.flatten
  ownLocation := .ok "grpc+tcp://localhost:8815"
  serialize _ := .ok ()

def ofNodes (nodes : List (Location × Node)) : Store := fun location => nodes.lookup location

/-- `air.parquet` -/
def air : Path := ['a', 'i', 'r', '.', 'p', 'a', 'r', 'q', 'u', 'e', 't']

end ExploreCpp.Flight
