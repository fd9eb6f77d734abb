import ExploreCpp.Flight.Rows

/-! The handles the service gives out.

`FileInfoFromDescriptor` and `DoGet` take a path to a file, and `DoPut` writes to it, but
what `MakeFlightInfo` hands out is the base name. That is the path only of a file in the
root directory. -/
namespace ExploreCpp.Flight
open Outcome

variable {A : Arrow} {s : Store} {file : Location} {path : Path} {content : Content}
variable {info : FlightInfo A.SchemaBytes A.Uri}

/-- What is handed out for a file leads back to it. -/
structure LeadsBack (A : Arrow) (s : Store) (file : Location) (info : FlightInfo A.SchemaBytes A.Uri) :
    Prop where
  tickets : ∀ endpoint ∈ info.endpoints, A.locate s endpoint.ticket = .ok file
  read : ∃ content, s file = some (.file content) ∧
    ∀ endpoint ∈ info.endpoints, doGet A s endpoint.ticket = streamFile A content
  descriptor : ∃ path, info.descriptor = .ofPath [path] ∧ A.locate s path = .ok file
  again : getFlightInfo A s info.descriptor = .ok info

/-! ### What the operations answer -/

theorem openInputFile_ok : openInputFile A s path = .ok content ↔
    ∃ file, A.locate s path = .ok file ∧ s file = some (.file content) := by
  unfold openInputFile
  rw [ok_bind]
  refine exists_congr fun file => and_congr_right fun _ => ?_
  split <;> simp_all [pure, Except.pure, throw, throwThe, MonadExceptOf.throw]

theorem fileInfoFromDescriptor_ok {descriptor : FlightDescriptor} {entry : FileInfo} :
    fileInfoFromDescriptor A s descriptor = .ok entry ↔
      ∃ path, descriptor = .ofPath [path] ∧ getFileInfo A s path = .ok entry := by
  obtain ⟨type, components⟩ := descriptor
  unfold fileInfoFromDescriptor FlightDescriptor.ofPath
  by_cases ht : type = .path
  · match components with
    | [] => simp [ht]
    | [path] => simp [ht]
    | _ :: _ :: _ => simp [ht]
  · simp [ht]

theorem getFlightInfo_ok {descriptor : FlightDescriptor} : getFlightInfo A s descriptor = .ok info ↔
    ∃ path file, descriptor = .ofPath [path] ∧ A.locate s path = .ok file ∧
      makeFlightInfo A s (describe s (A.reported s path) file) = .ok info := by
  unfold getFlightInfo
  simp only [ok_bind, fileInfoFromDescriptor_ok, getFileInfo, pure, Except.pure, Except.ok.injEq]
  constructor
  · rintro ⟨_, ⟨path, hd, file, hl, rfl⟩, hm⟩
    exact ⟨path, file, hd, hl, hm⟩
  · rintro ⟨path, file, hd, hl, hm⟩
    exact ⟨_, ⟨path, hd, file, hl, rfl⟩, hm⟩

/-- What `MakeFlightInfo` makes of a table. -/
def tableInfo (A : Arrow) (name : Path) (size : Int) (content : Content) :
    Except Status (FlightInfo A.SchemaBytes A.Uri) := do
  let reader ← A.openFile content
  let schema ← reader.getSchema
  let location ← A.ownLocation
  let bytes ← A.serialize schema
  pure
    { schema := bytes
      descriptor := .ofPath [name]
      endpoints := [⟨name, [location]⟩]
      totalRecords := reader.numRows
      totalBytes := size }

/-- It depends on the path of the file only by where that leads and how it ends. -/
theorem makeFlightInfo_ok (hl : A.locate s path = .ok file) :
    makeFlightInfo A s (describe s path file) = .ok info ↔
      ∃ content, s file = some (.file content) ∧
        tableInfo A (baseName path) content.length content = .ok info := by
  cases hn : s file with
  | none => simp [makeFlightInfo, openInputFileInfo, describe, FileInfo.isFile, hn, ok_bind, throw,
      throwThe, MonadExceptOf.throw]
  | some node =>
    cases node with
    | directory => simp [makeFlightInfo, openInputFileInfo, describe, FileInfo.isFile, hn, ok_bind,
        throw, throwThe, MonadExceptOf.throw]
    | file content =>
      have hi : openInputFile A s path = .ok content := openInputFile_ok.2 ⟨file, hl, hn⟩
      have hm : makeFlightInfo A s (describe s path file) =
          tableInfo A (baseName path) content.length content := by
        simp [makeFlightInfo, openInputFileInfo, describe, FileInfo.isFile, hn, hi, tableInfo]
        rfl
      rw [hm]
      simp

theorem tableInfo_ok {name : Path} {size : Int} (h : tableInfo A name size content = .ok info) :
    info.descriptor = .ofPath [name] ∧ ∃ uri, info.endpoints = [⟨name, [uri]⟩] := by
  unfold tableInfo at h
  obtain ⟨reader, -, h⟩ := ok_bind.1 h
  obtain ⟨schema, -, h⟩ := ok_bind.1 h
  obtain ⟨uri, -, h⟩ := ok_bind.1 h
  obtain ⟨bytes, -, h⟩ := ok_bind.1 h
  cases h
  exact ⟨rfl, uri, rfl⟩

/-! ### What a handle leads to -/

/-- A path to a file in the root directory ends in its name. -/
theorem baseName_of_root {name : Path} (hl : A.locate s path = .ok [name])
    (hf : s [name] = some (.file content)) : baseName path = name := by
  obtain ⟨-, directories, hd⟩ := A.locate_file s path [name] content hl hf
  cases directories with
  | nil => exact (List.head_eq_of_cons_eq hd).symm
  | cons first rest => simp at hd

theorem doGet_of_locate (hl : A.locate s path = .ok file) (hf : s file = some (.file content)) :
    doGet A s path = streamFile A content := by
  have hi : openInputFile A s path = .ok content := openInputFile_ok.2 ⟨file, hl, hf⟩
  unfold doGet
  rw [hi]
  rfl

theorem leadsBack_iff (hl : A.locate s path = .ok file)
    (h : makeFlightInfo A s (describe s path file) = .ok info) :
    LeadsBack A s file info ↔ ∃ name, file = [name] := by
  obtain ⟨content, hf, ht⟩ := (makeFlightInfo_ok hl).1 h
  obtain ⟨hd, uri, he⟩ := tableInfo_ok ht
  obtain ⟨hn, directories, hfile⟩ := A.locate_file s path file content hl hf
  have hname := A.locate_name s _ hn
  constructor
  · intro hb
    have hticket := hb.tickets _ (he ▸ List.mem_singleton_self _)
    rw [hname] at hticket
    cases hticket
    exact ⟨_, rfl⟩
  · rintro ⟨name, rfl⟩
    obtain rfl : baseName path = name := baseName_of_root hl hf
    have hreported : A.locate s (A.reported s (baseName path)) = .ok [baseName path] :=
      (A.reported_locate s _).trans hname
    have hbase : baseName (A.reported s (baseName path)) = baseName path := baseName_of_root hreported hf
    refine ⟨?_, ⟨content, hf, ?_⟩, ⟨_, hd, hname⟩, ?_⟩
    · rw [he]
      simp [hname]
    · rw [he]
      simp [doGet_of_locate hname hf]
    · rw [hd]
      refine getFlightInfo_ok.2 ⟨_, _, rfl, hname, (makeFlightInfo_ok hreported).2 ⟨content, hf, ?_⟩⟩
      rw [hbase]
      exact ht

/-- What is listed lies in the root directory. -/
theorem listRoot_mem {listing : List FileInfo} {entry : FileInfo} (h : listRoot A s = .ok listing)
    (he : entry ∈ listing) :
    ∃ name, A.locate s entry.path = .ok [name] ∧ entry = describe s entry.path [name] := by
  unfold listRoot at h
  obtain ⟨paths, hp, hm⟩ := ok_bind.1 h
  obtain ⟨path, hmem, hd⟩ := ok_mapM hm entry he
  obtain ⟨name, hname⟩ := A.root_entry s paths hp path hmem
  obtain ⟨location, hl, hpure⟩ := ok_bind.1 hd
  have hsame : location = [name] := Except.ok.inj (hl.symm.trans hname)
  have hentry : describe s path location = entry := Except.ok.inj hpure
  have hpath : entry.path = path := by
    rw [← hentry]
    unfold describe
    split <;> rfl
  rw [hpath]
  exact ⟨name, hname, hsame ▸ hentry.symm⟩

theorem listFlights_mem {infos : List (FlightInfo A.SchemaBytes A.Uri)} (h : listFlights A s = .ok infos)
    (hi : info ∈ infos) :
    ∃ listing entry, listRoot A s = .ok listing ∧ entry ∈ listing ∧ makeFlightInfo A s entry = .ok info := by
  unfold listFlights at h
  obtain ⟨listing, hl, hm⟩ := ok_bind.1 h
  obtain ⟨entry, he, hmake⟩ := ok_mapM hm info hi
  exact ⟨listing, entry, hl, (List.mem_filter.1 he).1, hmake⟩

/-- **What the service hands out for a file leads back to it** exactly if the file is in the root
directory. So it always does for what is listed. -/
theorem handles_lead_back_iff (A : Arrow) (s : Store) :
    (∀ descriptor info, getFlightInfo A s descriptor = .ok info →
      ∃ path file, descriptor = .ofPath [path] ∧ A.locate s path = .ok file ∧
        (LeadsBack A s file info ↔ ∃ name, file = [name])) ∧
    ∀ infos, listFlights A s = .ok infos → ∀ info ∈ infos,
      ∃ listing entry file, listRoot A s = .ok listing ∧ entry ∈ listing ∧
        makeFlightInfo A s entry = .ok info ∧ A.locate s entry.path = .ok file ∧
        LeadsBack A s file info := by
  constructor
  · intro descriptor info h
    obtain ⟨path, file, hd, hl, hm⟩ := getFlightInfo_ok.1 h
    have hreported : A.locate s (A.reported s path) = .ok file := (A.reported_locate s path).trans hl
    exact ⟨path, file, hd, hl, leadsBack_iff hreported hm⟩
  · intro infos h info hi
    obtain ⟨listing, entry, hl, he, hm⟩ := listFlights_mem h hi
    obtain ⟨name, hname, hd⟩ := listRoot_mem hl he
    have hb : LeadsBack A s [name] info := (leadsBack_iff hname (hd ▸ hm)).2 ⟨name, rfl⟩
    exact ⟨listing, entry, [name], hl, he, hm, hname, hb⟩

/-- In particular for a dataset that is the only one. -/
theorem handles_lead_back_air :
    let s := ofNodes [([air], .file [Rows.magic, 1, 2])]
    ∃ info, getFlightInfo (rows [air]) s (.ofPath [air]) = .ok info ∧ LeadsBack (rows [air]) s [air] info ∧
      listFlights (rows [air]) s = .ok [info] ∧ ∃ file, LeadsBack (rows [air]) s file info := by
  intro s
  obtain ⟨asked, listed⟩ := handles_lead_back_iff (rows [air]) s
  obtain ⟨path, file, hd, hl, hb⟩ := asked (.ofPath [air]) _ rfl
  obtain ⟨_, _, other, -, -, -, -, hlisted⟩ := listed _ rfl _ (List.mem_singleton_self _)
  obtain rfl : air = path := List.head_eq_of_cons_eq (congrArg FlightDescriptor.path hd)
  obtain rfl : [air] = file := Except.ok.inj hl
  exact ⟨_, rfl, hb.2 ⟨air, rfl⟩, rfl, other, hlisted⟩

/-- `sub/air.parquet` -/
def subAir : Path := ['s', 'u', 'b', '/'] ++ air

def sub : Path := ['s', 'u', 'b']

/-- Asked for `sub/air.parquet`, the service hands out what leads to `air.parquet`: to another
dataset if there is one, else to nothing. -/
theorem subAir_misleads :
    let other := (([air], .file [Rows.magic, 7, 8, 9]) : Location × Node)
    let nested := [([sub], .directory), ([sub, air], .file [Rows.magic, 1])]
    ∃ info, getFlightInfo (rows [air, sub]) (ofNodes nested) (.ofPath [subAir]) = .ok info ∧
      getFlightInfo (rows [air, sub]) (ofNodes (other :: nested)) (.ofPath [subAir]) = .ok info ∧
      info.totalRecords = 1 ∧ info.endpoints.map FlightEndpoint.ticket = [air] ∧
      Raises (doGet (rows [air, sub]) (ofNodes nested) air) ∧
      Raises (getFlightInfo (rows [air, sub]) (ofNodes nested) info.descriptor) ∧
      doGet (rows [air, sub]) (ofNodes (other :: nested)) air = .ok [7, 8, 9] ∧
      ∃ info', getFlightInfo (rows [air, sub]) (ofNodes (other :: nested)) info.descriptor = .ok info' ∧
        info'.totalRecords = 3 :=
  ⟨_, rfl, rfl, rfl, rfl, ⟨_, rfl⟩, ⟨_, rfl⟩, rfl, _, rfl, rfl⟩

end ExploreCpp.Flight
