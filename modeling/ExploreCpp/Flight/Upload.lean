import ExploreCpp.Flight.Rows
import Mathlib.Data.List.Basic

/-! What a failed upload leaves.

`DoPut` opens its file, which truncates it, before it knows that there is a table to
write, and writes to it directly. So an upload that fails after that leaves what has been
written by then (`doPut_fails`). -/
namespace ExploreCpp.Flight
open Outcome

section Upload
variable (A : Arrow)

/-- Where the upload goes, if `DoPut` comes to open it. -/
def sinkOf (s : Store) (descriptor : FlightDescriptor) : Except Status Location := do
  let info ← fileInfoFromDescriptor A s descriptor
  let sink ← A.locate s info.path
  A.writable s sink
  pure sink

/-- The client sends a whole table, and Parquet can store it. -/
def Accepted (stream : A.MessageStream) : Prop :=
  ∃ table, A.toTable stream = .ok table ∧ (A.writeTable table).2 = .ok ()

/-- What has been written when the upload fails. -/
def leftover (stream : A.MessageStream) : Content :=
  match A.toTable stream with
  | .error _ => []
  | .ok table => (A.writeTable table).1

/-- Nothing answers differently from before. -/
structure Unharmed (s t : Store) : Prop where
  store : t = s
  datasets : ∀ ticket, doGet A t ticket = doGet A s ticket
  listing : listFlights A t = listFlights A s

/-- The upload is refused before its file is opened, or accepted, or leaves a file as it was. -/
def Harmless (s : Store) (reader : FlightMessageReader A.MessageStream) : Prop :=
  ∀ sink, sinkOf A s reader.descriptor = .ok sink →
    Accepted A reader.stream ∨ s sink = some (.file (leftover A reader.stream))

variable {A} {s t : Store} {reader : FlightMessageReader A.MessageStream}

theorem Unharmed.refl (s : Store) : Unharmed A s s := ⟨rfl, fun _ => rfl, rfl⟩

theorem openOutputStream_succeeds {path : Path} {sink : Location} :
    Succeeds (openOutputStream A path) s sink t ↔
      A.locate s path = .ok sink ∧ A.writable s sink = .ok () ∧ t = s.write sink [] := by
  simp only [openOutputStream, succeeds_bind, succeeds_reading, succeeds_writing, succeeds_pure]
  constructor
  · rintro ⟨_, _, ⟨hl, rfl⟩, _, _, ⟨hw, rfl⟩, _, _, rfl, rfl, rfl⟩
    exact ⟨hl, hw, rfl⟩
  · rintro ⟨hl, hw, rfl⟩
    exact ⟨sink, s, ⟨hl, rfl⟩, (), s, ⟨hw, rfl⟩, (), _, rfl, rfl, rfl⟩

theorem openOutputStream_fails {path : Path} :
    Fails (openOutputStream A path) s t ↔
      (Raises (A.locate s path) ∨ ∃ sink, A.locate s path = .ok sink ∧ Raises (A.writable s sink)) ∧
        t = s := by
  simp only [openOutputStream, fails_bind, fails_reading, succeeds_reading, not_fails_writing,
    not_fails_pure, and_false, exists_false, or_false]
  constructor
  · rintro (⟨hl, rfl⟩ | ⟨sink, _, ⟨hl, rfl⟩, hw, rfl⟩)
    · exact ⟨.inl hl, rfl⟩
    · exact ⟨.inr ⟨sink, hl, hw⟩, rfl⟩
  · rintro ⟨hl | ⟨sink, hl, hw⟩, rfl⟩
    · exact .inl ⟨hl, rfl⟩
    · exact .inr ⟨sink, t, ⟨hl, rfl⟩, hw, rfl⟩

theorem accepted_of_ok {stream : A.MessageStream} {table : A.Table} (ht : A.toTable stream = .ok table) :
    Accepted A stream ↔ (A.writeTable table).2 = .ok () := by
  simp [Accepted, ht]

theorem not_raises_iff {x : Except Status Unit} : ¬ Raises x ↔ x = .ok () := by
  cases x <;> simp [Raises]

/-- How an upload fails once its file is open. -/
theorem write_fails {sink : Location} {u : Store} :
    Fails (do
      let table ← reading fun _ => A.toTable reader.stream
      writing fun s => s.write sink (A.writeTable table).1
      reading fun _ => (A.writeTable table).2 : EStateM Status Store Unit) u t ↔
      ¬ Accepted A reader.stream ∧ t = match A.toTable reader.stream with
        | .error _ => u
        | .ok table => u.write sink (A.writeTable table).1 := by
  simp only [fails_bind, fails_reading, succeeds_reading, succeeds_writing, not_fails_writing, false_or]
  cases ht : A.toTable reader.stream with
  | error e => simp [Raises, Accepted, ht]
  | ok table =>
    rw [accepted_of_ok ht, ← not_raises_iff, not_not]
    constructor
    · rintro (⟨⟨_, he⟩, -⟩ | ⟨_, _, ⟨hu, rfl⟩, _, _, rfl, hw, rfl⟩)
      · cases he
      · cases hu
        exact ⟨hw, rfl⟩
    · rintro ⟨hw, rfl⟩
      exact .inr ⟨table, u, ⟨rfl, rfl⟩, (), _, rfl, hw, rfl⟩

theorem sinkOf_ok {descriptor : FlightDescriptor} {sink : Location} :
    sinkOf A s descriptor = .ok sink ↔ ∃ info, fileInfoFromDescriptor A s descriptor = .ok info ∧
      A.locate s info.path = .ok sink ∧ A.writable s sink = .ok () := by
  simp only [sinkOf, ok_bind]
  constructor
  · rintro ⟨info, hi, _, hl, _, hw, he⟩
    cases he
    exact ⟨info, hi, hl, hw⟩
  · rintro ⟨info, hi, hl, hw⟩
    exact ⟨info, hi, sink, hl, (), hw, rfl⟩

theorem sinkOf_raises {descriptor : FlightDescriptor} :
    Raises (sinkOf A s descriptor) ↔ Raises (fileInfoFromDescriptor A s descriptor) ∨
      ∃ info, fileInfoFromDescriptor A s descriptor = .ok info ∧
        (Raises (A.locate s info.path) ∨
          ∃ sink, A.locate s info.path = .ok sink ∧ Raises (A.writable s sink)) := by
  have hp : ∀ sink : Location, ¬ Raises (pure sink : Except Status Location) := by
    simp [Raises, pure, Except.pure]
  simp only [sinkOf, raises_bind, hp, and_false, exists_false, or_false]

theorem leftover_eq {sink : Location} : s.write sink (leftover A reader.stream) =
    match A.toTable reader.stream with
    | .error _ => s.write sink []
    | .ok table => (s.write sink []).write sink (A.writeTable table).1 := by
  unfold leftover
  split
  · rfl
  · rw [Store.write_write]

theorem doPut_fails : Fails (doPut A reader) s t ↔
    (Raises (sinkOf A s reader.descriptor) ∧ t = s) ∨
      ∃ sink, sinkOf A s reader.descriptor = .ok sink ∧ ¬ Accepted A reader.stream ∧
        t = s.write sink (leftover A reader.stream) := by
  unfold doPut
  rw [fails_bind]
  simp only [fails_reading, succeeds_reading]
  constructor
  · rintro (⟨hr, rfl⟩ | ⟨info, _, ⟨hi, rfl⟩, hf⟩)
    · exact .inl ⟨sinkOf_raises.2 (.inl hr), rfl⟩
    · obtain hf | ⟨sink, _, ho, hw⟩ := fails_bind.1 hf
      · obtain ⟨hr, rfl⟩ := openOutputStream_fails.1 hf
        exact .inl ⟨sinkOf_raises.2 (.inr ⟨info, hi, hr⟩), rfl⟩
      · obtain ⟨hl, hs, rfl⟩ := openOutputStream_succeeds.1 ho
        obtain ⟨hn, rfl⟩ := write_fails.1 hw
        exact .inr ⟨sink, sinkOf_ok.2 ⟨info, hi, hl, hs⟩, hn, leftover_eq.symm⟩
  · rintro (⟨hr, rfl⟩ | ⟨sink, hs, hn, rfl⟩)
    · obtain hr | ⟨info, hi, hr⟩ := sinkOf_raises.1 hr
      · exact .inl ⟨hr, rfl⟩
      · exact .inr ⟨info, t, ⟨hi, rfl⟩, fails_bind.2 (.inl (openOutputStream_fails.2 ⟨hr, rfl⟩))⟩
    · obtain ⟨info, hi, hl, hw⟩ := sinkOf_ok.1 hs
      have ho := openOutputStream_succeeds.2 ⟨hl, hw, rfl⟩
      exact .inr ⟨info, s, ⟨hi, rfl⟩,
        fails_bind.2 (.inr ⟨sink, _, ho, write_fails.2 ⟨hn, leftover_eq⟩⟩)⟩

/-- **A failed upload leaves the store as it was** exactly if it is harmless. -/
theorem doPut_unharmed_iff (s : Store) (reader : FlightMessageReader A.MessageStream) :
    (∀ t, Fails (doPut A reader) s t → Unharmed A s t) ↔ Harmless A s reader := by
  constructor
  · intro h sink hs
    refine or_iff_not_imp_left.2 fun hn => ?_
    have hu := (h _ (doPut_fails.2 (.inr ⟨sink, hs, hn, rfl⟩))).store
    exact (Function.update_eq_self_iff.1 hu).symm
  · intro h t ht
    have hts : t = s := by
      obtain ⟨-, rfl⟩ | ⟨sink, hs, hn, rfl⟩ := doPut_fails.1 ht
      · rfl
      · exact Function.update_eq_self_iff.2 ((h sink hs).resolve_left hn).symm
    rw [hts]
    exact .refl s

end Upload

/-- An upload to `air.parquet` whose client breaks off. -/
def brokenOff : FlightMessageReader (rows [air]).MessageStream :=
  ⟨.ofPath [air], .error ⟨.ioError, "Client cancelled call"⟩⟩

/-- It takes the dataset it was to replace with it, and the listing. -/
theorem brokenOff_harms :
    let s := ofNodes [([air], .file [Rows.magic, 1, 2])]
    ∃ t, Fails (doPut (rows [air]) brokenOff) s t ∧ t [air] = some (.file []) ∧ t ≠ s ∧
      doGet (rows [air]) s air = .ok [1, 2] ∧ Raises (doGet (rows [air]) t air) ∧
      (∃ info, listFlights (rows [air]) s = .ok [info]) ∧ Raises (listFlights (rows [air]) t) := by
  refine ⟨_, ⟨_, rfl⟩, rfl, fun h => ?_, rfl, ⟨_, rfl⟩, ⟨_, rfl⟩, ⟨_, rfl⟩⟩
  have hair := congrFun h [air]
  cases hair

end ExploreCpp.Flight
