import Ramag.CsvRecords
import Ramag.ResultValues

/-!
The CSV export of a result. What it writes is what the rules of RFC 4180 read
back as one header and one record for each row.
-/
namespace Ramag.ResultExport
open Strings CsvRecords ResultValues

/-- Every index, or the ones that are selected. -/
def selectedIndices (indices : Option (List Nat)) (len : Nat) : List Nat := indices.getD (List.range len)

/-- A field, between quotes if it holds a comma, a quote or a line break. -/
def writeCsvField (field : Text) : Text :=
  if field.any (fun c => c = ',' || c = '"' || c = '\r' || c = '\n') then
    -- The parts between the quotes are written with two quotes between them.
    ['"'] ++ replaceChar '"' ['"', '"'] field ++ ['"']
  else field

/-- The fields of `write_csv_record`, where each but the first writes a comma first. -/
def writeCsvFields : Bool → List Text → Text
  | _, [] => []
  | first, field :: fields => (if first then [] else [',']) ++ writeCsvField field ++ writeCsvFields false fields

def writeCsvRecord (fields : List Text) : Text := writeCsvFields true fields ++ ['\r', '\n']

/-- The strings of the selected cells of a row; a missing one is empty. -/
def recordValues (print : Printers) (columns : List Nat) (row : Row) : List Text :=
  columns.map fun column => (row.values[column]?.map (Value.toClipboardString print)).getD []

/-- The selected column names; a missing one is empty. -/
def headerValues (result : QueryResult) (columns : List Nat) : List Text := columns.map fun index => result.columns[index]?.getD []

/-- The text that `write_csv_view` writes. -/
def writeCsvView (print : Printers) (result : QueryResult) (rowIndices columnIndices : Option (List Nat)) : Text :=
  let columns := selectedIndices columnIndices result.columns.length
  writeCsvRecord (headerValues result columns) ++ (selectedIndices rowIndices result.rows.length).flatMap fun index =>
      match result.rows[index]? with
      | none => []
      | some row => writeCsvRecord (recordValues print columns row)

theorem writeCsvFields_eq {fields : List Text} (filled : fields ≠ []) (first : Bool) :
    writeCsvFields first fields ++ ['\r', '\n'] = (if first then [] else [',']) ++ recordText fields := by
  induction fields generalizing first with
  | nil => exact absurd rfl filled
  | cons field fields ih =>
    cases fields with
    | nil =>
      rw [writeCsvFields, writeCsvFields, recordText, List.append_nil, List.append_assoc]
      rfl
    | cons next fields =>
      have others := ih (List.cons_ne_nil _ _) false
      have split : recordText (field :: next :: fields) = fieldText field ++ ',' :: recordText (next :: fields) := rfl
      rw [writeCsvFields, List.append_assoc, others, split, List.append_assoc]
      rfl

theorem writeCsvRecord_eq {fields : List Text} (filled : fields ≠ []) : writeCsvRecord fields = recordText fields :=
  writeCsvFields_eq filled true

variable (print : Printers) (result : QueryResult) (rowIndices columnIndices : Option (List Nat))

/-- The rows that are selected and there, in the order of the selection. -/
def selectedRows : List Row := (selectedIndices rowIndices result.rows.length).filterMap fun index => result.rows[index]?

/-- The export is read back: the header, and a record for each selected row. -/
theorem csv_round_trip (filled : selectedIndices columnIndices result.columns.length ≠ []) :
    read (writeCsvView print result rowIndices columnIndices) =
      some (headerValues result (selectedIndices columnIndices result.columns.length) ::
        (selectedRows result rowIndices).map (recordValues print (selectedIndices columnIndices result.columns.length))) := by
  generalize selected : selectedIndices columnIndices result.columns.length = columns at filled ⊢
  have header : headerValues result columns ≠ [] := by simpa [headerValues] using filled
  have record : ∀ row, recordValues print columns row ≠ [] := by
    intro row
    simpa [recordValues] using filled
  have rows : ∀ indices : List Nat, (indices.flatMap fun index =>
        match result.rows[index]? with
        | none => []
        | some row => writeCsvRecord (recordValues print columns row)) =
      ((indices.filterMap fun index => result.rows[index]?).map (recordValues print columns)).flatMap recordText := by
    intro indices
    induction indices with
    | nil => rfl
    | cons index indices ih =>
      rw [List.flatMap_cons, ih]
      cases there : result.rows[index]? with
      | none => simp [there]
      | some row => simp [there, writeCsvRecord_eq (record row)]
  have text : writeCsvView print result rowIndices columnIndices =
      (headerValues result columns :: (selectedRows result rowIndices).map (recordValues print columns)).flatMap recordText := by
    rw [writeCsvView, selected, rows, writeCsvRecord_eq header]
    rfl
  rw [text]
  refine read_records fun fields mem => ?_
  rcases List.mem_cons.mp mem with rfl | mem
  · exact header
  · obtain ⟨row, -, rfl⟩ := List.mem_map.mp mem
    exact record row

/-- Reordered columns, one of them twice and one that is missing, and a row that is missing. -/
theorem csv_round_trip_columns : let result : QueryResult := ⟨["a", "b"], [⟨[.Text "x,\""]⟩]⟩
    read (writeCsvView ⟨fun _ => [], fun _ => [], fun _ => []⟩ result (some [0, 4]) (some [1, 0, 7, 0])) =
      some [["b".toList, "a".toList, [], "a".toList], [[], "x,\"".toList, [], "x,\"".toList]] :=
  csv_round_trip _ ⟨["a", "b"], [⟨[.Text "x,\""]⟩]⟩ (some [0, 4]) (some [1, 0, 7, 0]) (by decide)

end Ramag.ResultExport
