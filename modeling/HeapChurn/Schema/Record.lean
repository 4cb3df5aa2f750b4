import HeapChurn.Schema.Fault
import HeapChurn.Toml.Value

/-!
# Reading a document by its schema

All that a configuration holds is words, records of words and lists of records. A record is written
as a table, whose keys it picks by name, or as an array of its fields in their order. Values are
read in the order of the file, so the fault that is reported is the first one in the file; only a
field that is missing from a table is noticed at the end of the table.

`sequence` and `record` are the readers of the library that comes with the program.
-/

namespace HeapChurn

namespace Schema

abbrev Decoder (α : Type) : Type := Toml.Value → Except Fault α

/-- How a message names a value. A date or a time counts as a map of its parts. -/
def Found.ofValue : Toml.Value → Found
  | .string text => .string text
  | .integer value => .integer value
  | .float value => .float value
  | .boolean value => .boolean value
  | .moment _ => .map
  | .array _ => .sequence
  | .table _ => .map

/-- The fault of a value that is not what is expected. -/
def mismatch {α : Type} (expected : Expected) (v : Toml.Value) : Except Fault α :=
  .error (.wrongType (.ofValue v) expected)

/-- A natural number. Integers of a document are narrow enough to fit a word. -/
def word : Decoder Nat
  | .integer value => if value < 0 then .error (.negative value) else .ok value.toNat
  | v => mismatch .word v

/-- An array whose items are read one after the other. -/
def sequence {α : Type} (item : Decoder α) : Decoder (List α)
  | .array items => items.mapM item
  | v => mismatch .sequence v

/-- The words that a value gives to the fields of a record. -/
abbrev Fields : Type := List (String × Nat)

/-- Reads the value of a field. -/
def field (entry : String × Toml.Value) : Except Fault (String × Nat) :=
  (entry.1, ·) <$> word entry.2

/-- A record of words with a name of its own. A table may have other keys and may leave fields out;
an array may have more items but no fewer. A date or a time is a map whose parts are none of the
fields. -/
def record (name : String) (fields : List String) : Decoder Fields
  | .table entries => (entries.filter fun entry => fields.contains entry.1).mapM field
  | .array items => do
    let given ← (fields.zip items).mapM field
    if items.length < fields.length then .error (.tooShort items.length name fields.length)
    else .ok given
  | .moment _ => .ok []
  | v => mismatch (.record name) v

/-- A field that a record cannot do without. -/
def Fields.require (given : Fields) (name : String) : Except Fault Nat :=
  match given.lookup name with
  | some value => .ok value
  | none => .error (.missingField name)

end Schema

end HeapChurn
