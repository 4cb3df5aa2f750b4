import HeapChurn.Binary64
import HeapChurn.Text.Writing

/-!
# Schema faults

What can be wrong with a document that is well formed but does not have the shape of a
configuration. A fault names what was found and what was expected there; its wording is fixed here
once for every file the program reads.
-/

namespace HeapChurn

namespace Schema

/-- What stands in the document. -/
inductive Found where
  | string (text : String)
  | integer (value : Int)
  | float (value : Binary64)
  | boolean (value : Bool)
  | sequence
  | map
  deriving Repr, DecidableEq

/-- What the configuration has at that place. -/
inductive Expected where
  /-- A natural number that fits a word. -/
  | word
  | sequence
  /-- A record of that name. -/
  | record (name : String)
  deriving Repr, DecidableEq

inductive Fault where
  | missingField (name : String)
  | wrongType (found : Found) (expected : Expected)
  | negative (value : Int)
  /-- A record written as an array of its fields, with too few of them. -/
  | tooShort (length : Nat) (record : String) (fields : Nat)
  deriving Repr, DecidableEq

/-- A float that is whole is shown with one decimal, so that it does not read as an integer. -/
def floatText (value : Binary64) : String :=
  let text := value.toShortest
  match value with
  | .finite .. => if text.toList.contains '.' then text else text ++ ".0"
  | _ => text

def Found.describe : Found → String
  | .string text => "string " ++ Quoted.quote text
  | .integer value => "integer `" ++ Numeral.renderInt value ++ "`"
  | .float value => "floating point `" ++ floatText value ++ "`"
  | .boolean value => "boolean `" ++ (if value then "true" else "false") ++ "`"
  | .sequence => "sequence"
  | .map => "map"

def Expected.describe : Expected → String
  | .word => "usize"
  | .sequence => "a sequence"
  | .record name => "struct " ++ name

def Fault.message : Fault → String
  | .missingField name => "missing field `" ++ name ++ "`"
  | .wrongType found expected =>
    "invalid type: " ++ found.describe ++ ", expected " ++ expected.describe
  | .negative value =>
    "invalid value: " ++ (Found.integer value).describe ++ ", expected " ++ Expected.word.describe
  | .tooShort length record fields =>
    "invalid length " ++ Numeral.render length ++ ", expected struct " ++ record ++ " with "
      ++ Numeral.render fields ++ " elements"

end Schema

/-- Why a file of configuration is refused: it is not a document at all, or one of another shape. -/
inductive DocumentFault where
  | malformed
  | shape (fault : Schema.Fault)
  deriving Repr, DecidableEq

end HeapChurn
