import HeapChurn.Binary64

/-!
# Documents

The tree that a TOML file stands for. A table keeps its keys in the order of the file, because the
first fault of a document is the one that comes first in the file.
-/

namespace HeapChurn

namespace Toml

inductive Value where
  | string (text : String)
  | integer (value : Int)
  | float (value : Binary64)
  | boolean (value : Bool)
  /-- A date, a time of day, or both, as written. -/
  | moment (text : String)
  | array (items : List Value)
  | table (entries : List (String × Value))
  deriving Repr

/-- Keys and values, in the order of the file. -/
abbrev Table : Type := List (String × Value)

end Toml

end HeapChurn
