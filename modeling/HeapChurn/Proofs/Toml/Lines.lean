import HeapChurn.Toml.Library
import Mathlib.Algebra.Ring.Nat

/-!
# Files of plain lines

Many files have nothing but headers of array elements and numbers under bare keys, one to a line. What
TOML 1.0 makes of such lines is said here line by line (`Draft.add`): a header opens another element
of its array, a number belongs to the element that was opened last, no key of a table comes twice, and
a number has to fit 64 bits with a sign. `Library.Conforms` is all that is relied on of a parser.
-/

namespace HeapChurn

namespace Toml

/-- A key that needs no quotes. -/
structure BareKey where
  name : String
  name_ne : name ≠ ""
  bare : ∀ c ∈ name.toList, isBareKeyChar c = true

inductive Line where
  /-- A line with nothing but blanks. -/
  | blank (text : List Char) (h : ∀ c ∈ text, isBlank c = true)
  /-- The header of an element of an array. -/
  | header (key : BareKey)
  /-- A number under a key. -/
  | pair (key : BareKey) (n : Nat)

def Line.text : Line → String
  | .blank text _ => String.ofList text ++ "\n"
  | .header key => "[[" ++ key.name ++ "]]\n"
  | .pair key n => key.name ++ " = " ++ Numeral.render n ++ "\n"

/-- The text of a file with these lines. -/
def plainFile (lines : List Line) : String := String.join (lines.map Line.text)

namespace Table

/-- Gives a key another value, in its place. -/
def replace (key : String) (v : Value) : Table → Table
  | [] => []
  | (k, w) :: rest => if k = key then (k, v) :: rest else (k, w) :: replace key v rest

/-- Gives a new key its value. -/
def give (key : String) (v : Value) (t : Table) : Option Table :=
  match t.lookup key with
  | none => some (t ++ [(key, v)])
  | some _ => none

end Table

/-- A document up to some line, and the array whose last element is open. -/
structure Draft where
  document : Table := []
  opened : Option String := none

namespace Draft

/-- Opens another element of an array, or the first one. -/
def openElement (d : Draft) (key : String) : Option Draft :=
  match d.document.lookup key with
  | none => some ⟨d.document ++ [(key, .array [.table []])], some key⟩
  | some (.array items) =>
    some ⟨d.document.replace key (.array (items ++ [.table []])), some key⟩
  | some _ => none

/-- Gives a key a value in the element that is open, or in the document itself where none is. -/
def give (d : Draft) (key : String) (v : Value) : Option Draft :=
  match d.opened with
  | none => (d.document.give key v).map (⟨·, none⟩)
  | some array =>
    match d.document.lookup array with
    | some (.array items) =>
      match items.getLast? with
      | some (.table entries) =>
        (Table.give key v entries).map fun entries =>
          ⟨d.document.replace array (.array (items.dropLast ++ [.table entries])), some array⟩
      | _ => none
    | _ => none

def add (d : Draft) : Line → Option Draft
  | .blank _ _ => some d
  | .header key => d.openElement key.name
  | .pair key n => if n < 2 ^ 63 then d.give key.name (.integer n) else none

end Draft

/-- The document of a file with these lines; nothing if it has none. -/
def plainDocument (lines : List Line) : Option Table :=
  (lines.foldlM Draft.add {}).map Draft.document

/-- The parser finds in files of plain lines what TOML 1.0 says, with integers of 64 bits. -/
def Library.Conforms (toml : Library) : Prop :=
  ∀ lines, toml.parse (plainFile lines) = plainDocument lines

end Toml

end HeapChurn
