import HeapChurn.Toml.Value

/-!
# Growing a document

A file defines its tables piece by piece: by headers, by dotted keys, and by the way to either. What
may be added where depends on how a table came about, so while a file is read its tree remembers
that. No key is given a value twice, a table is opened by a header once, and a table that a dotted
key made is not reopened by a header.
-/

namespace HeapChurn

namespace Toml

/-- How a table came about. -/
inductive Origin where
  /-- A header names it. -/
  | header
  /-- It lies on the way to a header. -/
  | path
  /-- It lies on the way of a dotted key. -/
  | dotted
  deriving Repr, DecidableEq

/-- A document that is still growing. -/
inductive Node where
  | value (v : Value)
  | table (origin : Origin) (entries : List (String × Node))
  /-- An array of tables, each opened by a header of its own. -/
  | tables (elements : List (List (String × Node)))

abbrev Entries : Type := List (String × Node)

mutual

/-- The finished value of a node. -/
def Node.toValue : Node → Value
  | .value v => v
  | .table _ entries => .table (finishEntries entries)
  | .tables elements => .array (finishTables elements)

def finishEntries : List (String × Node) → List (String × Value)
  | [] => []
  | (key, node) :: rest => (key, node.toValue) :: finishEntries rest

def finishTables : List (List (String × Node)) → List Value
  | [] => []
  | entries :: rest => .table (finishEntries entries) :: finishTables rest

end

namespace Entries

/-- Gives a key another node, in its place. -/
def replace (key : String) (node : Node) : Entries → Entries
  | [] => []
  | (k, n) :: rest => if k = key then (k, node) :: rest else (k, n) :: replace key node rest

/-- Takes a key out. -/
def erase (key : String) (entries : Entries) : Entries := entries.filter fun (k, _) => k ≠ key

/-- Follows a path to a table and changes it there. Tables that are missing on the way are made. An
array of tables stands for its last element. The way of a dotted key does not lead through tables
that a header opened, and ends at a table that dotted keys made. -/
def within {α : Type} (dotted : Bool) (change : Entries → Option (α × Entries)) :
    List String → Entries → Option (α × Entries)
  | [], entries => change entries
  | key :: path, entries =>
    match entries.lookup key with
    | none => do
      let (result, made) ← within dotted change path []
      some (result, entries ++ [(key, .table (if dotted then .dotted else .path) made)])
    | some (.value _) => none
    | some (.tables elements) => do
      if dotted ∧ path = [] then none
      else
        let last ← elements.getLast?
        let (result, last) ← within dotted change path last
        some (result, entries.replace key (.tables (elements.dropLast ++ [last])))
    | some (.table origin inner) => do
      if dotted ∧ (origin = .header ∨ (path = [] ∧ origin ≠ .dotted)) then none
      else
        let (result, inner) ← within dotted change path inner
        some (result, entries.replace key (.table origin inner))

/-- Gives a new key its node. -/
def insertNew (key : String) (node : Node) (entries : Entries) : Option (Unit × Entries) :=
  match entries.lookup key with
  | none => some ((), entries ++ [(key, node)])
  | some _ => none

/-- Assigns a value to a key, perhaps a dotted one. -/
def assign (path : List String) (key : String) (v : Value) (entries : Entries) : Option Entries :=
  (within true (insertNew key (.value v)) path entries).map Prod.snd

end Entries

/-! ## Sections -/

/-- What the lines that are being read belong to. -/
inductive Section where
  /-- The start of the file. -/
  | root
  | table (path : List String) (key : String)
  | element (path : List String) (key : String)
  deriving Repr, DecidableEq

/-- A document up to some line: what the finished sections made, and the section being read. -/
structure Growth where
  root : Entries := []
  current : Entries := []
  place : Section := .root

namespace Growth

def assign (g : Growth) (path : List String) (key : String) (v : Value) : Option Growth := do
  let current ← g.current.assign path key v
  some { g with current }

/-- Puts the section that was read into the document. -/
def close (g : Growth) : Option Entries :=
  match g.place with
  | .root => some g.current
  | .table path key =>
    (g.root.within false (fun parent => some ((), parent ++ [(key, .table .header g.current)]))
      path).map Prod.snd
  | .element path key =>
    (g.root.within false (fun parent =>
      match parent.lookup key with
      | some (.tables elements) =>
        some ((), parent.replace key (.tables (elements ++ [g.current])))
      | _ => none) path).map Prod.snd

/-- Opens a table. One that so far was only on the way to others is opened with what it has, and
moves to the place of its header. -/
def openTable (g : Growth) (path : List String) (key : String) : Option Growth := do
  let root ← g.close
  let (current, root) ← root.within false (fun parent =>
    match parent.lookup key with
    | none => some ([], parent)
    | some (.table .path inner) => some (inner, parent.erase key)
    | some _ => none) path
  some { root, current, place := .table path key }

/-- Opens another element of an array of tables. -/
def openElement (g : Growth) (path : List String) (key : String) : Option Growth := do
  let root ← g.close
  let ((), root) ← root.within false (fun parent =>
    match parent.lookup key with
    | none => some ((), parent ++ [(key, .tables [])])
    | some (.tables _) => some ((), parent)
    | some _ => none) path
  some { root, current := [], place := .element path key }

end Growth

end Toml

end HeapChurn
