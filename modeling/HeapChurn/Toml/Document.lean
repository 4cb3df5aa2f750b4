import HeapChurn.Toml.Moment
import HeapChurn.Toml.Quotation
import HeapChurn.Toml.Tree

/-!
# TOML files

A file is a list of statements, one to a line: a key with its value, the header of a table, or the
header of an element of an array of tables. Only strings and arrays run over line ends. `parse`
reads all statements, grows the document from them and refuses the file if either fails. It is the
parser of the library that comes with the program.

Arrays and inline tables may be nested, and keys dotted, to a depth of less than `depthLimit`.
-/

namespace HeapChurn

namespace Toml

def depthLimit : Nat := 80

/-! ## Keys -/

def isBareKeyChar (c : Char) : Bool :=
  ('A' ≤ c && c ≤ 'Z') || ('a' ≤ c && c ≤ 'z') || ('0' ≤ c && c ≤ '9') || c = '-' || c = '_'

/-- One part of a key: bare or in quotes, on one line. -/
def keyPart (s : List Char) : Option (String × List Char) :=
  match s with
  | '\x22' :: rest => do
    let (text, rest) ← basicString (rest.length + 1) rest
    some (String.ofList text, rest)
  | '\x27' :: rest => do
    let (text, rest) ← literalString rest
    some (String.ofList text, rest)
  | _ =>
    let bare := s.takeWhile isBareKeyChar
    if bare = [] then none else some (String.ofList bare, s.dropWhile isBareKeyChar)

/-- A key of at most `parts` parts with points between them: the path to its table, and the last
part. -/
def keyPath : Nat → Reader (List String × String)
  | 0, _ => none
  | parts + 1, s => do
    let (part, s) ← keyPart (skipBlanks s)
    match skipBlanks s with
    | '.' :: s => do
      let ((path, key), s) ← keyPath parts s
      some ((part :: path, key), s)
    | s => some (([], part), s)

def key : Reader (List String × String) := keyPath (depthLimit - 1)

/-! ## Values -/

/-- The items of an array, up to its closing bracket. -/
def arrayItems (item : Reader Value) : Nat → Reader (List Value)
  | 0, _ => none
  | fuel + 1, s =>
    match skipLines false s with
    | ']' :: rest => some ([], rest)
    | s => do
      let (v, s) ← item s
      match skipLines false s with
      | ',' :: s => do
        let (vs, s) ← arrayItems item fuel s
        some (v :: vs, s)
      | ']' :: s => some ([v], s)
      | _ => none

/-- The pairs of an inline table, up to its closing brace, added to what came before them. -/
def inlinePairs (item : Reader Value) : Nat → Entries → Reader Entries
  | 0, _, _ => none
  | fuel + 1, entries, s => do
    let ((path, last), s) ← key s
    let s ← expect '=' s
    let (v, s) ← item (skipBlanks s)
    let entries ← entries.assign path last v
    match skipBlanks s with
    | ',' :: s => inlinePairs item fuel entries s
    | '\x7d' :: s => some (entries, s)
    | _ => none

/-- An inline table after its opening brace. -/
def inlineTable (item : Reader Value) (s : List Char) : Option (Value × List Char) :=
  match skipBlanks s with
  | '\x7d' :: rest => some (.table [], rest)
  | _ => do
    let (entries, rest) ← inlinePairs item (s.length + 1) [] s
    some (.table (finishEntries entries), rest)

/-- A word that stands for itself. -/
def keyword (word : String) (v : Value) : Reader Value := fun s =>
  if word.toList.isPrefixOf s then some (v, s.drop word.length) else none

/-- A value in which arrays and inline tables are nested at most `depth` deep. -/
def value : Nat → Reader Value
  | depth, s =>
    match s with
    | [] => none
    | c :: rest =>
      if c = '\x22' ∨ c = '\x27' then do
        let (text, rest) ← quotation s
        some (.string text, rest)
      else if c = '[' then
        match depth with
        | 0 => none
        | depth + 1 => do
          let (items, rest) ← arrayItems (value depth) (rest.length + 1) rest
          some (.array items, rest)
      else if c = '\x7b' then
        match depth with
        | 0 => none
        | depth + 1 => inlineTable (value depth) rest
      else if c = 't' then keyword "true" (.boolean true) s
      else if c = 'f' then keyword "false" (.boolean false) s
      else
        match moment s with
        | some result => some result
        | none => number s

/-! ## Statements -/

inductive Statement where
  | assign (path : List String) (key : String) (v : Value)
  | table (path : List String) (key : String)
  | element (path : List String) (key : String)

/-- A key and its value, to the end of the line. -/
def assignment (s : List Char) : Option (Statement × List Char) := do
  let ((path, last), s) ← key s
  let s ← expect '=' s
  let (v, s) ← value (depthLimit - 1) (skipBlanks s)
  some (.assign path last v, ← trailing s)

/-- A header after its opening brackets, to the end of the line. -/
def header (s : List Char) : Option (Statement × List Char) :=
  match s with
  | '[' :: s => do
    let ((path, last), s) ← key s
    let s ← expect ']' (← expect ']' s)
    some (.element path last, ← trailing s)
  | s => do
    let ((path, last), s) ← key s
    let s ← expect ']' s
    some (.table path last, ← trailing s)

/-- All statements of a file. Lines that are blank or hold only a comment are passed over. -/
def statements : Nat → List Char → Option (List Statement)
  | 0, _ => none
  | fuel + 1, s =>
    match skipBlanks s with
    | [] => some []
    | '#' :: rest => do statements fuel (← lineEnd (rest.dropWhile isCommentChar))
    | '\n' :: rest => statements fuel rest
    | '\r' :: '\n' :: rest => statements fuel rest
    | '[' :: rest => do
      let (statement, rest) ← header rest
      some (statement :: (← statements fuel rest))
    | s => do
      let (statement, rest) ← assignment s
      some (statement :: (← statements fuel rest))

/-- Adds a statement to a document. -/
def Growth.add (g : Growth) : Statement → Option Growth
  | .assign path key v => g.assign path key v
  | .table path key => g.openTable path key
  | .element path key => g.openElement path key

/-- The document that some statements make. -/
def grow (ss : List Statement) : Option Table := do
  let g ← ss.foldlM Growth.add {}
  some (finishEntries (← g.close))

/-- A byte order mark at the start of a file is not part of it. -/
def dropMark : List Char → List Char
  | '\uFEFF' :: rest => rest
  | s => s

/-- The document that a file stands for; nothing if the file is malformed. -/
def parse (text : String) : Option Table := do
  let s := dropMark text.toList
  grow (← statements (s.length + 1) s)

end Toml

end HeapChurn
