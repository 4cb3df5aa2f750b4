import HeapChurn.Numeral
import HeapChurn.Toml.Reader

/-!
# Quoted strings

A string stands between double quotes, with escapes, or between single quotes, without. Either kind
may run over several lines when the quotes are tripled; a line end right after the opening quotes is
dropped then, and a line end inside the string counts as one line feed however it is written.
-/

namespace HeapChurn

namespace Toml

/-- What may stand in a string as it is, quotes and backslashes aside: all but control characters,
the tab excepted. -/
def isStringChar (c : Char) : Bool := isCommentChar c

/-- The character of a number, unless there is none. -/
def charOf? (code : Nat) : Option Char := if code.isValidChar then some (Char.ofNat code) else none

/-- The number that hexadecimal digits spell. -/
def hexValue? (digits : List Char) : Option Nat :=
  digits.foldl (fun value c => do some ((← value) * 16 + (← Numeral.digit? 16 c))) (some 0)

/-- The character that an escape letter stands for. -/
def escapeLetter? : Char → Option Char
  | 'b' => some '\x08'
  | 'f' => some '\x0c'
  | 'n' => some '\n'
  | 'r' => some '\r'
  | 't' => some '\t'
  | '\\' => some '\\'
  | '\x22' => some '\x22'
  | _ => none

/-- What follows a backslash. -/
def escape : Reader Char
  | 'u' :: a :: b :: c :: d :: rest => do
    some (← charOf? (← hexValue? [a, b, c, d]), rest)
  | 'U' :: a :: b :: c :: d :: e :: f :: g :: h :: rest => do
    some (← charOf? (← hexValue? [a, b, c, d, e, f, g, h]), rest)
  | letter :: rest => do some (← escapeLetter? letter, rest)
  | [] => none

/-- The rest of a string in double quotes, on one line. -/
def basicString : Nat → Reader (List Char)
  | 0, _ => none
  | fuel + 1, s =>
    match s with
    | '\x22' :: rest => some ([], rest)
    | '\\' :: rest => do
      let (c, rest) ← escape rest
      let (text, rest) ← basicString fuel rest
      some (c :: text, rest)
    | c :: rest => do
      if isStringChar c then
        let (text, rest) ← basicString fuel rest
        some (c :: text, rest)
      else none
    | [] => none

/-- The rest of a string in single quotes, on one line. -/
def literalString : Reader (List Char)
  | '\x27' :: rest => some ([], rest)
  | c :: rest => do
    if isStringChar c then
      let (text, rest) ← literalString rest
      some (c :: text, rest)
    else none
  | [] => none

/-- A string over several lines may end with up to two quotes of its own before the closing ones. -/
def closingQuotes (quote : Char) : List Char → List Char × List Char
  | a :: b :: rest =>
    if a = quote ∧ b = quote then ([a, b], rest)
    else if a = quote then ([a], b :: rest)
    else ([], a :: b :: rest)
  | [a] => if a = quote then ([a], []) else ([], [a])
  | [] => ([], [])

/-- Blanks and ends of lines, which a backslash at the end of a line takes out of a string. -/
def skipMargin : List Char → List Char
  | '\n' :: rest => skipMargin rest
  | '\r' :: '\n' :: rest => skipMargin rest
  | c :: rest => if isBlank c then skipMargin rest else c :: rest
  | [] => []

/-- Does a line end here, blanks aside? -/
def endsLine (s : List Char) : Bool :=
  match skipBlanks s with
  | '\n' :: _ => true
  | '\r' :: '\n' :: _ => true
  | _ => false

/-- The rest of a string in tripled double quotes. -/
def longBasicString : Nat → Reader (List Char)
  | 0, _ => none
  | fuel + 1, s =>
    match s with
    | '\x22' :: '\x22' :: '\x22' :: rest => some (closingQuotes '\x22' rest)
    | '\\' :: rest =>
      if endsLine rest then longBasicString fuel (skipMargin rest)
      else do
        let (c, rest) ← escape rest
        let (text, rest) ← longBasicString fuel rest
        some (c :: text, rest)
    | '\r' :: '\n' :: rest => do
      let (text, rest) ← longBasicString fuel rest
      some ('\n' :: text, rest)
    | c :: rest => do
      if isStringChar c ∨ c = '\n' then
        let (text, rest) ← longBasicString fuel rest
        some (c :: text, rest)
      else none
    | [] => none

/-- The rest of a string in tripled single quotes. -/
def longLiteralString : Reader (List Char)
  | '\x27' :: '\x27' :: '\x27' :: rest => some (closingQuotes '\x27' rest)
  | '\r' :: '\n' :: rest => do
    let (text, rest) ← longLiteralString rest
    some ('\n' :: text, rest)
  | c :: rest => do
    if isStringChar c ∨ c = '\n' then
      let (text, rest) ← longLiteralString rest
      some (c :: text, rest)
    else none
  | [] => none

/-- A line end right after the opening quotes of a long string. -/
def dropLineEnd : List Char → List Char
  | '\n' :: rest => rest
  | '\r' :: '\n' :: rest => rest
  | rest => rest

/-- A string of any kind, from its opening quotes. -/
def quotation : Reader String
  | '\x22' :: '\x22' :: '\x22' :: rest => do
    let (text, rest) ← longBasicString (rest.length + 1) (dropLineEnd rest)
    some (String.ofList text, rest)
  | '\x27' :: '\x27' :: '\x27' :: rest => do
    let (text, rest) ← longLiteralString (dropLineEnd rest)
    some (String.ofList text, rest)
  | '\x22' :: rest => do
    let (text, rest) ← basicString (rest.length + 1) rest
    some (String.ofList text, rest)
  | '\x27' :: rest => do
    let (text, rest) ← literalString rest
    some (String.ofList text, rest)
  | _ => none

end Toml

end HeapChurn
