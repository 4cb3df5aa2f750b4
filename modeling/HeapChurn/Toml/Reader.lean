/-!
# Readers

A reader looks at the characters that are left of a file. It either takes a part of the file off
their front and hands on the rest, or refuses the file. The faults of a malformed file are not told
apart, so a refusal carries nothing.

This module has the readers that every part of a file uses: blanks, comments and ends of lines.
-/

namespace HeapChurn

namespace Toml

abbrev Reader (α : Type) : Type := List Char → Option (α × List Char)

/-- The blanks within a line. -/
def isBlank (c : Char) : Bool := c = ' ' || c = '\t'

/-- What may stand in a comment: all but control characters, the tab excepted. -/
def isCommentChar (c : Char) : Bool := c = '\t' || (' ' ≤ c && c.toNat ≠ 0x7F)

def skipBlanks (s : List Char) : List Char := s.dropWhile isBlank

/-- Skips blanks, ends of lines and comments, as they may stand between the items of an array. -/
def skipLines (inComment : Bool) : List Char → List Char
  | [] => []
  | '\n' :: rest => skipLines false rest
  | '\r' :: '\n' :: rest => skipLines false rest
  | c :: rest =>
    if inComment then if isCommentChar c then skipLines true rest else c :: rest
    else if isBlank c then skipLines false rest
    else if c = '#' then skipLines true rest
    else c :: rest

/-- A line ends with a line feed, alone or after a carriage return, or with the file. -/
def lineEnd : List Char → Option (List Char)
  | [] => some []
  | '\n' :: rest => some rest
  | '\r' :: '\n' :: rest => some rest
  | _ => none

/-- The end of a line, after blanks and perhaps a comment. -/
def trailing (s : List Char) : Option (List Char) :=
  match skipBlanks s with
  | '#' :: rest => lineEnd (rest.dropWhile isCommentChar)
  | rest => lineEnd rest

end Toml

end HeapChurn
