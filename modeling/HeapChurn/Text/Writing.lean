import HeapChurn.Text.Characters

/-!
# Writing text

Text as bytes, text set in columns, and text in quotes.
-/

namespace HeapChurn

/-! ## Bytes -/

namespace Utf8

/-- The bytes of a text, in UTF-8. -/
def encode (text : String) : List UInt8 := text.toUTF8.data.toList

/-- The text that some bytes spell, if they spell one. -/
def decode? (bytes : List UInt8) : Option String := String.fromUTF8? ⟨bytes.toArray⟩

end Utf8

/-! ## Columns

Text set in columns. A width is the least a cell takes: a longer text is written out in full. -/

namespace Column

/-- Fills up on the left. -/
def alignRight (width : Nat) (text : String) : String :=
  String.ofList (List.replicate (width - text.length) ' ') ++ text

/-- Fills up on the right. -/
def alignLeft (width : Nat) (text : String) : String :=
  text ++ String.ofList (List.replicate (width - text.length) ' ')

def rule (width : Nat) : String := String.ofList (List.replicate width '-')

end Column

/-! ## Quotes

How a message shows a text that it found: between double quotes, with every character that would
not be seen, or would be taken for part of the quoting, written as an escape. -/

namespace Quoted

/-- Can a character be seen, and does it stand by itself? -/
def isPlain (c : Char) : Bool :=
  !Unseen.isUnseen c && !Ignorable.isIgnorable c && !Extending.isExtending c

/-- A character by its number, for one that cannot be shown. -/
def numbered (c : Char) : List Char :=
  '\\' :: 'u' :: '\x7b' :: (Nat.toDigits 16 c.toNat ++ ['\x7d'])

def escape (c : Char) : List Char :=
  if c = '\x00' then ['\\', '0']
  else if c = '\t' then ['\\', 't']
  else if c = '\r' then ['\\', 'r']
  else if c = '\n' then ['\\', 'n']
  else if c = '\\' ∨ c = '\x22' then ['\\', c]
  else if isPlain c then [c]
  else numbered c

def quote (text : String) : String :=
  String.ofList ('\x22' :: (text.toList.flatMap escape ++ ['\x22']))

end Quoted

end HeapChurn
