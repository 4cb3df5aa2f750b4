/-!
# Text for a terminal

A terminal does not show all the characters that it is sent: some control it, alone or as a sequence
that starts with an escape. This module keeps those that are shown. A sequence is a few header
characters and a final one, or the string of a command up to its terminator; a control character
inside a header does not end it.
-/

namespace HeapChurn

namespace Terminal

/-- The header of a sequence, by what it has held so far. -/
inductive Header where
  | start
  | parameters
  | intermediates
  /-- Characters in an order that no sequence has. -/
  | malformed
  deriving Repr, DecidableEq

/-- What the characters up to some place belong to. -/
inductive Mode where
  | ground
  /-- An escape, before the character that says what it is for. -/
  | escape
  /-- The intermediates of a short sequence. -/
  | shortSequence
  /-- The header of a control sequence, which its final character ends. -/
  | control (header : Header)
  /-- The header of a sequence for a device, whose string follows the final character. -/
  | device (header : Header)
  /-- A string for a device or for a program. -/
  | string
  /-- A command to the system around the terminal. -/
  | command
  deriving Repr, DecidableEq

/-- The header with one more character before the final one. -/
def Header.next (c : Char) : Header → Header
  | start => if c < '0' then intermediates else parameters
  | parameters =>
    if c < '0' then intermediates else if c < '<' then parameters else malformed
  | intermediates => if c < '0' then intermediates else malformed
  | malformed => malformed

namespace Mode

/-- The mode behind a character of the printable range of ASCII. -/
def advance (c : Char) : Mode → Mode
  | ground => ground
  | escape =>
    if c < '0' then shortSequence
    else if c = '[' then control .start
    else if c = ']' then command
    else if c = 'P' then device .start
    else if c = 'X' ∨ c = '^' ∨ c = '_' then string
    else ground
  | shortSequence => if c < '0' then shortSequence else ground
  | control header => if c < '@' then control (header.next c) else ground
  | device header =>
    if c < '@' then device (header.next c)
    else if header = .malformed then device header
    else string
  | string => string
  | command => command

/-- Does the code of a character hold the byte of the string terminator? -/
def hasTerminator (c : Char) : Bool := (String.utf8EncodeChar c).contains 0x9C

/-- The mode behind a character. Cancel, substitute and escape end every sequence, a bell ends a
command, and all other controls leave the mode as it is. -/
def next (c : Char) (m : Mode) : Mode :=
  if c = '\x18' ∨ c = '\x1a' then ground
  else if c = '\x1b' then escape
  else if c = '\x07' ∧ m = command then ground
  else if hasTerminator c ∧ m = string then ground
  else if c < ' ' ∨ '~' < c then m
  else m.advance c

/-- Are controls carried out in this mode, rather than taken for a part of something? -/
def heedsControls : Mode → Bool
  | ground | escape | shortSequence | control _ => true
  | device _ | string | command => false

end Mode

/-- The controls that only move on: tabulator, line feed, form feed and return. -/
def isSpacing (c : Char) : Bool := c = '\t' || c = '\n' || c = '\x0c' || c = '\r'

/-- Is a character shown in a mode? -/
def isShown (m : Mode) (c : Char) : Bool :=
  if isSpacing c then m.heedsControls else m = .ground && ' ' ≤ c && c ≠ '\x7f'

/-- The characters of a text that are shown. Behind one that is shown, all are taken for text up to
one that cannot be; that one and those behind it are taken in the mode that is held, up to the next
one that is shown. -/
def shown : Mode → Bool → List Char → List Char
  | _, _, [] => []
  | held, showing, c :: rest =>
    if isShown (if showing then .ground else held) c then
      c :: shown (if '~' < c then .ground else held) true rest
    else shown (held.next c) false rest

/-- A text without the characters that a terminal does not show. -/
def strip (text : String) : String := String.ofList (shown .ground true text.toList)

end Terminal

end HeapChurn
