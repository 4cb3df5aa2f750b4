import HeapChurn.CommandLine.Options

/-!
# Scanning a command line

A command line is read word by word, from left to right. A word that starts with two dashes names an
option by its long name, one that starts with one dash names options by their short names, and two
dashes alone say that no more options follow. The value of an option is behind an equals sign, or
behind its short name, or is the next word, if that does not name an option.

The value of an option that has a word of its own, and the number that stands by itself, are only
looked at when the next argument is complete. So an unknown argument is reported rather than a bad
value just before it.
-/

namespace HeapChurn

/-- What a command line calls for. -/
inductive Invocation where
  | run (o : Options)
  | help
  | version
  deriving Repr, DecidableEq

/-- Why the scan of a command line ends early. -/
inductive Stop where
  | help
  | version
  | usage (e : UsageError)
  deriving Repr, DecidableEq

/-- A command line up to some word. -/
structure Scan where
  options : Options := {}
  /-- The arguments that are complete, in their order. -/
  given : List Argument := []
  /-- An argument that is not complete yet, and its value once that is known. -/
  pending : Option (Argument × Option String) := none
  /-- Was there a number that stands by itself? -/
  counted : Bool := false
  /-- Do only values follow? -/
  trailing : Bool := false
  deriving Repr, DecidableEq

namespace Scan

def fail {α : Type} (e : UsageError) : Except Stop α := .error (.usage e)

/-- Completes an argument by its value. -/
def complete (s : Scan) (a : Argument) (value : String) : Except Stop Scan :=
  if a ∈ s.given then fail (.repeated a)
  else
    match s.options.set a value with
    | .error e => fail e
    | .ok options => .ok { s with options, given := s.given ++ [a] }

/-- Completes the argument that is pending. -/
def settle (s : Scan) : Except Stop Scan :=
  match s.pending with
  | none => .ok s
  | some (a, none) => fail (.valueRequired a)
  | some (a, some value) => { s with pending := none }.complete a value

/-- Takes an option together with its value. -/
def assign (s : Scan) (a : Argument) (value : String) : Except Stop Scan := do
  (← s.settle).complete a value

/-- Takes an option whose value is the next word. -/
def await (s : Scan) (a : Argument) : Except Stop Scan := do
  return { ← s.settle with pending := some (a, none) }

/-- Takes a switch. -/
def turnOn (s : Scan) (a : Argument) : Except Stop Scan := do
  let s ← s.settle
  if a = .help then throw .help
  else if a = .version then throw .version
  else if a ∈ s.given then fail (.repeated a)
  else return { s with options := s.options.turnOn a, given := s.given ++ [a] }

/-- Takes a word that names no option and is not the value of one. -/
def standAlone (s : Scan) (word : String) : Except Stop Scan := do
  if s.counted then fail (.unexpectedArgument word)
  else return { ← s.settle with pending := some (.count, some word), counted := true }

/-- Takes options by their short names. The rest of the word behind an option that takes a value is
its value, with or without an equals sign before it. -/
def takeShort : List Char → Scan → Except Stop Scan
  | [], s => .ok s
  | c :: rest, s =>
    match Argument.ofShort? c with
    | none => fail (.unexpectedArgument (String.ofList ['-', c]))
    | some a =>
      if a.isSwitch then do takeShort rest (← s.turnOn a)
      else
        match rest with
        | [] => s.await a
        | '=' :: value => s.assign a (String.ofList value)
        | value => s.assign a (String.ofList value)

/-- Takes an option by its long name, with the value behind the first equals sign if there is
one. -/
def takeLong (s : Scan) (word : List Char) : Except Stop Scan :=
  let name := String.ofList (word.takeWhile (· ≠ '='))
  match Argument.ofLong? name, word.dropWhile (· ≠ '=') with
  | none, _ => fail (.unexpectedArgument ("--" ++ name))
  | some a, [] => if a.isSwitch then s.turnOn a else s.await a
  | some a, _ :: value =>
    if a.isSwitch then fail (.unexpectedValue (String.ofList value) a)
    else s.assign a (String.ofList value)

/-- Takes one word. -/
def take (s : Scan) (word : String) : Except Stop Scan :=
  if s.trailing then s.standAlone word
  else
    match word.toList with
    | ['-', '-'] => .ok { s with trailing := true }
    | '-' :: '-' :: rest => s.takeLong rest
    | '-' :: c :: rest => takeShort (c :: rest) s
    | _ =>
      match s.pending with
      | some (a, none) => .ok { s with pending := some (a, some word) }
      | _ => s.standAlone word

/-- The first of two arguments that exclude each other, and the other one. -/
def conflict? (given : List Argument) : Option (Argument × Argument) :=
  match given.filter fun a => a = .quiet ∨ a = .verbose with
  | a :: other :: _ => some (a, other)
  | _ => none

/-- Ends the scan after the last word. -/
def finish (s : Scan) : Except Stop Options := do
  let s ← s.settle
  match conflict? s.given with
  | some (a, other) => fail (.conflict a other)
  | none => return s.options

end Scan

/-- What the words of a command line call for. -/
def Invocation.ofWords (words : List String) : Except UsageError Invocation :=
  match words.foldlM Scan.take {} >>= Scan.finish with
  | .ok o => .ok (.run o)
  | .error .help => .ok .help
  | .error .version => .ok .version
  | .error (.usage e) => .error e

end HeapChurn
