import HeapChurn.Sink
import HeapChurn.Text.Characters

/-!
# Prompts

Questions about the configuration. A question shows a label and a default and reads one line.
Whatever is not a number, an empty line and the end of the input included, keeps the default. A line
that is not text is an error, but it is used up: the next question reads the next line.
-/

namespace HeapChurn

/-- Where answers come from. -/
inductive Source where
  | bytes (rest : List UInt8)
  /-- A source that was opened but cannot be read. -/
  | unreadable (cause : IoError)
  deriving Repr, DecidableEq

namespace Source

/-- Splits off the first line, with the newline that ends it if there is one. -/
def splitLine : List UInt8 → List UInt8 × List UInt8
  | [] => ([], [])
  | byte :: rest =>
    if byte = 10 then ([byte], rest)
    else
      let (line, rest) := splitLine rest
      (byte :: line, rest)

/-- Reads one line; `none` at the end of the input. -/
def readLine : Source → Except IoError (Option String) × Source
  | bytes [] => (.ok none, bytes [])
  | bytes rest =>
    let (line, rest) := splitLine rest
    match Utf8.decode? line with
    | some text => (.ok (some text), bytes rest)
    | none => (.error .invalidUtf8, bytes rest)
  | unreadable cause => (.error cause, unreadable cause)

end Source

/-- One question. -/
structure Question where
  label : String
  default : Nat
  deriving Repr, DecidableEq

namespace Question

def prompt (q : Question) : String := "\n" ++ q.label ++ " [" ++ Numeral.render q.default ++ "]: "

/-- What a line of input means as an answer. -/
def answer (q : Question) (line : Option String) : Nat :=
  match line with
  | none => q.default
  | some text => (Numeral.readWord (Blank.trim text.toList)).toOption.getD q.default

end Question

/-- A conversation: where answers come from, where questions go, and whether they are shown. -/
structure Prompter where
  source : Source
  sink : Sink
  echo : Bool
  deriving Repr, DecidableEq

namespace Prompter

/-- Shows a question: writes it and sees to it that it arrives. -/
def display (p : Prompter) (q : Question) : Except IoError Unit × Sink :=
  if p.echo then
    match p.sink.write q.prompt with
    | (.error e, sink) => (.error e, sink)
    | (.ok _, sink) => sink.flush
  else (.ok (), p.sink)

/-- Asks one question. If the question cannot be shown, no line is read. -/
def ask (p : Prompter) (q : Question) : Except IoError Nat × Prompter :=
  match p.display q with
  | (.error e, sink) => (.error e, { p with sink })
  | (.ok _, sink) =>
    let (line, source) := p.source.readLine
    (q.answer <$> line, { p with source, sink })

/-- Asks only for what is not given. -/
def askUnless (p : Prompter) (given : Option Nat) (q : Question) : Except IoError Nat × Prompter :=
  match given with
  | some value => (.ok value, p)
  | none => p.ask q

end Prompter

end HeapChurn
