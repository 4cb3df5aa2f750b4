import HeapChurn.Schema.Record
import HeapChurn.Toml.Document

/-!
# Libraries for documents

What the program leaves to a library: to parse a file, and to read the two kinds of values that a
configuration is made of. Everything in the program that meets a document is written for any library,
and what it relies on is said where something is proved of it. `library` is the one that comes with
the program.
-/

namespace HeapChurn

namespace Toml

structure Library where
  /-- The document that a text stands for; nothing if it is malformed. -/
  parse : String → Option Table
  /-- Reads an array whose items all have one kind. -/
  sequence : {α : Type} → Schema.Decoder α → Schema.Decoder (List α)
  /-- Reads a record of words that has this name and these fields. -/
  record : String → List String → Schema.Decoder Schema.Fields

def library : Library where
  parse := parse
  sequence := Schema.sequence
  record := Schema.record

end Toml

end HeapChurn
