import HeapChurn.Folder
import HeapChurn.Histogram
import HeapChurn.Toml.Library

/-!
# Histogram files

A file gives the table of a histogram as an array of records under the key `bucket`; whatever else
it holds is passed over. The whole file is checked for its form before anything in it is read. How
a file is parsed and how arrays and records are read is up to the library.
-/

namespace HeapChurn

/-- A bucket, as the record that `name` stands for in messages. A missing size is noticed before a
missing count. -/
def Bucket.decode (name : String) (toml : Toml.Library := Toml.library) :
    Schema.Decoder Bucket := fun v => do
  let given ← toml.record name ["size", "count"] v
  return { size := ← given.require "size", count := ← given.require "count" }

namespace Histogram

/-- The name of a bucket in the faults of a histogram file. -/
def recordName : String := "HistogramEntry"

/-- The table that a document gives; an empty one where the key is missing. -/
def bucketsOf (document : Toml.Table) (toml : Toml.Library := Toml.library) :
    Except Schema.Fault (List Bucket) :=
  match document.lookup "bucket" with
  | some v => toml.sequence (Bucket.decode recordName toml) v
  | none => .ok []

/-- The histogram that a document gives. -/
def ofDocument (document : Toml.Table) (toml : Toml.Library := Toml.library) :
    Except Error Histogram :=
  match bucketsOf document toml with
  | .error fault => .error (.badHistogram (.shape fault))
  | .ok buckets => ofBuckets buckets

/-- The histogram that the text of a file gives. -/
def ofText (text : String) (toml : Toml.Library := Toml.library) : Except Error Histogram :=
  match toml.parse text with
  | none => .error (.badHistogram .malformed)
  | some document => ofDocument document toml

/-- The histogram that a file gives. -/
def ofContents (contents : Contents) (toml : Toml.Library := Toml.library) :
    Except Error Histogram :=
  match contents.text with
  | .error cause => .error (.io cause)
  | .ok text => ofText text toml

end Histogram

end HeapChurn
