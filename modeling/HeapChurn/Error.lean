import HeapChurn.Schema.Fault

/-!
# Errors

Everything that ends a run. Nothing here is tried again: a run under memory pressure or with
damaged bookkeeping measures nothing. An error is its cause; the wording is in `message`.
-/

namespace HeapChurn

/-- What the outside world answers when a file or a stream cannot be used. -/
inductive IoError where
  | notFound
  | notDirectory
  | isDirectory
  | nameTooLong
  | noDevice
  | noSpace
  | invalidUtf8
  | writeRefused
  /-- Something else, in the words of the system. -/
  | other (text : String)
  deriving Repr, DecidableEq

def IoError.message : IoError → String
  | .notFound => "No such file or directory (os error 2)"
  | .notDirectory => "Not a directory (os error 20)"
  | .isDirectory => "Is a directory (os error 21)"
  | .nameTooLong => "File name too long (os error 36)"
  | .noDevice => "No such device or address (os error 6)"
  | .noSpace => "No space left on device (os error 28)"
  | .invalidUtf8 => "stream did not contain valid UTF-8"
  | .writeRefused => "failed to write whole buffer"
  | .other text => text

/-- The arrays that a run reserves before it starts. -/
inductive Reservation where
  | liveSlots
  | foreignPool
  deriving Repr, DecidableEq

def Reservation.describe : Reservation → String
  | .liveSlots => "live slot buffer"
  | .foreignPool => "foreign allocation pool"

inductive Error where
  /-- The allocator refused a request; the size is the one asked for, before rounding. -/
  | outOfMemory (size : Nat)
  /-- The block in a pool slot does not name that slot. -/
  | corruptTag (slot found : Nat)
  | setup (what : Reservation)
  | noSlots (heapSlots workers : Nat)
  | emptyHistogram
  | zeroBlockSize (index : Nat)
  | badHistogram (fault : DocumentFault)
  | io (cause : IoError)
  deriving Repr, DecidableEq

/-- The wording for the user of the program. Where in the file the fault is, is not said. -/
def DocumentFault.message : DocumentFault → String
  | .malformed => "TOML parse error"
  | .shape fault => "TOML parse error\n" ++ fault.message

def Error.message : Error → String
  | .outOfMemory size => "out of memory allocating " ++ Numeral.render size ++ " bytes"
  | .corruptTag slot found =>
    "foreign slot " ++ Numeral.render slot ++ " holds a block tagged for slot "
      ++ Numeral.render found
  | .setup what => "unable to allocate " ++ what.describe
  | .noSlots heapSlots workers =>
    "heap of " ++ Numeral.render heapSlots ++ " slots leaves no slot for each of "
      ++ Numeral.render workers ++ " workers"
  | .emptyHistogram => "histogram has no buckets"
  | .zeroBlockSize index =>
    "histogram bucket " ++ Numeral.render index ++ " has a zero block size"
  | .badHistogram fault => "invalid histogram file: " ++ fault.message
  | .io cause => "IO error: " ++ cause.message

end HeapChurn
