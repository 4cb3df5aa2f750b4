import HeapChurn.Error
import HeapChurn.Text.Writing

/-!
# Sinks

Where output goes. A sink may have room for only so many bytes; a text that does not fit is written
as far as it goes and the rest is refused. And anything may go wrong once with a single write or a
single flush, after which the sink is as good as before.
-/

namespace HeapChurn

/-- What goes wrong with one write or one flush. -/
structure Hitch where
  /-- Bytes that are taken before it; a flush takes none. -/
  taken : Nat
  cause : IoError
  deriving Repr, DecidableEq

structure Sink where
  written : List UInt8 := []
  /-- Bytes that still fit; `none` for a sink that never fills up. -/
  room : Option Nat := none
  /-- What goes wrong with the next writes and flushes, one after the other. -/
  hitches : List (Option Hitch) := []
  deriving Repr, DecidableEq

namespace Sink

/-- Takes bytes as far as they fit. -/
def put (s : Sink) (bytes : List UInt8) : Except IoError Unit × Sink :=
  match s.room with
  | none => (.ok (), { s with written := s.written ++ bytes })
  | some room =>
    let fits := bytes.take room
    let s := { s with written := s.written ++ fits, room := some (room - fits.length) }
    (if fits.length < bytes.length then .error .writeRefused else .ok (), s)

def write (s : Sink) (text : String) : Except IoError Unit × Sink :=
  let bytes := Utf8.encode text
  match s.hitches with
  | some hitch :: hitches =>
    (.error hitch.cause, ({ s with hitches }.put (bytes.take hitch.taken)).2)
  | hitches => { s with hitches := hitches.tail }.put bytes

/-- Sees to it that what was written arrives. -/
def flush (s : Sink) : Except IoError Unit × Sink :=
  match s.hitches with
  | some hitch :: hitches => (.error hitch.cause, { s with hitches })
  | hitches => (.ok (), { s with hitches := hitches.tail })

end Sink

end HeapChurn
