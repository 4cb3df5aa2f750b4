/-!
# Machine words

Sizes, counts and slot numbers are natural numbers that a caller keeps below `Word.modulus`. The
few places where the width of a word can be seen name it here: a product that stops at the largest
word, and an array that would not fit the address space.
-/

namespace HeapChurn

namespace Word

/-- One more than the largest word. -/
def modulus : Nat := UInt64.size

/-- The largest word. -/
def largest : Nat := modulus - 1

/-- A product that stays at the largest word instead of running over it. -/
def saturatingMul (a b : Nat) : Nat := min (a * b) largest

/-- No single object may be longer than this many bytes. -/
def largestObject : Nat := modulus / 2 - 1

end Word

/-- The bytes that one slot of a block array takes: an owning handle and the block's layout. -/
def slotBytes : Nat := 24

/-- An array of `slots` block slots can be reserved only if it fits the largest object. -/
def reservable (slots : Nat) : Bool := slots * slotBytes ≤ Word.largestObject

end HeapChurn
