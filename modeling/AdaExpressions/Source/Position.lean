/-!
# Positions and spans

A position is a byte offset into a source, tagged with the name of the file. Offsets are 32-bit
words: a source is expected to be shorter than `2 ^ 32` bytes, and a larger offset wraps.

A span runs from a start to a stop position. Nothing orders the two: a span made from tokens that
are not in source order may run backwards, and its length is then zero.
-/

namespace AdaExpressions

structure Position where
  offset : UInt32
  file : String
  deriving DecidableEq, Inhabited, Repr

namespace Position

def ofBytes (bytes : Nat) (file : String) : Position :=
  ⟨UInt32.ofNat bytes, file⟩

/-- Where something stands that has no place in any source. -/
def null : Position :=
  ⟨0, "<null>"⟩

end Position

structure Span where
  start : Position
  stop : Position
  deriving DecidableEq, Inhabited, Repr

namespace Span

/-- From the start of the first span to the stop of the second. -/
def join (first second : Span) : Span :=
  ⟨first.start, second.stop⟩

/-- The empty span at a position. -/
def empty (position : Position) : Span :=
  ⟨position, position⟩

/-- The `bytes` bytes of `file` from `start` on. -/
def ofBytes (start bytes : Nat) (file : String) : Span :=
  ⟨Position.ofBytes start file, Position.ofBytes (start + bytes) file⟩

def length (span : Span) : UInt32 :=
  if span.stop.offset ≤ span.start.offset then 0 else span.stop.offset - span.start.offset

def isEmpty (span : Span) : Bool :=
  span.length == 0

end Span

end AdaExpressions
