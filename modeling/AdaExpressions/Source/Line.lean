/-!
# Lines of a source

A source is divided into lines that keep their newline; the last line has none, and is empty when
the source is empty or ends in a newline. `lineAt` finds the line that holds a byte position, its
number counted from one, and the byte column of the position in it. The position just past the last
byte belongs to the last line.

Results: `splitLines_flatten` (no character is lost), `lineAt_eq_none_iff` (only a position past the
end has no line).
-/

namespace AdaExpressions

/-- How many bytes a text takes in UTF-8. -/
def byteLength : List Char → Nat
  | [] => 0
  | c :: rest => c.utf8Size + byteLength rest

@[simp] theorem byteLength_nil : byteLength [] = 0 := rfl

@[simp] theorem byteLength_cons (c : Char) (text : List Char) :
    byteLength (c :: text) = c.utf8Size + byteLength text := rfl

@[simp] theorem byteLength_append (first second : List Char) :
    byteLength (first ++ second) = byteLength first + byteLength second := by
  induction first with
  | nil => simp
  | cons c rest ih => simp [ih, Nat.add_assoc]

@[simp] theorem byteLength_replicate (count : Nat) (c : Char) :
    byteLength (List.replicate count c) = count * c.utf8Size := by
  induction count with
  | zero => simp
  | succ count ih => rw [List.replicate_succ, byteLength_cons, ih, Nat.succ_mul, Nat.add_comm]

/-- Divides a text after each newline. -/
def splitLines : List Char → List (List Char)
  | [] => [[]]
  | c :: rest =>
      if c = '\n' then [c] :: splitLines rest
      else match splitLines rest with
        | [] => [[c]]
        | line :: more => (c :: line) :: more

theorem splitLines_ne_nil (text : List Char) : splitLines text ≠ [] := by
  cases text with
  | nil => simp [splitLines]
  | cons c rest =>
      unfold splitLines
      split
      · simp
      · split <;> simp

theorem splitLines_flatten (text : List Char) : (splitLines text).flatten = text := by
  induction text with
  | nil => rfl
  | cons c rest ih =>
      unfold splitLines
      split
      · simp [ih]
      · split
        next missing => exact absurd missing (splitLines_ne_nil rest)
        next line more found => simpa [found] using ih

structure SourceLine where
  number : Nat
  text : List Char
  column : Nat
  deriving DecidableEq, Repr

/-- Finds a position among lines of which the first has the given number and first byte. -/
def findLine (position number start : Nat) : List (List Char) → Option SourceLine
  | [] => none
  | [line] =>
      if position ≤ start + byteLength line then some ⟨number, line, position - start⟩ else none
  | line :: more =>
      if position < start + byteLength line then some ⟨number, line, position - start⟩
      else findLine position (number + 1) (start + byteLength line) more

def lineAt (source : String) (position : UInt32) : Option SourceLine :=
  findLine position.toNat 1 0 (splitLines source.toList)

theorem findLine_eq_none_iff {position : Nat} :
    ∀ {lines : List (List Char)} {number start : Nat}, lines ≠ [] →
      (findLine position number start lines = none ↔ start + byteLength lines.flatten < position)
  | [], _, _, nonempty => absurd rfl nonempty
  | [line], number, start, _ => by simp [findLine]
  | line :: next :: more, number, start, _ => by
      have ih := @findLine_eq_none_iff position (next :: more) (number + 1)
        (start + byteLength line) (by simp)
      by_cases within : position < start + byteLength line
      · simp [findLine, within]; omega
      · simp only [findLine, within, if_false]
        rw [ih]
        simp [Nat.add_assoc]

theorem lineAt_eq_none_iff {source : String} {position : UInt32} :
    lineAt source position = none ↔ byteLength source.toList < position.toNat := by
  unfold lineAt
  rw [findLine_eq_none_iff (splitLines_ne_nil _), splitLines_flatten, Nat.zero_add]

end AdaExpressions
