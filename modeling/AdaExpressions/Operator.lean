import AdaExpressions.Token.Kind

/-!
# Operators

Operators are told apart by what they mean, not by how they are spelt: `not in` is one operator of
two words, and `..` is the operator of ranges. The operators of each level of precedence stand in a
table. A table is tried in order, so an operator of two words comes before one that is its first
word.
-/

namespace AdaExpressions

inductive Op
  | and
  | or
  | orElse
  | andThen
  | xor
  | isIn
  | notIn
  | abs
  | not
  | pow
  | mult
  | div
  | mod
  | rem
  | plus
  | minus
  | concat
  | eq
  | ne
  | lt
  | le
  | gt
  | ge
  | range
  deriving DecidableEq, Inhabited, Repr

namespace Op

/-- The tokens an operator is written with. -/
def words : Op → List Kind
  | .and => [.kwAnd]
  | .or => [.kwOr]
  | .orElse => [.kwOr, .kwElse]
  | .andThen => [.kwAnd, .kwThen]
  | .xor => [.kwXor]
  | .isIn => [.kwIn]
  | .notIn => [.kwNot, .kwIn]
  | .abs => [.kwAbs]
  | .not => [.kwNot]
  | .pow => [.pow]
  | .mult => [.star]
  | .div => [.slash]
  | .mod => [.kwMod]
  | .rem => [.kwRem]
  | .plus => [.plus]
  | .minus => [.dash]
  | .concat => [.ampersand]
  | .eq => [.equals]
  | .ne => [.notEquals]
  | .lt => [.less]
  | .le => [.lessEquals]
  | .gt => [.greater]
  | .ge => [.greaterEquals]
  | .range => [.dotDot]

def spelling (op : Op) : String :=
  " ".intercalate (op.words.map Kind.spelling)

/-- What the operator is called where the shape of a tree is written out. -/
def name : Op → String
  | .and => "and"
  | .or => "or"
  | .orElse => "or_else"
  | .andThen => "and_then"
  | .xor => "xor"
  | .isIn => "in"
  | .notIn => "not_in"
  | .abs => "abs"
  | .not => "not"
  | .pow => "pow"
  | .mult => "mult"
  | .div => "div"
  | .mod => "mod"
  | .rem => "rem"
  | .plus => "plus"
  | .minus => "minus"
  | .concat => "bin_and"
  | .eq => "eq"
  | .ne => "neq"
  | .lt => "lt"
  | .le => "lte"
  | .gt => "gt"
  | .ge => "gte"
  | .range => "ellipsis"

/-! ### The levels of precedence, loosest first -/

def logical : List Op :=
  [.xor, .andThen, .and, .orElse, .or]

def membership : List Op :=
  [.notIn, .isIn]

def relational : List Op :=
  [.eq, .ne, .lt, .le, .gt, .ge]

def adding : List Op :=
  [.plus, .minus, .concat]

def unaryAdding : List Op :=
  [.plus, .minus]

def multiplying : List Op :=
  [.mult, .div, .mod, .rem]

def highestUnary : List Op :=
  [.abs, .not]

def exponent : List Op :=
  [.pow]

/-- The first operator of a table whose words are the kinds of the next two tokens. -/
def next? (table : List Op) (first second : Kind) : Option Op :=
  table.find? fun op => op.words.isPrefixOf [first, second]

theorem eof_not_mem_words (op : Op) : .eof ∉ op.words := by
  cases op <;> decide

theorem words_ne_nil (op : Op) : op.words ≠ [] := by
  cases op <;> decide

theorem mem_of_next? {table : List Op} {first second : Kind} {op : Op}
    (found : next? table first second = some op) : op ∈ table :=
  List.mem_of_find?_eq_some found

end Op

end AdaExpressions
