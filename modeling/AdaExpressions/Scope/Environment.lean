import AdaExpressions.Text.Lowercase

/-!
# Environments

A table of scopes, each with the scope around it and its declarations in order. A scope is known by
its place in the table; the first is the root. Names are compared in lower case. Looking a name up
from a scope finds its declarations there, then those of each enclosing scope, nearest first. A name
declared again is overloaded, never replaced.

A place is not tied to the table that gave it. A scope put inside one that its table has not, by a
place of another table, can come to enclose itself when the table grows. Looking up goes round in a
circle there and has no answer.
-/

namespace AdaExpressions

structure EnvId where
  index : Nat
  deriving DecidableEq, Inhabited, Repr

/-- A declared name, in its declared spelling, and the scope that the entity opens, if any. -/
structure Declaration where
  name : String
  opened : Option EnvId
  deriving DecidableEq, Repr

structure Scope where
  parent : Option EnvId
  declarations : List Declaration

namespace Scope

/-- The declarations whose name in lower case is `key`. -/
def elements (scope : Scope) (key : String) : List Declaration :=
  scope.declarations.filter fun declaration => Text.lowercase declaration.name == key

end Scope

structure EnvTable where
  scopes : Array Scope

namespace EnvTable

/-- A table of one scope, the root. -/
def new : EnvTable :=
  ⟨#[⟨none, []⟩]⟩

def root : EnvId :=
  ⟨0⟩

def scope? (table : EnvTable) (env : EnvId) : Option Scope :=
  table.scopes[env.index]?

def parent? (table : EnvTable) (env : EnvId) : Option EnvId :=
  (table.scope? env).bind Scope.parent

/-- Adds an empty scope inside `parent`. -/
def addScope (table : EnvTable) (parent : EnvId) : EnvId × EnvTable :=
  (⟨table.scopes.size⟩, ⟨table.scopes.push ⟨some parent, []⟩⟩)

/-- Adds a declaration behind those of a scope. A scope that is not in the table takes none. -/
def declare? (table : EnvTable) (env : EnvId) (declaration : Declaration) : Option EnvTable :=
  if env.index < table.scopes.size then
    some ⟨table.scopes.modify env.index fun scope =>
      { scope with declarations := scope.declarations ++ [declaration] }⟩
  else none

/-- The scopes from `env` outwards, if they are no more than `steps`. -/
def enclosing? (table : EnvTable) (steps : Nat) (env : Option EnvId) : Option (List Scope) :=
  match env.bind table.scope?, steps with
  | none, _ => some []
  | some _, 0 => none
  | some scope, steps + 1 => (table.enclosing? steps scope.parent).map (scope :: ·)

/-- Every declaration of `name` visible from `env`. Whoever passes more scopes than the table has
goes round in a circle. -/
def lookup? (table : EnvTable) (env : EnvId) (name : String) : Option (List Declaration) :=
  (table.enclosing? table.scopes.size (some env)).map fun scopes =>
    scopes.flatMap (·.elements (Text.lowercase name))

theorem scope?_addScope {table : EnvTable} {parent env : EnvId}
    (known : env.index < table.scopes.size) :
    (table.addScope parent).2.scope? env = table.scope? env := by
  simp [scope?, addScope, Array.getElem?_push, Nat.ne_of_lt known]

end EnvTable

end AdaExpressions
