import AdaExpressions.Name.Basic
import AdaExpressions.Scope.Environment

/-!
# Name resolution

A name designates the scope opened by the entity it names: the first declaration found for an
identifier, and for a selected name the selector looked up in the scope that the base designates.

A name under resolution has a slot at every identifier and every selection. The first answer at a
node fills its slot and is given ever after, whatever table or scope is asked about; a slot holds
"no scope" as well as a scope. Where looking up has no answer, a question has none either.
-/

namespace AdaExpressions

/-- The answer once given at a node. -/
abbrev Slot := Option (Option EnvId)

structure ResolvedIdent where
  ident : Ident
  slot : Slot
  deriving DecidableEq, Repr

inductive ResolvedName
  | simple (ident : ResolvedIdent)
  | selected (base : ResolvedName) (selector : ResolvedIdent) (slot : Slot)
  deriving DecidableEq, Repr

namespace ResolvedIdent

def fresh (ident : Ident) : ResolvedIdent :=
  ⟨ident, none⟩

/-- Every declaration that the identifier may denote from `env`, nearest first. -/
def elements? (ident : ResolvedIdent) (table : EnvTable) (env : EnvId) : Option (List Declaration) :=
  table.lookup? env ident.ident.token.symbol

def designate? (ident : ResolvedIdent) (table : EnvTable) (env : EnvId) :
    Option (Option EnvId × ResolvedIdent) :=
  match ident.slot with
  | some answer => some (answer, ident)
  | none => (ident.elements? table env).map fun found =>
      let answer := found.head?.bind Declaration.opened
      (answer, { ident with slot := some answer })

end ResolvedIdent

namespace ResolvedName

/-- A name with every slot empty. -/
def fresh : Name → ResolvedName
  | .simple ident => .simple (.fresh ident)
  | .selected base selector _ => .selected (fresh base) (.fresh selector) none

/-- The token that names the entity, relative to its scope. -/
def token : ResolvedName → Token
  | .simple ident => ident.ident.token
  | .selected _ selector _ => selector.ident.token

/-- The scope designated from `env`, and the name with the slots filled on the way. -/
def designate? (table : EnvTable) (env : EnvId) :
    ResolvedName → Option (Option EnvId × ResolvedName)
  | .simple ident => (ident.designate? table env).map fun (answer, ident) => (answer, .simple ident)
  | .selected base selector (some answer) => some (answer, .selected base selector (some answer))
  | .selected base selector none => do
      match ← base.designate? table env with
      | (none, base) => return (none, .selected base selector (some none))
      | (some inner, base) =>
          let (answer, selector) ← selector.designate? table inner
          return (answer, .selected base selector (some answer))

/-- The scope in which the named entity counts as defined. -/
def scope? (table : EnvTable) (env : EnvId) : ResolvedName → Option (Option EnvId × ResolvedName)
  | .simple ident => some (some env, .simple ident)
  | .selected base selector slot => (base.designate? table env).map fun (answer, base) =>
      (answer, .selected base selector slot)

/-! ### Nodes inside a name -/

/-- From a selection to the name it selects from, or to its selector. -/
inductive Step
  | base
  | selector
  deriving DecidableEq, Repr

/-- The node at the end of a path. -/
def node? : List Step → ResolvedName → Option ResolvedName
  | [], name => some name
  | .base :: path, .selected base _ _ => base.node? path
  | .selector :: path, .selected _ selector _ => (simple selector).node? path
  | _ :: _, .simple _ => none

/-- The identifier that a name is, if it is not a selection. -/
def ident? : ResolvedName → Option ResolvedIdent
  | .simple ident => some ident
  | .selected _ _ _ => none

/-- A question put to a node of a name. -/
inductive Question
  | designated
  | scope
  deriving DecidableEq, Repr

def ask? (question : Question) (table : EnvTable) (env : EnvId) (name : ResolvedName) :
    Option (Option EnvId × ResolvedName) :=
  match question with
  | .designated => name.designate? table env
  | .scope => name.scope? table env

def askIdent? (question : Question) (table : EnvTable) (env : EnvId) (ident : ResolvedIdent) :
    Option (Option EnvId × ResolvedIdent) :=
  match question with
  | .designated => ident.designate? table env
  | .scope => some (some env, ident)

/-- Puts a question to the node at the end of a path. -/
def askAt? (question : Question) (table : EnvTable) (env : EnvId) :
    List Step → ResolvedName → Option (Option EnvId × ResolvedName)
  | [], name => name.ask? question table env
  | .base :: path, .selected base selector slot =>
      (base.askAt? question table env path).map fun (answer, base) =>
        (answer, .selected base selector slot)
  | [.selector], .selected base selector slot =>
      (askIdent? question table env selector).map fun (answer, selector) =>
        (answer, .selected base selector slot)
  | _ :: _, _ => none

end ResolvedName

end AdaExpressions
