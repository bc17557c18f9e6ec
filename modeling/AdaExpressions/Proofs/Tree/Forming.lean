import AdaExpressions.Proofs.Tree.Hereditary

/-!
# What is read is formed

To be formed is hereditary where the tokens are proper.

Result: `formed_of_reads`.
-/

namespace AdaExpressions

namespace Setting

/-- Every token that does not end the input is proper. -/
def Proper (setting : Setting) : Prop :=
  ∀ index, setting.buffer.kind index ≠ .eof → (setting.buffer.token index).Proper

theorem Proper.token {setting : Setting} (proper : setting.Proper) {index : Nat} {kind : Kind}
    (found : setting.buffer.kind index = kind) (more : kind ≠ .eof) :
    (setting.buffer.token index).Proper :=
  proper index (by rwa [found])

end Setting

theorem Formed.ident_proper {ident : Ident}
    (formed : Formed (.expr .direct) (.name (.simple ident))) : ident.Proper := by
  cases formed with
  | ident proper => exact proper

theorem hereditary_formed {setting : Setting} (proper : setting.Proper) :
    Hereditary setting Formed where
  unary := .unary
  binary := .binary
  membership := .membership
  number found := .number found (proper.token found (by decide))
  null found := .null found (proper.token found (by decide))
  name := .name
  new := .new
  newIn := .newIn
  reraise := .reraise
  raiseName := .raiseName
  raiseMessage := .raiseMessage
  aggregate := .aggregate
  extension := .extension
  ifExpr := .ifExpr
  caseExpr := .caseExpr
  quantified := .quantified
  direct := .direct
  direct_bare formed := by cases formed <;> rfl
  identifier found := .namedAttribute found (proper.token found (by decide))
  operatorSymbol found := .ident ⟨by simp, proper.token found (by decide), found⟩
  character found := .character found (proper.token found (by decide))
  dereference := .dereference
  attributeWord found := .reservedAttribute found <| proper _ fun closed => by
    rw [closed] at found
    exact absurd found (by decide)
  designator := .of_attribute
  selected before after := .selected before after.ident_proper
  selection {base selector _} before after enumeration := by
    refine .selection before after fun named => ?_
    cases base with
    | name path =>
        cases after with
        | ident proper => exact absurd (enumeration _ _ rfl rfl) proper.1
        | _ => rfl
    | _ => cases named
  call := .call
  attributeRef := .attributeRef
  attributeCall := .attributeCall
  qualified := .qualified
  range := .range
  rangeScope := .rangeScope
  exprScope := .exprScope
  value := .value
  box := .box
  choice := .choice
  others := .others
  slice := .slice
  parameters := .parameters
  positional := .positional
  named ident := .named ident.ident_proper
  otherParameters := .otherParameters
  nullRecord := .nullRecord
  fields some_ each _ := .fields some_ each
  component := .component
  otherComponents := .otherComponents
  chosen := .chosen
  elsif := .elsif
  alternative := .alternative
  loop counter source := by
    cases counter with
    | namedAttribute found proper => exact .loop found proper source
  constrained := .constrained
  iterated := .iterated

/-- What is read of proper tokens is formed. -/
theorem formed_of_reads {setting : Setting} (proper : setting.Proper) {start stop : Nat}
    {tree : Expr} (reads : Reads setting (.expr .expression) start (.done tree stop)) :
    Formed (.expr .expression) tree :=
  (hereditary_formed proper).of_reads reads

end AdaExpressions
