import AdaExpressions.Proofs.Reading.Run
import AdaExpressions.Proofs.Tree.Hereditary
import AdaExpressions.Proofs.Tree.Parts

/-!
# Accepted trees are canonical

To be canonical at every depth is hereditary. An expression that is put together is neither a range
nor a box, so it may stand anywhere but where a range has to; a range and a box stand only where
their forms are asked for.

Result: `parts_canonical`.
-/

namespace AdaExpressions

open Program Grammar

/-- The part is canonical, and so is whatever stands below it. -/
def Part.AllCanonical (setting : Setting) (part : Part) : Prop :=
  ∀ inner, part.Holds inner → inner.IsCanonical setting

/-- At any of the sites, the tree is canonical at every depth. -/
def Expr.CanonicalAt (setting : Setting) (sites : List Site) (tree : Expr) : Prop :=
  ∀ site ∈ sites, (Part.expr site tree).AllCanonical setting

/-- The sites of an expression that is neither a range nor a box. -/
def Site.ofOperands : List Site :=
  [.whole, .operand, .choice, .body, .source, .value, .elsewhere]

/-- What is canonical of a tree of a form. Whether an association is a canonical component depends
on where it was read; of the association by itself, what stands below it is canonical. -/
def TreeForm.IsCanonical (setting : Setting) : (form : TreeForm) → form.Node → Prop
  | .expr .range, tree => tree.CanonicalAt setting Site.ofRanges
  | .expr .scope, tree => tree.CanonicalAt setting [.choice, .body, .source]
  | .expr .value, tree => tree.CanonicalAt setting [.value]
  | .expr .direct, tree =>
      tree.CanonicalAt setting Site.ofOperands ∧ tree.isBareAttribute = false
  | .expr .attribute, tree =>
      tree.CanonicalAt setting Site.ofOperands ∧ tree.isBareAttribute = false
  | .expr .name, tree => tree.CanonicalAt setting Site.ofOperands
  | .expr .expression, tree => tree.CanonicalAt setting Site.ofOperands
  | .choice, node => (Part.choice node).AllCanonical setting
  | .parameter, part => (Part.parameter part).AllCanonical setting
  | .suffix, node => (Part.suffix node).AllCanonical setting
  | .association, part =>
      (∀ list span, part.designator = some (.choices list span) → list ≠ []) ∧
        ∀ child ∈ part.parts, child.AllCanonical setting
  | .content, node => (Part.content node).AllCanonical setting
  | .elsif, part => (Part.elsif part).AllCanonical setting
  | .alternative, part => (Part.alternative part).AllCanonical setting
  | .loop, node => (Part.loop node).AllCanonical setting
  | .source, node => (Part.source node).AllCanonical setting

variable {setting : Setting}

namespace Part

theorem allCanonical_of {part : Part} (here : part.IsCanonical setting)
    (below : ∀ child ∈ part.children, child.AllCanonical setting) : part.AllCanonical setting := by
  intro inner holds
  rcases Relation.ReflTransGen.cases_head holds with rfl | ⟨child, member, rest⟩
  · exact here
  · exact below child member inner rest

theorem AllCanonical.here {part : Part} (all : part.AllCanonical setting) :
    part.IsCanonical setting :=
  all part .refl

theorem AllCanonical.below {part child : Part} (all : part.AllCanonical setting)
    (member : child ∈ part.children) : child.AllCanonical setting :=
  fun inner holds => all inner (.head member holds)

theorem allCanonical_pair {first second : Part} (one : first.AllCanonical setting)
    (other : second.AllCanonical setting) :
    ∀ part ∈ [first, second], part.AllCanonical setting :=
  List.forall_mem_cons.mpr ⟨one, List.forall_mem_singleton.mpr other⟩

end Part

namespace Expr

variable {tree : Expr}

theorem CanonicalAt.mono {sites fewer : List Site} (at_ : tree.CanonicalAt setting sites)
    (subset : fewer ⊆ sites) : tree.CanonicalAt setting fewer :=
  fun site member => at_ site (subset member)

theorem CanonicalAt.operand (at_ : tree.CanonicalAt setting Site.ofOperands) :
    (Part.expr .operand tree).AllCanonical setting :=
  at_ .operand (by decide)

theorem CanonicalAt.elsewhere (at_ : tree.CanonicalAt setting Site.ofOperands) :
    (Part.expr .elsewhere tree).AllCanonical setting :=
  at_ .elsewhere (by decide)

/-- An expression that is neither a range nor a box. -/
theorem canonicalAt_operands (range : tree.isRange = false) (box : tree.isBox = false)
    (here : tree.IsCanonical) (below : ∀ part ∈ tree.parts, part.AllCanonical setting) :
    tree.CanonicalAt setting Site.ofOperands := by
  intro site member
  refine Part.allCanonical_of ⟨⟨by simp [range], ?_, by simp [box]⟩, here⟩ below
  rintro (rfl | rfl) <;> exact absurd member (by decide)

theorem canonicalAt_range {low high : Expr} {span : Span}
    (left : low.CanonicalAt setting Site.ofOperands)
    (right : high.CanonicalAt setting Site.ofOperands) :
    (Expr.binary low .range high span).CanonicalAt setting Site.ofRanges := by
  intro site member
  refine Part.allCanonical_of ⟨⟨fun _ => member, fun _ => rfl, by simp [isBox]⟩, trivial⟩ ?_
  exact Part.allCanonical_pair left.operand right.operand

theorem canonicalAt_box {span : Span} : (Expr.box span).CanonicalAt setting [.value] := by
  intro site member
  have value := List.mem_singleton.mp member
  exact Part.allCanonical_of ⟨⟨by simp [isRange], by simp [value], fun _ => value⟩, trivial⟩
    (List.forall_mem_nil _)

theorem canonicalAt_ident {ident : Ident} (form : ident.form ≠ .enumeration) :
    (Expr.name (.simple ident)).CanonicalAt setting Site.ofOperands := by
  refine canonicalAt_operands rfl rfl trivial (List.forall_mem_singleton.mpr ?_)
  exact Part.allCanonical_of form (List.forall_mem_nil _)

theorem CanonicalAt.idents {name : Name}
    (at_ : (Expr.name name).CanonicalAt setting Site.ofOperands) {ident : Ident}
    (member : ident ∈ name.components) : (Part.ident ident).AllCanonical setting :=
  at_.elsewhere.below (List.mem_map_of_mem member)

theorem isRange_binary {left right : Expr} {op : Op} {span : Span} (known : op ∈ Op.binary) :
    (Expr.binary left op right span).isRange = false := by
  have apart : op ≠ .range := fun same => absurd (same ▸ known) (by decide)
  unfold isRange
  split
  next same => exact absurd (Expr.binary.inj same).2.1 apart
  next => rfl

/-! ### Names -/

/-- A selection is canonical if what it is made of is and no longer name can be made of it. -/
theorem canonicalAt_selection {base selector : Expr} {span : Span}
    (before : base.CanonicalAt setting Site.ofOperands)
    (after : selector.CanonicalAt setting Site.ofOperands)
    (enumeration : ∀ path ident, base = .name path → selector = .name (.simple ident) →
      ident.form = .enumeration) :
    (Expr.selection base selector span).CanonicalAt setting Site.ofOperands := by
  refine canonicalAt_operands rfl rfl ?_
    (Part.allCanonical_pair before.elsewhere after.elsewhere)
  rintro ⟨named, simple⟩
  cases base with
  | name path =>
      cases selector with
      | name selector =>
          cases selector with
          | simple ident =>
              have canonical := (after.idents (List.mem_singleton.mpr rfl)).here
              exact canonical (enumeration path ident rfl rfl)
          | selected => cases simple
      | _ => cases simple
  | _ => cases named

/-- A longer name is canonical if the name and the selector are. -/
theorem canonicalAt_selected {base : Name} {selector : Ident} {span : Span}
    (before : (Expr.name base).CanonicalAt setting Site.ofOperands)
    (after : (Expr.name (.simple selector)).CanonicalAt setting Site.ofOperands) :
    (Expr.name (.selected base selector span)).CanonicalAt setting Site.ofOperands := by
  refine canonicalAt_operands rfl rfl trivial (List.forall_mem_map.mpr ?_)
  refine List.forall_mem_append.mpr ⟨fun ident member => before.idents member, ?_⟩
  exact List.forall_mem_singleton.mpr (after.idents (List.mem_singleton.mpr rfl))

end Expr

/-! ### Components -/

theorem Designator.ofChoices_tells (choices : List Choice) (span : Span) :
    (ofChoices choices span).Tells choices := by
  unfold ofChoices
  split
  next othersSpan => exact ⟨by simp, by simp, by simp⟩
  next several =>
    refine ⟨⟨by simp, fun ⟨othersSpan, same⟩ => absurd same (several othersSpan)⟩, ?_, by simp⟩
    exact fun list listSpan same => (Designator.choices.inj same).1.symm

/-- A component that is read tells the choices that were read where it starts. -/
theorem tellsChoices_of_reads {start stop : Nat} {part : Association}
    (reads : Reads setting (.call .aggregateAssociation) start (.done part stop)) :
    part.TellsChoices setting start := by
  have body : aggregateAssociation.Meets setting (moving setting) start fun part _ =>
      part.TellsChoices setting start := by
    simp only [aggregateAssociation, aggregateDesignator, meets_bind, meets_attempt, meets_extent]
    refine ⟨⟨trivial, fun choices middle readsList _ => ?_⟩, fun _ => ?_⟩
    · refine (meets_take (by decide)).mpr fun arrow _ => ?_
      have told (value : Expr) (span : Span) :
          (Association.of (some (.ofChoices choices span)) value).TellsChoices setting start := by
        rintro designator ⟨⟩
        exact ⟨choices, middle, readsList, arrow, Designator.ofChoices_tells choices span⟩
      simp [told, moving]
    · simp [Association.of, Association.TellsChoices, Association.designator, moving]
  have readsBody : Reads setting aggregateAssociation start (.done part stop) := reads.readsBy
  have told := Meets.of_calls (fun _ _ _ _ => Rule.stop_of_reads) body readsBody
  exact told

theorem hereditary_canonical : Hereditary setting (TreeForm.IsCanonical setting) where
  unary _ operand :=
    Expr.canonicalAt_operands rfl rfl trivial (List.forall_mem_singleton.mpr operand.operand)
  binary known left right :=
    Expr.canonicalAt_operands (Expr.isRange_binary known) rfl trivial
      (Part.allCanonical_pair left.operand right.operand)
  membership _ tested some_ choices :=
    Expr.canonicalAt_operands rfl rfl some_
      (List.forall_mem_cons.mpr ⟨tested.operand, List.forall_mem_map.mpr choices⟩)
  number _ := Expr.canonicalAt_operands rfl rfl trivial (List.forall_mem_nil _)
  null _ := Expr.canonicalAt_operands rfl rfl trivial (List.forall_mem_nil _)
  name := id
  new designated :=
    Expr.canonicalAt_operands rfl rfl trivial (List.forall_mem_singleton.mpr designated.elsewhere)
  newIn subpool designated :=
    Expr.canonicalAt_operands rfl rfl trivial
      (Part.allCanonical_pair subpool.elsewhere designated.elsewhere)
  reraise := Expr.canonicalAt_operands rfl rfl trivial (List.forall_mem_nil _)
  raiseName exception :=
    Expr.canonicalAt_operands rfl rfl trivial (List.forall_mem_singleton.mpr exception.elsewhere)
  raiseMessage exception message :=
    Expr.canonicalAt_operands rfl rfl trivial
      (Part.allCanonical_pair exception.elsewhere message.elsewhere)
  aggregate content :=
    Expr.canonicalAt_operands rfl rfl trivial (List.forall_mem_singleton.mpr content)
  extension ancestor content :=
    Expr.canonicalAt_operands rfl rfl trivial (Part.allCanonical_pair ancestor.elsewhere content)
  ifExpr condition consequence elsifs alternative :=
    Expr.canonicalAt_operands rfl rfl trivial <| List.forall_mem_append.mpr
      ⟨List.forall_mem_append.mpr
        ⟨Part.allCanonical_pair condition.elsewhere consequence.elsewhere,
          List.forall_mem_map.mpr elsifs⟩,
        List.forall_mem_map.mpr fun value member =>
          (alternative value (Option.mem_toList.mp member)).elsewhere⟩
  caseExpr subject some_ alternatives :=
    Expr.canonicalAt_operands rfl rfl some_
      (List.forall_mem_cons.mpr ⟨subject.elsewhere, List.forall_mem_map.mpr alternatives⟩)
  quantified loop body :=
    Expr.canonicalAt_operands rfl rfl trivial (Part.allCanonical_pair loop (body .body (by decide)))
  direct leaf := leaf.1
  direct_bare leaf := leaf.2
  identifier _ := ⟨Expr.canonicalAt_ident (by simp), rfl⟩
  operatorSymbol _ := ⟨Expr.canonicalAt_ident (by simp), rfl⟩
  character _ := ⟨Expr.canonicalAt_operands rfl rfl trivial (List.forall_mem_nil _), rfl⟩
  dereference := ⟨Expr.canonicalAt_operands rfl rfl trivial (List.forall_mem_nil _), rfl⟩
  attributeWord _ := ⟨Expr.canonicalAt_operands rfl rfl trivial (List.forall_mem_nil _), rfl⟩
  designator := id
  selected before after := Expr.canonicalAt_selected before after.1
  selection before after := Expr.canonicalAt_selection before after.1
  call callee bare suffix :=
    Expr.canonicalAt_operands rfl rfl bare (Part.allCanonical_pair callee.elsewhere suffix)
  attributeRef base designator :=
    Expr.canonicalAt_operands rfl rfl trivial
      (Part.allCanonical_pair base.elsewhere designator.1.elsewhere)
  attributeCall base designator arguments :=
    Expr.canonicalAt_operands rfl rfl trivial <| List.forall_mem_append.mpr
      ⟨Part.allCanonical_pair base.elsewhere designator.1.elsewhere,
        List.forall_mem_singleton.mpr arguments⟩
  qualified mark operand :=
    Expr.canonicalAt_operands rfl rfl trivial
      (Part.allCanonical_pair mark.elsewhere operand.elsewhere)
  range := Expr.canonicalAt_range
  rangeScope bounds := bounds.mono (by decide)
  exprScope tree := tree.mono (by decide)
  value tree := tree.mono (by decide)
  box := Expr.canonicalAt_box
  choice inner :=
    Part.allCanonical_of trivial (List.forall_mem_singleton.mpr (inner .choice (by decide)))
  others := Part.allCanonical_of trivial (List.forall_mem_nil _)
  slice bounds :=
    Part.allCanonical_of trivial (List.forall_mem_singleton.mpr (bounds .slice (by decide)))
  parameters some_ each := Part.allCanonical_of some_ (List.forall_mem_map.mpr each)
  positional value :=
    Part.allCanonical_of (by simp [Part.IsCanonical, Association.designator])
      (List.forall_mem_singleton.mpr (value .value (by decide)))
  named ident value :=
    Part.allCanonical_of (by simp [Part.IsCanonical, Association.designator])
      (Part.allCanonical_pair (ident.1.idents (List.mem_singleton.mpr rfl))
        (value .value (by decide)))
  otherParameters value :=
    Part.allCanonical_of (by simp [Part.IsCanonical, Association.designator])
      (List.forall_mem_singleton.mpr (value .value (by decide)))
  nullRecord := Part.allCanonical_of trivial (List.forall_mem_nil _)
  fields some_ each read := by
    refine Part.allCanonical_of some_ (List.forall_mem_map.mpr fun part member => ?_)
    obtain ⟨start, stop, reads⟩ := read part member
    exact Part.allCanonical_of
      ⟨⟨start, stop, reads, tellsChoices_of_reads reads⟩, (each part member).1⟩ (each part member).2
  component value :=
    ⟨by simp [Association.designator], List.forall_mem_singleton.mpr (value .value (by decide))⟩
  otherComponents value :=
    ⟨by simp [Association.designator], List.forall_mem_singleton.mpr (value .value (by decide))⟩
  chosen {choices _ _ _} some_ each _ value := by
    refine ⟨fun list span same => ?_, ?_⟩
    · cases same
      exact some_
    · have list : ∀ part ∈ choices.map Part.choice, part.AllCanonical setting :=
        List.forall_mem_map.mpr each
      refine List.forall_mem_append.mpr
        ⟨?_, List.forall_mem_singleton.mpr (value .value (by decide))⟩
      simpa [Association.designator, Designator.parts] using list
  elsif condition consequence :=
    Part.allCanonical_of trivial
      (Part.allCanonical_pair condition.elsewhere consequence.elsewhere)
  alternative some_ choices value :=
    Part.allCanonical_of some_ <| List.forall_mem_append.mpr
      ⟨List.forall_mem_map.mpr choices, List.forall_mem_singleton.mpr value.elsewhere⟩
  loop counter source :=
    Part.allCanonical_of trivial
      (Part.allCanonical_pair (counter.1.idents (List.mem_singleton.mpr rfl)) source)
  constrained mark constraint :=
    Part.allCanonical_of trivial
      (Part.allCanonical_pair mark.elsewhere (constraint .constraint (by decide)))
  iterated source :=
    Part.allCanonical_of trivial (List.forall_mem_singleton.mpr (source .source (by decide)))

/-- Every part of an accepted tree is canonical, at whatever depth it stands. -/
theorem parts_canonical {tokens : List Token} {file : String} {options : Options} {tree : Expr}
    (accepted : parse tokens file options = .accepted tree) {part : Part}
    (below : (Part.expr .whole tree).Holds part) :
    part.IsCanonical (Parser.ofTokens tokens file options).setting := by
  obtain ⟨stop, reads, _⟩ := parse_accepted_iff.mp accepted
  have canonical : tree.CanonicalAt _ Site.ofOperands := hereditary_canonical.of_reads reads
  exact canonical .whole (by decide) part below

/-- In `(others => <>)` the component has one designator and a box, and was read behind the
parenthesis. -/
theorem parts_canonical_others :
    let tokens : List Token := [⟨.openParen, "(", default⟩, ⟨.kwOthers, "others", default⟩,
      ⟨.arrow, "=>", default⟩, ⟨.diamond, "<>", default⟩, ⟨.closeParen, ")", default⟩]
    let component : Association := .mk (some (.others default)) (.box default) default
    ∃ tree, parse tokens "" .strict = .accepted tree ∧
      (Part.expr .whole tree).Holds (.component component) ∧
      (Part.component component).IsCanonical (Parser.ofTokens tokens "" .strict).setting := by
  intro tokens component
  have accepted : parse tokens "" .strict =
      .accepted (.aggregate none (.fields [component] default) default) := by
    simp only [tokens, component]
    rfl
  have below : (Part.expr .whole (.aggregate none (.fields [component] default) default)).Holds
      (.component component) := .tail (.single List.mem_cons_self) List.mem_cons_self
  exact ⟨_, accepted, below, parts_canonical accepted below⟩

end AdaExpressions
