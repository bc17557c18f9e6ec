import AdaExpressions.Proofs.Printing.Names

/-!
# Printed parameters

A parameter is tried with a name in front of it first, and a suffix as a range. Both are passed over
by what the expression that starts there ends before: `ExprBefore` says it.

Results: `ParameterPieces.named`, `SuffixPieces.parameters`, `SuffixPieces.slice`.
-/

namespace AdaExpressions

open Lexeme (TokenText)
open Program Grammar

/-- No expression starts here, or one that ends before a token of these kinds. -/
def Setting.ExprBefore (setting : Setting) (kinds : List Kind) (start : Nat) : Prop :=
  setting.buffer.kind start ∉ exprStarters ∨
    ∃ tree stop, Reads setting (.expr .expression) start (.done tree stop) ∧
      setting.buffer.kind stop ∈ kinds

/-- The pieces of what is associated: an expression or a box. -/
inductive ValuePieces : List Piece → Shape → Prop
  | expression {pieces : List Piece} {shape : Shape} :
      ExprPieces raiseFollow pieces shape → ValuePieces pieces shape
  | box : ValuePieces [.word .diamond] (.text "DiamondExpr")

section

variable {setting : Setting} {start stop : Nat} {kinds : List Kind}

namespace Setting.ExprBefore

theorem mono {wider : List Kind} (before : setting.ExprBefore kinds start) (less : kinds ⊆ wider) :
    setting.ExprBefore wider start :=
  before.imp_right fun ⟨tree, stop, reads, known⟩ => ⟨tree, stop, reads, less known⟩

/-- An expression and a token that does not stand behind it. -/
theorem failsAt {α : Type} {kind : Kind} {next : Expr → Token → Program α}
    (before : setting.ExprBefore kinds start) (other : kind ∉ kinds) :
    (do let tree ← expr .expression; let token ← Program.take kind; next tree token :
      Program α).FailsAt setting start := by
  rcases before with missing | ⟨tree, stop, reads, known⟩
  · exact (ExprRule.expression.failsAt_of_start missing).bind
  · have missing : setting.buffer.kind stop ≠ kind := fun found => other (found ▸ known)
    exact .behind reads (FailsAt.take missing).bind

/-- No range starts where the expression ends before something else than its dots. -/
theorem noRange (before : setting.ExprBefore kinds start) (apart : .dotDot ∉ kinds) :
    (expr .discreteRange).FailsAt setting start := by
  rcases before with missing | ⟨tree, stop, reads, known⟩
  · exact ExprRule.discreteRange.failsAt_of_start missing
  · exact failsAt_discreteRange_of_expression reads fun dots => apart (dots ▸ known)

/-- What is read as an expression ends before one of the kinds. -/
theorem kind_mem {tree : Expr} (before : setting.ExprBefore kinds start)
    (reads : Reads setting (expr .expression) start (.done tree stop)) :
    setting.buffer.kind stop ∈ kinds := by
  rcases before with missing | ⟨other, last, again, known⟩
  · obtain ⟨failure, fails, _⟩ := ExprRule.expression.failsAt_of_start missing
    cases fails.unique reads
  · cases again.unique reads
    exact known

end Setting.ExprBefore

/-- An identifier or operator symbol in front of an arrow is an expression by itself. -/
theorem reads_expression_of_direct {tree : Expr}
    (reads : Reads setting (expr .directName) start (.done tree (start + 1)))
    (arrow : setting.buffer.kind (start + 1) = .arrow) :
    Reads setting (expr .expression) start (.done tree (start + 1)) := by
  have name : Reads setting (expr .name) start (.done tree (start + 1)) :=
    .call (.andThen reads (reads_nameSteps_end (by rw [arrow]; decide)))
  exact reads_expression_of_primary (plainAt_of_name name) (reads_primary_of_name name)
    (by rw [Setting.EndsAt, arrow]; decide)

end

/-! ### Values -/

section

variable {pieces more : List Piece} {shape other : Shape}

theorem ValuePieces.block (value : ValuePieces pieces shape) :
    Block (.diamond :: printedHeads) suffixLasts pieces := by
  cases value with
  | expression whole => exact whole.block.mono (by decide) (by decide)
  | box => exact (Block.word (by decide)).mono (by decide) (by decide)

/-- What is read of a value: a box, where no expression starts, or an expression. -/
theorem ValuePieces.read {setting : Setting} {start stop : Nat} (value : ValuePieces pieces shape)
    (stands : setting.Stands pieces start stop)
    (follows : setting.buffer.kind stop ∈ [Kind.comma, .closeParen]) :
    ∃ tree, tree.shape = shape ∧
      (setting.buffer.kind start = .diamond ∧
          Reads setting Grammar.box start (.done tree stop) ∨
        setting.buffer.kind start ≠ .diamond ∧
          Reads setting (expr .expression) start (.done tree stop)) := by
  cases value with
  | expression whole =>
      have less : [Kind.comma, .closeParen] ⊆ raiseFollow := by decide
      obtain ⟨tree, same, reads⟩ := whole.reads stands (less follows)
      have apart : ∀ kind ∈ printedHeads, kind ≠ .diamond := by decide
      exact ⟨tree, same, .inr ⟨apart _ (stands.kind_mem whole.block), reads⟩⟩
  | box =>
      obtain ⟨found, _, ends⟩ := stands
      cases ends
      exact ⟨_, rfl, .inl ⟨found, .andThen (reads_take found (by decide)) .yield⟩⟩

theorem ValuePieces.exprBefore {setting : Setting} {start stop : Nat} (value : ValuePieces pieces shape)
    (stands : setting.Stands pieces start stop)
    (follows : setting.buffer.kind stop ∈ [Kind.comma, .closeParen]) :
    setting.ExprBefore [setting.buffer.kind stop] start := by
  obtain ⟨tree, _, ⟨found, _⟩ | ⟨_, reads⟩⟩ := value.read stands follows
  · exact .inl (by rw [found]; decide)
  · exact .inr ⟨tree, stop, reads, List.mem_singleton_self _⟩

/-- A value as a parameter has it. -/
theorem ValuePieces.parameter {setting : Setting} {start stop : Nat} (value : ValuePieces pieces shape)
    (stands : setting.Stands pieces start stop)
    (follows : setting.buffer.kind stop ∈ [Kind.comma, .closeParen]) :
    ∃ tree, tree.shape = shape ∧
      Reads setting (orElse (expr .expression) Grammar.box) start (.done tree stop) := by
  obtain ⟨tree, same, ⟨found, reads⟩ | ⟨_, reads⟩⟩ := value.read stands follows
  · have fails : (expr .expression).FailsAt setting start :=
      ExprRule.expression.failsAt_of_start (by rw [found]; decide)
    exact ⟨tree, same, reads_orElse fails reads⟩
  · exact ⟨tree, same, reads_orElse_first reads⟩

/-! ### Parameters -/

/-- The pieces of a parameter, at whose start no range is read. -/
structure ParameterPieces (pieces : List Piece) (shape : Shape) : Prop
    extends ReadBack suffixHeads suffixLasts [.comma, .closeParen] (.call .parameterAssociation)
      (Association.shape "ParamAssoc") pieces shape where
  noRange {setting : Setting} {start stop : Nat} :
    setting.Stands pieces start stop → setting.buffer.kind stop ∈ [Kind.comma, .closeParen] →
    (Program.expr .discreteRange).FailsAt setting start

theorem reads_staticPart {setting : Setting} {start : Nat} {form : IdentForm}
    (plain : form ≠ .enumeration)
    (found : setting.buffer.kind start = if form = .operatorSymbol then .string else .identifier) :
    Reads setting staticPart start (.done ⟨form, setting.buffer.token start⟩ (start + 1)) := by
  refine .andThen reads_nextKind ?_
  cases form with
  | identifier =>
      have found : setting.buffer.kind start = .identifier := found
      rw [if_neg (by rw [found]; decide)]
      exact .andThen (reads_take found (by decide)) .yield
  | operatorSymbol =>
      have found : setting.buffer.kind start = .string := found
      rw [if_pos found]
      exact .andThen (reads_take found (by decide)) .yield
  | enumeration => exact absurd rfl plain

theorem failsAt_staticPart {setting : Setting} {start : Nat}
    (string : setting.buffer.kind start ≠ .string)
    (identifier : setting.buffer.kind start ≠ .identifier) : staticPart.FailsAt setting start := by
  refine .behind reads_nextKind ?_
  rw [if_neg string]
  exact (FailsAt.take identifier).bind

/-- A parameter without a name is not read as one that has one. -/
theorem failsAt_parameterDesignator {setting : Setting} {start : Nat}
    (before : setting.ExprBefore [.comma, .closeParen] start)
    (first : setting.buffer.kind start ≠ .kwOthers) :
    (do let designator ← parameterDesignator; let _ ← take .arrow; return designator :
      Program Designator).FailsAt setting start := by
  -- A name in front of an arrow is an expression, and the expression here ends before no arrow.
  have named (form : IdentForm) (plain : form ≠ .enumeration)
      (found : setting.buffer.kind start = if form = .operatorSymbol then .string else .identifier) :
      (do let designator ← parameterDesignator; let _ ← take .arrow; return designator :
        Program Designator).FailsAt setting start := by
    have missing : setting.buffer.kind (start + 1) ≠ .arrow := fun arrow => by
      have whole := reads_expression_of_direct (reads_directName_ident plain found) arrow
      have known := before.kind_mem whole
      rw [arrow] at known
      exact absurd known (by decide)
    have reads : Reads setting parameterDesignator start
        (.done (.name ⟨form, setting.buffer.token start⟩) (start + 1)) := by
      refine .andThen reads_nextKind ?_
      rw [if_neg first]
      exact .andThen (reads_staticPart plain found) .yield
    exact .behind reads (FailsAt.take missing).bind
  by_cases string : setting.buffer.kind start = .string
  · exact named .operatorSymbol nofun string
  by_cases identifier : setting.buffer.kind start = .identifier
  · exact named .identifier nofun identifier
  · refine FailsAt.bind (.behind reads_nextKind ?_)
    rw [if_neg first]
    exact (failsAt_staticPart string identifier).bind

theorem ParameterPieces.positional (value : ValuePieces pieces shape) :
    ParameterPieces pieces (.node "ParamAssoc" [.none, shape]) where
  block := value.block.mono (by decide) (by decide)
  reads := fun {setting start stop} stands follows => by
    have before := value.exprBefore stands follows
    have apart : ∀ kind ∈ Kind.diamond :: printedHeads, kind ≠ .kwOthers := by decide
    obtain ⟨tree, same, reads⟩ := value.parameter stands follows
    have unnamed := failsAt_parameterDesignator (before.mono (by simpa using follows))
      (apart _ (stands.kind_mem value.block))
    exact ⟨.of none tree, by rw [← same]; rfl,
      .call (.andThen (reads_attempt_none unnamed) (.andThen reads .yield))⟩
  noRange := fun {setting start stop} stands follows => by
    have apart : ∀ kind ∈ [Kind.comma, .closeParen], Kind.dotDot ≠ kind := by decide
    exact (value.exprBefore stands follows).noRange (by simpa using apart _ follows)

/-- A parameter behind a designator and an arrow. -/
theorem ParameterPieces.designated {last : List Kind} {designator : Shape}
    (block : Block (.kwOthers :: nameStarters) last pieces)
    (designates : ∀ {setting : Setting} {start stop : Nat}, setting.Stands pieces start stop →
      setting.buffer.kind stop = .arrow → setting.ExprBefore [.arrow] start ∧
        ∃ read, Designator.shape read = designator ∧
          Reads setting parameterDesignator start (.done read stop))
    (value : ValuePieces more shape) :
    ParameterPieces (pieces ++ Piece.spaced .arrow ++ more)
      (.node "ParamAssoc" [designator, shape]) where
  block := (block.spaced value.block (by decide)).mono (by decide) (by decide)
  reads := fun {setting start stop} stands follows => by
    obtain ⟨middle, front, arrow, behind⟩ := stands.spaced
    obtain ⟨_, read, sameRead, reads⟩ := designates front arrow
    obtain ⟨tree, same, readsValue⟩ := value.parameter behind follows
    exact ⟨.of (some read) tree, by rw [← sameRead, ← same]; rfl,
      .call (.andThen (.attempt (.andThen reads (.andThen (reads_take arrow (by decide)) .yield)))
        (.andThen readsValue .yield))⟩
  noRange := fun stands _ => by
    obtain ⟨middle, front, arrow, behind⟩ := stands.spaced
    exact (designates front arrow).1.noRange (by decide)

theorem ParameterPieces.named {ident : Ident} (plain : ident.form ≠ .enumeration)
    (proper : TokenText (if ident.form = .operatorSymbol then .string else .identifier)
      ident.token.text.toList) (value : ValuePieces more shape) :
    ParameterPieces ([ident.piece] ++ Piece.spaced .arrow ++ more)
      (.node "ParamAssoc" [ident.shape, shape]) := by
  have block := (DirectPieces.ident plain proper).block
  refine .designated (block.mono (List.subset_cons_self _ _) (List.Subset.refl _)) ?_ value
  rintro setting start stop ⟨found, same, ends⟩ arrow
  cases ends
  have whole := reads_expression_of_direct (reads_directName_ident plain found) arrow
  have others : setting.buffer.kind start ≠ .kwOthers := by
    rw [found]
    split <;> decide
  have reads : Reads setting parameterDesignator start
      (.done (.name ⟨ident.form, setting.buffer.token start⟩) (start + 1)) := by
    refine .andThen reads_nextKind ?_
    rw [if_neg others]
    exact .andThen (reads_staticPart plain found) .yield
  exact ⟨.inr ⟨_, _, whole, by simp [arrow]⟩, _,
    by rw [Designator.shape, Ident.shape, Ident.shape, same], reads⟩

theorem ParameterPieces.others (value : ValuePieces more shape) :
    ParameterPieces ([.word .kwOthers] ++ Piece.spaced .arrow ++ more)
      (.node "ParamAssoc" [.text "OthersDesignator", shape]) := by
  refine .designated ((Block.word (by decide)).mono (by decide) (List.Subset.refl _)) ?_ value
  rintro setting start stop ⟨found, _, ends⟩ arrow
  cases ends
  have reads : Reads setting parameterDesignator start
      (.done (.others (setting.buffer.token start).span) (start + 1)) := by
    refine .andThen reads_nextKind ?_
    rw [if_pos found]
    exact .andThen (reads_take found (by decide)) .yield
  exact ⟨.inl (by rw [found]; decide), _, rfl, reads⟩

/-! ### Suffixes -/

theorem Association.listPieces_eq (parts : List Association) :
    Association.listPieces parts = Piece.listed [.word .comma, .space] Association.pieces parts := by
  induction parts with
  | nil => rfl
  | cons part rest ih => cases rest <;> simp_all [listPieces, Piece.listed]

theorem Association.shapes_eq (head : String) (parts : List Association) :
    Association.shapes head parts = parts.map (Association.shape head) := by
  induction parts <;> simp_all [shapes]

/-- Where a list stands, its first item stands in front of a separator or of what follows it. -/
theorem Setting.Stands.first {setting : Setting} {start stop : Nat} {β : Type}
    {separator : List Piece} {kind : Kind} {piecesOf : β → List Piece} {item : β} {rest : List β}
    (separates : Separates kind separator)
    (stands : setting.Stands (Piece.listed separator piecesOf (item :: rest)) start stop) :
    ∃ middle, setting.Stands (piecesOf item) start middle ∧
      (rest = [] ∧ middle = stop ∨ setting.buffer.kind middle = kind) := by
  cases rest with
  | nil => exact ⟨stop, stands, .inl ⟨rfl, rfl⟩⟩
  | cons next rest =>
      obtain ⟨middle, first, found, _⟩ := separates.stands stands
      exact ⟨middle, first, .inr found⟩

theorem SuffixPieces.parameters {parts : List Association} (some_ : parts ≠ [])
    (each : ∀ part ∈ parts, ParameterPieces part.pieces (part.shape "ParamAssoc")) :
    SuffixPieces (Association.listPieces parts)
      (.list "ParamList" (Association.shapes "ParamAssoc" parts)) where
  block := by
    rw [Association.listPieces_eq]
    exact block_listed separates_comma some_ fun part member => (each part member).block
  reads := fun {setting start stop} stands follows => by
    rw [Association.listPieces_eq] at stands
    obtain ⟨read, same, reads⟩ := (ReadBack.list separates_comma (by decide) some_
      (fun part member => (each part member).toReadBack) (by decide)).reads stands follows
    have noRange : (expr .discreteRange).FailsAt setting start := by
      obtain ⟨part, rest, rfl⟩ := List.exists_cons_of_ne_nil some_
      obtain ⟨middle, first, ⟨_, rfl⟩ | comma⟩ := stands.first separates_comma
      · exact (each part List.mem_cons_self).noRange first (List.mem_cons_of_mem _ follows)
      · exact (each part List.mem_cons_self).noRange first (by simp [comma])
    exact ⟨.parameters read (associationsSpan read),
      by rw [CallSuffix.shape, Association.shapes_eq, same, Association.shapes_eq],
      .call (.andThen (reads_attempt_none noRange) (.andThen reads .yield))⟩

theorem SuffixPieces.slice (range : RangePieces pieces shape) : SuffixPieces pieces shape where
  block := range.block.mono (by decide) (by decide)
  reads := fun stands follows => by
    have less : [Kind.closeParen] ⊆ .pipe :: printedFollow := by decide
    obtain ⟨tree, same, reads⟩ := range.reads stands (less follows)
    exact ⟨.range tree, same, .call (.andThen (.attempt reads) .yield)⟩

end

end AdaExpressions
