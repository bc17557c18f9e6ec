import AdaExpressions.Proofs.Casing.Lexemes
import AdaExpressions.Proofs.FinalErrors
import AdaExpressions.Proofs.Name.Designation
import AdaExpressions.Proofs.Relabelling.Run
import AdaExpressions.Proofs.Relabelling.Shape

/-!
# Sources that differ in the case of letters

Two sources that differ only in the case of ASCII letters are tokenized at the same places into
tokens of the same kinds, and with small letters their tokens are the same. So they are read alike
and fail at the same place. The shapes of the two trees differ only in the case of letters, and a
name designates the same scope in both.

Results: `tokenize_upToCase`, `Expr.designated?_lowering`, `source_upToCase`.
-/

namespace AdaExpressions

open Text (small smallText)

/-- Gives every token small letters and leaves it in its place. -/
def Relabelling.lowering : Relabelling :=
  ⟨smallText, id, rfl⟩

/-! ### Tokens -/

theorem byteLength_lowered (lexemes : List Lexeme) :
    byteLength ((lexemes.map Lexeme.lowered).flatMap Lexeme.text) =
      byteLength (lexemes.flatMap Lexeme.text) := by
  induction lexemes with
  | nil => rfl
  | cons lexeme more ih =>
      simp only [List.map_cons, List.flatMap_cons, byteLength_append, ih]
      exact congrArg (· + _) (Text.byteLength_small lexeme.text)

theorem placeLexemes_lowered (file : String) (offset : Nat) (lexemes : List Lexeme) :
    (placeLexemes file offset (lexemes.map Lexeme.lowered)).map Relabelling.lowering.token =
      (placeLexemes file offset lexemes).map Relabelling.lowering.token := by
  induction lexemes generalizing offset with
  | nil => rfl
  | cons lexeme more ih =>
      obtain ⟨kind, text⟩ := lexeme
      have texts : smallText (String.ofList (small text)) = smallText (String.ofList text) := by
        simp [smallText]
      cases kind with
      | none =>
          simp only [List.map_cons, placeLexemes, Lexeme.lowered, Text.byteLength_small]
          exact ih _
      | some kind =>
          simp only [List.map_cons, placeLexemes, Lexeme.lowered, Text.byteLength_small, ih]
          exact congrArg (fun text => (⟨kind, text, _⟩ : Token) :: _) texts

/-- Both have tokens, which are the same with small letters, or both fail at the same place. -/
inductive TokensUpToCase : Except Error (List Token) → Except Error (List Token) → Prop
  | ok {tokens others : List Token} :
      tokens.map Relabelling.lowering.token = others.map Relabelling.lowering.token →
      TokensUpToCase (.ok tokens) (.ok others)
  | error {error other : Error} :
      error.cause.name = other.cause.name → error.position = other.position →
      TokensUpToCase (.error error) (.error other)

theorem tokenize_upToCase {first second : String} (same : smallText first = smallText second)
    (file : String) : TokensUpToCase (tokenize first file) (tokenize second file) := by
  have lists : small first.toList = small second.toList := by
    rw [← Text.toList_smallText, same, Text.toList_smallText]
  have divided := Lexeme.divide_small none first.toList
  rw [lists, Lexeme.divide_small] at divided
  unfold tokenize
  revert divided
  generalize Lexeme.divide none first.toList = one, Lexeme.divide none second.toList = two
  obtain ⟨lexemes, stuck⟩ := one
  obtain ⟨others, rest⟩ := two
  intro divided
  obtain ⟨lowered, ends⟩ := Prod.mk.inj divided
  match stuck, rest with
  | [], [] =>
      refine .ok ?_
      rw [← placeLexemes_lowered, ← lowered, placeLexemes_lowered]
  | [], _ :: _ => cases ends
  | _ :: _, [] => cases ends
  | _ :: _, _ :: _ =>
      have place : byteLength (lexemes.flatMap Lexeme.text) =
          byteLength (others.flatMap Lexeme.text) := by
        rw [← byteLength_lowered, ← lowered, byteLength_lowered]
      exact .error rfl (congrArg (Position.ofBytes · file) place)

/-! ### Names -/

theorem Token.lowercase_symbol_lowering (token : Token) :
    Text.lowercase (Relabelling.lowering.token token).symbol = Text.lowercase token.symbol := by
  unfold symbol
  show Text.lowercase (if token.kind = .identifier then Text.lowercase (smallText token.text)
    else smallText token.text) = _
  split
  next => rw [Text.lowercase_smallText]
  next => rw [Text.lowercase_smallText]

theorem Name.components_relabel (relabelling : Relabelling) (name : Name) :
    (name.relabel relabelling).components =
      name.components.map (Ident.relabel relabelling) := by
  induction name with
  | simple ident => rfl
  | selected base selector span ih => simp [relabel, components, ih]

/-- Names are looked up in lower case. -/
theorem EnvTable.follow?_lowering (table : EnvTable) (env : EnvId) (idents : List Ident) :
    table.follow? env (idents.map (Ident.relabel .lowering)) = table.follow? env idents := by
  have opens (env : EnvId) (ident : Ident) :
      table.opens? env (ident.relabel .lowering) = table.opens? env ident := by
    have key : Text.lowercase (ident.relabel .lowering).token.symbol =
        Text.lowercase ident.token.symbol := ident.token.lowercase_symbol_lowering
    rw [opens?, opens?, lookup?, lookup?, key]
  have leads (reached : Option EnvId) (ident : Ident) :
      table.leads? reached (ident.relabel .lowering) = table.leads? reached ident := by
    cases reached with
    | none => rfl
    | some env => exact opens env ident
  rw [follow?, follow?, List.foldlM_map]
  simp only [leads]

/-- What the name designates before anything else is asked about it. -/
def Name.designated? (table : EnvTable) (env : EnvId) (name : Name) : Option (Option EnvId) :=
  ((ResolvedName.fresh name).designate? table env).map Prod.fst

theorem Name.designated?_eq (table : EnvTable) (env : EnvId) (name : Name) :
    name.designated? table env = table.follow? env name.components := by
  have faithful : (ResolvedName.fresh name).Faithful table env := ResolvedName.faithful_fresh name
  have gives := faithful.designate?
  rw [ResolvedName.components_fresh] at gives
  unfold designated?
  generalize (ResolvedName.fresh name).designate? table env = asked at gives
  generalize table.follow? env name.components = due at gives
  cases gives with
  | nothing => rfl
  | replied => rfl

theorem Name.designated?_lowering (table : EnvTable) (name : Name) (env : EnvId) :
    (name.relabel .lowering).designated? table env = name.designated? table env := by
  rw [designated?_eq, designated?_eq, components_relabel, EnvTable.follow?_lowering]

/-- What a tree that is a name designates before anything else is asked about it. -/
def Expr.designated? (table : EnvTable) (env : EnvId) (expr : Expr) :
    Option (Option (Option EnvId)) :=
  expr.asName?.map (Name.designated? table env)

theorem Expr.designated?_lowering (table : EnvTable) (env : EnvId) (expr : Expr) :
    (expr.relabel .lowering).designated? table env = expr.designated? table env := by
  cases expr with
  | name path => exact congrArg some (Name.designated?_lowering table path env)
  | _ => rfl

/-! ### Trees and errors -/

/-- The shape written out does not tell the small letters of tokens from the capital ones. -/
def Shape.lowering : TextMap :=
  ⟨smallText, Text.smallText_append, by decide⟩

theorem Expr.shapeText_lowering (expr : Expr) :
    smallText (expr.relabel .lowering).shapeText = smallText expr.shapeText := by
  have texts (text : String) : Shape.lowering.map (Relabelling.lowering.text text) =
      Shape.lowering.map text := Text.smallText_smallText text
  have same := expr.shapeText_relabel Shape.lowering texts
  exact same

/-- Both are accepted, with dumps that differ only in the case of letters and names that designate
the same, or both are rejected for the same cause at the same place. -/
inductive Verdict.UpToCase : Verdict Expr → Verdict Expr → Prop
  | accepted {first second : Expr} :
      smallText first.shapeText = smallText second.shapeText →
      (∀ table env, first.designated? table env = second.designated? table env) →
      UpToCase (.accepted first) (.accepted second)
  | rejected {first second : Error} :
      first.cause.name = second.cause.name → first.position = second.position →
      UpToCase (.rejected first) (.rejected second)

/-- Verdicts that are the same with small letters differ only in the case of letters. -/
theorem Verdict.upToCase_of_lowering {first second : Verdict Expr} (decided : first ≠ .undecided)
    (same : first.relabel .lowering (Expr.relabel .lowering) =
      second.relabel .lowering (Expr.relabel .lowering)) : first.UpToCase second := by
  cases first with
  | accepted first =>
      cases second with
      | accepted second =>
          have trees : first.relabel .lowering = second.relabel .lowering :=
            Verdict.accepted.inj same
          refine .accepted ?_ fun table env => ?_
          · rw [← first.shapeText_lowering, trees, second.shapeText_lowering]
          · rw [← first.designated?_lowering, trees, second.designated?_lowering]
      | rejected => cases same
      | undecided => cases same
  | rejected first =>
      cases second with
      | accepted => cases same
      | rejected second =>
          have errors : first.relabel .lowering = second.relabel .lowering :=
            Verdict.rejected.inj same
          obtain ⟨cause, position⟩ := Error.mk.inj errors
          refine .rejected ?_ position
          rw [← first.cause.name_relabel, cause, second.cause.name_relabel]
      | undecided => cases same
  | undecided => exact absurd rfl decided

/-- Sources that differ only in the case of ASCII letters have the same tokens up to case, and are
read alike. -/
theorem source_upToCase {first second : String} (same : smallText first = smallText second)
    (file : String) :
    TokensUpToCase (tokenize first file) (tokenize second file) ∧
      ∀ tokens others, tokenize first file = .ok tokens → tokenize second file = .ok others →
        ∀ name options, (parse tokens name options).UpToCase (parse others name options) := by
  have alike := tokenize_upToCase same file
  refine ⟨alike, fun tokens others found again name options => ?_⟩
  rw [found, again] at alike
  obtain ⟨lowered⟩ := alike
  obtain ⟨buffer, rfl⟩ := Buffer.exists_toList_of_tokenize found
  obtain ⟨other, rfl⟩ := Buffer.exists_toList_of_tokenize again
  have keeps : Relabelling.lowering.KeepsOffsets := fun _ => rfl
  have verdict := parse_relabel keeps buffer name options
  rw [lowered, parse_relabel keeps other name options] at verdict
  have agrees := State.start_agrees (Parser.ofTokens buffer.toList name options).setting
  exact Verdict.upToCase_of_lowering (Setting.wholeExpression_ne_undecided agrees) verdict.symm

/-- A name in two spellings. -/
theorem source_upToCase_name :
    let tokens : List Token := [⟨.identifier, "Ada", .ofBytes 0 3 "shell"⟩,
      ⟨.dot, ".", .ofBytes 3 1 "shell"⟩, ⟨.identifier, "Text_IO", .ofBytes 4 7 "shell"⟩,
      .eof (.ofBytes 11 "shell")]
    let others : List Token := [⟨.identifier, "ADA", .ofBytes 0 3 "shell"⟩,
      ⟨.dot, ".", .ofBytes 3 1 "shell"⟩, ⟨.identifier, "text_io", .ofBytes 4 7 "shell"⟩,
      .eof (.ofBytes 11 "shell")]
    smallText "Ada.Text_IO" = smallText "ADA.text_io" ∧
      tokenize "Ada.Text_IO" "shell" = .ok tokens ∧ tokenize "ADA.text_io" "shell" = .ok others ∧
      (parse tokens "shell" .strict).UpToCase (parse others "shell" .strict) := by
  intro tokens others
  have same : smallText "Ada.Text_IO" = smallText "ADA.text_io" := by decide
  have tokenized : tokenize "Ada.Text_IO" "shell" = .ok tokens := by decide +kernel
  have again : tokenize "ADA.text_io" "shell" = .ok others := by decide +kernel
  exact ⟨same, tokenized, again,
    (source_upToCase same "shell").2 tokens others tokenized again "shell" .strict⟩

end AdaExpressions
