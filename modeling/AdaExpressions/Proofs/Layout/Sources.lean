import AdaExpressions.Proofs.Casing.Sources
import AdaExpressions.Proofs.Grammar.Soundness
import AdaExpressions.Proofs.Layout.Spread
import AdaExpressions.Proofs.Reading.Verdict

/-!
# Sources that differ in blanks

Blanks between the lexemes of an accepted source change neither the kinds and texts of its tokens
nor the shape of its tree. For the lexemes alone that is not so: a blank that is put between two
apostrophes makes a character literal of them. Behind a tick no phrase has a token that starts with
an apostrophe, so an accepted source has no such place.

Results: `parse_sameContents`, `source_spread`.
-/

namespace AdaExpressions

open Lexeme (divide words)

/-! ### Tokens -/

/-- What a token is without its place. -/
def Token.content (token : Token) : Kind × String :=
  (token.kind, token.text)

theorem placeLexemes_content (file : String) (offset : Nat) (lexemes : List Lexeme) :
    (placeLexemes file offset lexemes).map Token.content =
      (words lexemes).map (fun word => (word.1, String.ofList word.2)) ++ [(.eof, "EOF")] := by
  induction lexemes generalizing offset with
  | nil => rfl
  | cons lexeme more ih =>
      obtain ⟨kind, text⟩ := lexeme
      cases kind with
      | none => exact ih _
      | some kind => exact congrArg (_ :: ·) (ih _)

/-- The tokens of lexemes are those of their words, and the closing one. -/
theorem readable_kinds {last : Option Kind} {text : List Char} {lexemes : List Lexeme}
    (divided : divide last text = (lexemes, [])) (file : String) (offset : Nat) :
    (readable (placeLexemes file offset lexemes)).map Token.kind =
      (words lexemes).map Prod.fst := by
  have open_ : ∀ kind ∈ (words lexemes).map Prod.fst, (kind != .eof) = true := by
    intro kind member
    obtain ⟨word, known, rfl⟩ := List.mem_map.mp member
    obtain ⟨lexeme, inside, found⟩ := List.mem_filterMap.mp known
    obtain ⟨kind, token, rfl⟩ := Option.map_eq_some_iff.mp found
    have text_ := Lexeme.tokenText_of_mem_divide (by rwa [divided]) token
    exact bne_iff_ne.mpr text_.kind_ne_eof
  have kinds : (placeLexemes file offset lexemes).map Token.kind =
      (words lexemes).map Prod.fst ++ [.eof] := by
    have contents := congrArg (List.map Prod.fst) (placeLexemes_content file offset lexemes)
    rw [List.map_map, List.map_append, List.map_map] at contents
    exact contents
  have cut : (readable (placeLexemes file offset lexemes)).map Token.kind =
      ((placeLexemes file offset lexemes).map Token.kind).takeWhile (· != .eof) := by
    rw [List.takeWhile_map]
    rfl
  rw [cut, kinds, List.takeWhile_append_of_pos open_]
  exact List.append_nil _

/-- A source that is spread out has the same tokens in other places. -/
theorem tokenize_spread {source text file : String} {tokens : List Token}
    (tokenized : tokenize source file = .ok tokens)
    (spread : Spread (divide none source.toList).1 text.toList)
    (leads : TicksLead (readable tokens)) (name : String) :
    ∃ others, tokenize text name = .ok others ∧
      others.map Token.content = tokens.map Token.content := by
  unfold tokenize at tokenized
  split at tokenized
  next lexemes divided =>
    cases tokenized
    rw [divided] at spread
    rw [TicksLead, readable_kinds divided] at leads
    obtain ⟨same, ended⟩ := Prod.mk.inj (Lexeme.read_spread divided spread leads)
    refine ⟨placeLexemes name 0 (divide none text.toList).1, ?_, ?_⟩
    · rw [tokenize]
      generalize divide none text.toList = result at ended
      obtain ⟨found, stuck⟩ := result
      cases ended
      rfl
    · rw [placeLexemes_content, placeLexemes_content, same]
  next => cases tokenized

/-! ### Trees -/

theorem Expr.shapeText_placeless (expr : Expr) :
    (expr.relabel .placeless).shapeText = expr.shapeText := by
  let texts : Shape.TextMap := ⟨id, fun _ _ => rfl, fun _ _ => rfl⟩
  exact expr.shapeText_relabel texts fun _ => rfl

theorem Buffer.toList_injective {buffer other : Buffer} (same : buffer.toList = other.toList) :
    buffer = other := by
  rw [← ofTokens_toList buffer "", same, ofTokens_toList]

theorem Buffer.relabel_placeless_eq {buffer other : Buffer}
    (same : other.toList.map Token.content = buffer.toList.map Token.content) :
    other.relabel .placeless = buffer.relabel .placeless := by
  have each (tokens : List Token) : tokens.map Relabelling.placeless.token =
      (tokens.map Token.content).map fun content => ⟨content.1, content.2, default⟩ := by
    rw [List.map_map]
    rfl
  refine toList_injective ?_
  rw [toList_relabel, toList_relabel, each, each, same]

/-- Token lists with the same contents are accepted with trees of the same shape. -/
theorem parse_sameContents {buffer other : Buffer} {file : String} {options : Options}
    {expr : Expr} (accepted : parse buffer.toList file options = .accepted expr)
    (same : other.toList.map Token.content = buffer.toList.map Token.content) (name : String) :
    ∃ again, parse other.toList name options = .accepted again ∧
      again.shapeText = expr.shapeText := by
  have placeless := Buffer.relabel_placeless_eq same
  obtain ⟨first, reads, settled⟩ := parse_toList_ends buffer file options
  obtain ⟨reading, reads', ends⟩ := parse_toList_ends other name options
  rw [accepted] at settled
  obtain @⟨_, stop, closed⟩ := settled
  have one : Reads ((⟨buffer, options, true⟩ : Setting).relabel .placeless)
      (.call (.expr .expression)) 0 (.done (expr.relabel .placeless) stop) := reads.relabel
  have two : Reads ((⟨other, options, true⟩ : Setting).relabel .placeless)
      (.call (.expr .expression)) 0 (reading.relabel .placeless (Expr.relabel .placeless)) :=
    reads'.relabel
  have settings : (⟨other, options, true⟩ : Setting).relabel .placeless =
      (⟨buffer, options, true⟩ : Setting).relabel .placeless :=
    congrArg (fun buffer => Setting.mk buffer options true) placeless
  rw [settings] at two
  have alike := one.unique two
  generalize parse other.toList name options = verdict at ends ⊢
  cases ends with
  | accepted =>
      obtain ⟨trees, -⟩ := Reading.done.inj alike
      refine ⟨_, rfl, ?_⟩
      rw [← Expr.shapeText_placeless, ← trees, Expr.shapeText_placeless]
  | leftOver more =>
      obtain ⟨-, rfl⟩ := Reading.done.inj alike
      have kinds := congrArg (Buffer.kind · stop) placeless
      simp only [Buffer.kind_relabel] at kinds
      exact absurd (kinds.trans closed) more
  | fatal => cases alike
  | failed => cases alike

/-- Blanks between the lexemes of an accepted source leave the kinds and texts of its tokens and the
shape of its tree as they are. -/
theorem source_spread {source text file name : String} {tokens : List Token} {options : Options}
    {expr : Expr} (tokenized : tokenize source file = .ok tokens)
    (accepted : parse tokens name options = .accepted expr)
    (spread : Spread (divide none source.toList).1 text.toList) :
    ∃ others again, tokenize text file = .ok others ∧
      others.map Token.content = tokens.map Token.content ∧
      parse others name options = .accepted again ∧ again.shapeText = expr.shapeText := by
  have leads : TicksLead (readable tokens) := by
    obtain ⟨stop, reads, closed⟩ := parse_accepted_iff.mp accepted
    have derives := (Rule.phrase_of_reads reads).2.2
    rw [Setting.slice_eq_readable reads closed] at derives
    have leads := Derives.ticksLead derives
    exact Buffer.readable_toList tokens name ▸ leads
  obtain ⟨others, tokenized', same⟩ := tokenize_spread tokenized spread leads file
  obtain ⟨buffer, rfl⟩ := Buffer.exists_toList_of_tokenize tokenized
  obtain ⟨other, rfl⟩ := Buffer.exists_toList_of_tokenize tokenized'
  obtain ⟨again, accepted', shape⟩ := parse_sameContents accepted same name
  exact ⟨other.toList, again, tokenized', same, accepted', shape⟩

/-- A qualified expression with blanks around its tick. -/
theorem source_spread_qualified :
    let source := "\x22&\x22'(1)"
    let text := " \x22&\x22\t' (1 )\n"
    let symbol : Token := ⟨.string, "\x22&\x22", .ofBytes 0 3 "shell"⟩
    let one : Token := ⟨.number, "1", .ofBytes 5 1 "shell"⟩
    let tokens : List Token := [symbol, ⟨.tick, "'", .ofBytes 3 1 "shell"⟩,
      ⟨.openParen, "(", .ofBytes 4 1 "shell"⟩, one, ⟨.closeParen, ")", .ofBytes 6 1 "shell"⟩,
      .eof (.ofBytes 7 "shell")]
    let expr : Expr := .qualified (.name (.simple ⟨.operatorSymbol, symbol⟩))
      (.literal .number one) (.ofBytes 0 7 "shell")
    tokenize source "shell" = .ok tokens ∧ parse tokens "shell" .strict = .accepted expr ∧
      Spread (divide none source.toList).1 text.toList ∧
      ∃ others again, tokenize text "shell" = .ok others ∧
        others.map Token.content = tokens.map Token.content ∧
        parse others "shell" .strict = .accepted again ∧ again.shapeText = expr.shapeText := by
  intro source text symbol one tokens expr
  have tokenized : tokenize source "shell" = .ok tokens := by decide +kernel
  have accepted : parse tokens "shell" .strict = .accepted expr := by cbv
  have spread : Spread (divide none source.toList).1 text.toList := by
    have lexemes : (divide none source.toList).1 = [⟨some .string, ['\x22', '&', '\x22']⟩,
        ⟨some .tick, ['\x27']⟩, ⟨some .openParen, ['(']⟩, ⟨some .number, ['1']⟩,
        ⟨some .closeParen, [')']⟩] := by decide +kernel
    have parts : text.toList = [' '] ++ (['\x22', '&', '\x22'] ++ (['\t'] ++ (['\x27'] ++
        ([' '] ++ (['('] ++ ([] ++ (['1'] ++ ([' '] ++ ([')'] ++ ['\n']))))))))) := by decide
    rw [lexemes, parts]
    have blank {c : Char} (holds : Text.isBlank c = true) : ∀ d ∈ [c], Text.isBlank d = true :=
      List.forall_mem_singleton.mpr holds
    have last : Spread [] ['\n'] := .nil (blank (by decide))
    exact .cons (blank (by decide)) (.cons (blank (by decide)) (.cons (blank (by decide))
      (.cons (List.forall_mem_nil _) (.cons (blank (by decide)) last))))
  exact ⟨tokenized, accepted, spread, source_spread tokenized accepted spread⟩

end AdaExpressions
