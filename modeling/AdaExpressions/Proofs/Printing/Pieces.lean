import Mathlib.Data.List.Chain
import AdaExpressions.Expr.Printer
import AdaExpressions.Proofs.Token.TokenText

/-!
# Pieces read back

What is printed is a list of pieces. If neighbours keep apart and every apostrophe is read as what it
was written for, the text of the pieces is tokenized into the tokens among them
(`Piece.tokenize_source`). For one piece this says which texts are tokens (`Kind.covers_iff`).
-/

namespace AdaExpressions

open Lexeme (Ends TokenText goesOn ticksAfter divide)

theorem Lexeme.TokenText.exists_cons {kind : Kind} {text : List Char} (text_ : TokenText kind text) :
    ∃ first part, text = first :: part := by
  cases text_ with
  | word | number | string | character => exact ⟨_, _, rfl⟩
  | delimiter known =>
      have some_ : ∀ kind ∈ Kind.delimiters, kind.spelling.toList ≠ [] := by decide
      exact List.exists_cons_of_ne_nil (some_ kind known)

namespace Piece

/-- The lexeme that a piece is written for. -/
def lexeme : Piece → Lexeme
  | .token kind text => ⟨some kind, text.toList⟩
  | .space => ⟨none, [' ']⟩

/-- The pieces one after another. -/
def source (pieces : List Piece) : List Char :=
  pieces.flatMap fun piece => piece.text.toList

def Proper : Piece → Prop
  | .token kind text => TokenText kind text.toList
  | .space => True

/-- The first piece does not go on with the start of the second. -/
def Apart : Piece → Piece → Prop
  | .space, other => other ≠ .space
  | .token kind _, other => Ends (goesOn kind) other.text.toList

/-- Every apostrophe is read as what it is written for, a tick or a part of a character literal.
`last` is the kind of the token before the pieces. -/
def Faithful (last : Option Kind) : List Piece → Prop
  | [] => True
  | .space :: more => Faithful last more
  | .token kind _ :: more =>
      (kind = .char → ticksAfter last = false) ∧
      (kind = .tick → ticksAfter last = true ∨ Lexeme.character '\x27' (source more) = none) ∧
      Faithful (some kind) more

instance decidableFaithful (last : Option Kind) :
    (pieces : List Piece) → Decidable (Faithful last pieces)
  | [] => isTrue trivial
  | .space :: more => decidableFaithful last more
  | .token kind _ :: more =>
      have := decidableFaithful (some kind) more
      inferInstanceAs (Decidable ((kind = .char → _) ∧ (kind = .tick → _) ∧ Faithful _ more))

theorem Proper.exists_cons {piece : Piece} (proper : piece.Proper) :
    ∃ first part, piece.text.toList = first :: part := by
  cases piece with
  | token kind text => exact Lexeme.TokenText.exists_cons proper
  | space => exact ⟨' ', [], by decide⟩

theorem ends_source {p : Char → Bool} {pieces : List Piece}
    (proper : ∀ piece ∈ pieces, piece.Proper)
    (ends : ∀ piece ∈ pieces.head?, Ends p piece.text.toList) : Ends p (source pieces) := by
  cases pieces with
  | nil => simp [Ends, source]
  | cons piece more =>
      obtain ⟨first, part, text⟩ := (proper piece List.mem_cons_self).exists_cons
      have here := ends piece rfl
      rw [text] at here
      simpa [source, text] using here

theorem isBlank_of_tokenText {kind : Kind} {first : Char} {part : List Char}
    (text : TokenText kind (first :: part)) : Text.isBlank first = false := by
  generalize whole : first :: part = word at text
  cases text with
  | word alpha => cases whole; exact Lexeme.isBlank_of_isAlpha alpha
  | number found =>
      cases whole
      unfold Lexeme.number at found
      split at found
      next digit => exact Lexeme.isBlank_of_isDigit digit
      next => cases found
  | string => cases whole; decide
  | character => cases whole; decide
  | delimiter known =>
      have visible : ∀ kind ∈ Kind.delimiters,
          kind.spelling.toList.head?.all (! Text.isBlank ·) = true := by decide +kernel
      have here := visible kind known
      rw [← whole] at here
      simpa using here

/-- Pieces that keep apart are read as the lexemes they are written for. -/
theorem divide_source {pieces : List Piece} {last : Option Kind}
    (proper : ∀ piece ∈ pieces, piece.Proper) (apart : pieces.IsChain Apart)
    (faithful : Faithful last pieces) :
    divide last (source pieces) = (pieces.map lexeme, []) := by
  -- The kind of the last token decides how an apostrophe is read, so it varies in the induction.
  induction pieces generalizing last with
  | nil => rw [source, List.flatMap_nil, divide]; rfl
  | cons piece more ih =>
      have properMore : ∀ piece ∈ more, piece.Proper := fun piece member =>
        proper piece (List.mem_cons_of_mem _ member)
      obtain ⟨next, chain⟩ := List.isChain_cons.mp apart
      have here := proper piece List.mem_cons_self
      cases piece with
      | space =>
          have ends : Ends Text.isBlank (source more) := by
            refine ends_source properMore fun piece first => ?_
            have token := next piece first
            cases piece with
            | space => exact absurd rfl token
            | token kind text =>
                have text_ : TokenText kind text.toList :=
                  properMore _ (List.mem_of_mem_head? first)
                obtain ⟨c, part, divided⟩ := text_.exists_cons
                rw [divided] at text_
                change Ends Text.isBlank text.toList
                rw [divided]
                exact Lexeme.ends_cons.mpr (isBlank_of_tokenText text_)
          have divided : divide last ([' '] ++ source more) = _ := Lexeme.divide_spaces 0 ends
          rw [ih properMore chain faithful] at divided
          exact divided
      | token kind text =>
          obtain ⟨literal, tick, faithful⟩ := faithful
          have text_ : TokenText kind text.toList := here
          obtain ⟨first, part, spelt⟩ := text_.exists_cons
          have ends : Ends (goesOn kind) (source more) := ends_source properMore next
          rw [spelt] at text_
          have divided := Lexeme.divide_token text_ ends literal tick
          rw [ih properMore chain faithful] at divided
          rw [List.map_cons, lexeme, spelt, ← divided, ← spelt]
          rfl

/-- The kind and the text of the token that a piece is. -/
def token? : Piece → Option (Kind × String)
  | .token kind text => some (kind, text)
  | .space => none

/-- The kinds and texts of the tokens among the pieces. -/
def tokens (pieces : List Piece) : List (Kind × String) :=
  pieces.filterMap token?

theorem placeLexemes_lexeme (pieces : List Piece) (file : String) (offset : Nat) :
    ∃ placed closing, placeLexemes file offset (pieces.map lexeme) = placed ++ [closing] ∧
      closing.kind = .eof ∧ placed.map (fun token => (token.kind, token.text)) = tokens pieces := by
  induction pieces generalizing offset with
  | nil => exact ⟨[], _, rfl, rfl, rfl⟩
  | cons piece more ih =>
      obtain ⟨placed, closing, same, closed, texts⟩ := ih (offset + byteLength piece.lexeme.text)
      cases piece with
      | space => exact ⟨placed, closing, same, closed, texts⟩
      | token kind text =>
          let span : Span := .ofBytes offset (byteLength text.toList) file
          refine ⟨⟨kind, String.ofList text.toList, span⟩ :: placed, closing, ?_, closed, ?_⟩
          · exact congrArg (_ :: ·) same
          · rw [List.map_cons, texts, String.ofList_toList]
            rfl

/-- Pieces that keep apart are tokenized into the tokens among them. -/
theorem tokenize_source {pieces : List Piece} {source : String}
    (proper : ∀ piece ∈ pieces, piece.Proper) (apart : pieces.IsChain Apart)
    (faithful : Faithful none pieces) (written : source.toList = Piece.source pieces)
    (file : String) :
    ∃ placed closing, tokenize source file = .ok (placed ++ [closing]) ∧
      closing.kind = .eof ∧ placed.map (fun token => (token.kind, token.text)) = tokens pieces := by
  obtain ⟨placed, closing, same, closed, texts⟩ := placeLexemes_lexeme pieces file 0
  refine ⟨placed, closing, ?_, closed, texts⟩
  rw [tokenize, written, divide_source proper apart faithful, ← same]

end Piece

/-- The text is tokenized as one token of the kind, which is all of it. -/
def Kind.Covers (kind : Kind) (text : String) : Prop :=
  ∃ file span closing, tokenize text file = .ok [⟨kind, text, span⟩, closing]

/-- The texts that a token of a kind can have are those that are tokenized as one. -/
theorem Kind.covers_iff {kind : Kind} {text : String} :
    kind.Covers text ↔ TokenText kind text.toList := by
  constructor
  · rintro ⟨file, span, closing, tokenized⟩
    obtain ⟨placed, last, same, _, each⟩ := Lexeme.tokenText_of_tokenize tokenized
    have whole : [⟨kind, text, span⟩] ++ [closing] = placed ++ [last] := same
    obtain ⟨rfl, _⟩ := List.append_inj' whole rfl
    exact each _ List.mem_cons_self
  · intro proper
    have whole : Piece.source [.token kind text] = text.toList := List.append_nil _
    have literal : kind = .char → ticksAfter none = false := fun _ => rfl
    have tick : kind = .tick →
        ticksAfter none = true ∨ Lexeme.character '\x27' (Piece.source []) = none := fun _ => .inr rfl
    have faithful : Piece.Faithful none [.token kind text] := ⟨literal, tick, trivial⟩
    have piece : (Piece.token kind text).Proper := proper
    obtain ⟨placed, closing, tokenized, _, same⟩ := Piece.tokenize_source
      (List.forall_mem_singleton.mpr piece) (.singleton _) faithful whole.symm ""
    obtain ⟨token, rest, rfl, found, none_⟩ := List.map_eq_cons_iff.mp same
    cases found
    cases List.map_eq_nil_iff.mp none_
    exact ⟨"", token.span, closing, tokenized⟩

theorem Expr.toList_sourceText (expr : Expr) :
    expr.sourceText.toList = Piece.source expr.pieces := by
  simp [Expr.sourceText, Piece.source, String.toList_join, List.flatMap_map]

end AdaExpressions
