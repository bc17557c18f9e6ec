import AdaExpressions.Proofs.Printing.Pieces

/-!
# Blocks of pieces

A block is a list of pieces that starts and ends with a token and whose neighbours keep apart. It
shows the kinds that its first and its last token can have, which is all that is needed to tell
whether two blocks may stand right behind each other; a space keeps any two apart.

Results: `Block.append`, `Block.space`, `Block.parenthesized`.
-/

namespace AdaExpressions

open Lexeme (Ends TokenText goesOn)

/-- A token of the first kind can stand right before one of the second. -/
def Kind.fits (kind next : Kind) : Bool :=
  decide <| kind ∈ [openParen, plus, tick] ∨ next ∈ [closeParen, comma, tick] ∨
    (kind = .dash ∧ next ≠ .dash) ∨ (kind = .dot ∧ next ∉ [dot, dotDot]) ∨
    (next = .dot ∧ kind ∉ [number, dot])

namespace Lexeme.TokenText

theorem text_of_delimiter {kind : Kind} {text : List Char} (text_ : TokenText kind text)
    (known : kind ∈ Kind.delimiters) : text = kind.spelling.toList := by
  cases text_ with
  | @word first part =>
      have foreign : ∀ kind ∈ Kind.delimiters, kind ≠ .identifier ∧ kind.isReserved = false := by
        decide
      rcases Lexeme.ofWord_isWord (first :: part) with name | reserved
      · exact absurd name (foreign _ known).1
      · rw [(foreign _ known).2] at reserved
        cases reserved
  | number | string | character => exact absurd known (by decide)
  | delimiter => rfl

/-- What starts as no word, number, string or character literal does is a delimiter. -/
theorem delimiter_of_first {kind : Kind} {c : Char} {part : List Char}
    (text : TokenText kind (c :: part)) (alpha : c.isAlpha = false) (digit : c.isDigit = false)
    (quote : c ≠ '\x22') (apostrophe : c ≠ '\x27') :
    kind ∈ Kind.delimiters ∧ kind.spelling.toList.head? = some c := by
  generalize whole : c :: part = word at text
  cases text with
  | word is =>
      cases whole
      rw [alpha] at is
      cases is
  | number found =>
      cases whole
      simp [Lexeme.number, digit] at found
  | string => exact absurd (List.cons.inj whole).1 quote
  | character => exact absurd (List.cons.inj whole).1 apostrophe
  | delimiter known => exact ⟨known, by rw [← whole]; rfl⟩

end Lexeme.TokenText

namespace Piece

theorem apart_of_fits {kind next : Kind} {text more : String} (fits : kind.fits next = true)
    (proper : TokenText next more.toList) : Apart (.token kind text) (.token next more) := by
  intro c first
  have first : c ∈ more.toList.head? := first
  obtain ⟨part, start⟩ : ∃ part, TokenText next (c :: part) := by
    obtain ⟨d, part, divided⟩ := proper.exists_cons
    rw [divided] at proper first
    cases first
    exact ⟨part, proper⟩
  have spelt (known : next ∈ Kind.delimiters) : next.spelling.toList.head? = some c := by
    rwa [← proper.text_of_delimiter known]
  rcases of_decide_eq_true fits with before | behind | ⟨rfl, other⟩ | ⟨rfl, other⟩ | ⟨rfl, other⟩
  · simp only [List.mem_cons, List.not_mem_nil, or_false] at before
    rcases before with rfl | rfl | rfl <;> rfl
  · have ends : ∀ next ∈ [Kind.closeParen, .comma, .tick], next ∈ Kind.delimiters ∧
        ∀ kind ∈ Kind.every, next.spelling.toList.head?.all (goesOn kind · == false) = true := by
      decide +kernel
    obtain ⟨known, ends⟩ := ends next behind
    have here := ends kind (Kind.mem_every kind)
    rw [spelt known] at here
    simpa using here
  · have only : ∀ kind ∈ Kind.delimiters, kind.spelling.toList.head? = some '-' → kind = .dash := by
      decide +kernel
    refine beq_eq_false_iff_ne.mpr fun same => other ?_
    obtain ⟨known, head⟩ := (same ▸ start).delimiter_of_first rfl rfl (by decide) (by decide)
    exact only _ known head
  · have only : ∀ kind ∈ Kind.delimiters, kind.spelling.toList.head? = some '.' →
        kind ∈ [Kind.dot, .dotDot] := by
      decide +kernel
    refine beq_eq_false_iff_ne.mpr fun same => other ?_
    obtain ⟨known, head⟩ := (same ▸ start).delimiter_of_first rfl rfl (by decide) (by decide)
    exact only _ known head
  · have ends : ∀ kind ∈ Kind.every, kind ∉ [Kind.number, .dot] → goesOn kind '.' = false := by
      decide +kernel
    cases spelt (by decide)
    exact ends kind (Kind.mem_every kind) other

theorem apart_space (kind : Kind) (text : String) : Apart (.token kind text) .space := by
  intro c first
  cases first
  cases kind <;> decide

theorem proper_word {kind : Kind} (spelt : kind ∈ Kind.delimiters ++ Kind.reservedWords) :
    (Piece.word kind).Proper := by
  rcases List.mem_append.mp spelt with delimiter | reserved
  · exact .delimiter delimiter
  · exact Lexeme.tokenText_of_isReserved kind reserved

end Piece

/-- Pieces that are read as they stand, from a token of one of the first kinds to one of the last. -/
structure Block (first last : List Kind) (pieces : List Piece) : Prop where
  proper : ∀ piece ∈ pieces, piece.Proper
  apart : pieces.IsChain Piece.Apart
  head : ∃ kind text, pieces.head? = some (.token kind text) ∧ kind ∈ first
  last : ∃ kind text, pieces.getLast? = some (.token kind text) ∧ kind ∈ last

namespace Block

variable {first last first' last' : List Kind} {pieces more : List Piece}

theorem token {kind : Kind} {text : String} (proper : TokenText kind text.toList) :
    Block [kind] [kind] [.token kind text] where
  proper := fun piece member => by
    cases List.mem_singleton.mp member
    exact proper
  apart := .singleton _
  head := ⟨kind, text, rfl, List.mem_singleton_self kind⟩
  last := ⟨kind, text, rfl, List.mem_singleton_self kind⟩

theorem word {kind : Kind} (spelt : kind ∈ Kind.delimiters ++ Kind.reservedWords) :
    Block [kind] [kind] [.word kind] :=
  .token (Piece.proper_word spelt)

theorem mono (block : Block first last pieces) (wider : first ⊆ first') (wider' : last ⊆ last') :
    Block first' last' pieces := by
  obtain ⟨proper, apart, ⟨kind, text, here, known⟩, kind', text', there, known'⟩ := block
  exact ⟨proper, apart, ⟨kind, text, here, wider known⟩, kind', text', there, wider' known'⟩

/-- Blocks that keep apart by themselves stand right behind each other. -/
theorem append (block : Block first last pieces) (other : Block first' last' more)
    (fits : ∀ kind ∈ last, ∀ next ∈ first', kind.fits next = true) :
    Block first last' (pieces ++ more) := by
  obtain ⟨kind, text, here, known⟩ := block.last
  obtain ⟨next, text', there, known'⟩ := other.head
  have proper : TokenText next text'.toList := other.proper _ (List.mem_of_mem_head? there)
  refine ⟨?_, ?_, ?_, ?_⟩
  · exact fun piece member => (List.mem_append.mp member).elim (block.proper piece) (other.proper piece)
  · refine List.isChain_append.mpr ⟨block.apart, other.apart, fun piece last piece' first => ?_⟩
    cases here.symm.trans last
    cases there.symm.trans first
    exact Piece.apart_of_fits (fits kind known next known') proper
  · obtain ⟨kind, text, here, known⟩ := block.head
    exact ⟨kind, text, by rw [List.head?_append, here]; rfl, known⟩
  · obtain ⟨kind, text, here, known⟩ := other.last
    exact ⟨kind, text, by rw [List.getLast?_append, here]; rfl, known⟩

/-- A space keeps any two blocks apart. -/
theorem space (block : Block first last pieces) (other : Block first' last' more) :
    Block first last' (pieces ++ .space :: more) := by
  obtain ⟨kind, text, here, known⟩ := block.last
  obtain ⟨next, text', there, known'⟩ := other.head
  have behind : (Piece.space :: more).IsChain Piece.Apart := by
    refine List.isChain_cons.mpr ⟨fun piece first => ?_, other.apart⟩
    cases there.symm.trans first
    exact nofun
  refine ⟨?_, ?_, ?_, ?_⟩
  · refine fun piece member => (List.mem_append.mp member).elim (block.proper piece) fun member => ?_
    rcases List.mem_cons.mp member with rfl | member
    · trivial
    · exact other.proper piece member
  · refine List.isChain_append.mpr ⟨block.apart, behind, fun piece last piece' first => ?_⟩
    cases here.symm.trans last
    cases first
    exact Piece.apart_space kind text
  · obtain ⟨kind, text, here, known⟩ := block.head
    exact ⟨kind, text, by rw [List.head?_append, here]; rfl, known⟩
  · obtain ⟨kind, text, here, known⟩ := other.last
    refine ⟨kind, text, ?_, known⟩
    rw [List.getLast?_append_of_ne_nil _ (by simp), List.getLast?_cons, here]
    rfl

theorem spaced {kind : Kind} (block : Block first last pieces) (other : Block first' last' more)
    (spelt : kind ∈ Kind.delimiters ++ Kind.reservedWords) :
    Block first last' (pieces ++ Piece.spaced kind ++ more) := by
  rw [List.append_assoc]
  exact block.space ((word spelt).space other)

theorem parenthesized (block : Block first last pieces) :
    Block [.openParen] [.closeParen] (Piece.parenthesized pieces) := by
  have opening : Block [.openParen] [.openParen] [.word .openParen] := word (by decide)
  have inner := opening.append block fun kind member next _ => by
    rw [List.mem_singleton.mp member]
    simp [Kind.fits]
  have closing : Block [.closeParen] [.closeParen] [.word .closeParen] := word (by decide)
  exact inner.append closing fun kind _ next member => by
    rw [List.mem_singleton.mp member]
    simp [Kind.fits]

end Block

end AdaExpressions
