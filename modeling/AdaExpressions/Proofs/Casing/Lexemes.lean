import AdaExpressions.Proofs.Casing.Letters
import AdaExpressions.Proofs.Token.TokenText

/-!
# Lexemes and the case of letters

No pattern tells a small ASCII letter from the capital one, so a text in which the ASCII letters are
made small is divided at the same places, into lexemes of the same kinds and lengths.

Results: `Lexeme.next?_small`, `Lexeme.divide_small`.
-/

namespace AdaExpressions.Lexeme

open Text

/-! ### Characters -/

@[simp] theorem isAlpha_toLower (c : Char) : c.toLower.isAlpha = c.isAlpha :=
  caseless (by decide) c

@[simp] theorem isDigit_toLower (c : Char) : c.toLower.isDigit = c.isDigit :=
  caseless (by decide) c

@[simp] theorem isWordChar_toLower (c : Char) : isWordChar c.toLower = isWordChar c :=
  caseless (by decide) c

@[simp] theorem isDigitChar_toLower (c : Char) : isDigitChar c.toLower = isDigitChar c :=
  caseless (by decide) c

@[simp] theorem isHexChar_toLower (c : Char) : isHexChar c.toLower = isHexChar c :=
  caseless (by decide) c

/-! ### Patterns -/

theorem runLength_small {p : Char → Bool} (same : ∀ c, p c.toLower = p c) (text : List Char) :
    runLength p (small text) = runLength p text := by
  rw [runLength, small, List.takeWhile_map, List.length_map, runLength]
  exact congrArg (fun p => (text.takeWhile p).length) (funext same)

theorem comment_small (first : Char) (rest : List Char) :
    comment first.toLower (small rest) = comment first rest := by
  have newline (c : Char) : (c.toLower != '\n') = (c != '\n') :=
    congrArg (! ·) (decide_eq_decide.mpr (toLower_eq_iff (by decide) c))
  have hyphen (c : Char) : c.toLower = '-' ↔ c = '-' := toLower_eq_iff (by decide) c
  cases rest with
  | nil => rfl
  | cons second rest =>
      have line := runLength_small (p := (· != '\n')) newline rest
      simp only [comment, small_cons, hyphen, line]

theorem word_small (first : Char) (rest : List Char) :
    word first.toLower (small rest) = word first rest := by
  rw [word, isAlpha_toLower, runLength_small isWordChar_toLower, word]

theorem blanks_small (first : Char) (rest : List Char) :
    blanks first.toLower (small rest) = blanks first rest := by
  rw [blanks, isBlank_toLower, runLength_small isBlank_toLower, blanks]

theorem basedPart_small (text : List Char) : basedPart (small text) = basedPart text := by
  have sharp : '#'.toLower = '#' := by decide
  have point : '.'.toLower = '.' := by decide
  cases text with
  | nil => rfl
  | cons c rest =>
      by_cases opening : c = '#'
      · subst opening
        simp only [small_cons, sharp, basedPart, runLength_small isHexChar_toLower,
          small_drop]
        split
        next => rfl
        next =>
          cases rest.drop (runLength isHexChar rest) with
          | nil => rfl
          | cons mark tail =>
              by_cases closing : mark = '#'
              · subst closing
                rfl
              by_cases fraction : mark = '.'
              · subst fraction
                simp only [small_cons, point, runLength_small isHexChar_toLower,
                  small_drop]
                split
                next => rfl
                next =>
                  cases tail.drop (runLength isHexChar tail) with
                  | nil => rfl
                  | cons mark _ =>
                      by_cases closing : mark = '#'
                      · subst closing
                        rfl
                      · simp [closing, toLower_ne (by decide) closing]
              · simp [closing, fraction, toLower_ne (by decide) closing,
                  toLower_ne (by decide) fraction]
      · simp [basedPart, opening, toLower_ne (by decide) opening]

theorem fractionPart_small (text : List Char) : fractionPart (small text) = fractionPart text := by
  match text with
  | [] => rfl
  | [mark] => simp [fractionPart]
  | mark :: first :: rest =>
      by_cases point : mark = '.'
      · subst point
        have same : '.'.toLower = '.' := by decide
        simp only [small_cons, same, fractionPart, isDigit_toLower,
          runLength_small isDigitChar_toLower]
      · simp [fractionPart, point, toLower_ne (by decide) point]

theorem exponentPart_small (text : List Char) : exponentPart (small text) = exponentPart text := by
  cases text with
  | nil => rfl
  | cons mark rest =>
      have letter : (mark.toLower = 'e' ∨ mark.toLower = 'E') ↔ (mark = 'e' ∨ mark = 'E') :=
        decide_eq_decide.mp
          (caseless (f := fun mark => decide (mark = 'e' ∨ mark = 'E')) (by decide) mark)
      have digits (text : List Char) :
          runLength Char.isDigit (small text) = runLength Char.isDigit text :=
        runLength_small isDigit_toLower text
      match rest with
      | [] => simp only [small_cons, small_nil, exponentPart, letter]
      | c :: rest =>
          by_cases plus : c = '+'
          · subst plus
            have same : '+'.toLower = '+' := by decide
            simp only [small_cons, same, exponentPart, letter, List.drop_succ_cons,
              List.drop_zero, digits]
          by_cases minus : c = '-'
          · subst minus
            have same : '-'.toLower = '-' := by decide
            simp only [small_cons, same, exponentPart, letter, List.drop_succ_cons,
              List.drop_zero, digits]
          · have unsigned := digits (c :: rest)
            rw [small_cons] at unsigned
            simp [exponentPart, letter, plus, minus, toLower_ne (by decide) plus,
              toLower_ne (by decide) minus, unsigned]

theorem number_small (first : Char) (rest : List Char) :
    number first.toLower (small rest) = number first rest := by
  simp only [number, isDigit_toLower, runLength_small isDigitChar_toLower, small_drop,
    basedPart_small, fractionPart_small, exponentPart_small]

theorem closingQuote_small (text : List Char) : closingQuote (small text) = closingQuote text := by
  have quote : '\x22'.toLower = '\x22' := by decide
  have newline : '\n'.toLower = '\n' := by decide
  fun_induction closingQuote text with
  | case1 => rfl
  | case2 => rfl
  | case3 rest length found ih => rw [small_cons, small_cons, quote, closingQuote, ih, found]
  | case4 rest found ih => rw [small_cons, small_cons, quote, closingQuote, ih, found]
  | case5 rest alone =>
      cases rest with
      | nil => rfl
      | cons c rest =>
          have other : c ≠ '\x22' := fun same => alone rest (by rw [same])
          rw [small_cons, small_cons, quote]
          simp [closingQuote, toLower_ne (by decide) other]
  | case6 c rest line pair other ih =>
      rw [small_cons, closingQuote, ih]
      · exact toLower_ne (by decide) line
      · exact fun _ same => absurd same (toLower_ne (by decide) other)
      · exact toLower_ne (by decide) other

theorem string_small (first : Char) (rest : List Char) :
    string first.toLower (small rest) = string first rest := by
  have quote : first.toLower = '\x22' ↔ first = '\x22' := toLower_eq_iff (by decide) first
  simp only [string, quote, closingQuote_small]

theorem character_small (first : Char) (rest : List Char) :
    character first.toLower (small rest) = character first rest := by
  have quote (c : Char) : c.toLower = '\x27' ↔ c = '\x27' := toLower_eq_iff (by decide) c
  have newline (c : Char) : c.toLower = '\n' ↔ c = '\n' := toLower_eq_iff (by decide) c
  match rest with
  | [] | [_] => rfl
  | middle :: last :: more =>
      simp only [small_cons, character, quote, ne_eq, newline]

theorem prefix_small {spelling : List Char} (marks : ∀ c ∈ spelling, c.isAlpha = false)
    (text : List Char) : spelling <+: small text ↔ spelling <+: text := by
  induction spelling generalizing text with
  | nil => simp
  | cons mark more ih =>
      obtain ⟨other, others⟩ := List.forall_mem_cons.mp marks
      cases text with
      | nil => simp
      | cons c rest =>
          rw [small_cons, List.cons_prefix_cons, List.cons_prefix_cons, ih others,
            eq_comm, toLower_eq_iff other, eq_comm]

theorem delimiter_small {kind : Kind} (known : kind ∈ Kind.delimiters) (first : Char)
    (rest : List Char) : delimiter kind first.toLower (small rest) = delimiter kind first rest := by
  have table : ∀ kind ∈ Kind.delimiters, kind.spelling.toList.all (!·.isAlpha) = true := by
    decide +kernel
  have marks : ∀ c ∈ kind.spelling.toList, c.isAlpha = false := fun c member => by
    simpa using List.all_eq_true.mp (table kind known) c member
  have whole := prefix_small marks (first :: rest)
  rw [small_cons] at whole
  simp only [delimiter_eq, whole]

/-! ### Lexemes -/

theorem match?_small {pattern : Pattern} (known : pattern ∈ Pattern.ordered) (first : Char)
    (rest : List Char) :
    pattern.match? first.toLower (small rest) = pattern.match? first rest := by
  cases pattern with
  | blanks => exact blanks_small first rest
  | comment => exact comment_small first rest
  | word => exact word_small first rest
  | number => exact number_small first rest
  | string => exact string_small first rest
  | character => exact character_small first rest
  | delimiter kind =>
      exact delimiter_small (by simpa [Pattern.ordered] using known) first rest

theorem firstMatch_small (first : Char) (rest : List Char) :
    firstMatch first.toLower (small rest) = firstMatch first rest := by
  unfold firstMatch
  have each : ∀ patterns ⊆ Pattern.ordered,
      (patterns.findSome? fun pattern =>
        (pattern.match? first.toLower (small rest)).map (pattern, ·)) =
      patterns.findSome? fun pattern => (pattern.match? first rest).map (pattern, ·) := by
    intro patterns known
    induction patterns with
    | nil => rfl
    | cons pattern more ih =>
        obtain ⟨here, behind⟩ := List.cons_subset.mp known
        rw [List.findSome?_cons, List.findSome?_cons, match?_small here, ih behind]
  exact each _ (List.Subset.refl _)

/-- The lexeme with small letters. -/
def lowered (lexeme : Lexeme) : Lexeme :=
  ⟨lexeme.kind, small lexeme.text⟩

theorem ofWord_small (word : List Char) : Kind.ofWord (small word) = Kind.ofWord word := by
  have again : (small word).map Char.toLower = word.map Char.toLower := small_small word
  simp only [Kind.ofWord, again]

theorem next?_small (last : Option Kind) (first : Char) (rest : List Char) :
    next? last first.toLower (small rest) = (next? last first rest).map lowered := by
  have kinds (pattern : Pattern) (text : List Char) :
      pattern.kind (small text) = pattern.kind text := by
    cases pattern with
    | word => exact congrArg some (ofWord_small text)
    | _ => rfl
  unfold next?
  rw [firstMatch_small]
  match firstMatch first rest with
  | none => rfl
  | some (.character, length) =>
      dsimp only
      split
      next => rfl
      next => rw [small_take]; rfl
  | some (.blanks, _) | some (.comment, _) | some (.word, _) | some (.number, _)
  | some (.string, _) | some (.delimiter _, _) =>
      dsimp only
      rw [small_take, ← small_cons, kinds]
      rfl

/-- A text with small letters is divided where the text is. -/
theorem divide_small (last : Option Kind) (text : List Char) :
    divide last (small text) =
      ((divide last text).1.map lowered, small (divide last text).2) := by
  fun_induction divide last text with
  | case1 => rw [small_nil, divide]; rfl
  | case2 last first rest missing =>
      rw [small_cons, divide, next?_small, missing]
      rfl
  | case3 last first rest lexeme found more stuck divided ih =>
      rw [divided] at ih
      rw [small_cons, divide, next?_small, found]
      have length : (lowered lexeme).text.length = lexeme.text.length := length_small _
      simp only [Option.map_some, length, small_drop]
      rw [show (lowered lexeme).kind = lexeme.kind from rfl, ih]
      rfl

end AdaExpressions.Lexeme
