import AdaExpressions.Proofs.Layout.Numbers
import AdaExpressions.Proofs.Printing.Pieces

/-!
# Lexemes in front of looser text

A token that is read in front of a text is read in front of any text that shows no more, since no
token goes on with a blank. Apostrophes and quotation marks need more: a blank may be what a
character literal has between its apostrophes, and where a literal is not closed its first quotation
mark is one.

Results: `Lexeme.next?_loosens`, `Lexeme.next?_unclosed`.
-/

namespace AdaExpressions.Lexeme

variable {last : Option Kind} {first : Char} {part rest other : List Char} {kind : Kind}

/-! ### What a token does not go on with -/

theorem isBlank_of_isWordChar {c : Char} (holds : isWordChar c = true) :
    Text.isBlank c = false := by
  simp only [isWordChar, Char.isAlphanum, Bool.or_eq_true, beq_iff_eq] at holds
  rcases holds with (alpha | digit) | rfl
  · exact isBlank_of_isAlpha alpha
  · exact isBlank_of_isDigit digit
  · decide

/-- The marks that a longer delimiter or a comment has more than a delimiter. -/
def marks : List Char :=
  ['-', '.', '>', '=', '*']

theorem goesOn_cases {c : Char} (goes : goesOn kind c = true) :
    (kind = .number ∧ goesOnNumber c = true) ∨ (kind = .string ∧ c = '\x22') ∨ c ∈ marks ∨
      ((kind = .identifier ∨ kind.isReserved = true) ∧ isWordChar c = true) := by
  unfold goesOn at goes
  split at goes
  case h_1 => exact .inl ⟨rfl, goes⟩
  case h_2 => exact .inr (.inl ⟨rfl, eq_of_beq goes⟩)
  case h_11 =>
    obtain ⟨word, holds⟩ := Bool.and_eq_true_iff.mp goes
    exact .inr (.inr (.inr ⟨by simpa using word, holds⟩))
  case h_7 =>
    simp only [Bool.or_eq_true, beq_iff_eq] at goes
    rcases goes with rfl | rfl <;> exact .inr (.inr (.inl (by decide)))
  all_goals exact .inr (.inr (.inl (by simp [marks, eq_of_beq goes])))

theorem isBlank_of_goesOn {c : Char} (goes : goesOn kind c = true) : Text.isBlank c = false := by
  rcases goesOn_cases goes with ⟨-, digit⟩ | ⟨-, rfl⟩ | mark | ⟨-, letter⟩
  · exact isBlank_of_spansNumber (by simp [spansNumber, digit])
  · decide
  · have visible : marks.all (!Text.isBlank ·) = true := by decide
    simpa using List.all_eq_true.mp visible c mark
  · exact isBlank_of_isWordChar letter

/-- A delimiter that could go on is the start of a longer one, which goes no further. -/
theorem exists_longer {c : Char} (known : kind ∈ Kind.delimiters) (dash : kind ≠ .dash)
    (goes : goesOn kind c = true) :
    ∃ longer ∈ Kind.delimiters, longer ≠ .tick ∧
      longer.spelling.toList = kind.spelling.toList ++ [c] ∧ ∀ c, goesOn longer c = false := by
  have mark {kind : Kind} (known : kind ∈ Kind.delimiters) {c : Char}
      (goes : goesOn kind c = true) : c ∈ marks := by
    have apart : ∀ kind ∈ Kind.delimiters, kind ≠ .number ∧ kind ≠ .string ∧
        ¬ (kind = .identifier ∨ kind.isReserved = true) := by decide
    obtain ⟨number, string, word⟩ := apart kind known
    rcases goesOn_cases goes with found | found | found | found
    · exact absurd found.1 number
    · exact absurd found.1 string
    · exact found
    · exact absurd found.1 word
  have table : ∀ kind ∈ Kind.delimiters, kind ≠ .dash → marks.all fun c =>
      goesOn kind c = true → ∃ longer ∈ Kind.delimiters, longer ≠ .tick ∧
        longer.spelling.toList = kind.spelling.toList ++ [c] ∧
        marks.all (!goesOn longer ·) = true := by decide +kernel
  have row := List.all_eq_true.mp (table kind known dash) c (mark known goes)
  obtain ⟨longer, known', tick, spelt, ends⟩ := of_decide_eq_true row goes
  refine ⟨longer, known', tick, spelt, fun c => Bool.eq_false_iff.mpr fun goes => ?_⟩
  have none_ := List.all_eq_true.mp ends c (mark known' goes)
  rw [goes] at none_
  cases none_

/-! ### What stands behind a token that was read -/

/-- The lexeme takes as many characters as its pattern says. -/
theorem length_of_next? {pattern : Pattern} {length : Nat} (other : pattern ≠ .character)
    (matched : firstMatch first (part ++ rest) = some (pattern, length))
    (found : next? last first (part ++ rest) = some ⟨some kind, first :: part⟩)
    (fits : length ≤ (part ++ rest).length) : length = part.length := by
  unfold next? at found
  rw [matched] at found
  split at found
  next => cases found
  next same => cases same; exact absurd rfl other
  next same =>
    cases same
    have texts : first :: (part ++ rest).take length = first :: part :=
      congrArg Lexeme.text (Option.some.inj found)
    have lengths := congrArg List.length texts
    simp only [List.length_cons, List.length_take] at lengths
    omega

/-- How the tokens start whose texts vary and which are not words. -/
theorem TokenText.start (text : TokenText kind (first :: part)) :
    (kind = .number → first.isDigit = true) ∧ (kind = .string → first = '\x22') ∧
      (kind = .char → first = '\x27') := by
  generalize whole : first :: part = word at text
  cases text with
  | word alpha =>
      have apart : ∀ kind : Kind, kind = .identifier ∨ kind.isReserved = true →
          kind ≠ .number ∧ kind ≠ .string ∧ kind ≠ .char := by
        rintro kind word
        refine ⟨?_, ?_, ?_⟩ <;> rintro rfl <;> exact absurd word (by decide)
      obtain ⟨number, string, char⟩ := apart _ (ofWord_isWord _)
      exact ⟨fun same => absurd same number, fun same => absurd same string,
        fun same => absurd same char⟩
  | number found =>
      cases whole
      unfold Lexeme.number at found
      split at found
      next digit => exact ⟨fun _ => digit, nofun, nofun⟩
      next => cases found
  | string => exact ⟨nofun, fun _ => (List.cons.inj whole).1, nofun⟩
  | character => exact ⟨nofun, nofun, fun _ => (List.cons.inj whole).1⟩
  | delimiter known =>
      have apart : ∀ kind ∈ Kind.delimiters, kind ≠ .number ∧ kind ≠ .string ∧ kind ≠ .char := by
        decide
      obtain ⟨number, string, char⟩ := apart _ known
      exact ⟨fun same => absurd same number, fun same => absurd same string,
        fun same => absurd same char⟩

theorem ticksAfter_of_next? (found : next? last first rest = some ⟨some .char, first :: part⟩) :
    ticksAfter last = false := by
  refine Bool.eq_false_iff.mpr fun ticks => ?_
  obtain rfl := (tokenText_of_next? found rfl : TokenText .char (first :: part)).start.2.2 rfl
  rw [next?, firstMatch_apostrophe] at found
  cases matched : character '\x27' rest <;> simp [matched, ticks, Pattern.kind] at found

theorem TokenText.eq_tick {word : List Char} (text : TokenText .tick word) : word = ['\x27'] := by
  generalize same : Kind.tick = kind at text
  cases text with
  | @word first part =>
      rcases ofWord_isWord (first :: part) with word | word
      · rw [word] at same
        cases same
      · rw [← same] at word
        exact absurd word (by decide)
  | number | string | character => cases same
  | delimiter =>
      rw [← same]
      decide

/-- A tick is read after a name, or where no character literal stands. -/
theorem tick_of_next? (found : next? last first (part ++ rest) = some ⟨some .tick, first :: part⟩) :
    ticksAfter last = true ∨ character '\x27' rest = none := by
  have alone := (tokenText_of_next? found rfl : TokenText .tick (first :: part)).eq_tick
  obtain ⟨rfl, rfl⟩ := List.cons.inj alone
  rw [List.nil_append, next?, firstMatch_apostrophe] at found
  cases literal : character '\x27' rest with
  | none => exact .inr rfl
  | some length =>
      cases ticks : ticksAfter last with
      | true => exact .inl rfl
      | false => simp [literal, ticks] at found

theorem lt_runLength {p : Char → Bool} {c : Char} (holds : ∀ c ∈ part, p c = true)
    (next : p c = true) (tail : List Char) : part.length < runLength p (part ++ c :: tail) := by
  simp [runLength, List.takeWhile_append_of_pos holds, next]

theorem runLength_le_length (p : Char → Bool) (text : List Char) :
    runLength p text ≤ text.length :=
  (List.takeWhile_prefix p).length_le

/-- A token that was read stops where it could not go on. -/
theorem ends_of_next? (found : next? last first (part ++ rest) = some ⟨some kind, first :: part⟩)
    (number : kind ≠ .number) (string : kind ≠ .string) : Ends (goesOn kind) rest := by
  intro c first_
  obtain ⟨tail, rfl⟩ : ∃ tail, rest = c :: tail := List.head?_eq_some_iff.mp first_
  refine Bool.eq_false_iff.mpr fun goes => ?_
  have text : TokenText kind (first :: part) := tokenText_of_next? found rfl
  generalize whole : first :: part = word at text
  cases text with
  | word alpha holds =>
      cases whole
      have letter : isWordChar c = true := goesOn_of_isWord (ofWord_isWord _) ▸ goes
      have length := length_of_next? (by decide) (firstMatch_word alpha _) found
        (runLength_le_length _ _)
      have longer := lt_runLength holds letter tail
      omega
  | number => exact number rfl
  | string => exact string rfl
  | character =>
      have none_ : goesOn .char c = false := rfl
      rw [none_] at goes
      cases goes
  | delimiter known =>
      by_cases dash : kind = .dash
      · subst dash
        rw [show Kind.dash.spelling.toList = ['-'] by decide] at whole
        cases whole
        obtain rfl : c = '-' := eq_of_beq goes
        -- Two hyphens open a comment.
        have matched : firstMatch '-' ('-' :: tail) =
            some (.comment, 1 + runLength (· != '\n') tail) := by
          simp [firstMatch, Pattern.ordered, Pattern.match?, blanks, comment,
            show Text.isBlank '-' = false by decide]
        simp [next?, matched, Pattern.kind] at found
      · obtain ⟨longer, known', tick, spelt, ends⟩ := exists_longer known dash goes
        have text := TokenText.delimiter known'
        rw [spelt, ← whole] at text
        have literal : longer = .char → ticksAfter last = false := by
          rintro rfl
          exact absurd known' (by decide)
        have again : next? last first ((part ++ [c]) ++ tail) = _ :=
          next?_of_tokenText text (fun d _ => ends d) literal fun same => absurd same tick
        rw [List.append_assoc] at again
        have lexemes := Option.some.inj (found.symm.trans again)
        have lengths := congrArg (fun lexeme => lexeme.text.length) lexemes
        simp at lengths

/-! ### Strings -/

/-- A string stops in front of a quotation mark only where no literal starts there. -/
theorem closingQuote_unclosed {tail : List Char}
    (found : closingQuote (part ++ '\x22' :: tail) = some part.length) :
    closingQuote tail = none := by
  generalize whole : part ++ '\x22' :: tail = text at found
  fun_induction closingQuote text generalizing part with
  | case1 => cases found
  | case2 => cases found
  | case3 rest length closed ih =>
      have size := (Option.some.inj found).symm
      obtain ⟨_, part, rfl⟩ := List.exists_cons_of_length_eq_add_one size
      have size := Nat.succ.inj size
      obtain ⟨_, inner, rfl⟩ := List.exists_cons_of_length_eq_add_one size
      have rest_ : inner ++ '\x22' :: tail = rest := (List.cons.inj (List.cons.inj whole).2).2
      exact ih rest_ (closed.trans (congrArg some (Nat.succ.inj size).symm))
  | case4 rest none_ ih =>
      obtain ⟨_, rfl⟩ := List.length_eq_one_iff.mp (Option.some.inj found).symm
      have rest_ : '\x22' :: tail = '\x22' :: rest := (List.cons.inj whole).2
      rw [(List.cons.inj rest_).2, none_]
  | case5 rest alone =>
      obtain ⟨_, rfl⟩ := List.length_eq_one_iff.mp (Option.some.inj found).symm
      have rest_ : rest = '\x22' :: tail := (List.cons.inj whole).2.symm
      exact absurd rest_ (alone tail)
  | case6 c rest line pair other ih =>
      obtain ⟨length, inner, size⟩ := Option.map_eq_some_iff.mp found
      obtain ⟨_, part, rfl⟩ := List.exists_cons_of_length_eq_add_one size.symm
      have rest_ : part ++ '\x22' :: tail = rest := (List.cons.inj whole).2
      exact ih rest_ (inner.trans (congrArg some (Nat.succ.inj size)))

theorem firstMatch_quote (text : List Char) :
    firstMatch '\x22' text = (closingQuote text).map (Pattern.string, ·) := by
  cases found : closingQuote text with
  | some length => exact firstMatch_string found
  | none =>
      have blanks_ : blanks '\x22' text = none := rfl
      have comment_ : comment '\x22' text = none := by cases text <;> rfl
      have character_ : character '\x22' text = none := by
        unfold character
        split <;> simp
      have delimiters : ∀ kind ∈ Kind.delimiters, delimiter kind '\x22' text = none := by
        have heads : ∀ kind ∈ Kind.delimiters,
            kind.spelling.toList.head?.all (· != '\x22') = true := by decide +kernel
        intro kind known
        have head := heads kind known
        unfold delimiter
        split
        next c more spelt =>
          rw [spelt] at head
          have differs : c ≠ '\x22' := by simpa using head
          rw [if_neg fun both => differs both.1]
        next => rfl
      simp [firstMatch, Pattern.ordered, Pattern.match?, blanks_, comment_, word, number, string,
        character_, found]
      exact delimiters

/-- A string that was read goes up to its closing quotation mark. -/
theorem closingQuote_of_next?
    (found : next? last first (part ++ rest) = some ⟨some .string, first :: part⟩) :
    closingQuote (part ++ rest) = some part.length := by
  obtain rfl := (tokenText_of_next? found rfl : TokenText .string (first :: part)).start.2.1 rfl
  cases closed : closingQuote (part ++ rest) with
  | none => simp [next?, firstMatch_quote, closed] at found
  | some length =>
      obtain ⟨inner, tail, divided, size, -⟩ := closingQuote_append closed
      have fits : length ≤ (part ++ rest).length := by
        rw [divided, ← size, List.length_append]
        exact Nat.le_add_right _ _
      rw [length_of_next? (by decide) (firstMatch_string closed) found fits]

/-- Where a string was read and a quotation mark stands behind it, no lexeme starts. -/
theorem next?_unclosed {last' : Option Kind} {tail : List Char}
    (found : next? last first (part ++ '\x22' :: tail) = some ⟨some .string, first :: part⟩) :
    next? last' '\x22' tail = none := by
  rw [next?, firstMatch_quote, closingQuote_unclosed (closingQuote_of_next? found)]
  rfl

/-! ### Reading again -/

/-- A number that was read is the number that the text starts with. -/
theorem number_of_next?
    (found : next? last first (part ++ rest) = some ⟨some .number, first :: part⟩) :
    first.isDigit = true ∧ number first (part ++ rest) = some part.length := by
  have digit := (tokenText_of_next? found rfl : TokenText .number (first :: part)).start.1 rfl
  obtain ⟨length, whole⟩ : ∃ length, number first (part ++ rest) = some length := by
    rw [number, if_pos digit]
    exact ⟨_, rfl⟩
  obtain ⟨inner, tail, divided, size, -⟩ := number_append whole
  have fits : inner.length ≤ (part ++ rest).length := by
    rw [divided, List.length_append]
    exact Nat.le_add_right _ _
  rw [← size] at whole
  have length := length_of_next? (by decide) (firstMatch_number digit whole) found fits
  exact ⟨digit, whole.trans (congrArg some length)⟩

/-- A token that was read is read in front of any text that shows no more. -/
theorem next?_loosens
    (found : next? last first (part ++ rest) = some ⟨some kind, first :: part⟩)
    (loosens : Loosens other rest) (closed : kind = .string → Ends (· == '\x22') rest)
    (tick : kind = .tick → ticksAfter last = true ∨ character '\x27' other = none) :
    next? last first (part ++ other) = some ⟨some kind, first :: part⟩ := by
  by_cases number_ : kind = .number
  · subst number_
    obtain ⟨digit, whole⟩ := number_of_next? found
    have again := firstMatch_number digit (number_loosens whole loosens)
    rw [next?, again]
    simp [Pattern.kind]
  have text : TokenText kind (first :: part) := tokenText_of_next? found rfl
  have stops : Ends (goesOn kind) rest := by
    by_cases string : kind = .string
    · rw [string]
      exact closed string
    · exact ends_of_next? found number_ string
  refine next?_of_tokenText text (loosens.ends stops fun c => isBlank_of_goesOn) ?_ tick
  rintro rfl
  exact ticksAfter_of_next? found

end AdaExpressions.Lexeme
