import AdaExpressions.Token.Scan

/-!
# Texts of tokens

`TokenText kind text` says what a token of a kind can look like. A lexeme has such a text
(`tokenText_of_next?`), and a text of this sort is read again as the same token wherever no character
that it could go on with stands right behind it (`next?_of_tokenText`). Only for an apostrophe does
it matter what came before.

The parts of a number and the inside of a string are recognised by looking ahead. For each pattern
one lemma cuts the text behind the match and puts any other text there that does not go on with it.
-/

namespace AdaExpressions.Lexeme

variable {p : Char → Bool} {text more : List Char}

/-- No character of the kind comes first. -/
def Ends (p : Char → Bool) (text : List Char) : Prop :=
  ∀ c ∈ text.head?, p c = false

@[simp] theorem ends_cons {c : Char} : Ends p (c :: text) ↔ p c = false := by
  simp [Ends]

theorem runLength_append (holds : ∀ c ∈ text, p c = true) (ends : Ends p more) :
    runLength p (text ++ more) = text.length := by
  rw [runLength, List.takeWhile_append_of_pos holds]
  cases more with
  | nil => simp
  | cons c more => simp [ends c rfl]

/-- A text is a run and what is left behind it. -/
theorem exists_run (p : Char → Bool) (text : List Char) :
    ∃ run, text = run ++ text.drop (runLength p text) ∧ run.length = runLength p text ∧
      ∀ c ∈ run, p c = true := by
  have same : text.take (runLength p text) = text.takeWhile p :=
    (List.prefix_iff_eq_take.mp (List.takeWhile_prefix p)).symm
  refine ⟨text.takeWhile p, ?_, rfl, fun c => List.all_eq_true.mp List.all_takeWhile c⟩
  rw [← same, List.take_append_drop]

/-! ### Numbers -/

theorem basedPart_append {length : Nat} (found : basedPart text = some length) :
    ∃ part rest, text = '#' :: part ++ rest ∧ part.length + 1 = length ∧
      ∀ more, basedPart ('#' :: part ++ more) = some length := by
  unfold basedPart at found
  split at found
  next rest =>
    obtain ⟨run, divided, size, holds⟩ := exists_run isHexChar rest
    have whole {c : Char} {more : List Char} (ends : isHexChar c = false) :
        runLength isHexChar (run ++ c :: more) = run.length :=
      runLength_append holds (ends_cons.mpr ends)
    rw [← size] at found divided
    dsimp only at found
    split at found
    next => cases found
    next some_ =>
      split at found
      next tail closed =>
        cases found
        rw [closed] at divided
        refine ⟨run ++ ['#'], tail, by simp [divided], by simp, fun more => ?_⟩
        simp [basedPart, whole (show isHexChar '#' = false by decide), some_]
      next tail pointed =>
        rw [pointed] at divided
        obtain ⟨fraction, divided', size', holds'⟩ := exists_run isHexChar tail
        rw [← size'] at found divided'
        split at found
        next => cases found
        next fractional =>
          split at found
          next last closed =>
            cases found
            rw [closed] at divided'
            refine ⟨run ++ '.' :: fraction ++ ['#'], last, by simp [divided, divided'], by simp; omega,
              fun more => ?_⟩
            have part : runLength isHexChar (fraction ++ '#' :: more) = fraction.length :=
              runLength_append holds' (ends_cons.mpr (by decide))
            simp [basedPart, whole (show isHexChar '.' = false by decide), some_, part, fractional]
          next => cases found
      next => cases found
  next => cases found

theorem fractionPart_append {length : Nat} (found : fractionPart text = some length) :
    ∃ part rest, text = '.' :: part ++ rest ∧ part.length + 1 = length ∧
      ∀ more, Ends isDigitChar more → fractionPart ('.' :: part ++ more) = some length := by
  unfold fractionPart at found
  split at found
  next first rest =>
    split at found
    next digit =>
      obtain ⟨run, divided, size, holds⟩ := exists_run isDigitChar rest
      rw [← size] at found
      cases found
      refine ⟨first :: run, _, congrArg (fun rest => '.' :: first :: rest) divided, ?_, ?_⟩
      · rw [List.length_cons]
        omega
      · intro more ends
        simp [fractionPart, digit, runLength_append holds ends]
    next => cases found
  next => cases found

/-- Digits of which there has to be one. -/
theorem exists_digits {before length : Nat}
    (found : (if runLength Char.isDigit text = 0 then none
      else some (before + runLength Char.isDigit text)) = some length) :
    ∃ run rest, text = run ++ rest ∧ run ≠ [] ∧ before + run.length = length ∧
      ∀ c ∈ run, c.isDigit = true := by
  obtain ⟨run, divided, size, holds⟩ := exists_run Char.isDigit text
  rw [← size] at found
  split at found
  next => cases found
  next some_ =>
    cases found
    exact ⟨run, _, divided, fun none_ => some_ (by rw [none_]; rfl), rfl, holds⟩

theorem exponentPart_append {length : Nat} (found : exponentPart text = some length) :
    ∃ mark part rest, text = mark :: part ++ rest ∧ (mark = 'e' ∨ mark = 'E') ∧
      part.length + 1 = length ∧
      ∀ more, Ends Char.isDigit more → exponentPart (mark :: part ++ more) = some length := by
  unfold exponentPart at found
  split at found
  next mark tail =>
    split at found
    next letter =>
      dsimp only at found
      split at found
      next signed =>
        obtain ⟨run, rest, rfl, some_, rfl, holds⟩ := exists_digits found
        refine ⟨mark, '+' :: run, rest, rfl, letter, by simp; omega, fun more ends => ?_⟩
        simp [exponentPart, letter, runLength_append holds ends, some_]
      next signed =>
        obtain ⟨run, rest, rfl, some_, rfl, holds⟩ := exists_digits found
        refine ⟨mark, '-' :: run, rest, rfl, letter, by simp; omega, fun more ends => ?_⟩
        simp [exponentPart, letter, runLength_append holds ends, some_]
      next =>
        obtain ⟨run, rest, rfl, some_, rfl, holds⟩ := exists_digits found
        refine ⟨mark, run, rest, rfl, letter, by simp; omega, fun more ends => ?_⟩
        obtain ⟨digit, run, rfl⟩ := List.exists_cons_of_ne_nil some_
        have digit_ := holds digit List.mem_cons_self
        have plus : digit ≠ '+' := fun same => absurd (same ▸ digit_) (by decide)
        have dash : digit ≠ '-' := fun same => absurd (same ▸ digit_) (by decide)
        have size := runLength_append holds ends
        rw [List.cons_append] at size
        simp [exponentPart, letter, plus, dash, size]
    next => cases found
  next => cases found

/-- What an exponent cannot start with. -/
def goesOnDigits (c : Char) : Bool :=
  isDigitChar c || c == '.' || c == '#'

def goesOnNumber (c : Char) : Bool :=
  goesOnDigits c || c == 'e' || c == 'E'

theorem Ends.imp {q : Char → Bool} (implies : ∀ c, q c = true → p c = true) (ends : Ends p text) :
    Ends q text := fun c first => by
  have none_ := ends c first
  cases holds : q c with
  | false => rfl
  | true => rw [implies c holds] at none_; cases none_

theorem exists_exponent (text : List Char) :
    ∃ part rest, text = part ++ rest ∧ (exponentPart text).getD 0 = part.length ∧
      ∀ more, Ends goesOnNumber more → (exponentPart (part ++ more)).getD 0 = part.length ∧
        Ends goesOnDigits (part ++ more) := by
  cases found : exponentPart text with
  | some length =>
      obtain ⟨mark, part, rest, divided, letter, rfl, again⟩ := exponentPart_append found
      refine ⟨mark :: part, rest, divided, rfl, fun more ends => ⟨?_, ?_⟩⟩
      · rw [again more (ends.imp fun c digit => by simp [goesOnNumber, goesOnDigits, isDigitChar, digit])]
        rfl
      · rcases letter with rfl | rfl <;> exact ends_cons.mpr (by decide)
  | none =>
      refine ⟨[], text, rfl, rfl, fun more ends => ⟨?_, ends.imp fun c holds => ?_⟩⟩
      · cases more with
        | nil => rfl
        | cons c more =>
            have none_ := ends_cons.mp ends
            simp [goesOnNumber] at none_
            simp [exponentPart, none_]
      · simp [goesOnNumber, holds]

theorem exists_part (text : List Char) :
    ∃ part rest, text = part ++ rest ∧
      ((basedPart text).or (fractionPart text)).getD 0 = part.length ∧
      ∀ more, Ends goesOnDigits more →
        ((basedPart (part ++ more)).or (fractionPart (part ++ more))).getD 0 = part.length ∧
        Ends isDigitChar (part ++ more) := by
  cases based : basedPart text with
  | some length =>
      obtain ⟨part, rest, divided, rfl, again⟩ := basedPart_append based
      refine ⟨'#' :: part, rest, divided, rfl, fun more _ => ⟨?_, ends_cons.mpr (by decide)⟩⟩
      rw [again more]
      rfl
  | none =>
      cases fraction : fractionPart text with
      | some length =>
          obtain ⟨part, rest, divided, rfl, again⟩ := fractionPart_append fraction
          refine ⟨'.' :: part, rest, divided, rfl, fun more ends =>
            ⟨?_, ends_cons.mpr (by decide)⟩⟩
          rw [again more (ends.imp fun c digit => by simp [goesOnDigits, digit])]
          rfl
      | none =>
          refine ⟨[], text, rfl, rfl, fun more ends => ⟨?_, ends.imp fun c holds => ?_⟩⟩
          · cases more with
            | nil => rfl
            | cons c more =>
                have none_ := ends_cons.mp ends
                simp [goesOnDigits] at none_
                simp [basedPart, fractionPart, none_]
          · simp [goesOnDigits, holds]

theorem number_append {first : Char} {length : Nat} (found : number first text = some length) :
    ∃ part rest, text = part ++ rest ∧ part.length = length ∧
      ∀ more, Ends goesOnNumber more → number first (part ++ more) = some length := by
  unfold number at found
  split at found
  next digit =>
    obtain ⟨whole, divided, size, holds⟩ := exists_run isDigitChar text
    rw [← size] at found divided
    obtain ⟨part, rest, divided', size', again'⟩ := exists_part (text.drop whole.length)
    obtain ⟨exponent, last, divided'', size'', again''⟩ := exists_exponent rest
    have dropped : (text.drop whole.length).drop part.length = rest := by
      rw [divided', List.drop_left]
    simp only [size', dropped, size''] at found
    cases found
    refine ⟨whole ++ (part ++ exponent), last, ?_, by simp; omega, fun more ends => ?_⟩
    · rw [divided, divided', divided'']
      simp
    · obtain ⟨exponentAgain, ends⟩ := again'' more ends
      obtain ⟨partAgain, ends⟩ := again' _ ends
      have wholeAgain := runLength_append holds ends
      simp only [number, digit, if_true, List.append_assoc, wholeAgain, List.drop_left, partAgain,
        exponentAgain]
  next => cases found

/-! ### Strings -/

theorem closingQuote_append {length : Nat} (found : closingQuote text = some length) :
    ∃ part rest, text = part ++ rest ∧ part.length = length ∧
      ∀ more, Ends (· == '\x22') more → closingQuote (part ++ more) = some length := by
  have single {rest : List Char} : ∃ part rest_, '\x22' :: rest = part ++ rest_ ∧ part.length = 1 ∧
      ∀ more, Ends (· == '\x22') more → closingQuote (part ++ more) = some 1 := by
    refine ⟨['\x22'], rest, rfl, rfl, fun more ends => ?_⟩
    cases more with
    | nil => rfl
    | cons c more =>
        have differs : c ≠ '\x22' := by simpa using ends_cons.mp ends
        simp [closingQuote, differs]
  fun_induction closingQuote text generalizing length with
  | case1 => cases found
  | case2 => cases found
  | case3 rest inner closed ih =>
      obtain ⟨part, rest, rfl, rfl, again⟩ := ih closed
      cases found
      refine ⟨'\x22' :: '\x22' :: part, rest, rfl, rfl, fun more ends => ?_⟩
      simp [closingQuote, again more ends]
  | case4 => cases found; exact single
  | case5 => cases found; exact single
  | case6 c rest line quotes quote ih =>
      obtain ⟨inner, closed, rfl⟩ := Option.map_eq_some_iff.mp found
      obtain ⟨part, rest, rfl, rfl, again⟩ := ih closed
      refine ⟨c :: part, rest, rfl, rfl, fun more ends => ?_⟩
      have quote : c ≠ '\x22' := fun same => quote same
      simp [closingQuote, quote, again more ends]

/-! ### Lexemes -/

/-- The characters that a token of the kind could go on with. -/
def goesOn : Kind → Char → Bool
  | .number => goesOnNumber
  | .string => (· == '\x22')
  | .dash => (· == '-')
  | .dot => (· == '.')
  | .equals => (· == '>')
  | .slash => (· == '=')
  | .less => fun c => c == '=' || c == '>'
  | .greater => (· == '=')
  | .star => (· == '*')
  | .colon => (· == '=')
  | kind => fun c => (kind == .identifier || kind.isReserved) && isWordChar c

/-- No visible ASCII character is blank. -/
theorem isBlank_of_visible {c : Char} (low : 0x21 ≤ c.toNat) (high : c.toNat ≤ 0x7e) :
    Text.isBlank c = false := by
  have apart : ∀ range ∈ Text.blankRanges, range.2 < 0x21 ∨ 0x7e < range.1 := by decide
  refine Bool.eq_false_iff.mpr fun blank => ?_
  obtain ⟨range, member, holds⟩ := Text.inRanges_iff.mp blank
  have := apart range member
  unfold Text.CodeRange.Holds at holds
  omega

theorem isAlpha_range {c : Char} (alpha : c.isAlpha = true) :
    (0x41 ≤ c.toNat ∧ c.toNat ≤ 0x5a) ∨ (0x61 ≤ c.toNat ∧ c.toNat ≤ 0x7a) := by
  refine (Bool.or_eq_true_iff.mp alpha).imp (fun upper => ?_) fun lower => ?_
  · have bounds : 'A'.val ≤ c.val ∧ c.val ≤ 'Z'.val := of_decide_eq_true upper
    exact bounds
  · obtain ⟨low, high⟩ : decide ('a'.val ≤ c.val) = true ∧ decide (c.val ≤ 'z'.val) = true :=
      Bool.and_eq_true_iff.mp lower
    exact ⟨of_decide_eq_true low, of_decide_eq_true high⟩

theorem isDigit_range {c : Char} (digit : c.isDigit = true) : 0x30 ≤ c.toNat ∧ c.toNat ≤ 0x39 := by
  simp only [Char.isDigit, Bool.and_eq_true, decide_eq_true_eq, UInt32.le_iff_toNat_le] at digit
  exact digit

theorem isBlank_of_isAlpha {c : Char} (alpha : c.isAlpha = true) : Text.isBlank c = false := by
  have range := isAlpha_range alpha
  exact isBlank_of_visible (by omega) (by omega)

theorem isBlank_of_isDigit {c : Char} (digit : c.isDigit = true) : Text.isBlank c = false := by
  have range := isDigit_range digit
  exact isBlank_of_visible (by omega) (by omega)

theorem isAlpha_of_isDigit {c : Char} (digit : c.isDigit = true) : c.isAlpha = false := by
  refine Bool.eq_false_iff.mpr fun alpha => ?_
  have letters := isAlpha_range alpha
  have digits := isDigit_range digit
  omega

theorem firstMatch_word {first : Char} (alpha : first.isAlpha = true) (rest : List Char) :
    firstMatch first rest = some (.word, runLength isWordChar rest) := by
  have dash : first ≠ '-' := fun same => absurd (same ▸ alpha) (by decide)
  have comment_ : comment first rest = none := by
    cases rest <;> simp [comment, dash]
  simp [firstMatch, Pattern.ordered, Pattern.match?, blanks, isBlank_of_isAlpha alpha, comment_, word,
    alpha]

theorem firstMatch_number {first : Char} (digit : first.isDigit = true) {rest : List Char}
    {length : Nat} (found : number first rest = some length) :
    firstMatch first rest = some (.number, length) := by
  have dash : first ≠ '-' := fun same => absurd (same ▸ digit) (by decide)
  have comment_ : comment first rest = none := by
    cases rest <;> simp [comment, dash]
  simp [firstMatch, Pattern.ordered, Pattern.match?, blanks, isBlank_of_isDigit digit, comment_, word,
    isAlpha_of_isDigit digit, found]

theorem firstMatch_string {rest : List Char} {length : Nat} (found : closingQuote rest = some length) :
    firstMatch '\x22' rest = some (.string, length) := by
  have blanks_ : blanks '\x22' rest = none := rfl
  have comment_ : comment '\x22' rest = none := by cases rest <;> rfl
  simp [firstMatch, Pattern.ordered, Pattern.match?, blanks_, comment_, word, number, string, found]

theorem firstMatch_apostrophe (rest : List Char) :
    firstMatch '\x27' rest =
      ((character '\x27' rest).map (Pattern.character, ·)).or (some (.delimiter .tick, 0)) := by
  have blanks_ : blanks '\x27' rest = none := rfl
  have comment_ : comment '\x27' rest = none := by cases rest <;> rfl
  have tick : delimiter .tick '\x27' rest = some 0 := rfl
  cases found : character '\x27' rest <;>
  simp [firstMatch, Pattern.ordered, Pattern.match?, blanks_, comment_, word, number, string, found,
    Kind.delimiters, tick]

/-- A delimiter that is tried before another is no beginning of it; where it is longer, the other
could go on with what it has more. -/
theorem delimiters_ordered : ∀ kind ∈ Kind.delimiters,
    ∀ other ∈ Kind.delimiters.takeWhile (· != kind),
      ¬ other.spelling.toList <+: kind.spelling.toList ∧
      (kind.spelling.toList <+: other.spelling.toList →
        (other.spelling.toList.drop kind.spelling.toList.length).head?.all (goesOn kind) = true) := by
  decide +kernel

theorem delimiter_eq {kind : Kind} {first : Char} {rest : List Char} :
    delimiter kind first rest =
      if kind.spelling.toList <+: first :: rest ∧ kind.spelling.toList ≠ [] then
        some (kind.spelling.toList.length - 1) else none := by
  unfold delimiter
  cases spelt : kind.spelling.toList with
  | nil => simp
  | cons c more => simp [List.cons_prefix_cons]

theorem delimiter_eq_none {kind other : Kind} {first : Char} {rest : List Char}
    (known : kind ∈ Kind.delimiters) (earlier : other ∈ Kind.delimiters.takeWhile (· != kind))
    (spelt : kind.spelling.toList = first :: rest) (ends : Ends (goesOn kind) more) :
    delimiter other first (rest ++ more) = none := by
  obtain ⟨apart, extends_⟩ := delimiters_ordered kind known other earlier
  rw [spelt] at apart extends_
  rw [delimiter_eq, if_neg]
  rintro ⟨prefix_, -⟩
  rcases List.prefix_or_prefix_of_prefix prefix_ (List.prefix_append (first :: rest) more) with
    shorter | longer
  · exact apart shorter
  · obtain ⟨tail, spelt'⟩ := longer
    rw [← spelt'] at prefix_ apart extends_
    obtain ⟨c, tail, rfl⟩ := List.exists_cons_of_ne_nil (l := tail) (by rintro rfl; simp at apart)
    have goes : goesOn kind c = true := by simpa using extends_ (List.prefix_append _ _)
    have := (List.prefix_append_right_inj (first :: rest)).mp prefix_
    obtain ⟨_, rfl⟩ := this
    simp [goes] at ends

theorem firstMatch_delimiter {kind : Kind} {first : Char} {rest : List Char}
    (known : kind ∈ Kind.delimiters) (other : kind ≠ .tick)
    (spelt : kind.spelling.toList = first :: rest) (ends : Ends (goesOn kind) more) :
    firstMatch first (rest ++ more) = some (.delimiter kind, rest.length) := by
  have starts : ∀ kind ∈ Kind.delimiters, kind.spelling.toList.head?.all (fun c =>
      decide (Text.isBlank c = false ∧ c.isAlpha = false ∧ c.isDigit = false ∧ c ≠ '\x22' ∧
        (c = '-' → kind = .dash) ∧ (c = '\x27' → kind = .tick))) = true := by decide +kernel
  have start := starts kind known
  rw [spelt] at start
  obtain ⟨blank, alpha, digit, quote, dash, apostrophe⟩ := of_decide_eq_true start
  have comment_ : comment first (rest ++ more) = none := by
    by_cases hyphen : first = '-'
    · cases dash hyphen
      rw [show Kind.dash.spelling.toList = ['-'] by decide] at spelt
      cases spelt
      cases more with
      | nil => rfl
      | cons c more =>
          have differs : c ≠ '-' := by simpa [goesOn] using ends
          simp [comment, differs]
    · unfold comment
      split <;> simp [hyphen]
  have found : Kind.delimiters.findSome? (fun other =>
      (delimiter other first (rest ++ more)).map (Pattern.delimiter other, ·)) =
      some (.delimiter kind, rest.length) := by
    obtain ⟨after, divided⟩ : ∃ after, Kind.delimiters =
        Kind.delimiters.takeWhile (· != kind) ++ kind :: after := by
      have parts : ∀ kind ∈ Kind.delimiters,
          Kind.delimiters = Kind.delimiters.takeWhile (· != kind) ++
            kind :: (Kind.delimiters.dropWhile (· != kind)).tail := by decide
      exact ⟨_, parts kind known⟩
    refine List.findSome?_eq_some_iff.mpr ⟨_, kind, after, divided, ?_, fun other earlier => ?_⟩
    · rw [delimiter_eq, if_pos ⟨⟨more, by rw [spelt]; rfl⟩, by simp [spelt]⟩, spelt]
      rfl
    · rw [delimiter_eq_none known earlier spelt ends]
      rfl
  have tick : first ≠ '\x27' := fun same => other (apostrophe same)
  have char_ : character first (rest ++ more) = none := by
    unfold character
    split <;> simp [tick]
  simp [firstMatch, Pattern.ordered, Pattern.match?, blanks, blank, comment_, word, alpha, number,
    digit, string, quote, char_, List.findSome?_map, Function.comp_def]
  exact found

/-! ### Texts of tokens -/

/-- The texts that a token of a kind can have. -/
inductive TokenText : Kind → List Char → Prop
  | word {first : Char} {part : List Char} :
      first.isAlpha = true → (∀ c ∈ part, isWordChar c = true) →
      TokenText (.ofWord (first :: part)) (first :: part)
  | number {first : Char} {part : List Char} :
      Lexeme.number first part = some part.length → TokenText .number (first :: part)
  | string {part : List Char} :
      closingQuote part = some part.length → TokenText .string ('\x22' :: part)
  | character {middle : Char} : middle ≠ '\n' → TokenText .char ['\x27', middle, '\x27']
  | delimiter {kind : Kind} : kind ∈ Kind.delimiters → TokenText kind kind.spelling.toList

theorem ofWord_isWord (word : List Char) :
    Kind.ofWord word = .identifier ∨ (Kind.ofWord word).isReserved = true := by
  unfold Kind.ofWord
  cases found : Kind.reservedWords.find? _ with
  | none => exact .inl rfl
  | some kind => exact .inr (by simpa [Kind.isReserved] using List.mem_of_find?_eq_some found)

theorem goesOn_of_isWord {kind : Kind} (isWord : kind = .identifier ∨ kind.isReserved = true) :
    goesOn kind = isWordChar := by
  funext c
  cases kind <;> first | rfl | exact absurd isWord (by decide)

theorem tokenText_of_isReserved : ∀ kind ∈ Kind.reservedWords,
    TokenText kind kind.spelling.toList := by
  have words : ∀ kind ∈ Kind.reservedWords, Kind.ofWord kind.spelling.toList = kind ∧
      kind.spelling.toList ≠ [] ∧ kind.spelling.toList.head?.all Char.isAlpha = true ∧
      kind.spelling.toList.tail.all isWordChar = true := by
    decide +kernel
  intro kind known
  obtain ⟨same, some_, alpha, holds⟩ := words kind known
  obtain ⟨first, part, divided⟩ := List.exists_cons_of_ne_nil some_
  rw [divided] at same alpha holds ⊢
  exact same ▸ .word alpha (List.all_eq_true.mp holds)

/-- Every token of a source has a text of its kind. -/
theorem tokenText_of_next? {last : Option Kind} {first : Char} {rest : List Char}
    {lexeme : Lexeme} {kind : Kind} (found : next? last first rest = some lexeme)
    (token : lexeme.kind = some kind) : TokenText kind lexeme.text := by
  unfold next? at found
  split at found
  next => cases found
  next length matched =>
    obtain ⟨pattern, member, matches_⟩ := List.exists_of_findSome?_eq_some matched
    obtain ⟨_, character_, same⟩ := Option.map_eq_some_iff.mp matches_
    cases same
    simp only [Pattern.match?, character] at character_
    split at character_
    next middle closing tail =>
      split at character_
      next shape =>
        obtain ⟨rfl, line, rfl⟩ := shape
        cases character_
        split at found
        · cases found
          cases token
          exact TokenText.delimiter (show Kind.tick ∈ Kind.delimiters by decide)
        · cases found
          cases token
          exact .character line
      next => cases character_
    next => cases character_
  next pattern length other matched =>
    obtain ⟨pattern', member, matches_⟩ := List.exists_of_findSome?_eq_some matched
    obtain ⟨_, matches_, same⟩ := Option.map_eq_some_iff.mp matches_
    cases same
    cases found
    cases pattern with
    | blanks => cases token
    | comment => cases token
    | word =>
        have word_ : word first rest = some length := matches_
        unfold word at word_
        split at word_
        next alpha =>
          cases word_
          cases token
          obtain ⟨run, divided, size, holds⟩ := exists_run isWordChar rest
          have taken : rest.take (runLength isWordChar rest) = run := by
            rw [← size]
            exact (List.prefix_iff_eq_take.mp ⟨_, divided.symm⟩).symm
          dsimp only
          rw [taken]
          exact .word alpha holds
        next => cases word_
    | number =>
        have number_ : number first rest = some length := matches_
        obtain ⟨part, rest, rfl, rfl, again⟩ := number_append number_
        cases token
        have alone := again [] (by simp [Ends])
        rw [List.append_nil] at alone
        dsimp only
        rw [List.take_left]
        exact .number alone
    | string =>
        have string_ : string first rest = some length := matches_
        unfold string at string_
        split at string_
        next quote =>
          obtain ⟨part, rest, rfl, rfl, again⟩ := closingQuote_append string_
          cases token
          have alone := again [] (by simp [Ends])
          rw [List.append_nil] at alone
          dsimp only
          rw [List.take_left, quote]
          exact .string alone
        next => cases string_
    | character => exact absurd rfl other
    | delimiter kind =>
        have delimiter_ : delimiter kind first rest = some length := matches_
        have known : kind ∈ Kind.delimiters := by
          simpa [Pattern.ordered] using member
        rw [delimiter_eq] at delimiter_
        split at delimiter_
        next spelt =>
          obtain ⟨prefix_, some_⟩ := spelt
          cases delimiter_
          cases token
          obtain ⟨tail, divided⟩ := prefix_
          obtain ⟨c, part, spelt⟩ := List.exists_cons_of_ne_nil some_
          rw [spelt] at divided
          obtain ⟨rfl, rfl⟩ := List.cons.inj divided
          dsimp only
          rw [spelt, List.length_cons, Nat.add_sub_cancel]
          have taken : List.take part.length (part.append tail) = part := List.take_left
          rw [taken, ← spelt]
          exact .delimiter known
        next => cases delimiter_

/-- Before a text that it could not go on with, the text of a token is read as that token. Whether
an apostrophe opens a character literal depends on the token before it. -/
theorem next?_of_tokenText {kind : Kind} {first : Char} {part : List Char} {last : Option Kind}
    (text : TokenText kind (first :: part)) (ends : Ends (goesOn kind) more)
    (literal : kind = .char → ticksAfter last = false)
    (tick : kind = .tick → ticksAfter last = true ∨ character '\x27' more = none) :
    next? last first (part ++ more) = some ⟨some kind, first :: part⟩ := by
  generalize whole : first :: part = word at text
  cases text with
  | word alpha holds =>
      cases whole
      rw [goesOn_of_isWord (ofWord_isWord _)] at ends
      simp [next?, firstMatch_word alpha, runLength_append holds ends, Pattern.kind]
  | number found =>
      cases whole
      obtain ⟨part, rest, rfl, size, again⟩ := number_append found
      obtain rfl : rest = [] := by
        rw [List.length_append] at size
        exact List.length_eq_zero_iff.mp (by omega)
      rw [List.append_nil] at *
      have digit : first.isDigit = true := by
        unfold number at found
        split at found
        next digit => exact digit
        next => cases found
      simp [next?, firstMatch_number digit (again more ends), Pattern.kind]
  | string found =>
      cases whole
      obtain ⟨part, rest, rfl, size, again⟩ := closingQuote_append found
      obtain rfl : rest = [] := by
        rw [List.length_append] at size
        exact List.length_eq_zero_iff.mp (by omega)
      rw [List.append_nil] at *
      simp [next?, firstMatch_string (again more ends), Pattern.kind]
  | @character middle line =>
      cases whole
      have found : character '\x27' ([middle, '\x27'] ++ more) = some 2 := by
        simp [character, line]
      have matched : firstMatch '\x27' ([middle, '\x27'] ++ more) = some (.character, 2) := by
        rw [firstMatch_apostrophe, found]
        rfl
      rw [next?, matched]
      simp [literal rfl]
  | delimiter known =>
      by_cases apostrophe : kind = .tick
      · cases apostrophe
        rw [show Kind.tick.spelling.toList = ['\x27'] by decide] at whole ⊢
        cases whole
        rw [next?, List.nil_append, firstMatch_apostrophe]
        cases found : character '\x27' more with
        | none => simp [Pattern.kind]
        | some length =>
            have after : ticksAfter last = true := (tick rfl).resolve_right (by simp [found])
            simp [after]
      · simp [next?, firstMatch_delimiter known apostrophe whole.symm ends, Pattern.kind, whole]

/-! ### One lexeme after another -/

/-- Blanks in a row are one lexeme. -/
theorem next?_blanks {last : Option Kind} {first : Char} {run rest : List Char}
    (blank : Text.isBlank first = true) (holds : ∀ c ∈ run, Text.isBlank c = true)
    (ends : Ends Text.isBlank rest) :
    next? last first (run ++ rest) = some ⟨none, first :: run⟩ := by
  have length : runLength Text.isBlank (run ++ rest) = run.length := runLength_append holds ends
  have matched : firstMatch first (run ++ rest) = some (.blanks, run.length) := by
    simp [firstMatch, Pattern.ordered, Pattern.match?, blanks, length, blank]
  simp [next?, matched, Pattern.kind]

theorem divide_cons {last : Option Kind} {first : Char} {part rest : List Char} {kind : Option Kind}
    (found : next? last first (part ++ rest) = some ⟨kind, first :: part⟩) :
    divide last (first :: part ++ rest) =
      (⟨kind, first :: part⟩ :: (divide (kind.or last) rest).1, (divide (kind.or last) rest).2) := by
  rw [List.cons_append, divide, found]
  simp

theorem divide_token {kind : Kind} {first : Char} {part : List Char} {last : Option Kind}
    (text : TokenText kind (first :: part)) (ends : Ends (goesOn kind) more)
    (literal : kind = .char → ticksAfter last = false)
    (tick : kind = .tick → ticksAfter last = true ∨ character '\x27' more = none) :
    divide last (first :: part ++ more) =
      (⟨some kind, first :: part⟩ :: (divide (some kind) more).1, (divide (some kind) more).2) := by
  have token := divide_cons (next?_of_tokenText text ends literal tick)
  rwa [Option.some_or] at token

/-- A row of spaces is one lexeme. -/
theorem divide_spaces {last : Option Kind} (count : Nat) {rest : List Char}
    (ends : Ends Text.isBlank rest) :
    divide last (List.replicate (count + 1) ' ' ++ rest) =
      (⟨none, List.replicate (count + 1) ' '⟩ :: (divide last rest).1, (divide last rest).2) := by
  have blank : Text.isBlank ' ' = true := by decide
  have blanks : ∀ c ∈ List.replicate count ' ', Text.isBlank c = true := fun c member => by
    rw [List.eq_of_mem_replicate member, blank]
  have spaces := divide_cons (@next?_blanks last _ _ _ blank blanks ends)
  rwa [Option.none_or, ← List.replicate_succ] at spaces

theorem byteLength_spaces (count : Nat) : byteLength (List.replicate count ' ') = count := by
  have size : ' '.utf8Size = 1 := by decide
  rw [byteLength_replicate, size, Nat.mul_one]

/-! ### The tokens of a source -/

theorem tokenText_of_mem_divide {last : Option Kind} {kind : Kind} {lexeme : Lexeme}
    (member : lexeme ∈ (divide last text).1) (token : lexeme.kind = some kind) :
    TokenText kind lexeme.text := by
  fun_induction divide last text with
  | case1 => cases member
  | case2 => cases member
  | case3 last first rest head found more stuck divided ih =>
      rcases List.mem_cons.mp member with rfl | member
      · exact tokenText_of_next? found token
      · exact ih (by rwa [divided])

/-- Every token but the closing one is placed for a lexeme. -/
theorem exists_placed (file : String) (offset : Nat) (lexemes : List Lexeme) :
    ∃ placed closing, placeLexemes file offset lexemes = placed ++ [closing] ∧ closing.kind = .eof ∧
      ∀ token ∈ placed, ∃ lexeme ∈ lexemes,
        lexeme.kind = some token.kind ∧ token.text.toList = lexeme.text := by
  induction lexemes generalizing offset with
  | nil => exact ⟨[], _, rfl, rfl, nofun⟩
  | cons lexeme more ih =>
      obtain ⟨placed, closing, same, closed, each⟩ := ih (offset + byteLength lexeme.text)
      have behind : ∀ token ∈ placed, ∃ lexeme' ∈ lexeme :: more,
          lexeme'.kind = some token.kind ∧ token.text.toList = lexeme'.text := fun token member =>
        let ⟨other, known, found⟩ := each token member
        ⟨other, List.mem_cons_of_mem _ known, found⟩
      rw [placeLexemes]
      split
      · exact ⟨placed, closing, same, closed, behind⟩
      · next kind found =>
          rw [same]
          refine ⟨_ :: placed, closing, rfl, closed, List.forall_mem_cons.mpr ⟨?_, behind⟩⟩
          exact ⟨lexeme, List.mem_cons_self, found, String.toList_ofList⟩

/-- Every token of a source but the closing one has a text of its kind. -/
theorem tokenText_of_tokenize {source file : String} {tokens : List Token}
    (tokenized : tokenize source file = .ok tokens) :
    ∃ placed closing, tokens = placed ++ [closing] ∧ closing.kind = .eof ∧
      ∀ token ∈ placed, TokenText token.kind token.text.toList := by
  unfold tokenize at tokenized
  split at tokenized
  next lexemes divided =>
    cases tokenized
    obtain ⟨placed, closing, same, closed, each⟩ := exists_placed file 0 lexemes
    refine ⟨placed, closing, same, closed, fun token member => ?_⟩
    obtain ⟨lexeme, known, kind, text⟩ := each token member
    rw [text]
    exact tokenText_of_mem_divide (by rwa [divided]) kind
  next => cases tokenized

end AdaExpressions.Lexeme
