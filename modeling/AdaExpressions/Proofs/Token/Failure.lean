import AdaExpressions.Proofs.Source.Lines
import AdaExpressions.Proofs.Token.LongestMatch

/-!
# Where the tokenizer fails

The scan stops at a character with which no lexeme starts. Only a quotation mark is such a character
in one place and not in another; any other either starts a lexeme whatever follows it or starts none.

A source cut off where its scan stopped is scanned in the same rounds, although a string, a number, a
comment or a character literal is found by looking further than it goes: the longest match stays the
longest one when the text behind it is taken away. Only where a tick is taken of a character literal
that could stand there can the cut go through the match.

Results: `next?_eq_none_iff` (where no lexeme starts), `next?_of_prefix` (a lexeme is found again in
a shorter text), `Scanner.reaches_onSource` (so are all rounds of a scan), `tokenize_error_exact`,
`not_isExact_farMark` (a source so long that the offset of its error wraps).
-/

namespace AdaExpressions.Lexeme

variable {last : Option Kind} {pattern : Pattern} {first : Char} {text part rest : List Char}
  {lexeme : Lexeme}

/-! ### Characters with which no lexeme starts -/

/-- The first characters of the delimiters. -/
def delimiterStarts : List Char :=
  ['\x27', '(', ')', '=', '/', '<', '>', '.', ':', ';', ',', '|', '*', '+', '-', '&']

/-- The characters that start a lexeme whatever follows them. -/
def startsLexeme (c : Char) : Bool :=
  Text.isBlank c || c.isAlphanum || delimiterStarts.contains c

/-- No lexeme starts with the first character: it starts none anywhere, or it is a quotation mark
that has no other one behind it on its line. -/
structure Stuck (first : Char) (rest : List Char) : Prop where
  startsNone : startsLexeme first = false
  unclosed : first = '\x22' → '\x22' ∉ rest.takeWhile (· != '\n')

theorem closingQuote_eq_none_iff :
    closingQuote rest = none ↔ '\x22' ∉ rest.takeWhile (· != '\n') := by
  fun_induction closingQuote rest with
  | case1 => simp
  | case2 => simp
  | case3 => simp
  | case4 => simp
  | case5 => simp
  | case6 c rest line pair other ih =>
      have newline : c ≠ '\n' := line
      have quote : '\x22' ≠ c := fun same => other same.symm
      simp [ih, newline, quote]

theorem firstMatch_eq_none_iff : firstMatch first rest = none ↔
    ∀ pattern ∈ Pattern.ordered, pattern.match? first rest = none := by
  simp only [firstMatch, List.findSome?_eq_none_iff, Option.map_eq_none_iff]

theorem next?_eq_none : next? last first rest = none ↔ firstMatch first rest = none := by
  unfold next?
  split
  next none_ => simp [none_]
  next matched => split <;> simp [matched]
  next matched => simp [matched]

/-- With the first character of a delimiter a delimiter starts: the one that is no longer. -/
theorem exists_delimiter (start : first ∈ delimiterStarts) (rest : List Char) :
    ∃ kind ∈ Kind.delimiters, delimiter kind first rest = some 0 := by
  have alone : delimiterStarts.all (fun c =>
      Kind.delimiters.any (·.spelling.toList == [c])) = true := by decide +kernel
  obtain ⟨kind, known, spelt⟩ := List.any_eq_true.mp (List.all_eq_true.mp alone first start)
  refine ⟨kind, known, ?_⟩
  rw [delimiter, beq_iff_eq.mp spelt]
  simp

theorem delimiter_eq_none_of_starts {kind : Kind} (known : kind ∈ Kind.delimiters)
    (none_ : first ∉ delimiterStarts) : delimiter kind first rest = none := by
  have heads : ∀ kind ∈ Kind.delimiters,
      kind.spelling.toList.head?.all (delimiterStarts.contains ·) = true := by decide +kernel
  have head := heads kind known
  unfold delimiter
  split
  next c more spelt =>
    rw [spelt] at head
    have start : c ∈ delimiterStarts := by simpa using head
    exact if_neg (not_and.mpr fun same _ => none_ (by rwa [← same]))
  next => rfl

theorem startsLexeme_eq_false : startsLexeme first = false ↔
    Text.isBlank first = false ∧ first.isAlpha = false ∧ first.isDigit = false ∧
      first ∉ delimiterStarts := by
  simp [startsLexeme, Char.isAlphanum, and_assoc]

/-- A lexeme starts unless the first character is stuck, whatever token came before. -/
theorem next?_eq_none_iff : next? last first rest = none ↔ Stuck first rest := by
  rw [next?_eq_none, firstMatch_eq_none_iff]
  constructor
  · intro none_
    have unmatched (pattern : Pattern) (known : pattern ∈ Pattern.classes) :
        pattern.match? first rest = none := none_ pattern (List.mem_append_left _ known)
    refine ⟨startsLexeme_eq_false.mpr ⟨?_, ?_, ?_, fun start => ?_⟩, ?_⟩
    · simpa [Pattern.match?, blanks] using unmatched .blanks (by decide)
    · simpa [Pattern.match?, word] using unmatched .word (by decide)
    · simpa [Pattern.match?, number] using unmatched .number (by decide)
    · obtain ⟨kind, known, matched⟩ := exists_delimiter start rest
      have later : Pattern.delimiter kind ∈ Pattern.ordered := by simpa [Pattern.ordered] using known
      cases (none_ _ later).symm.trans matched
    · rintro rfl
      have string_ : string '\x22' rest = none := unmatched .string (by decide)
      exact closingQuote_eq_none_iff.mp string_
  · rintro ⟨startsNone, unclosed⟩ pattern known
    obtain ⟨blank, alpha, digit, mark⟩ := startsLexeme_eq_false.mp startsNone
    cases pattern with
    | blanks => simp [Pattern.match?, blanks, blank]
    | comment =>
        have hyphen : first ≠ '-' := fun same => mark (same ▸ by decide)
        cases rest with
        | nil => rfl
        | cons second rest => exact if_neg (not_and.mpr fun same _ => hyphen same)
    | word => simp [Pattern.match?, word, alpha]
    | number => simp [Pattern.match?, number, digit]
    | string =>
        simp only [Pattern.match?, string, ite_eq_right_iff]
        exact fun quote => closingQuote_eq_none_iff.mpr (unclosed quote)
    | character =>
        have apostrophe : first ≠ '\x27' := fun same => mark (same ▸ by decide)
        simp only [Pattern.match?, character]
        split
        next => exact if_neg (not_and.mpr fun same _ => apostrophe same)
        next => rfl
    | delimiter kind =>
        have known : kind ∈ Kind.delimiters := by simpa [Pattern.ordered] using known
        exact delimiter_eq_none_of_starts known mark

/-! ### Lexemes of a shorter text -/

theorem Longest.of_prefix (longest : Longest pattern text rest) (fits : text <+: part)
    (shorter : part <+: rest) : Longest pattern text part where
  known := longest.known
  isText := longest.isText
  only := longest.only
  isPrefix := fits
  longest other known found member begins :=
    longest.longest other known found member (begins.trans shorter)

/-- Behind a name an apostrophe is a tick in front of any text. -/
theorem next?_of_ticksAfter (ticks : ticksAfter last = true) (rest : List Char) :
    next? last '\x27' rest = some ⟨some .tick, ['\x27']⟩ := by
  rw [next?, firstMatch_apostrophe]
  cases character '\x27' rest <;> simp [ticks, Pattern.kind]

/-- A lexeme is found again in a shorter text that still holds it. -/
theorem next?_of_prefix (found : next? last first rest = some lexeme)
    (fits : lexeme.text <+: first :: part) (shorter : part <+: rest) :
    next? last first part = some lexeme := by
  obtain ⟨pattern, text, longest, taken⟩ := next?_iff.mp found
  have again (whole : lexeme.text = text) : next? last first part = some lexeme := by
    have begins : first :: part <+: first :: rest := List.cons_prefix_cons.mpr ⟨rfl, shorter⟩
    exact next?_iff.mpr ⟨pattern, text, longest.of_prefix (whole ▸ fits) begins, taken⟩
  cases taken with
  | tick after =>
      -- not all of the character literal that was the longest match needs to be left
      obtain ⟨rfl, -⟩ := List.cons_prefix_cons.mp fits
      exact next?_of_ticksAfter (ticksAfter_iff.mpr after) part
  | _ => exact again rfl

end AdaExpressions.Lexeme

namespace AdaExpressions

open Lexeme (Stuck startsLexeme)

/-! ### The rounds of a scan on a shorter source -/

namespace Scanner

variable {scanner next final : Scanner} {passed rest before left : List Char} {lexeme : Lexeme}

/-- The scanner on another source. -/
def onSource (scanner : Scanner) (source : List Char) : Scanner :=
  { scanner with source }

theorem collect_onSource (scanner : Scanner) (lexeme : Lexeme) (source : List Char) :
    (scanner.onSource source).collect lexeme = (scanner.collect lexeme).onSource source := by
  unfold collect
  cases lexeme.kind <;> rfl

theorem step_rightUnique : Relator.RightUnique Step := by
  rintro scanner _ _ ⟨here, found⟩ ⟨here', found'⟩
  cases here.symm.trans here'
  cases found.symm.trans found'
  rfl

/-- The scan stops in one state. -/
theorem final_unique {final' : Scanner} (reached : Relation.ReflTransGen Step scanner final)
    (stops : ∀ next, ¬ final.Step next) (reached' : Relation.ReflTransGen Step scanner final')
    (stops' : ∀ next, ¬ final'.Step next) : final = final' := by
  rcases Relation.ReflTransGen.total_of_right_unique step_rightUnique reached reached' with
    further | further
  · rcases further.cases_head with same | ⟨next, step, -⟩
    · exact same
    · exact absurd step (stops next)
  · rcases further.cases_head with same | ⟨next, step, -⟩
    · exact same.symm
    · exact absurd step (stops' next)

/-- A scan that stops has the answer of the tokenizer. -/
theorem answer?_of_final {source file : String}
    (reached : Relation.ReflTransGen Step (.ofSource source file) final)
    (stops : ∀ next, ¬ final.Step next) : final.answer? = some (tokenize source file) := by
  obtain ⟨other, reached', stops', answer⟩ := exists_scan_tokenize source file
  rw [final_unique reached stops reached' stops', answer]

theorem source_of_reached (reached : Relation.ReflTransGen Step scanner final) :
    final.source = scanner.source ∧ final.file = scanner.file := by
  induction reached with
  | refl => exact ⟨rfl, rfl⟩
  | tail _ step ih =>
      cases step with
      | collect => exact ⟨collect_source.trans ih.1, collect_file.trans ih.2⟩

/-- A round of the scan is one on a source that is shorter but holds the lexeme. -/
theorem Stands.step_onSource {first : Char} (stands : scanner.Stands passed (first :: rest))
    (found : Lexeme.next? scanner.lastKind? first rest = some lexeme)
    (fits : passed ++ lexeme.text <+: before) (shorter : before <+: scanner.source) :
    (scanner.onSource before).Step ((scanner.collect lexeme).onSource before) := by
  obtain ⟨tail, rfl⟩ := fits
  obtain ⟨length, taken⟩ := Lexeme.next?_eq_some found
  rw [List.append_assoc, stands.source, List.prefix_append_right_inj, taken, List.cons_append,
    List.cons_prefix_cons] at shorter
  have here : (scanner.onSource (passed ++ lexeme.text ++ tail)).Stands passed
      (first :: (rest.take length ++ tail)) := by
    refine ⟨?_, stands.offset⟩
    rw [onSource, List.append_assoc, taken, List.cons_append]
  have again := Lexeme.next?_of_prefix found ⟨tail, by rw [taken]; rfl⟩ shorter.2
  rw [← collect_onSource]
  exact .collect here.remainder? again

/-- The rounds that lead to a place lead there too on the source that ends there. -/
theorem reaches_onSource (reached : Relation.ReflTransGen Step scanner final)
    (stands : scanner.Stands passed rest) (place : final.Stands before left) :
    passed <+: before ∧
      Relation.ReflTransGen Step (scanner.onSource before) (final.onSource before) := by
  induction reached using Relation.ReflTransGen.head_induction_on generalizing passed rest with
  | refl =>
      have within : passed <+: final.source := ⟨rest, stands.source.symm⟩
      have within' : before <+: final.source := ⟨left, place.source.symm⟩
      have same := stands.offset.symm.trans place.offset
      exact ⟨prefix_of_byteLength_le within within' same.le, .refl⟩
  | head step further ih =>
      cases step with
      | @collect first more lexeme here found =>
          obtain rfl := Option.some.inj (stands.remainder?.symm.trans here)
          obtain ⟨fits, rounds⟩ := ih (stands.collect found)
          have shorter : before <+: final.source := ⟨left, place.source.symm⟩
          rw [(source_of_reached further).1, collect_source] at shorter
          exact ⟨(List.prefix_append _ _).trans fits,
            .head (stands.step_onSource found fits shorter) rounds⟩

/-- A source that ends where its scan came to has the tokens that were found up to there. -/
theorem tokenize_onSource {source file : String}
    (reached : Relation.ReflTransGen Step (.ofSource source file) final)
    (place : final.Stands before left) : tokenize (String.ofList before) file =
      .ok (final.tokens.reverse ++ [.eof (.ofBytes (byteLength before) file)]) := by
  have start : (ofSource source file).Stands [] source.toList := ⟨rfl, rfl⟩
  obtain ⟨-, rounds⟩ := reaches_onSource reached start place
  have same : (ofSource source file).onSource before = ofSource (String.ofList before) file := by
    rw [onSource, ofSource, ofSource, String.toList_ofList]
  rw [same] at rounds
  have ended : (final.onSource before).Stands before [] :=
    ⟨(List.append_nil before).symm, place.offset⟩
  have stops (next : Scanner) : ¬ (final.onSource before).Step next := by
    rintro ⟨here, -⟩
    cases ended.remainder?.symm.trans here
  have answer := answer?_of_final rounds stops
  rw [answer?, ended.remainder?] at answer
  have file_ : (final.onSource before).file = file := (source_of_reached reached).2
  rw [← Option.some.inj answer, file_, ended.offset]
  rfl

/-- Where a scan stops in front of some text, its first character is stuck. -/
theorem stuck_of_final {stuck : Char} (stops : ∀ next, ¬ final.Step next)
    (place : final.Stands before (stuck :: left)) : Stuck stuck left := by
  cases found : Lexeme.next? final.lastKind? stuck left with
  | none => exact Lexeme.next?_eq_none_iff.mp found
  | some lexeme => exact absurd (.collect place.remainder? found) (stops _)

end Scanner

/-- What a failed scan leaves behind. -/
theorem exists_stuck {source file : String} {error : Error}
    (failed : tokenize source file = .error error) :
    ∃ before stuck after scanner, source.toList = before ++ stuck :: after ∧
      error = ⟨.unrecognised stuck.toString, .ofBytes (byteLength before) file⟩ ∧
      Stuck stuck after ∧
      Relation.ReflTransGen Scanner.Step (.ofSource source file) scanner ∧
      (∀ next, ¬ scanner.Step next) ∧ scanner.offset = byteLength before ∧
      tokenize (String.ofList before) file =
        .ok (scanner.tokens.reverse ++ [.eof (.ofBytes (byteLength before) file)]) := by
  obtain ⟨final, reached, stops, answer⟩ := Scanner.exists_scan_tokenize source file
  obtain ⟨⟨before, left, place⟩, same⟩ := Scanner.exists_stands reached
  rw [Scanner.answer?, place.remainder?, failed] at answer
  cases left with
  | nil => cases answer
  | cons stuck after =>
      refine ⟨before, stuck, after, final, same.symm.trans place.source, ?_,
        Scanner.stuck_of_final stops place, reached, stops, place.offset,
        Scanner.tokenize_onSource reached place⟩
      have file_ : final.file = file := (Scanner.source_of_reached reached).2
      rw [← Except.error.inj (Option.some.inj answer), place.offset, file_]

/-- The error is at the byte of a character with which no lexeme starts, and holds just that
character: one that starts no lexeme anywhere, or a quotation mark without another one behind it on
its line. The source up to there has the tokens that the scan had found when it stopped, and an end
of input. -/
def Error.IsExact (error : Error) (source file : String) : Prop :=
  ∃ before stuck after scanner, source.toList = before ++ stuck :: after ∧
    error.cause = .unrecognised stuck.toString ∧ error.position.file = file ∧
    error.position.offset.toNat = byteLength before ∧
    startsLexeme stuck = false ∧ (stuck = '\x22' → '\x22' ∉ after.takeWhile (· != '\n')) ∧
    Relation.ReflTransGen Scanner.Step (.ofSource source file) scanner ∧
    (∀ next, ¬ scanner.Step next) ∧ scanner.offset = byteLength before ∧
    tokenize (String.ofList before) file = .ok (scanner.tokens.reverse ++ [.eof error.position])

/-- Where the tokenizer fails on a source of less than `2 ^ 32` bytes, its error is exact. Any source
in which every character starts a lexeme wherever it stands has tokens. -/
theorem tokenize_error_exact (source file : String) :
    (byteLength source.toList < 2 ^ 32 →
      ∀ error, tokenize source file = .error error → error.IsExact source file) ∧
    ((∀ c ∈ source.toList, startsLexeme c = true) → ∃ tokens, tokenize source file = .ok tokens) := by
  constructor
  · intro small error failed
    obtain ⟨before, stuck, after, scanner, divided, rfl, ⟨startsNone, unclosed⟩, found⟩ :=
      exists_stuck failed
    have within : byteLength before < 2 ^ 32 := by
      rw [divided, byteLength_append] at small
      omega
    exact ⟨before, stuck, after, scanner, divided, rfl, rfl, Position.toNat_ofBytes within file,
      startsNone, unclosed, found⟩
  · intro starts
    cases tokenized : tokenize source file with
    | ok tokens => exact ⟨tokens, rfl⟩
    | error error =>
        obtain ⟨before, stuck, after, _, divided, -, ⟨startsNone, -⟩, -⟩ := exists_stuck tokenized
        have member : stuck ∈ source.toList := by simp [divided]
        cases startsNone.symm.trans (starts stuck member)

/-- Behind the name the apostrophe is a tick, and the character between the apostrophes is stuck. Up
to it there is only the tick, where the source had a character literal to choose. -/
theorem tokenize_error_exact_tick :
    let error : Error := ⟨.unrecognised "@", .ofBytes 2 "shell"⟩
    byteLength "A'@'".toList < 2 ^ 32 ∧ tokenize "A'@'" "shell" = .error error ∧
      error.IsExact "A'@'" "shell" ∧
      (∀ c ∈ "A'a'".toList, startsLexeme c = true) ∧ ∃ tokens, tokenize "A'a'" "shell" = .ok tokens := by
  intro error
  have small : byteLength "A'@'".toList < 2 ^ 32 := by decide
  have failed : tokenize "A'@'" "shell" = .error error := by decide +kernel
  have starts : ∀ c ∈ "A'a'".toList, startsLexeme c = true := List.all_eq_true.mp (by decide)
  exact ⟨small, failed, (tokenize_error_exact "A'@'" "shell").1 small error failed, starts,
    (tokenize_error_exact "A'a'" "shell").2 starts⟩

/-! ### A mark far behind a name -/

/-- A name and, that many blanks behind it, a character with which no lexeme starts. -/
def farMark (blanks : Nat) : String :=
  String.ofList ('A' :: (List.replicate blanks ' ' ++ ['@']))

theorem tokenize_farMark (count : Nat) : tokenize (farMark (count + 1)) "shell" =
    .error ⟨.unrecognised "@", .ofBytes (count + 2) "shell"⟩ := by
  let spaces : List Char := List.replicate (count + 1) ' '
  have mark : Lexeme.divide (some .identifier) ['@'] = ([], ['@']) := by decide +kernel
  have gap : Lexeme.divide (some .identifier) (spaces ++ ['@']) = ([⟨none, spaces⟩], ['@']) := by
    rw [Lexeme.divide_spaces count (Lexeme.ends_cons.mpr (by decide)), mark]
  have kind : Kind.ofWord ['A'] = .identifier := by decide
  have word : Lexeme.TokenText .identifier ['A'] := kind ▸ .word (by decide) (List.forall_mem_nil _)
  have name : Lexeme.divide none (['A'] ++ (spaces ++ ['@'])) = _ :=
    Lexeme.divide_token word (Lexeme.ends_cons.mpr (by decide)) nofun nofun
  have length : byteLength (['A'] ++ spaces) = count + 2 := by
    have single : byteLength ['A'] = 1 := by decide
    rw [byteLength_append, single, Lexeme.byteLength_spaces, Nat.add_comm]
  have written : (farMark (count + 1)).toList = ['A'] ++ (spaces ++ ['@']) := String.toList_ofList
  rw [tokenize, written, name, gap]
  simp only [List.flatMap_cons, List.flatMap_nil, List.append_nil, length]
  rfl

/-- Where the offset of the mark has come round to zero, the error is at the name. -/
theorem not_isExact_farMark :
    ¬ ∀ error, tokenize (farMark (2 ^ 32 - 1)) "shell" = .error error →
      error.IsExact (farMark (2 ^ 32 - 1)) "shell" := by
  intro claim
  have count : 2 ^ 32 - 1 = 2 ^ 32 - 2 + 1 := by decide
  have start : Position.ofBytes (2 ^ 32 - 2 + 2) "shell" = .ofBytes 0 "shell" := by decide
  have failed := tokenize_farMark (2 ^ 32 - 2)
  rw [start, ← count] at failed
  obtain ⟨before, stuck, after, _, divided, -, -, here, startsNone, -⟩ := claim _ failed
  obtain rfl : before = [] := byteLength_eq_zero.mp here.symm
  rw [farMark, String.toList_ofList] at divided
  obtain rfl : 'A' = stuck := (List.cons.inj divided).1
  exact absurd startsNone (by decide)

end AdaExpressions
