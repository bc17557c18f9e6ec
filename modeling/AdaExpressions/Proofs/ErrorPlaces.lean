import AdaExpressions.Proofs.Diagnostic.Caret
import AdaExpressions.Proofs.Grammar.Soundness
import AdaExpressions.Proofs.Reading.Verdict
import AdaExpressions.Proofs.Reading.Violations
import AdaExpressions.Proofs.Token.Failure

/-!
# Errors and the text they point at

The error on a source stands between two characters of it. The text that it holds is what the source
goes on with there, or the mark of the end where the source has ended; an operator that it objects
to has its words from there on. So there is always a line that holds the place, and the report on the
error shows it, unless the caret would be further to the right than column 65535.

Results: `Error.StandsAt.standsBefore` (an error at a token), `parse_rejected_places`,
`error_places`, and `no_report_farMark` (a source whose error is too far to the right).
-/

namespace AdaExpressions

/-- The operator that stands where it should not; of two the second. -/
def Cause.operator? : Cause → Option String
  | .chained operator => some operator
  | .mixed _ second => some second
  | _ => none

/-- The error stands between two characters, in front of the text that it holds. At the end of the
source that text is the mark of the end. -/
def Error.StandsBefore (error : Error) (source : List Char) : Prop :=
  ∃ before after, source = before ++ after ∧ byteLength before = error.position.offset.toNat ∧
    ∀ text, error.cause.found? = some text → text.toList <+: after ∨ text = "EOF" ∧ after = []

/-- The operator that the error objects to, if it does, has its words where the error stands. -/
def Error.MeetsOperator (error : Error) (tokens : List Token) : Prop :=
  ∀ operator, error.cause.operator? = some operator →
    ∃ earlier words later, ∃ op : Op, tokens = earlier ++ words ++ later ∧
      words.map Token.kind = op.words ∧ op.spelling = operator ∧
      words.head?.map (fun token => token.span.start) = some error.position

/-! ### Tokens in the source -/

theorem getLast?_placeLexemes (file : String) (offset : Nat) (lexemes : List Lexeme) :
    ∃ position, (placeLexemes file offset lexemes).getLast? = some (.eof position) := by
  induction lexemes generalizing offset with
  | nil => exact ⟨_, rfl⟩
  | cons lexeme more ih =>
      obtain ⟨position, last⟩ := ih (offset + byteLength lexeme.text)
      refine ⟨position, ?_⟩
      rw [placeLexemes]
      split
      next => exact last
      next => rw [List.getLast?_cons, last]; rfl

/-- In front of what a token stands. -/
theorem exists_before_token {source file : String} {tokens : List Token} {token : Token}
    (tokenized : tokenize source file = .ok tokens) (small : byteLength source.toList < 2 ^ 32)
    (member : token ∈ tokens) :
    ∃ before after, source.toList = before ++ after ∧ byteLength before = token.start ∧
      (token.text.toList <+: after ∨ token.text = "EOF" ∧ after = []) := by
  have lossless := lossless_of_tokenize tokenized small
  obtain ⟨closing, last, -, start, -⟩ := lossless.closing
  rw [← List.dropLast_append_getLast? closing last] at member
  rcases List.mem_append.mp member with inside | here
  · obtain ⟨-, -, after, before, divided, start, -⟩ := lossless.texts token inside
    exact ⟨before, token.text.toList ++ after, divided, start, .inl (List.prefix_append _ _)⟩
  · obtain rfl := List.mem_singleton.mp here
    refine ⟨source.toList, [], (List.append_nil _).symm, start.symm, .inr ⟨?_, rfl⟩⟩
    unfold tokenize at tokenized
    split at tokenized
    next lexemes divided =>
      cases tokenized
      obtain ⟨position, last'⟩ := getLast?_placeLexemes file 0 lexemes
      rw [last] at last'
      rw [Option.some.inj last']
      rfl
    next => cases tokenized

theorem Setting.token_mem_toList {setting : Setting} {index : Nat}
    (within : index < setting.buffer.size) :
    setting.buffer.token index ∈ setting.buffer.toList := by
  rw [← slice_toList, slice_joined index (Nat.zero_le index) within]
  exact List.mem_append_right _ List.mem_cons_self

/-! ### Errors -/

theorem Error.StandsAt.operator? {error : Error} {token : Token} (stands : error.StandsAt token) :
    error.cause.operator? = none := by
  obtain ⟨cause, position⟩ := error
  have text := stands.text
  cases cause with
  | chained operator => cases text
  | mixed first second => cases text
  | _ => rfl

/-- An error at a token of the source stands in front of its text. -/
theorem Error.StandsAt.standsBefore {source file : String} {tokens : List Token} {token : Token}
    {error : Error} (stands : error.StandsAt token) (tokenized : tokenize source file = .ok tokens)
    (small : byteLength source.toList < 2 ^ 32) (member : token ∈ tokens) :
    error.StandsBefore source.toList := by
  obtain ⟨before, after, divided, start, text⟩ := exists_before_token tokenized small member
  refine ⟨before, after, divided, by rw [start, stands.position]; rfl, fun found held => ?_⟩
  obtain rfl := Option.some.inj (stands.text.symm.trans held)
  exact text

/-- The tokens from the first word of an operator on start with all its words. -/
theorem Setting.WordsAt.exists_words {setting : Setting} {op : Op} {place : Nat}
    (words : setting.WordsAt op.words place) :
    ∃ earlier text later, setting.buffer.toList = earlier ++ text ++ later ∧
      text.map Token.kind = op.words ∧ text.head? = some (setting.buffer.token place) := by
  obtain ⟨some_, within⟩ := words.operator
  refine ⟨setting.slice 0 place, setting.slice place (place + op.words.length),
    setting.slice (place + op.words.length) setting.buffer.size, ?_, words.slice, ?_⟩
  · rw [slice_append place (Nat.zero_le _) (Nat.le_of_lt some_),
      slice_append _ (Nat.zero_le _) (Nat.le_of_lt within), slice_toList]
  · rw [slice_cons some_]
    rfl

/-- The error on the tokens of a source stands in front of what it is about. -/
theorem parse_rejected_places {source file name : String} {tokens : List Token} {options : Options}
    {error : Error} (tokenized : tokenize source file = .ok tokens)
    (small : byteLength source.toList < 2 ^ 32)
    (rejected : parse tokens name options = .rejected error) :
    error.StandsBefore source.toList ∧ error.MeetsOperator tokens := by
  obtain ⟨buffer, rfl⟩ := Buffer.exists_toList_of_tokenize tokenized
  obtain ⟨reading, reads, ends⟩ := parse_toList_ends buffer name options
  rw [rejected] at ends
  have recoverable {spot : Nat} (within : spot < buffer.size)
      (stands : error.StandsAt (buffer.token spot)) :
      error.StandsBefore source.toList ∧ error.MeetsOperator buffer.toList := by
    have member := @Setting.token_mem_toList ⟨buffer, options, true⟩ spot within
    refine ⟨stands.standsBefore tokenized small member, fun operator held => ?_⟩
    rw [stands.operator?] at held
    cases held
  cases ends with
  | leftOver _ within stands => exact recoverable within stands
  | failed _ within stands => exact recoverable within stands
  | @fatal failure fatal =>
      obtain ⟨token, objection⟩ := failure
      cases objection with
      | violation violation =>
          obtain ⟨place, rfl, words⟩ := reads.operatorFrom trivial
          obtain ⟨some_, within⟩ := words.operator
          have member := Setting.token_mem_toList (Nat.lt_trans some_ within)
          obtain ⟨before, after, divided, start, -⟩ := exists_before_token tokenized small member
          obtain ⟨earlier, text, later, whole, kinds, first⟩ := words.exists_words
          refine ⟨⟨before, after, divided, start, fun text held => ?_⟩, fun operator held => ?_⟩
          · cases violation <;> cases held
          · refine ⟨earlier, text, later, violation.operator, whole, kinds, ?_, by rw [first]; rfl⟩
            cases violation <;> exact Option.some.inj held
      | _ => cases fatal

/-- A character at which no lexeme starts is what the error on it holds. -/
theorem tokenize_error_standsBefore {source file : String} {error : Error}
    (raised : tokenize source file = .error error) (small : byteLength source.toList < 2 ^ 32) :
    error.StandsBefore source.toList ∧ error.cause.operator? = none := by
  unfold tokenize at raised
  split at raised
  next => cases raised
  next lexemes stuck rest divided =>
    cases raised
    have whole := Lexeme.divide_append none source.toList
    rw [divided] at whole
    have passed : byteLength (lexemes.flatMap Lexeme.text) < 2 ^ 32 := by
      rw [← whole, byteLength_append] at small
      exact Nat.lt_of_le_of_lt (Nat.le_add_right _ _) small
    refine ⟨⟨lexemes.flatMap Lexeme.text, stuck :: rest, whole.symm,
      (Position.toNat_ofBytes passed file).symm, fun text held => .inl ?_⟩, rfl⟩
    obtain rfl := Option.some.inj held
    exact ⟨rest, by simp⟩

/-- The error on a source of less than `2 ^ 32` bytes stands between two characters of it, in front
of the text that it holds or of the operator that it objects to. A line of the source holds that
place, and the report on the error ends in the line and a caret below it; only where the caret would
be further to the right than column 65535 there is no report. -/
theorem error_places {source file name : String} {options : Options} {error : Error}
    (small : byteLength source.toList < 2 ^ 32)
    (raised : tokenize source file = .error error ∨
      ∃ tokens, tokenize source file = .ok tokens ∧ parse tokens name options = .rejected error) :
    error.StandsBefore source.toList ∧
      (error.cause.operator? ≠ none →
        ∃ tokens, tokenize source file = .ok tokens ∧ error.MeetsOperator tokens) ∧
      ∃ line, lineAt source error.position.offset = some line ∧
        line.HoldsAt source.toList error.position.offset.toNat ∧
        Report.ShowsLine error source line := by
  obtain ⟨stands, meets⟩ : error.StandsBefore source.toList ∧ (error.cause.operator? ≠ none →
      ∃ tokens, tokenize source file = .ok tokens ∧ error.MeetsOperator tokens) := by
    rcases raised with raised | ⟨tokens, tokenized, rejected⟩
    · obtain ⟨stands, none_⟩ := tokenize_error_standsBefore raised small
      exact ⟨stands, fun some_ => absurd none_ some_⟩
    · obtain ⟨stands, meets⟩ := parse_rejected_places tokenized small rejected
      exact ⟨stands, fun _ => ⟨tokens, tokenized, meets⟩⟩
  obtain ⟨before, after, divided, start, -⟩ := id stands
  obtain ⟨_, -, found⟩ := exists_lineAt divided start
  exact ⟨stands, meets, _, found, lineAt_eq_some_iff.mp found, Report.showsLine_of_lineAt found⟩

set_option maxRecDepth 4000 in
/-- Mixed operators on two lines: the second one is pointed at. -/
theorem error_places_mixed :
    let source := "A and then B\n  or else C"
    let tokens : List Token := [⟨.identifier, "A", .ofBytes 0 1 "shell"⟩,
      ⟨.kwAnd, "and", .ofBytes 2 3 "shell"⟩, ⟨.kwThen, "then", .ofBytes 6 4 "shell"⟩,
      ⟨.identifier, "B", .ofBytes 11 1 "shell"⟩, ⟨.kwOr, "or", .ofBytes 15 2 "shell"⟩,
      ⟨.kwElse, "else", .ofBytes 18 4 "shell"⟩, ⟨.identifier, "C", .ofBytes 23 1 "shell"⟩,
      .eof (.ofBytes 24 "shell")]
    let error : Error := ⟨.mixed "and then" "or else", .ofBytes 15 "shell"⟩
    byteLength source.toList < 2 ^ 32 ∧ tokenize source "shell" = .ok tokens ∧
      parse tokens "shell" .strict = .rejected error ∧
      error.StandsBefore source.toList ∧
      (error.cause.operator? ≠ none →
        ∃ tokens, tokenize source "shell" = .ok tokens ∧ error.MeetsOperator tokens) ∧
      ∃ line, lineAt source error.position.offset = some line ∧
        line.HoldsAt source.toList error.position.offset.toNat ∧
        Report.ShowsLine error source line := by
  intro source tokens error
  have small : byteLength source.toList < 2 ^ 32 := by decide
  have tokenized : tokenize source "shell" = .ok tokens := by decide +kernel
  have rejected : parse tokens "shell" .strict = .rejected error := by
    simp only [tokens, error]
    rfl
  exact ⟨small, tokenized, rejected, error_places small (.inr ⟨tokens, tokenized, rejected⟩)⟩

/-- The mark is 70000 bytes behind the start of its line, and there is no report on its error. -/
theorem no_report_farMark :
    let source := farMark 69999
    let error : Error := ⟨.unrecognised "@", .ofBytes 70000 "shell"⟩
    byteLength source.toList < 2 ^ 32 ∧ tokenize source "shell" = .error error ∧
      Report.render? error source "shell" = none := by
  intro source error
  let row : List Char := List.replicate 69999 ' '
  have size : byteLength ('A' :: row) = 70000 := by
    rw [byteLength_cons, Lexeme.byteLength_spaces]
    rfl
  have divided : source.toList = 'A' :: row ++ ['@'] := String.toList_ofList
  have plain : lineBefore ('A' :: row) = 'A' :: row := by
    refine List.rtakeWhile_eq_self_iff.mpr fun c member => ?_
    rcases List.mem_cons.mp member with rfl | later
    · decide
    · rw [List.eq_of_mem_replicate later]
      decide
  have start : ('A' :: row).dropWhile Report.isIndent = 'A' :: row := rfl
  refine ⟨?_, tokenize_farMark 69998, Report.render?_eq_none divided ?_ ?_ ?_⟩
  · rw [divided, byteLength_append, size]
    decide
  · rw [size]
    decide
  · have none_ : ('A' :: row ++ lineAfter ['@']).takeWhile Report.isIndent = [] := rfl
    rw [Report.OutsideIndent, plain, none_]
    exact Nat.zero_le _
  · rw [plain, start, size]
    decide

end AdaExpressions
