import AdaExpressions.Proofs.Reading.Lookahead
import AdaExpressions.Proofs.Token.Lossless

/-!
# Errors are final

An error that is not fatal stands at a token, and no failure that is noted stands further on. So the
reading never came to anything behind the token after it, and whatever is put there changes nothing.
That needs offsets that grow along the tokens, as those of a source do as long as they fit 32 bits.

Results: `Setting.wholeExpression_alike`, `parse_rejected_at` (where an error stands),
`failure_final`.
-/

namespace AdaExpressions

/-! ### The furthest error -/

section

variable {error : Error} {failures : List Failure}

theorem furthestError_eq (error : Error) (failures : List Failure) :
    furthestError error failures = error ∨
      ∃ failure ∈ failures, furthestError error failures = failure.error := by
  unfold furthestError
  split
  next => exact .inl rfl
  next furthest found =>
    split
    next => exact .inr ⟨furthest, mem_of_furthestFailure? found, rfl⟩
    next => exact .inl rfl

theorem isFatal_of_furthestError (recoverable : (furthestError error failures).isFatal = false) :
    error.isFatal = false := by
  cases fatal : error.isFatal with
  | false => rfl
  | true =>
      have same : furthestError error failures = error := by
        unfold furthestError
        split <;> simp [fatal]
      rw [same, fatal] at recoverable
      cases recoverable

/-- A recoverable error gives way to nothing nearer, and no failure is further than what it gives
way to. -/
theorem le_furthestError (recoverable : error.isFatal = false) :
    error.position.offset ≤ (furthestError error failures).position.offset ∧
      ∀ failure ∈ failures,
        failure.position.offset ≤ (furthestError error failures).position.offset := by
  unfold furthestError
  split
  next none_ =>
    rw [furthestFailure?_eq_none.mp none_]
    exact ⟨UInt32.le_refl _, fun failure member => absurd member List.not_mem_nil⟩
  next furthest found =>
    have bound := offset_le_furthestFailure found
    split
    next further =>
      have further := of_decide_eq_true (Bool.and_eq_true_iff.mp further).2
      exact ⟨UInt32.le_of_lt further, bound⟩
    next nearer =>
      have near : furthest.position.offset ≤ error.position.offset := by
        refine UInt32.not_lt.mp fun further => nearer ?_
        rw [recoverable, decide_eq_true further]
        rfl
      exact ⟨UInt32.le_refl _, fun failure member => UInt32.le_trans (bound failure member) near⟩

end

namespace Setting

variable {setting other : Setting} {state first second : State} {place : Nat} {error : Error}

theorem wholeExpression_ne_undecided (agrees : state.Agrees setting) :
    setting.wholeExpression state ≠ .undecided := by
  rcases Rule.read_cases (.expr .expression) agrees with
    ⟨value, after, answer, _⟩ | ⟨failure, after, answer, _⟩
  · simp only [wholeExpression, Program.expr, answer]
    split <;> simp
  · simp only [wholeExpression, Program.expr, answer]
    simp

/-- Two readings in lockstep end with the same error if it is not fatal and stands before all tokens
behind the place. -/
theorem wholeExpression_alike (looks : setting.LooksAlike other place)
    (agrees : first.Agrees setting) (agreesSecond : second.Agrees other)
    (states : first.Alike place second)
    (rejected : setting.wholeExpression first = .rejected error)
    (recoverable : error.isFatal = false)
    (nearer : ∀ spot, place < spot → spot < setting.buffer.size →
      error.position.offset < (setting.buffer.token spot).span.start.offset) :
    other.wholeExpression second = .rejected error := by
  have alike : Outcome.Alike setting place ((Program.expr .expression).read setting first)
      ((Program.expr .expression).read other second) :=
    Rule.run_alike looks _ _ _ first second agrees states
  have decided := wholeExpression_ne_undecided agreesSecond
  -- No failure that stands behind the place is as near as the error.
  have apart {base : Error} {failures : List Failure}
      (found : furthestError base failures = error) :
      (∀ failure ∈ failures, ¬ failure.StandsBehind setting place) ∧
        ∀ spot, place < spot → spot < setting.buffer.size →
          base.position ≠ (setting.buffer.token spot).span.start := by
    have open_ := isFatal_of_furthestError (found ▸ recoverable)
    have near := found ▸ le_furthestError open_
    refine ⟨fun failure member => ?_, fun spot behind within here => ?_⟩
    · rintro ⟨spot, behind, within, here⟩
      have bound := near.2 failure member
      rw [Failure.position, here] at bound
      exact absurd (nearer spot behind within) (UInt32.not_lt.mpr bound)
    · have bound := near.1
      rw [here] at bound
      exact absurd (nearer spot behind within) (UInt32.not_lt.mpr bound)
  simp only [wholeExpression, read] at rejected decided ⊢
  revert alike rejected decided
  generalize (Program.expr .expression).read setting first = outcome,
    (Program.expr .expression).read other second = again
  rintro rejected (alike | alike | beyond | _) decided
  · simp only [looks.current alike, alike.failures] at rejected ⊢
    exact rejected
  · simp only [alike.failures] at rejected ⊢
    exact rejected
  · exfalso
    cases outcome with
    | exhausted =>
        dsimp only at rejected
        cases rejected
    | done value after =>
        dsimp only at rejected
        split at rejected
        next => cases rejected
        next =>
          obtain ⟨quiet, ahead⟩ := apart (Verdict.rejected.inj rejected)
          rcases beyond with ⟨behind, within⟩ | ⟨failure, member, behind⟩
          · exact ahead _ behind within rfl
          · exact quiet failure member behind
    | failed failure after =>
        have found := Verdict.rejected.inj rejected
        obtain ⟨quiet, ahead⟩ := apart found
        rcases beyond with fatal | ⟨spot, behind, within, here⟩ | ⟨failure, member, behind⟩
        · have open_ := isFatal_of_furthestError (found ▸ recoverable)
          have same : failure.error.isFatal = failure.isFatal := failure.objection.isFatal_cause _
          rw [same, fatal] at open_
          cases open_
        · refine ahead spot behind within ?_
          rw [← here]
          rfl
        · exact quiet failure member behind
  · exact absurd rfl decided

end Setting

/-! ### Whole token lists -/

/-- The recoverable failures that are noted while a token list is read. -/
def notedFailures (tokens : List Token) (file : String) (options : Options) : List Failure :=
  ((Parser.ofTokens tokens file options).rule (.expr .expression)).2.state.failures

/-- If the token list is rejected with an error that is not fatal, the error stands at a token, no
nearer than any failure that is noted; and every token list with the same tokens up to the one
behind it is rejected with the same error. -/
def RejectsFinally (tokens : List Token) (file : String) (options : Options) : Prop :=
  ∀ error, parse tokens file options = .rejected error → error.isFatal = false →
    ∃ place token, tokens[place]? = some token ∧ error.position = token.span.start ∧
      (∀ failure ∈ notedFailures tokens file options,
        failure.position.offset ≤ error.position.offset) ∧
      ∀ (others : List Token) (name : String),
        (∀ index ≤ place + 1, ∀ token, tokens[index]? = some token → others[index]? = some token) →
        parse others name options = .rejected error

section

variable {tokens others : List Token} {file name : String} {options : Options} {error : Error}
  {place index : Nat}

/-- An error that is not fatal stands at a token of the buffer, no nearer than what is noted. -/
theorem parse_rejected_at (rejected : parse tokens file options = .rejected error)
    (recoverable : error.isFatal = false) :
    (∃ spot < (Buffer.ofTokens tokens file).size,
      error.position = ((Buffer.ofTokens tokens file).token spot).span.start) ∧
    ∀ failure ∈ notedFailures tokens file options,
      failure.position.offset ≤ error.position.offset := by
  let setting := (Parser.ofTokens tokens file options).setting
  have some_ : 0 < setting.buffer.size := Nat.succ_pos _
  -- Where the error that gives way to what is noted stands, and what is noted, is known.
  have spotted {base : Error} {after : State}
      (found : furthestError base after.failures = error)
      (noted : notedFailures tokens file options = after.failures)
      (leads : (State.start setting.buffer).Leads setting (.call (.expr .expression)) after)
      (at_ : base.isFatal = false → ∃ spot < setting.buffer.size,
        base.position = (setting.buffer.token spot).span.start) :
      (∃ spot < setting.buffer.size,
        error.position = (setting.buffer.token spot).span.start) ∧
      ∀ failure ∈ notedFailures tokens file options,
        failure.position.offset ≤ error.position.offset := by
    have open_ := isFatal_of_furthestError (found ▸ recoverable)
    refine ⟨?_, fun failure member => ?_⟩
    · rcases furthestError_eq base after.failures with same | ⟨failure, member, same⟩
      · rw [← found, same]
        exact at_ open_
      · rcases (leads.notes failure).mp member with none_ | notes
        · cases none_
        · obtain ⟨_, spot, _, bound, here⟩ := notes.noted_at
          refine ⟨spot, bound.elim (fun start => start ▸ some_) id, ?_⟩
          rw [← found, same, ← here]
          rfl
    · rw [noted] at member
      rw [← found]
      exact (le_furthestError open_).2 failure member
  have rejected : setting.wholeExpression (.start setting.buffer) = .rejected error := rejected
  have noted : notedFailures tokens file options
      = (setting.read (.call (.expr .expression)) (.start setting.buffer)).2.failures := rfl
  rcases Rule.read_cases (.expr .expression) (State.start_agrees setting) with
    ⟨value, after, answer, reads, leads⟩ | ⟨failure, after, answer, reads, leads⟩
  · rw [answer] at noted
    simp only [Setting.wholeExpression, Program.expr, answer] at rejected
    split at rejected
    next => cases rejected
    next => exact spotted (Verdict.rejected.inj rejected) noted leads fun _ =>
        ⟨after.index, leads.within some_, rfl⟩
  · rw [answer] at noted
    simp only [Setting.wholeExpression, Program.expr, answer] at rejected
    refine spotted (Verdict.rejected.inj rejected) noted leads fun open_ => ?_
    have same : failure.error.isFatal = failure.isFatal := failure.objection.isFatal_cause _
    obtain ⟨spot, _, bound, here⟩ := reads.failed_at (same ▸ open_)
    refine ⟨spot, bound.elim (fun start => start ▸ some_) id, ?_⟩
    rw [← here]
    rfl

/-- A token of a list stands in the buffer at its index. -/
theorem Buffer.token_of_getElem? {token : Token} (found : tokens[index]? = some token)
    (file : String) :
    (ofTokens tokens file).token index = token ∧ index < (ofTokens tokens file).size := by
  obtain ⟨within, here⟩ := List.getElem?_eq_some_iff.mp found
  have some_ : tokens ≠ [] := List.ne_nil_of_length_pos (by omega)
  unfold ofTokens
  rw [List.getLast?_eq_some_getLast some_]
  dsimp only
  split
  next =>
    refine ⟨?_, by simp [size]; omega⟩
    by_cases last : index = tokens.length - 1
    · simp [Buffer.token, last, ← here, List.getLast_eq_getElem]
    · have before : index < tokens.length - 1 := by omega
      simp [Buffer.token, before, here]
  next => exact ⟨by simp [Buffer.token, found], by simp [size]; omega⟩

/-- The tokens of a source fill a buffer. -/
theorem Buffer.exists_toList_of_tokenize {source file : String} {tokens : List Token}
    (tokenized : tokenize source file = .ok tokens) :
    ∃ buffer : Buffer, tokens = buffer.toList := by
  obtain ⟨placed, closing, rfl, closed, _⟩ := Lexeme.tokenText_of_tokenize tokenized
  exact ⟨⟨placed.toArray, closing, closed⟩, rfl⟩

theorem Setting.looksAlike_of_getElem?
    (closed : (Buffer.ofTokens tokens file).size = tokens.length) (within : place < tokens.length)
    (agree : ∀ index ≤ place + 1, ∀ token,
      tokens[index]? = some token → others[index]? = some token) :
    (Parser.ofTokens tokens file options).setting.LooksAlike
      (Parser.ofTokens others name options).setting place := by
  have token : ∀ index ≤ place + 1, index < tokens.length →
      (Buffer.ofTokens others name).token index = (Buffer.ofTokens tokens file).token index := by
    intro index near bound
    have here : tokens[index]? = some tokens[index] := List.getElem?_eq_getElem bound
    rw [(Buffer.token_of_getElem? here file).1,
      (Buffer.token_of_getElem? (agree index near _ here) name).1]
  refine ⟨rfl, rfl, fun index near => token index (by omega) (by omega), fun index near => ?_,
    closed ▸ within⟩
  have kind : (Buffer.ofTokens others name).kind index = (Buffer.ofTokens tokens file).kind index :=
    congrArg Token.kind (token index (by omega) (by omega))
  show ((Buffer.ofTokens others name).kind index,
      if (Buffer.ofTokens others name).kind index = .eof then Kind.eof
      else (Buffer.ofTokens others name).kind (index + 1)) =
    ((Buffer.ofTokens tokens file).kind index,
      if (Buffer.ofTokens tokens file).kind index = .eof then Kind.eof
      else (Buffer.ofTokens tokens file).kind (index + 1))
  rw [kind]
  split
  next => rfl
  next more =>
    have bound := Buffer.succ_lt_size_of_ne_eof more
    rw [closed] at bound
    have next : (Buffer.ofTokens others name).kind (index + 1)
        = (Buffer.ofTokens tokens file).kind (index + 1) :=
      congrArg Token.kind (token (index + 1) (by omega) bound)
    rw [next]

end

/-- The error of a source that is shorter than `2 ^ 32` bytes is final. -/
theorem failure_final {source file : String} {tokens : List Token} (options : Options)
    (tokenized : tokenize source file = .ok tokens) (small : byteLength source.toList < 2 ^ 32) :
    RejectsFinally tokens file options := by
  intro error rejected recoverable
  have lossless := lossless_of_tokenize tokenized small
  obtain ⟨placed, closing, rfl, closed, _⟩ := Lexeme.tokenText_of_tokenize tokenized
  obtain ⟨⟨place, within, here⟩, furthest⟩ := parse_rejected_at rejected recoverable
  have size : (Buffer.ofTokens (placed ++ [closing]) file).size = (placed ++ [closing]).length := by
    simp [Buffer.ofTokens, closed, Buffer.size]
  have token : ∀ index < (placed ++ [closing]).length, (placed ++ [closing])[index]? =
      some ((Buffer.ofTokens (placed ++ [closing]) file).token index) := by
    intro index bound
    have found := List.getElem?_eq_getElem bound
    rw [(Buffer.token_of_getElem? found file).1, found]
  rw [size] at within
  refine ⟨place, _, token place within, here, furthest, fun others name agree => ?_⟩
  have looks : (Parser.ofTokens (placed ++ [closing]) file options).setting.LooksAlike
      (Parser.ofTokens others name options).setting place :=
    Setting.looksAlike_of_getElem? size within agree
  have room : place < (Buffer.ofTokens others name).size :=
    (Buffer.token_of_getElem? (agree place (Nat.le_succ place) _ (token place within)) name).2
  have agrees (tokens : List Token) (file : String) :=
    State.start_agrees (Parser.ofTokens tokens file options).setting
  refine Setting.wholeExpression_alike looks (agrees _ file) (agrees others name) ?_ rejected
    recoverable ?_
  · have rows (size : Nat) : (Memo.empty size).rows.size = size := Array.size_replicate
    refine ⟨rfl, Nat.zero_le place, rfl, fun key index _ => ?_, ?_⟩
    · exact (Memo.find?_empty _ key index).trans (Memo.find?_empty _ key index).symm
    · exact ⟨(rows _).symm ▸ size.symm ▸ within, (rows _).symm ▸ room⟩
  · -- Offsets grow along the tokens of a source.
    intro spot behind bound
    have bound : spot < (placed ++ [closing]).length := size ▸ bound
    have later := lossless.start_lt_start behind (token place within) (token spot bound)
    rw [here]
    exact UInt32.lt_iff_toNat_lt.mpr later

set_option maxRecDepth 4000 in
/-- A number behind a name is where reading ends, whatever comes after the number. -/
theorem failure_final_trailing :
    let tokens : List Token := [⟨.identifier, "f", .ofBytes 0 1 "shell"⟩,
      ⟨.number, "1", .ofBytes 2 1 "shell"⟩, ⟨.number, "2", .ofBytes 4 1 "shell"⟩,
      .eof (.ofBytes 5 "shell")]
    let error : Error := ⟨.trailing "1", .ofBytes 2 "shell"⟩
    tokenize "f 1 2" "shell" = .ok tokens ∧ parse tokens "shell" .strict = .rejected error ∧
      error.isFatal = false ∧ RejectsFinally tokens "shell" .strict := by
  intro tokens error
  have tokenized : tokenize "f 1 2" "shell" = .ok tokens := by decide +kernel
  have rejected : parse tokens "shell" .strict = .rejected error := by
    simp only [tokens, error]
    rfl
  have small : byteLength "f 1 2".toList < 2 ^ 32 := by decide
  exact ⟨tokenized, rejected, rfl, failure_final .strict tokenized small⟩

/-! ### Offsets that wrap -/

/-- A sum whose right side stands that many blanks behind its operator, and is cut off there. -/
def sumApart (blanks : Nat) : String :=
  String.ofList (['1', ' ', '+'] ++ (List.replicate blanks ' ' ++ ['(']))

theorem divide_sumApart (count : Nat) :
    Lexeme.divide none (sumApart (count + 1)).toList =
      ([⟨some .number, ['1']⟩, ⟨none, [' ']⟩, ⟨some .plus, ['+']⟩,
        ⟨none, List.replicate (count + 1) ' '⟩, ⟨some .openParen, ['(']⟩], []) := by
  let far : List Char := List.replicate (count + 1) ' ' ++ ['(']
  have opening : Lexeme.divide (some .plus) ['('] = ([⟨some .openParen, ['(']⟩], []) := by
    decide +kernel
  have gap : Lexeme.divide (some .plus) far = _ :=
    Lexeme.divide_spaces count (Lexeme.ends_cons.mpr (by decide))
  have sign : Lexeme.TokenText .plus ['+'] :=
    .delimiter (show Kind.plus ∈ Kind.delimiters by decide)
  have plus : Lexeme.divide (some .number) (['+'] ++ far) = _ :=
    Lexeme.divide_token sign (Lexeme.ends_cons.mpr (by decide)) nofun nofun
  have space : Lexeme.divide (some .number) ([' '] ++ (['+'] ++ far)) = _ :=
    Lexeme.divide_spaces 0 (Lexeme.ends_cons.mpr (by decide))
  have digit : Lexeme.TokenText .number ['1'] := .number (by decide)
  have one : Lexeme.divide none (['1'] ++ ([' '] ++ (['+'] ++ far))) = _ :=
    Lexeme.divide_token digit (Lexeme.ends_cons.mpr (by decide)) nofun nofun
  have written : (sumApart (count + 1)).toList = ['1'] ++ ([' '] ++ (['+'] ++ far)) :=
    String.toList_ofList
  rw [written, one, space, plus, gap, opening]
  rfl

theorem tokenize_sumApart (count : Nat) :
    tokenize (sumApart (count + 1)) "shell" = .ok
      [⟨.number, "1", .ofBytes 0 1 "shell"⟩, ⟨.plus, "+", .ofBytes 2 1 "shell"⟩,
        ⟨.openParen, "(", .ofBytes (count + 4) 1 "shell"⟩,
        .eof (.ofBytes (count + 5) "shell")] := by
  have single (c : Char) (size : c.utf8Size = 1) : byteLength [c] = 1 := size
  have place : 0 + 1 + 1 + 1 + (count + 1) = count + 4 := by omega
  unfold tokenize
  rw [divide_sumApart]
  simp only [placeLexemes, Lexeme.byteLength_spaces, single '1' (by decide), single ' ' (by decide),
    single '+' (by decide), single '(' (by decide), place]

set_option maxRecDepth 4000 in
/-- Where the offset of the parenthesis has come round to zero, the error is that of the operator in
front of it, and tokens far behind it repair it. -/
theorem not_rejectsFinally_sumApart :
    ¬ ∀ tokens, tokenize (sumApart (2 ^ 32 - 3)) "shell" = .ok tokens →
      RejectsFinally tokens "shell" .lenient := by
  let one : Token := ⟨.number, "1", .ofBytes 0 1 "shell"⟩
  let plus : Token := ⟨.plus, "+", .ofBytes 2 1 "shell"⟩
  let opening : Token := ⟨.openParen, "(", .ofBytes 0 1 "shell"⟩
  let cut : List Token := [one, plus, opening, .eof (.ofBytes 1 "shell")]
  let two : Token := ⟨.number, "2", .ofBytes 1 1 "shell"⟩
  let whole : List Token := [one, plus, opening, two, ⟨.closeParen, ")", .ofBytes 2 1 "shell"⟩,
    .eof (.ofBytes 3 "shell")]
  intro claim
  have tokenized : tokenize (sumApart (2 ^ 32 - 3)) "shell" = .ok cut := by
    have count : 2 ^ 32 - 3 = 2 ^ 32 - 4 + 1 := by decide
    have start : Span.ofBytes (2 ^ 32 - 4 + 4) 1 "shell" = .ofBytes 0 1 "shell" := by decide
    have stop : Position.ofBytes (2 ^ 32 - 4 + 5) "shell" = .ofBytes 1 "shell" := by decide
    rw [count, tokenize_sumApart, start, stop]
  have rejected :
      parse cut "shell" .lenient = .rejected ⟨.trailing "+", .ofBytes 2 "shell"⟩ := by
    simp only [cut, one, plus, opening]
    rfl
  have accepted : parse whole "shell" .lenient =
      .accepted (.ofBinary (.literal .number one) .plus (.literal .number two)) := by
    simp only [whole, one, plus, opening, two]
    rfl
  obtain ⟨place, token, found, here, _, final⟩ := claim cut tokenized _ rejected rfl
  have operator : place = 1 := by
    rcases place with _ | _ | _ | _ | place
    · cases found
      exact absurd here (by decide)
    · rfl
    · cases found
      exact absurd here (by decide)
    · cases found
      exact absurd here (by decide)
    · cases found
  subst operator
  have again := final whole "shell" fun index near token found => by
    rcases index with _ | _ | _ | index
    · exact found
    · exact found
    · exact found
    · omega
  rw [again] at accepted
  cases accepted

end AdaExpressions
