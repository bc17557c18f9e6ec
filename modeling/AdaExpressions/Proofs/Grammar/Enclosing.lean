import AdaExpressions.Expr.Shape
import AdaExpressions.Proofs.Grammar.Pairs
import AdaExpressions.Proofs.Grammar.Parentheses
import AdaExpressions.Proofs.Relabelling.Kinds

/-!
# An expression between parentheses

What a token list is read as, it is read as between parentheses too, one place further on: where the
list ends there is a closing parenthesis, which rules do not tell from the end of the input, and no
rule can take it, since all that are open in the list are closed in it. What the parentheses make of
the expression is then told by one question about the list itself: whether a conditional expression
is a start of it and not the whole.

Results: `Reads.enclosed`, `parse_between_parentheses`.
-/

namespace AdaExpressions

/-! ### One place further on -/

/-- The outer buffer has the tokens of the inner one one place further on, and a closing parenthesis
where the inner one ends; before that place every parenthesis is closed. -/
structure Setting.Encloses (outer inner : Setting) (place : Nat) : Prop where
  options : outer.options = inner.options
  token : ∀ index < place, outer.buffer.token (index + 1) = inner.buffer.token index
  ends : inner.buffer.kind place = .eof
  closes : outer.buffer.kind (place + 1) = .closeParen
  balanced : inner.buffer.depth place = 0

/-- From the outer buffer the program reads the same, one place further on. -/
def Reading.CarriesOver (outer : Setting) {α : Type} (program : Program α) (index : Nat) :
    Reading α → Prop
  | .done value stop => Reads outer program (index + 1) (.done value (stop + 1))
  | .failed failure => ∃ other, other.objection = failure.objection ∧
      Reads outer program (index + 1) (.failed other)

/-- A program that goes on with another one carries over as that one does. -/
theorem Reading.CarriesOver.of_rest {outer : Setting} {index middle : Nat} {α : Type}
    {program next : Program α} {reading : Reading α}
    (carries : reading.CarriesOver outer next middle)
    (reads : ∀ {reading : Reading α}, Reads outer next (middle + 1) reading →
      Reads outer program (index + 1) reading) :
    reading.CarriesOver outer program index := by
  cases reading with
  | done value stop => exact reads carries
  | failed failure =>
      obtain ⟨other, same, readsNext⟩ := carries
      exact ⟨other, same, reads readsNext⟩

namespace Setting.Encloses

variable {outer inner : Setting} {place index stop : Nat}

theorem kind (encloses : outer.Encloses inner place) (before : index < place) :
    outer.buffer.kind (index + 1) = inner.buffer.kind index :=
  congrArg Token.kind (encloses.token index before)

theorem stop_le {α : Type} {program : Program α} {value : α}
    (encloses : outer.Encloses inner place)
    (reads : Reads inner program index (.done value stop)) (near : index ≤ place) :
    stop ≤ place :=
  Nat.le_of_not_lt fun past => reads.kind_ne_eof place near past encloses.ends

theorem endSeen (encloses : outer.Encloses inner place) (near : index ≤ place) :
    EndSeen (inner.kindsAt index) (outer.kindsAt (index + 1)) := by
  have closed : Kind.closeParen ≠ .eof := by decide
  simp only [Setting.kindsAt]
  by_cases last : index = place
  · subst last
    rw [encloses.ends, encloses.closes, if_pos rfl, if_neg closed]
    exact .behind _
  · have before : index < place := by omega
    rw [encloses.kind before]
    by_cases ended : inner.buffer.kind index = .eof
    · rw [if_pos ended, if_pos ended]
      exact .before _
    · rw [if_neg ended, if_neg ended]
      by_cases next : index + 1 = place
      · rw [next, encloses.ends, encloses.closes]
        exact .last _
      · rw [encloses.kind (by omega : index + 1 < place)]
        exact .before _

/-- How a program goes on that does not tell the end of the input from a closing parenthesis. -/
theorem next_eq {α : Type} {next : Kind → Program α} (encloses : outer.Encloses inner place)
    (near : index ≤ place) (same : next .eof = next .closeParen) :
    next (inner.buffer.kind index) = next (outer.buffer.kind (index + 1)) := by
  by_cases last : index = place
  · rw [last, encloses.ends, encloses.closes, same]
  · rw [encloses.kind (by omega : index < place)]

theorem extent (encloses : outer.Encloses inner place) (some_ : index < stop)
    (near : stop ≤ place) : outer.extent (index + 1) (stop + 1) = inner.extent index stop := by
  have last : max (index + 1) (stop + 1 - 1) = max index (stop - 1) + 1 := by omega
  rw [Setting.extent, Setting.extent, last, encloses.token _ (by omega),
    encloses.token _ (by omega)]

/-- A token that is taken is in front of the place. -/
theorem reads_take {kind : Kind} (encloses : outer.Encloses inner place) (near : index ≤ place)
    (found : inner.buffer.kind index = kind) (more : kind ≠ .eof) :
    Reads outer (.take kind) (index + 1)
      (.done (inner.buffer.token index) (inner.buffer.next index + 1)) := by
  subst found
  have before : index < place :=
    Nat.lt_of_le_of_ne near fun here => more (here ▸ encloses.ends)
  have taken := Program.reads_take (encloses.kind before) more
  rw [encloses.token index before] at taken
  rwa [Buffer.next_of_ne_eof more]

/-- A token that is missing at the end of the input is missing at the closing parenthesis too. -/
theorem reads_takeFailed {kind : Kind} (encloses : outer.Encloses inner place) (near : index ≤ place)
    (missing : inner.buffer.kind index ≠ kind) (apart : index = place → kind ≠ .closeParen) :
    ∃ other : Failure, other.objection = .expected kind ∧
      Reads outer (.take kind) (index + 1) (.failed other) := by
  refine ⟨_, rfl, .takeFailed fun found => ?_⟩
  by_cases last : index = place
  · subst last
    exact apart rfl (found.symm.trans encloses.closes)
  · exact missing ((encloses.kind (by omega : index < place)).symm.trans found)

end Setting.Encloses

/-- What is read from the inner buffer is read from the outer one. A program that is about to take
`pending` closing parentheses runs where as many are open, so it does not come to the place. -/
theorem Reads.enclosed {inner outer : Setting} {place : Nat}
    (encloses : outer.Encloses inner place) {α : Type} {program : Program α} {pending index : Nat}
    {reading : Reading α} (reads : Reads inner program index reading)
    (pairs : program.Pairs pending) (near : index ≤ place)
    (opened : pending ≤ inner.buffer.depth index) :
    reading.CarriesOver outer program index := by
  have isFatal {one other : Failure} (same : other.objection = one.objection) :
      other.isFatal = one.isFatal := congrArg Objection.isFatal same
  induction reads generalizing pending with
  | yield => exact .yield
  | @andThen _ _ _ _ index middle value reading first next ihFirst ihNext =>
      have bound := encloses.stop_le first near
      cases pairs with
      | andThen pairsFirst pairsNext =>
          have level := first.depth_eq pairsFirst
          have readsFirst := ihFirst pairsFirst near (by omega)
          exact (ihNext (pairsNext value) bound (by omega)).of_rest (.andThen readsFirst)
      | taking more after rest =>
          rcases first.readsBy with ⟨found, same⟩ | ⟨_, same⟩
          · cases same
            have level := Buffer.depth_next found more
            have taken := encloses.reads_take near found more
            exact (ihNext (rest _) bound (by omega)).of_rest (.andThen taken)
          · cases same
      | peek same rest =>
          cases first.readsBy
          have again := ihNext (rest _) near opened
          rw [same _ _ (encloses.endSeen near)] at again
          exact again.of_rest (.andThen .peek)
      | nextKind same rest =>
          cases first.unique Program.reads_nextKind
          have again := ihNext (rest _) near opened
          rw [encloses.next_eq near same] at again
          exact again.of_rest (.andThen Program.reads_nextKind)
  | @andThenFailed _ _ _ _ index failure first ih =>
      cases pairs with
      | andThen pairsFirst pairsNext =>
          obtain ⟨other, same, readsFirst⟩ := ih pairsFirst near (by omega)
          exact ⟨other, same, .andThenFailed readsFirst⟩
      | @taking _ rest _ kind _ more after _ =>
          rcases first.readsBy with ⟨_, same⟩ | ⟨missing, same⟩
          · cases same
          · cases same
            -- At the place itself no parenthesis is open any more.
            have apart : index = place → kind ≠ .closeParen := by
              rintro rfl rfl
              have balanced := encloses.balanced
              rw [Kind.nesting] at after
              omega
            obtain ⟨other, same, fails⟩ := encloses.reads_takeFailed near missing apart
            exact ⟨other, same, .andThenFailed fails⟩
      | peek => cases first.readsBy
      | nextKind => cases first.unique Program.reads_nextKind
  | @fail _ objection index => exact ⟨⟨outer.buffer.token (index + 1), objection⟩, rfl, .fail⟩
  | take found =>
      obtain ⟨_, _, more⟩ := pairs.pairsBy
      exact encloses.reads_take near found more
  | takeFailed missing =>
      obtain ⟨_, other, _⟩ := pairs.pairsBy
      exact encloses.reads_takeFailed near missing fun _ same => absurd (same ▸ other) (by decide)
  | peek => exact pairs.pairsBy.elim
  | forbid allowed => exact .forbid (encloses.options ▸ allowed)
  | forbidFailed rejected => exact ⟨_, rfl, .forbidFailed (encloses.options ▸ rejected)⟩
  | attempt part ih =>
      obtain ⟨rfl, pairsPart⟩ := pairs.pairsBy
      exact .attempt (ih pairsPart near opened)
  | attemptNone part recoverable ih =>
      obtain ⟨rfl, pairsPart⟩ := pairs.pairsBy
      obtain ⟨other, same, readsPart⟩ := ih pairsPart near opened
      exact .attemptNone readsPart ((isFatal same).trans recoverable)
  | attemptFailed part fatal ih =>
      obtain ⟨rfl, pairsPart⟩ := pairs.pairsBy
      obtain ⟨other, same, readsPart⟩ := ih pairsPart near opened
      exact ⟨other, same, .attemptFailed readsPart ((isFatal same).trans fatal)⟩
  | extent part ih =>
      obtain ⟨rfl, moves, pairsPart⟩ := pairs.pairsBy
      have whole := encloses.extent (moves _ _ _ _ part) (encloses.stop_le part near)
      rw [← whole]
      exact .extent (ih pairsPart near opened)
  | extentFailed part ih =>
      obtain ⟨rfl, _, pairsPart⟩ := pairs.pairsBy
      obtain ⟨other, same, readsPart⟩ := ih pairsPart near opened
      exact ⟨other, same, .extentFailed readsPart⟩
  | iterateStop step ih =>
      obtain ⟨rfl, pairsStep⟩ := pairs.pairsBy
      exact .iterateStop (ih (pairsStep _) near opened)
  | iterateNext step rest ihStep ihRest =>
      obtain ⟨rfl, pairsStep⟩ := pairs.pairsBy
      have level := step.depth_eq (pairsStep _)
      have readsStep := ihStep (pairsStep _) near opened
      have bound := encloses.stop_le step near
      exact (ihRest (.iterate _ pairsStep) bound (by omega)).of_rest (.iterateNext readsStep)
  | iterateFailed step ih =>
      obtain ⟨rfl, pairsStep⟩ := pairs.pairsBy
      obtain ⟨other, same, readsStep⟩ := ih (pairsStep _) near opened
      exact ⟨other, same, .iterateFailed readsStep⟩
  | remember call ih =>
      obtain rfl := pairs.pairsBy
      exact (ih (.call _) near opened).of_rest .remember
  | @call rule index reading body ih =>
      obtain rfl := pairs.pairsBy
      exact (ih rule.body_pairs near opened).of_rest .call

/-! ### Whole token lists -/

/-- A conditional expression is read from the first token, and leaves others. -/
def conditionalFallsShort (tokens : List Token) (file : String) (options : Options) : Bool :=
  match (Parser.ofTokens tokens file options).rule (.expr .conditional) with
  | (.accepted _, after) => after.hasTokens
  | _ => false

theorem conditionalFallsShort_iff {tokens : List Token} {file : String} {options : Options} :
    conditionalFallsShort tokens file options = true ↔
      ∃ tree stop, Reads (Parser.ofTokens tokens file options).setting (.expr .conditional) 0
        (.done tree stop) ∧ (Buffer.ofTokens tokens file).kind stop ≠ .eof := by
  have agrees := State.start_agrees (Parser.ofTokens tokens file options).setting
  unfold conditionalFallsShort Parser.rule Parser.read
  rcases Rule.read_cases (.expr .conditional) agrees with
    ⟨value, after, answer, reads, _⟩ | ⟨failure, after, answer, reads, _⟩
  · have answer : (Parser.ofTokens tokens file options).setting.read (.call (.expr .conditional))
        (Parser.ofTokens tokens file options).state = (.accepted value, after) := answer
    rw [answer]
    refine ⟨fun more => ⟨value, after.index, reads, bne_iff_ne.mp more⟩, ?_⟩
    rintro ⟨_, _, again, more⟩
    cases reads.unique again
    exact bne_iff_ne.mpr more
  · have answer : (Parser.ofTokens tokens file options).setting.read (.call (.expr .conditional))
        (Parser.ofTokens tokens file options).state = (.rejected failure.error, after) := answer
    rw [answer]
    constructor
    · intro accepted
      cases accepted
    · rintro ⟨_, _, again, _⟩
      cases reads.unique again

section

variable {tokens : List Token} {file name : String} {options : Options} {inner : Expr}
variable {opening closing : Token}

theorem Buffer.kind_ofTokens_ne_eof {index : Nat} (more : ∀ token ∈ tokens, token.kind ≠ .eof)
    (within : index < tokens.length) : (ofTokens tokens file).kind index ≠ .eof := by
  have found := List.getElem?_eq_getElem within
  rw [kind, (token_of_getElem? found file).1]
  exact more _ (List.getElem_mem within)

theorem Buffer.kind_ofTokens_length (tokens : List Token) (file : String) :
    (ofTokens tokens file).kind tokens.length = .eof := by
  rw [kind_ofTokens, List.getElem?_eq_none (by simp)]
  rfl

/-- Tokens that are accepted are read to the last one. -/
theorem reads_of_accepted (more : ∀ token ∈ tokens, token.kind ≠ .eof)
    (accepted : parse tokens file options = .accepted inner) :
    Reads (Parser.ofTokens tokens file options).setting (.expr .expression) 0
      (.done inner tokens.length) := by
  obtain ⟨stop, reads, ends⟩ := parse_accepted_iff.mp accepted
  have bound : stop ≤ tokens.length := Nat.le_of_not_lt fun past =>
    reads.kind_ne_eof _ (Nat.zero_le _) past (Buffer.kind_ofTokens_length tokens file)
  have reached : ¬ stop < tokens.length := fun short =>
    Buffer.kind_ofTokens_ne_eof more short ends
  rwa [show tokens.length = stop by omega]

/-- Around tokens that are read to the last one. -/
theorem encloses_ofTokens (closes : closing.kind = .closeParen)
    (reads : Reads (Parser.ofTokens tokens file options).setting (.expr .expression) 0
      (.done inner tokens.length)) :
    (Parser.ofTokens (opening :: tokens ++ [closing]) name options).setting.Encloses
      (Parser.ofTokens tokens file options).setting tokens.length where
  options := rfl
  token index before := by
    have found := List.getElem?_eq_getElem before
    have same : (opening :: tokens ++ [closing])[index + 1]? = some tokens[index] := by
      rw [List.cons_append, List.getElem?_cons_succ, List.getElem?_append_left before, found]
    exact (Buffer.token_of_getElem? same name).1.trans (Buffer.token_of_getElem? found file).1.symm
  ends := Buffer.kind_ofTokens_length tokens file
  closes := by
    have last : (opening :: tokens ++ [closing])[tokens.length + 1]? = some closing := by simp
    exact (congrArg Token.kind (Buffer.token_of_getElem? last name).1).trans closes
  balanced := by
    have level := reads.depth_eq (.expr .expression)
    simpa [Buffer.depth] using level

end

/-- The shape of the node that parentheses can leave. -/
theorem shapeText_soleComponent (inner : Expr) (span : Span) :
    (Expr.soleComponent inner span).shapeText =
      "Aggregate(None, AggregateContent[AggregateAssoc(None, " ++ inner.shapeText ++ ")])" := by
  have front : "Aggregate(None, AggregateContent[AggregateAssoc(None, " =
      "Aggregate(" ++ ("None, " ++ ("AggregateContent[" ++ ("AggregateAssoc(" ++ "None, "))) := by
    decide
  rw [front]
  simp only [Expr.soleComponent, Association.of, Expr.shapeText, Expr.shape, Expr.optionShape,
    AggregateContent.shape, Association.shapes, Association.shape,
    Designator.optionShape, Shape.none, Shape.render, Shape.renderList, String.append_assoc]
  rfl

theorem shapeText_soleComponent_ne (inner : Expr) (span : Span) :
    (Expr.soleComponent inner span).shapeText ≠ inner.shapeText := by
  intro same
  have longer := congrArg String.length same
  rw [shapeText_soleComponent, String.length_append, String.length_append] at longer
  have behind : 0 < ")])".length := by decide
  omega

section

variable {tokens : List Token} {file name : String} {options : Options} {inner : Expr}
variable {opening closing : Token}

/-- In the tokens and between the parentheses the conditional expression falls short alike. -/
theorem fallsShort_iff (more : ∀ token ∈ tokens, token.kind ≠ .eof)
    (closes : closing.kind = .closeParen)
    (reads : Reads (Parser.ofTokens tokens file options).setting (.expr .expression) 0
      (.done inner tokens.length)) :
    (Parser.ofTokens (opening :: tokens ++ [closing]) name options).setting.ConditionalFallsShort 1 ↔
      conditionalFallsShort tokens file options = true := by
  have encloses : (Parser.ofTokens (opening :: tokens ++ [closing]) name options).setting.Encloses _
    tokens.length := encloses_ofTokens closes reads
  rw [conditionalFallsShort_iff]
  obtain ⟨reading, conditional⟩ :=
    Rule.reads_total (Parser.ofTokens tokens file options).setting (.expr .conditional) 0
  have carries := conditional.enclosed encloses (.expr .conditional) (Nat.zero_le _) (Int.le_refl 0)
  cases reading with
  | failed failure =>
      obtain ⟨other, _, fails⟩ := carries
      constructor
      · rintro ⟨_, _, again, _⟩
        cases fails.unique again
      · rintro ⟨_, _, again, _⟩
        cases conditional.unique again
  | done tree stop =>
      have bound := encloses.stop_le conditional (Nat.zero_le _)
      constructor
      · rintro ⟨_, _, again, short⟩
        cases carries.unique again
        refine ⟨tree, stop, conditional, fun ended => short ?_⟩
        have last : ¬ stop < tokens.length := fun before =>
          Buffer.kind_ofTokens_ne_eof more before ended
        rw [show stop = tokens.length by omega]
        exact encloses.closes
      · rintro ⟨_, _, again, short⟩
        cases conditional.unique again
        refine ⟨tree, stop + 1, carries, fun closed => ?_⟩
        have before : stop < tokens.length :=
          Nat.lt_of_le_of_ne bound fun last => short (last ▸ encloses.ends)
        rw [encloses.kind before] at closed
        -- In front of a closing parenthesis it would be the whole expression.
        have ends : (Parser.ofTokens tokens file options).setting.EndsAt stop := by
          rw [Setting.EndsAt, closed]
          decide
        cases (reads_expression_of_conditional conditional ends).unique reads
        exact absurd before (Nat.lt_irrefl _)

/-- Tokens that are accepted as an expression are accepted between parentheses too. They are the
same tree there, unless a conditional expression is a start of them and not the whole; then they are
the one component of an aggregate, which leaves a node. -/
theorem parse_between_parentheses (more : ∀ token ∈ tokens, token.kind ≠ .eof)
    (accepted : parse tokens file options = .accepted inner)
    (opens : opening.kind = .openParen) (closes : closing.kind = .closeParen) :
    ∃ whole, parse (opening :: tokens ++ [closing]) name options = .accepted whole ∧
      whole = (if conditionalFallsShort tokens file options then
        .soleComponent inner (opening.span.join closing.span) else inner) ∧
      (whole.shapeText = inner.shapeText ↔ conditionalFallsShort tokens file options = false) := by
  let outer := (Parser.ofTokens (opening :: tokens ++ [closing]) name options).setting
  have reads := reads_of_accepted more accepted
  have encloses : outer.Encloses _ tokens.length := encloses_ofTokens closes reads
  have within := reads.enclosed encloses (.expr .expression) (Nat.zero_le _) (Int.le_refl 0)
  have falls : outer.ConditionalFallsShort 1 ↔ _ := fallsShort_iff more closes reads
  have first : outer.buffer.token 0 = opening := (Buffer.token_of_getElem? (by rfl) name).1
  have last : outer.buffer.token (tokens.length + 1) = closing :=
    (Buffer.token_of_getElem? (by simp) name).1
  have ended : outer.buffer.kind (tokens.length + 2) = .eof := by
    have size : (opening :: tokens ++ [closing]).length = tokens.length + 2 := by simp
    rw [← size]
    exact Buffer.kind_ofTokens_length _ name
  have opened : outer.buffer.kind 0 = .openParen := (congrArg Token.kind first).trans opens
  have span : (outer.extent 0 (tokens.length + 2)).span = opening.span.join closing.span := by
    have final : max 0 (tokens.length + 2 - 1) = tokens.length + 1 := by omega
    rw [Setting.extent, final, first, last, Extent.span]
  have accepts {whole : Expr}
      (reads : Reads outer (.expr .primary) 0 (.done whole (tokens.length + 2))) :
      parse (opening :: tokens ++ [closing]) name options = .accepted whole := by
    have plain : outer.PlainAt 0 := by
      rw [Setting.PlainAt, opened]
      decide
    have ends : outer.EndsAt (tokens.length + 2) := by
      rw [Setting.EndsAt, ended]
      decide
    exact parse_accepted_iff.mpr ⟨_, reads_expression_of_primary plain reads ends, ended⟩
  obtain ⟨same, alone⟩ := reads_primary_in_parentheses opened within encloses.closes
  cases short : conditionalFallsShort tokens file options with
  | false =>
      have reaches : ¬ outer.ConditionalFallsShort 1 := by simp [falls, short]
      exact ⟨inner, accepts (same reaches), rfl, by simp⟩
  | true =>
      have component := alone (falls.mpr short)
      rw [span] at component
      exact ⟨_, accepts component, rfl, by simpa using shapeText_soleComponent_ne _ _⟩

end

/-- A conditional expression that is the whole of the tokens. -/
theorem parse_between_parentheses_conditional :
    let number (text : String) : Token := ⟨.number, text, default⟩
    let tree (text : String) : Expr := .literal .number (number text)
    let tokens : List Token := [⟨.kwIf, "if", default⟩, number "1", ⟨.kwThen, "then", default⟩,
      number "2"]
    let opening : Token := ⟨.openParen, "(", default⟩
    let closing : Token := ⟨.closeParen, ")", default⟩
    let inner : Expr := .ifExpr (tree "1") (tree "2") [] none default
    (∀ token ∈ tokens, token.kind ≠ .eof) ∧ parse tokens "" .lenient = .accepted inner ∧
      opening.kind = .openParen ∧ closing.kind = .closeParen ∧
      conditionalFallsShort tokens "" .lenient = false ∧
      parse (opening :: tokens ++ [closing]) "" .lenient = .accepted inner := by
  intro number tree tokens opening closing inner
  have more : ∀ token ∈ tokens, token.kind ≠ .eof := by decide
  have accepted : parse tokens "" .lenient = .accepted inner := by cbv
  have reaches : conditionalFallsShort tokens "" .lenient = false := by cbv
  have opens : opening.kind = .openParen := rfl
  have closes : closing.kind = .closeParen := rfl
  obtain ⟨whole, answer, same, _⟩ : ∃ whole,
      parse (opening :: tokens ++ [closing]) "" .lenient = .accepted whole ∧ _ :=
    parse_between_parentheses more accepted opens closes
  rw [reaches] at same
  exact ⟨more, accepted, opens, closes, reaches, by rw [answer, same]; rfl⟩

/-- The tokens of `if 1 then 2 ** 3 ** 4`: the conditional expression ends before the second `**`. -/
def powerBehindConditional : List Token :=
  let number (text : String) : Token := ⟨.number, text, default⟩
  let power : Token := ⟨.pow, "**", default⟩
  [⟨.kwIf, "if", default⟩, number "1", ⟨.kwThen, "then", default⟩, number "2", power, number "3",
    power, number "4"]

/-- What `if 1 then 2 ** 3 ** 4` is read as. -/
def conditionalPower : Expr :=
  let tree (text : String) : Expr := .literal .number ⟨.number, text, default⟩
  .ofBinary (.ifExpr (tree "1") (.ofBinary (tree "2") .pow (tree "3")) [] none default) .pow (tree "4")

/-- Parentheses around an accepted expression can leave a node. -/
theorem parentheses_leave_node :
    let opening : Token := ⟨.openParen, "(", default⟩
    let closing : Token := ⟨.closeParen, ")", default⟩
    parse powerBehindConditional "" .lenient = .accepted conditionalPower ∧
      parse (opening :: powerBehindConditional ++ [closing]) "" .lenient =
        .accepted (.soleComponent conditionalPower default) ∧
      (Expr.soleComponent conditionalPower default).shapeText ≠ conditionalPower.shapeText := by
  refine ⟨?_, ?_, ?_⟩
  · cbv
  · cbv
  · decide +kernel

end AdaExpressions
