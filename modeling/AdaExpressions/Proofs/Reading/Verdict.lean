import AdaExpressions.Proofs.FinalErrors
import AdaExpressions.Proofs.Strictness

/-!
# Verdicts

What becomes of a whole token list is told by what is read from its first token: a tree up to the
end of the input is accepted, a fatal failure is shown as it is, and whatever else is read ends in a
recoverable error. That error is the one of some failure at a token of the buffer, or of a token
left over there; either way it holds the text of the token and stands where the token does.

Results: `Setting.wholeExpression_ends`, `parse_ends`, `parse_toList_ends`.
-/

namespace AdaExpressions

/-- The text at fault. A use of operators is at fault as a whole. -/
def Cause.found? : Cause → Option String
  | .unrecognised token => some token
  | .unexpected token => some token
  | .unexpectedBecause token _ => some token
  | .noAlternative _ _ token => some token
  | .trailing token => some token
  | .chained _ => none
  | .mixed _ _ => none

/-- The error stands at the token and holds its text. -/
structure Error.StandsAt (error : Error) (token : Token) : Prop where
  text : error.cause.found? = some token.text
  position : error.position = token.span.start

theorem Error.StandsAt.isFatal {error : Error} {token : Token} (stands : error.StandsAt token) :
    error.isFatal = false := by
  obtain ⟨cause, position⟩ := error
  have text := stands.text
  cases cause with
  | chained operator => cases text
  | mixed first second => cases text
  | _ => rfl

/-- A recoverable failure stands at its token. -/
theorem Failure.standsAt {failure : Failure} (recoverable : failure.isFatal = false) :
    failure.error.StandsAt failure.token := by
  obtain ⟨token, objection⟩ := failure
  cases objection with
  | expected kind => exact ⟨rfl, rfl⟩
  | noAlternative rule alternatives => exact ⟨rfl, rfl⟩
  | violation violation => cases recoverable

/-- A fatal failure is shown, whatever was noted further on. -/
theorem Failure.furthestError_of_isFatal (failure : Failure) (fatal : failure.isFatal = true)
    (failures : List Failure) : furthestError failure.error failures = failure.error := by
  obtain ⟨token, objection⟩ := failure
  cases objection with
  | violation violation => exact furthestError_violation token violation failures
  | _ => cases fatal

/-- What becomes of a buffer from which this is read. -/
inductive Buffer.Ends (buffer : Buffer) : Reading Expr → Verdict Expr → Prop
  | accepted {expr : Expr} {stop : Nat} :
      buffer.kind stop = .eof → Ends buffer (.done expr stop) (.accepted expr)
  | fatal {failure : Failure} :
      failure.isFatal = true → Ends buffer (.failed failure) (.rejected failure.error)
  | leftOver {expr : Expr} {stop spot : Nat} {error : Error} :
      buffer.kind stop ≠ .eof → spot < buffer.size → error.StandsAt (buffer.token spot) →
      Ends buffer (.done expr stop) (.rejected error)
  | failed {failure : Failure} {spot : Nat} {error : Error} :
      failure.isFatal = false → spot < buffer.size → error.StandsAt (buffer.token spot) →
      Ends buffer (.failed failure) (.rejected error)

section

variable {setting : Setting}

/-- Of an error at a token and the failures noted up to it, the furthest stands at a token. -/
theorem State.Leads.furthest_standsAt {after : State} {error : Error} {place : Nat}
    (leads : (State.start setting.buffer).Leads setting (.call (.expr .expression)) after)
    (within : place < setting.buffer.size)
    (stands : error.StandsAt (setting.buffer.token place)) :
    ∃ spot < setting.buffer.size,
      (furthestError error after.failures).StandsAt (setting.buffer.token spot) := by
  rcases furthestError_eq error after.failures with same | ⟨failure, member, same⟩
  · exact ⟨place, within, by rwa [same]⟩
  · rcases (leads.notes failure).mp member with none_ | notes
    · cases none_
    · obtain ⟨recoverable, spot, _, bound, here⟩ := notes.noted_at
      refine ⟨spot, bound.elim (fun start => start ▸ Nat.succ_pos _) id, ?_⟩
      rw [same, ← here]
      exact Failure.standsAt recoverable

theorem Setting.wholeExpression_ends (setting : Setting) :
    ∃ reading, Reads setting (.call (.expr .expression)) 0 reading ∧
      setting.buffer.Ends reading (setting.wholeExpression (.start setting.buffer)) := by
  have some_ : 0 < setting.buffer.size := Nat.succ_pos _
  rcases Rule.read_cases (.expr .expression) (State.start_agrees setting) with
    ⟨value, after, answer, reads, leads⟩ | ⟨failure, after, answer, reads, leads⟩
  · refine ⟨_, reads, ?_⟩
    simp only [wholeExpression, Program.expr, answer]
    split
    next closed => exact .accepted closed
    next more =>
      obtain ⟨spot, within, stands⟩ := leads.furthest_standsAt (leads.within some_)
        (⟨rfl, rfl⟩ : Error.StandsAt
          ⟨.trailing (setting.current after).text, (setting.current after).span.start⟩ _)
      exact .leftOver more within stands
  · refine ⟨_, reads, ?_⟩
    simp only [wholeExpression, Program.expr, answer]
    cases fatal : failure.isFatal with
    | true =>
        rw [failure.furthestError_of_isFatal fatal]
        exact .fatal fatal
    | false =>
        obtain ⟨place, _, bound, here⟩ := reads.failed_at fatal
        have within : place < setting.buffer.size := bound.elim (fun start => start ▸ some_) id
        obtain ⟨spot, within, stands⟩ :=
          leads.furthest_standsAt within (here ▸ Failure.standsAt fatal)
        exact .failed fatal within stands

end

theorem parse_ends (tokens : List Token) (file : String) (options : Options) :
    ∃ reading, Reads (Parser.ofTokens tokens file options).setting (.call (.expr .expression)) 0
        reading ∧
      (Buffer.ofTokens tokens file).Ends reading (parse tokens file options) :=
  (Parser.ofTokens tokens file options).setting.wholeExpression_ends

theorem parse_toList_ends (buffer : Buffer) (file : String) (options : Options) :
    ∃ reading, Reads ⟨buffer, options, true⟩ (.call (.expr .expression)) 0 reading ∧
      buffer.Ends reading (parse buffer.toList file options) := by
  obtain ⟨reading, reads, ends⟩ := parse_ends buffer.toList file options
  rw [Buffer.ofTokens_toList] at ends
  rw [Parser.ofTokens, Buffer.ofTokens_toList] at reads
  exact ⟨reading, reads, ends⟩

end AdaExpressions
