import AdaExpressions.Proofs.Reading.Verdict
import AdaExpressions.Proofs.Relabelling.Run

/-!
# Kinds decide

Only the kinds up to the first end of the input decide what a token list is read as. Its texts,
spans and files are handed on and never looked at, except that offsets choose which of several
recoverable errors is shown; and nothing behind the end of the input is read.

Results: `Reads.upTo_end` (what stands behind the end does not matter), `parse_sameShape`.
-/

namespace AdaExpressions

/-! ### The end of the input -/

/-- The kinds up to the first end-of-input token, or all if there is none. -/
def kindsToEnd (tokens : List Token) : List Kind :=
  (tokens.map Token.kind).takeWhile (· ≠ .eof)

theorem Buffer.kind_ofTokens (tokens : List Token) (file : String) (index : Nat) :
    (ofTokens tokens file).kind index = (tokens.map Token.kind)[index]?.getD .eof := by
  rw [List.getElem?_map]
  by_cases within : index < tokens.length
  · have found := List.getElem?_eq_getElem within
    rw [found, kind, (token_of_getElem? found file).1]
    rfl
  · have past : (ofTokens tokens file).body.size ≤ index := by
      unfold ofTokens
      split
      next => exact Nat.zero_le index
      next => split <;> simp <;> omega
    rw [kind_of_size_le past, List.getElem?_eq_none (Nat.le_of_not_lt within)]
    rfl

/-- Up to the first end of the input the kinds in the buffer are those of the list. -/
theorem Buffer.kind_ofTokens_toEnd (tokens : List Token) (file : String) :
    ∀ index ≤ (kindsToEnd tokens).length,
      (ofTokens tokens file).kind index = (kindsToEnd tokens)[index]?.getD .eof := by
  have cut (kinds : List Kind) : ∀ index ≤ (kinds.takeWhile (· ≠ .eof)).length,
      kinds[index]?.getD .eof = (kinds.takeWhile (· ≠ .eof))[index]?.getD .eof := by
    induction kinds with
    | nil => exact fun _ _ => rfl
    | cons kind more ih =>
        intro index near
        by_cases closed : kind = .eof
        · subst closed
          obtain rfl : index = 0 := Nat.le_zero.mp near
          rfl
        · rw [List.takeWhile_cons_of_pos (by simpa using closed)] at near ⊢
          cases index with
          | zero => rfl
          | succ index => exact ih index (Nat.le_of_succ_le_succ near)
  intro index near
  rw [kind_ofTokens]
  exact cut _ index near

theorem Setting.kindsAt_congr {first second : Setting} {place : Nat}
    (closed : first.buffer.kind place = .eof)
    (kinds : ∀ index ≤ place, second.buffer.kind index = first.buffer.kind index) {index : Nat}
    (near : index ≤ place) : second.kindsAt index = first.kindsAt index := by
  rw [Setting.kindsAt, Setting.kindsAt, kinds index near]
  by_cases ends : first.buffer.kind index = .eof
  · rw [if_pos ends, if_pos ends]
  · have before : index ≠ place := fun here => ends (here ▸ closed)
    rw [if_neg ends, if_neg ends, kinds (index + 1) (by omega)]

/-- A program that starts in front of the end of the input stays there, and reads the same in every
buffer with the same tokens up to there. -/
theorem Reads.upTo_end {first second : Setting} {place : Nat} {α : Type} {program : Program α}
    {index : Nat} {reading : Reading α} (options : second.options = first.options)
    (closed : first.buffer.kind place = .eof)
    (tokens : ∀ index ≤ place, second.buffer.token index = first.buffer.token index)
    (reads : Reads first program index reading) (near : index ≤ place) :
    Reads second program index reading ∧
      ∀ value stop, reading = .done value stop → stop ≤ place := by
  have kinds (index : Nat) (near : index ≤ place) :
      second.buffer.kind index = first.buffer.kind index := congrArg Token.kind (tokens index near)
  have failed {α : Type} {failure : Failure} :
      ∀ (value : α) stop, Reading.failed failure = .done value stop → stop ≤ place := nofun
  have done {α : Type} {value : α} {stop : Nat} (near : stop ≤ place) :
      ∀ (other : α) after, Reading.done value stop = .done other after → after ≤ place := by
    intro other after same
    cases same
    exact near
  induction reads with
  | yield => exact ⟨.yield, done near⟩
  | andThen _ _ ihFirst ihNext =>
      obtain ⟨one, stays⟩ := ihFirst near
      obtain ⟨next, bound⟩ := ihNext (stays _ _ rfl)
      exact ⟨.andThen one next, bound⟩
  | andThenFailed _ ih => exact ⟨.andThenFailed (ih near).1, failed⟩
  | fail => exact ⟨tokens _ near ▸ .fail, failed⟩
  | @take kind index found =>
      have moved : first.buffer.next index ≤ place := by
        unfold Buffer.next
        split
        next => exact near
        next more =>
          have before : index ≠ place := fun here => more (here ▸ closed)
          omega
      have same : second.buffer.next index = first.buffer.next index := by
        rw [Buffer.next, Buffer.next, kinds index near]
      refine ⟨?_, done moved⟩
      rw [← same, ← tokens index near]
      exact .take ((kinds index near).trans found)
  | @takeFailed kind index missing =>
      refine ⟨?_, failed⟩
      rw [← tokens index near]
      exact .takeFailed fun found => missing ((kinds index near).symm.trans found)
  | @peek index =>
      refine ⟨?_, done near⟩
      rw [← Setting.kindsAt_congr closed kinds near]
      exact .peek
  | forbid allowed => exact ⟨.forbid (options ▸ allowed), done near⟩
  | forbidFailed rejected => exact ⟨.forbidFailed (options ▸ rejected), failed⟩
  | attempt _ ih => exact ⟨.attempt (ih near).1, done ((ih near).2 _ _ rfl)⟩
  | attemptNone _ recoverable ih => exact ⟨.attemptNone (ih near).1 recoverable, done near⟩
  | attemptFailed _ fatal ih => exact ⟨.attemptFailed (ih near).1 fatal, failed⟩
  | @extent α part index stop value _ ih =>
      have bound := (ih near).2 _ _ rfl
      have whole : second.extent index stop = first.extent index stop := by
        rw [Setting.extent, Setting.extent, tokens index near, tokens _ (by omega)]
      exact ⟨whole ▸ .extent (ih near).1, done bound⟩
  | extentFailed _ ih => exact ⟨.extentFailed (ih near).1, failed⟩
  | iterateStop _ ih => exact ⟨.iterateStop (ih near).1, done ((ih near).2 _ _ rfl)⟩
  | iterateNext _ _ ihStep ihRest =>
      obtain ⟨step, stays⟩ := ihStep near
      obtain ⟨rest, bound⟩ := ihRest (stays _ _ rfl)
      exact ⟨.iterateNext step rest, bound⟩
  | iterateFailed _ ih => exact ⟨.iterateFailed (ih near).1, failed⟩
  | remember _ ih => exact ⟨.remember (ih near).1, (ih near).2⟩
  | call _ ih => exact ⟨.call (ih near).1, (ih near).2⟩

/-! ### Whole token lists -/

/-- Takes every token its text and its place. -/
def Relabelling.erasing : Relabelling :=
  { Relabelling.placeless with text := fun _ => "" }

/-- Both are accepted with trees that only differ in texts and spans, or both are rejected, with the
same cause if one of the errors is fatal. -/
inductive Verdict.SameShape : Verdict Expr → Verdict Expr → Prop
  | accepted {first second : Expr} :
      first.relabel .erasing = second.relabel .erasing →
      SameShape (.accepted first) (.accepted second)
  | rejected {first second : Error} :
      (first.isFatal = true ∨ second.isFatal = true → first.cause = second.cause) →
      SameShape (.rejected first) (.rejected second)

theorem Buffer.erasing_token_eq {first second : Buffer} {index : Nat}
    (kind : second.kind index = first.kind index) :
    (second.relabel .erasing).token index = (first.relabel .erasing).token index := by
  have tokens : (second.token index).kind = (first.token index).kind := kind
  rw [token_relabel, token_relabel, Relabelling.token, tokens]
  rfl

/-- What a fatal objection says does not depend on a text. -/
theorem Objection.cause_of_isFatal {objection : Objection} (fatal : objection.isFatal = true)
    (first second : String) : objection.cause first = objection.cause second := by
  match objection with
  | .violation (.chained _) => rfl
  | .violation (.mixed _ _) => rfl

/-- Readings of one shape that end at the same kind lead to verdicts of one shape. -/
theorem Buffer.Ends.sameShape {first second : Buffer} {reading other : Reading Expr}
    {verdict again : Verdict Expr}
    (same : reading.relabel .erasing (Expr.relabel .erasing) =
      other.relabel .erasing (Expr.relabel .erasing))
    (stops : ∀ expr stop, reading = .done expr stop →
      (second.kind stop = .eof ↔ first.kind stop = .eof))
    (one : first.Ends reading verdict) (two : second.Ends other again) :
    verdict.SameShape again := by
  have recoverable {error other : Error} (open_ : error.isFatal = false)
      (also : other.isFatal = false) :
      (Verdict.rejected error).SameShape (.rejected other) :=
    .rejected fun fatal => by simp [open_, also] at fatal
  cases one with
  | accepted closed =>
      cases two with
      | accepted => exact .accepted (Reading.done.inj same).1
      | leftOver more _ _ =>
          cases (Reading.done.inj same).2
          exact absurd ((stops _ _ rfl).mpr closed) more
      | fatal => cases same
      | failed => cases same
  | leftOver more _ stands =>
      cases two with
      | accepted closed =>
          cases (Reading.done.inj same).2
          exact absurd ((stops _ _ rfl).mp closed) more
      | leftOver _ _ also => exact recoverable stands.isFatal also.isFatal
      | fatal => cases same
      | failed => cases same
  | @fatal failure fatal =>
      have objection (other : Failure) (same : failure.relabel .erasing = other.relabel .erasing) :
          failure.objection = other.objection := (Failure.mk.inj same).2
      cases two with
      | @fatal other _ =>
          refine .rejected fun _ => ?_
          rw [Failure.error, Failure.error, ← objection other (Reading.failed.inj same)]
          exact Objection.cause_of_isFatal fatal _ _
      | @failed other _ _ open_ =>
          have fatal : failure.objection.isFatal = true := fatal
          rw [objection other (Reading.failed.inj same)] at fatal
          cases open_.symm.trans fatal
      | accepted => cases same
      | leftOver => cases same
  | @failed failure _ _ open_ _ stands =>
      have objection (other : Failure) (same : failure.relabel .erasing = other.relabel .erasing) :
          failure.objection = other.objection := (Failure.mk.inj same).2
      cases two with
      | failed _ _ also => exact recoverable stands.isFatal also.isFatal
      | @fatal other fatal =>
          have open_ : failure.objection.isFatal = false := open_
          rw [objection other (Reading.failed.inj same)] at open_
          cases open_.symm.trans fatal
      | accepted => cases same
      | leftOver => cases same

/-- Two token lists with the same kinds up to the end of the input are read alike. -/
theorem parse_sameShape {first second : List Token} (file name : String) (options : Options)
    (kinds : kindsToEnd first = kindsToEnd second) :
    (parse first file options).SameShape (parse second name options) := by
  let one := (Parser.ofTokens first file options).setting
  let two := (Parser.ofTokens second name options).setting
  obtain ⟨reading, reads, ends⟩ := parse_ends first file options
  obtain ⟨other, readsOther, endsOther⟩ := parse_ends second name options
  have same : ∀ index ≤ (kindsToEnd first).length,
      two.buffer.kind index = one.buffer.kind index := by
    intro index near
    have here := Buffer.kind_ofTokens_toEnd second name index (kinds ▸ near)
    rw [← kinds, ← Buffer.kind_ofTokens_toEnd first file index near] at here
    exact here
  have closed : one.buffer.kind (kindsToEnd first).length = .eof := by
    have last := Buffer.kind_ofTokens_toEnd first file _ (Nat.le_refl _)
    rwa [List.getElem?_eq_none (Nat.le_refl _)] at last
  -- Both readings are seen on buffers without texts and places, which agree up to the end.
  have erased : Reads (one.relabel .erasing) (.call (.expr .expression)) 0
      (reading.relabel .erasing (Expr.relabel .erasing)) := reads.relabel
  have sameOptions : (two.relabel .erasing).options = (one.relabel .erasing).options := rfl
  have tokens : ∀ index ≤ (kindsToEnd first).length,
      (two.relabel .erasing).buffer.token index = (one.relabel .erasing).buffer.token index :=
    fun index near => Buffer.erasing_token_eq (same index near)
  obtain ⟨again, stays⟩ :=
    erased.upTo_end sameOptions ((one.buffer.kind_relabel _).trans closed) tokens (Nat.zero_le _)
  refine ends.sameShape (again.unique readsOther.relabel) (fun expr stop done => ?_) endsOther
  subst done
  have near := stays (expr.relabel .erasing) stop rfl
  exact iff_of_eq (congrArg (· = Kind.eof) (same stop near))

/-- A sum, and another one with something behind its end. -/
theorem parse_sameShape_sums :
    let first : List Token := [⟨.number, "1", .ofBytes 0 1 "a"⟩, ⟨.plus, "+", .ofBytes 1 1 "a"⟩,
      ⟨.identifier, "X", .ofBytes 2 1 "a"⟩]
    let second : List Token := [⟨.number, "22", default⟩, ⟨.plus, "", .ofBytes 7 1 "b"⟩,
      ⟨.identifier, "Y", .ofBytes 3 1 "c"⟩, .eof default, ⟨.closeParen, ")", default⟩]
    kindsToEnd first = kindsToEnd second ∧
      (parse first "a" .strict).SameShape (parse second "d" .strict) := by
  intro first second
  have kinds : kindsToEnd first = kindsToEnd second := by decide
  exact ⟨kinds, parse_sameShape "a" "d" .strict kinds⟩

end AdaExpressions
