import AdaExpressions.Proofs.Token.Lossless

/-!
# Numbers are read as far as they go

A number is the longest one that the text starts with, and there is no blank in it. So another text
that starts with the same number has the same number first, unless something visible of it goes on
where the first text does not.

Results: `Lexeme.number_grows`, `Lexeme.number_visible`, `Lexeme.number_loosens`.
-/

namespace AdaExpressions.Lexeme

variable {p q : Char → Bool} {text rest other : List Char}

/-! ### Texts that show no more -/

/-- What is visible at the start of `other`, up to the first blank, is what `rest` starts with. -/
def Loosens (other rest : List Char) : Prop :=
  ∀ visible : List Char, (∀ c ∈ visible, Text.isBlank c = false) → visible <+: other →
    visible <+: rest

theorem Loosens.ends (loosens : Loosens other rest) (ends : Ends p rest)
    (visible : ∀ c, p c = true → Text.isBlank c = false) : Ends p other := by
  intro c first
  refine Bool.eq_false_iff.mpr fun holds => ?_
  obtain ⟨tail, rfl⟩ : ∃ tail, other = c :: tail := List.head?_eq_some_iff.mp first
  have alone : [c] <+: c :: tail := ⟨tail, rfl⟩
  obtain ⟨tail, rfl⟩ := loosens [c] (by simpa using visible c holds) alone
  have stopped := ends c rfl
  rw [holds] at stopped
  cases stopped

/-! ### Numbers are longest -/

theorem runLength_le_append (p : Char → Bool) (text more : List Char) :
    runLength p text ≤ runLength p (text ++ more) := by
  simp only [runLength, List.takeWhile_append]
  split
  next whole => simp [whole]
  next => exact Nat.le_refl _

theorem exponentPart_grows (text more : List Char) :
    (exponentPart text).getD 0 ≤ (exponentPart (text ++ more)).getD 0 := by
  match text with
  | [] => exact Nat.zero_le _
  | [mark] => simp [exponentPart, runLength]
  | mark :: c :: rest =>
      have signed := runLength_le_append Char.isDigit rest more
      have unsigned := runLength_le_append Char.isDigit (c :: rest) more
      simp only [List.cons_append] at unsigned
      by_cases letter : mark = 'e' ∨ mark = 'E'
      · by_cases plus : c = '+'
        · subst plus
          simp only [List.cons_append, exponentPart, letter, if_true, List.drop_succ_cons,
            List.drop_zero]
          grind
        by_cases minus : c = '-'
        · subst minus
          simp only [List.cons_append, exponentPart, letter, if_true, List.drop_succ_cons,
            List.drop_zero]
          grind
        · simp only [List.cons_append, exponentPart, letter, if_true]
          grind
      · simp [exponentPart, letter]

/-- The part between the whole digits and the exponent. -/
theorem part_grows (text more : List Char) :
    ((basedPart text).or (fractionPart text)).getD 0 ≤
      ((basedPart (text ++ more)).or (fractionPart (text ++ more))).getD 0 := by
  cases based : basedPart text with
  | some length =>
      obtain ⟨part, rest, rfl, _, again⟩ := basedPart_append based
      rw [List.append_assoc, again (rest ++ more)]
      exact Nat.le_refl _
  | none =>
      cases fraction : fractionPart text with
      | none => exact Nat.zero_le _
      | some length =>
          unfold fractionPart at fraction
          split at fraction
          next first rest =>
            split at fraction
            next digit =>
              cases fraction
              have longer := runLength_le_append isDigitChar rest more
              have based : basedPart ('.' :: first :: (rest ++ more)) = none := rfl
              simp only [List.cons_append, based, fractionPart, digit, if_true, Option.none_or,
                Option.getD_some]
              omega
            next => cases fraction
          next => cases fraction

/-- With more text behind it a number does not get shorter. -/
theorem number_grows {first : Char} {part : List Char}
    (found : number first part = some part.length) (more : List Char) :
    ∃ length, number first (part ++ more) = some length ∧ part.length ≤ length := by
  have cut := found
  unfold number at cut
  split at cut
  next digit =>
    obtain ⟨whole, divided, size, holds⟩ := exists_run isDigitChar part
    rw [← size] at cut divided
    obtain ⟨middle, rest, divided', size', again⟩ := exists_part (part.drop whole.length)
    obtain ⟨exponent, last, divided'', size'', again'⟩ := exists_exponent rest
    have dropped : (part.drop whole.length).drop middle.length = rest := by
      rw [divided', List.drop_left]
    simp only [size', dropped, size''] at cut
    rw [divided', divided''] at divided
    obtain rfl : last = [] := by
      have lengths := congrArg List.length divided
      simp only [List.length_append] at lengths
      have total := Option.some.inj cut
      exact List.length_eq_zero_iff.mp (by omega)
    rw [List.append_nil] at divided
    refine ⟨_, by rw [number, if_pos digit], ?_⟩
    have none_ {p : Char → Bool} : Ends p [] := by simp [Ends]
    -- The last of the three stages that is not empty may go on; those before it are closed.
    rw [divided]
    cases exponent with
    | cons mark tail =>
        have alone := again' [] none_
        rw [List.append_nil] at alone
        have closed : Ends goesOnDigits (mark :: tail ++ more) :=
          ends_cons.mpr (ends_cons.mp alone.2)
        obtain ⟨same, closed'⟩ := again _ closed
        have whole_ := runLength_append holds closed'
        have longer := exponentPart_grows (mark :: tail) more
        simp only [List.append_assoc, whole_, List.drop_left, same, alone.1, List.length_append]
          at longer ⊢
        omega
    | nil =>
        cases middle with
        | cons mark tail =>
            have alone := again [] none_
            rw [List.append_nil] at alone
            have closed : Ends isDigitChar (mark :: tail ++ more) :=
              ends_cons.mpr (ends_cons.mp alone.2)
            have whole_ := runLength_append holds closed
            have longer := part_grows (mark :: tail) more
            simp only [List.append_nil, List.append_assoc, whole_, List.drop_left, alone.1,
              List.length_append] at longer ⊢
            omega
        | nil =>
            have longer := runLength_le_append isDigitChar whole more
            have alone := runLength_append holds (none_ (p := isDigitChar))
            rw [List.append_nil] at alone
            simp only [List.append_nil, alone] at longer ⊢
            omega
  next => cases cut

/-! ### No blank is in a number -/

def spansNumber (c : Char) : Bool :=
  goesOnNumber c || isHexChar c || c == '+' || c == '-'

theorem runLength_mono (implies : ∀ c, p c = true → q c = true) (text : List Char) :
    runLength p text ≤ runLength q text := by
  induction text with
  | nil => exact Nat.le_refl _
  | cons c text ih =>
      simp only [runLength, List.takeWhile_cons] at ih ⊢
      cases holds : p c with
      | false => exact Nat.zero_le _
      | true => simpa [implies c holds] using ih

/-- A run is measured from any place inside it. -/
theorem runLength_drop {length : Nat} (within : length ≤ runLength p text) :
    runLength p text = length + runLength p (text.drop length) := by
  induction text generalizing length with
  | nil =>
      obtain rfl : length = 0 := Nat.le_zero.mp within
      rfl
  | cons c text ih =>
      cases length with
      | zero => simp
      | succ length =>
          simp only [runLength, List.takeWhile_cons] at within ih ⊢
          cases holds : p c with
          | false => simp [holds] at within
          | true =>
              simp only [holds, if_true, List.length_cons, List.drop_succ_cons] at within ⊢
              have rest := ih (Nat.le_of_succ_le_succ within)
              omega

theorem runLength_cons {c : Char} (holds : p c = true) (text : List Char) :
    runLength p (c :: text) = runLength p text + 1 := by
  simp [runLength, holds]

/-- What stands behind a run of characters that a number can have may stand there too. -/
theorem run_spans (implies : ∀ c, p c = true → spansNumber c = true) (text : List Char) :
    runLength spansNumber text =
      runLength p text + runLength spansNumber (text.drop (runLength p text)) :=
  runLength_drop (runLength_mono implies text)

theorem spansNumber_of_isHexChar (c : Char) (holds : isHexChar c = true) :
    spansNumber c = true := by
  simp [spansNumber, holds]

theorem spansNumber_of_isDigitChar (c : Char) (holds : isDigitChar c = true) :
    spansNumber c = true := by
  simp [spansNumber, goesOnNumber, goesOnDigits, holds]

theorem spansNumber_of_isDigit (c : Char) (holds : c.isDigit = true) : spansNumber c = true :=
  spansNumber_of_isDigitChar c (by simp [isDigitChar, holds])

theorem basedPart_spans {length : Nat} (found : basedPart text = some length) :
    length ≤ runLength spansNumber text := by
  have mark : spansNumber '#' = true := by decide
  have point : spansNumber '.' = true := by decide
  unfold basedPart at found
  split at found
  next rest =>
    have whole := run_spans spansNumber_of_isHexChar rest
    have opened := runLength_cons mark rest
    dsimp only at found
    split at found
    next => cases found
    next =>
      split at found
      next tail closed =>
        cases found
        rw [closed, runLength_cons mark] at whole
        omega
      next tail pointed =>
        have fraction := run_spans spansNumber_of_isHexChar tail
        rw [pointed, runLength_cons point] at whole
        split at found
        next => cases found
        next =>
          split at found
          next closed =>
            cases found
            rw [closed, runLength_cons mark] at fraction
            omega
          next => cases found
      next => cases found
  next => cases found

theorem fractionPart_spans {length : Nat} (found : fractionPart text = some length) :
    length ≤ runLength spansNumber text := by
  unfold fractionPart at found
  split at found
  next first rest =>
    split at found
    next digit =>
      cases found
      have run := run_spans spansNumber_of_isDigitChar rest
      have opened := runLength_cons (p := spansNumber) (c := '.') (by decide) (first :: rest)
      have first_ := runLength_cons (spansNumber_of_isDigit first digit) rest
      omega
    next => cases found
  next => cases found

theorem exponentPart_spans {length : Nat} (found : exponentPart text = some length) :
    length ≤ runLength spansNumber text := by
  unfold exponentPart at found
  split at found
  next mark rest =>
    split at found
    next letter =>
      have opened : runLength spansNumber (mark :: rest) = runLength spansNumber rest + 1 :=
        runLength_cons (by rcases letter with rfl | rfl <;> decide) rest
      have digits := run_spans spansNumber_of_isDigit
      dsimp only at found
      split at found
      next more =>
        have sign := runLength_cons (p := spansNumber) (c := '+') (by decide) more
        have run := digits more
        grind
      next more =>
        have sign := runLength_cons (p := spansNumber) (c := '-') (by decide) more
        have run := digits more
        grind
      next =>
        have run := digits rest
        grind
    next => cases found
  next => cases found

theorem number_spans {first : Char} {length : Nat} (found : number first text = some length) :
    length ≤ runLength spansNumber text := by
  have part (text : List Char) :
      ((basedPart text).or (fractionPart text)).getD 0 ≤ runLength spansNumber text := by
    cases based : basedPart text with
    | some length => exact basedPart_spans based
    | none =>
        cases fraction : fractionPart text with
        | some length => exact fractionPart_spans fraction
        | none => exact Nat.zero_le _
  have exponent (text : List Char) :
      (exponentPart text).getD 0 ≤ runLength spansNumber text := by
    cases found : exponentPart text with
    | some length => exact exponentPart_spans found
    | none => exact Nat.zero_le _
  unfold number at found
  split at found
  next =>
    cases found
    rw [run_spans spansNumber_of_isDigitChar text, runLength_drop (part _)]
    have last := exponent ((text.drop (runLength isDigitChar text)).drop
      (((basedPart (text.drop (runLength isDigitChar text))).or
        (fractionPart (text.drop (runLength isDigitChar text)))).getD 0))
    omega
  next => cases found

theorem isBlank_of_spansNumber {c : Char} (spans : spansNumber c = true) :
    Text.isBlank c = false := by
  have letter {low high : Char} (between : low ≤ c ∧ c ≤ high)
      (bounds : 0x21 ≤ low.toNat ∧ high.toNat ≤ 0x7e) : Text.isBlank c = false :=
    isBlank_of_visible (Nat.le_trans bounds.1 between.1) (Nat.le_trans between.2 bounds.2)
  simp only [spansNumber, goesOnNumber, goesOnDigits, isDigitChar, isHexChar, Bool.or_eq_true,
    Bool.and_eq_true, beq_iff_eq, decide_eq_true_eq, or_assoc] at spans
  rcases spans with digit | rfl | rfl | rfl | rfl | rfl | digit | small | capital | sign
  · exact isBlank_of_isDigit digit
  · decide
  · decide
  · decide
  · decide
  · decide
  · exact isBlank_of_isDigit digit
  · exact letter small (by decide)
  · exact letter capital (by decide)
  · rcases sign with rfl | rfl | rfl <;> decide

theorem number_visible {first : Char} {part : List Char}
    (found : number first part = some part.length) : ∀ c ∈ part, Text.isBlank c = false := by
  obtain ⟨run, divided, size, holds⟩ := exists_run spansNumber part
  have whole := number_spans found
  rw [← size] at whole divided
  have none_ : part.drop run.length = [] := List.drop_of_length_le whole
  rw [none_, List.append_nil] at divided
  intro c member
  exact isBlank_of_spansNumber (holds c (divided ▸ member))

/-- A number in front of a text stands in front of any text that shows no more. -/
theorem number_loosens {first : Char} {part : List Char}
    (found : number first (part ++ rest) = some part.length) (loosens : Loosens other rest) :
    number first (part ++ other) = some part.length := by
  obtain ⟨part', rest', divided, size, again⟩ := number_append found
  obtain ⟨rfl, rfl⟩ := List.append_inj divided size.symm
  have alone := again [] nofun
  rw [List.append_nil] at alone
  obtain ⟨length, found', least⟩ := number_grows alone other
  obtain ⟨longer, tail, divided', rfl, again'⟩ := number_append found'
  have alone' := again' [] nofun
  rw [List.append_nil] at alone'
  -- The number read in the other text is in the first one too, where it is not longer.
  obtain ⟨visible, rfl⟩ : part <+: longer :=
    List.prefix_of_prefix_length_le ⟨other, rfl⟩ ⟨tail, divided'.symm⟩ least
  rw [List.append_assoc] at divided'
  obtain rfl := List.append_cancel_left divided'
  obtain ⟨tail', rfl⟩ := loosens visible
    (fun c member => number_visible alone' c (List.mem_append_right _ member)) ⟨tail, rfl⟩
  obtain ⟨length, found'', most⟩ := number_grows alone' tail'
  rw [List.append_assoc, found] at found''
  cases found''
  rw [found', Nat.le_antisymm least most]

end AdaExpressions.Lexeme
