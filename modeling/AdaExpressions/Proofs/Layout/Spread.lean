import AdaExpressions.Proofs.Grammar.Ticks
import AdaExpressions.Proofs.Layout.Lexemes

/-!
# Blanks between lexemes

Lexemes are spread out when blanks are put before some of them or behind the last. Spread out they
give the same words: a token is read again as what it is, blanks join blanks, and blanks behind a
comment belong to it or to the blanks after it. A tick stays a tick as long as it leads to a token
that does not start with an apostrophe, for a blank between two apostrophes would be a character
literal.

Results: `Spread.loosens`, `Lexeme.read_spread`.
-/

namespace AdaExpressions

open Lexeme (divide next? Ends)

/-- The text of lexemes with blanks before some of them or behind the last. -/
inductive Spread : List Lexeme → List Char → Prop
  | nil {run : List Char} : (∀ c ∈ run, Text.isBlank c = true) → Spread [] run
  | cons {lexeme : Lexeme} {lexemes : List Lexeme} {run text : List Char} :
      (∀ c ∈ run, Text.isBlank c = true) → Spread lexemes text →
      Spread (lexeme :: lexemes) (run ++ (lexeme.text ++ text))

/-- What can be seen behind blanks is nothing if there are any. -/
theorem eq_nil_or_prefix {run visible rest : List Char}
    (blank : ∀ c ∈ run, Text.isBlank c = true) (clear : ∀ c ∈ visible, Text.isBlank c = false)
    (starts : visible <+: run ++ rest) : visible = [] ∨ visible <+: rest := by
  cases run with
  | nil => exact .inr starts
  | cons c run =>
      cases visible with
      | nil => exact .inl rfl
      | cons d visible =>
          obtain rfl := (List.cons_prefix_cons.mp starts).1
          have blank_ := blank d List.mem_cons_self
          rw [clear d List.mem_cons_self] at blank_
          cases blank_

/-- What can be seen up to the first blank was there before. -/
theorem Spread.loosens {lexemes : List Lexeme} {text : List Char} (spread : Spread lexemes text) :
    Lexeme.Loosens text (lexemes.flatMap Lexeme.text) := by
  induction spread with
  | @nil run blank =>
      intro visible clear starts
      rw [← List.append_nil run] at starts
      rcases eq_nil_or_prefix blank clear starts with rfl | starts
      · exact List.nil_prefix
      · exact starts
  | @cons lexeme lexemes run text blank _ ih =>
      intro visible clear starts
      rcases eq_nil_or_prefix blank clear starts with rfl | starts
      · exact List.nil_prefix
      · rw [List.flatMap_cons]
        rcases List.prefix_or_prefix_of_prefix starts ⟨text, rfl⟩ with inside | ⟨more, rfl⟩
        · exact inside.trans (List.prefix_append _ _)
        · have clear_ : ∀ c ∈ more, Text.isBlank c = false :=
            fun c member => clear c (List.mem_append_right _ member)
          refine (List.prefix_append_right_inj _).mpr (ih more clear_ ?_)
          exact (List.prefix_append_right_inj _).mp starts

namespace Lexeme

variable {last : Option Kind} {first : Char} {part rest text : List Char} {kind : Kind}

/-! ### Words -/

/-- The kinds and texts of the tokens among lexemes. -/
def words (lexemes : List Lexeme) : List (Kind × List Char) :=
  lexemes.filterMap fun lexeme => lexeme.kind.map (·, lexeme.text)

/-- The words of a text, and the rest of it where no lexeme starts. -/
def read (last : Option Kind) (text : List Char) : List (Kind × List Char) × List Char :=
  (words (divide last text).1, (divide last text).2)

theorem read_token (found : next? last first rest = some ⟨some kind, first :: part⟩) :
    read last (first :: rest) =
      ((kind, first :: part) :: (read (some kind) (rest.drop part.length)).1,
        (read (some kind) (rest.drop part.length)).2) := by
  rw [read, divide, found]
  rfl

theorem read_layout (found : next? last first (part ++ rest) = some ⟨none, first :: part⟩) :
    read last (first :: part ++ rest) = read last rest := by
  rw [read, Lexeme.divide_cons found]
  rfl

theorem read_blanks {run : List Char} (blank : ∀ c ∈ run, Text.isBlank c = true) :
    read last (run ++ text) = read last text := by
  have whole {run rest : List Char} (blank : ∀ c ∈ run, Text.isBlank c = true)
      (ends : Ends Text.isBlank rest) : read last (run ++ rest) = read last rest := by
    cases run with
    | nil => rfl
    | cons c run =>
        obtain ⟨here, behind⟩ := List.forall_mem_cons.mp blank
        exact read_layout (Lexeme.next?_blanks here behind ends)
  obtain ⟨more, divided, -, blank'⟩ := exists_run Text.isBlank text
  have ends := ends_drop_runLength Text.isBlank text
  have both : ∀ c ∈ run ++ more, Text.isBlank c = true :=
    fun c member => (List.mem_append.mp member).elim (blank c) (blank' c)
  rw [divided, ← List.append_assoc, whole both ends, whole blank' ends]

theorem read_comment {line : List Char} (one : '\n' ∉ line) (ends : ∀ c ∈ rest.head?, c = '\n') :
    read last ('-' :: '-' :: line ++ rest) = read last rest := by
  have length : runLength (· != '\n') (line ++ rest) = line.length := by
    refine runLength_append (fun c member => ?_) fun c first => ?_
    · exact bne_iff_ne.mpr fun same => one (same ▸ member)
    · simp [ends c first]
  have matched : firstMatch '-' ('-' :: line ++ rest) = some (.comment, 1 + line.length) := by
    simp [firstMatch, Pattern.ordered, Pattern.match?, blanks, comment, length,
      show Text.isBlank '-' = false by decide]
  have found : next? last '-' ('-' :: line ++ rest) = some ⟨none, '-' :: '-' :: line⟩ := by
    rw [next?, matched]
    simp [Pattern.kind, Nat.add_comm 1]
  exact read_layout found

/-! ### Spread lexemes -/

/-- Blanks put behind a comment are part of it up to the end of the line. -/
theorem exists_line {lexemes : List Lexeme} (spread : Spread lexemes text)
    (some_ : ∀ lexeme ∈ lexemes, lexeme.text ≠ [])
    (ends : ∀ c ∈ (lexemes.flatMap Lexeme.text).head?, c = '\n') :
    ∃ run tail, text = run ++ tail ∧ (∀ c ∈ run, Text.isBlank c = true) ∧ '\n' ∉ run ∧
      ∀ c ∈ tail.head?, c = '\n' := by
  obtain ⟨run, rest, rfl, blank, newline⟩ : ∃ run rest, text = run ++ rest ∧
      (∀ c ∈ run, Text.isBlank c = true) ∧ ∀ c ∈ rest.head?, c = '\n' := by
    cases spread with
    | nil blank => exact ⟨text, [], (List.append_nil text).symm, blank, nofun⟩
    | @cons lexeme lexemes run text blank _ =>
        refine ⟨run, _, rfl, blank, ?_⟩
        obtain ⟨c, part, whole⟩ := List.exists_cons_of_ne_nil (some_ lexeme List.mem_cons_self)
        rw [List.flatMap_cons, whole] at ends
        rw [whole]
        exact ends
  obtain ⟨line, divided, -, one⟩ := exists_run (· != '\n') run
  refine ⟨line, run.drop (runLength (· != '\n') run) ++ rest, ?_, ?_, ?_, ?_⟩
  · rw [← List.append_assoc, ← divided]
  · intro c member
    exact blank c (divided ▸ List.mem_append_left _ member)
  · intro member
    simpa using one _ member
  · intro c first
    cases left : run.drop (runLength (· != '\n') run) with
    | nil => exact newline c (by simpa [left] using first)
    | cons d more =>
        obtain rfl : d = c := by simpa [left] using first
        have stopped := ends_drop_runLength (· != '\n') run d (by rw [left]; rfl)
        simpa using stopped

/-- A lexeme without a token is passed over, and blanks behind it with it. -/
theorem read_spread_layout {lexemes : List Lexeme} {layout : List Char}
    (layout_ : IsLayout (lexemes.flatMap Lexeme.text) layout) (spread : Spread lexemes text)
    (some_ : ∀ lexeme ∈ lexemes, lexeme.text ≠ []) :
    read last (layout ++ text) = read last text := by
  cases layout_ with
  | blanks _ blank => exact read_blanks blank
  | @comment line one ends =>
      obtain ⟨run, tail, rfl, blank, one', ends'⟩ := exists_line spread some_ ends
      have inLine : '\n' ∉ line ++ run :=
        fun member => (List.mem_append.mp member).elim one one'
      have passed : read last _ = _ := read_comment inLine ends'
      rw [← List.cons_append, ← List.cons_append, List.append_assoc] at passed
      rw [passed, read_blanks blank]

/-- An apostrophe is read as a tick or as the start of a character literal. -/
theorem exists_next?_apostrophe (last : Option Kind) (rest : List Char) :
    ∃ kind part, next? last '\x27' rest = some ⟨some kind, '\x27' :: part⟩ ∧
      kind.isPlain = false := by
  rw [next?, firstMatch_apostrophe]
  cases character '\x27' rest with
  | none => exact ⟨.tick, _, rfl, rfl⟩
  | some length =>
      cases ticksAfter last with
      | true => exact ⟨.tick, _, rfl, rfl⟩
      | false => exact ⟨.char, _, rfl, rfl⟩

/-- A text whose first token does not start with an apostrophe does not make a character literal of
an apostrophe before it, if what can be seen of it does not. -/
theorem character_loosens {other : List Char} {found : List (Kind × List Char)}
    (none_ : character '\x27' rest = none) (loosens : Loosens other rest)
    (reads : read last other = (found, []))
    (plain : (found.map Prod.fst).head?.any Kind.isPlain = true) :
    character '\x27' other = none := by
  match other with
  | [] | [_] => rfl
  | middle :: second :: tail =>
      refine if_neg fun literal => ?_
      obtain ⟨-, line, rfl⟩ := literal
      by_cases blank : Text.isBlank middle = true
      · -- The literal would take a blank for its character, so that a token starts behind it.
        have alone : ∀ c ∈ [middle], Text.isBlank c = true := List.forall_mem_singleton.mpr blank
        have skipped : read last ([middle] ++ '\x27' :: tail) = _ := read_blanks alone
        obtain ⟨kind, part, opens, notPlain⟩ := exists_next?_apostrophe last tail
        rw [List.singleton_append, reads, read_token opens] at skipped
        rw [(Prod.mk.inj skipped).1] at plain
        exact absurd plain (by simp [notPlain])
      · have clear : ∀ c ∈ [middle, '\x27'], Text.isBlank c = false := by
          simpa using ⟨Bool.eq_false_iff.mpr blank, by decide⟩
        obtain ⟨tail, rfl⟩ := loosens [middle, '\x27'] clear ⟨tail, rfl⟩
        simp [character, line] at none_

/-- A token is read again, and behind it what is spread out there. -/
theorem read_spread_token {lexemes : List Lexeme}
    (found : next? last first (part ++ rest) = some ⟨some kind, first :: part⟩)
    (divided : divide (some kind) rest = (lexemes, [])) (spread : Spread lexemes text)
    (again : read (some kind) text = (words lexemes, []))
    (plain : kind = .tick → ((words lexemes).map Prod.fst).head?.any Kind.isPlain = true) :
    read last (first :: part ++ text) = ((kind, first :: part) :: words lexemes, []) := by
  have loosens : Loosens text rest := by
    have behind := divide_append (some kind) rest
    rw [divided, List.append_nil] at behind
    exact behind ▸ spread.loosens
  have closed : kind = .string → Ends (· == '\x22') rest := by
    rintro rfl c first_
    refine Bool.eq_false_iff.mpr fun quote => ?_
    obtain rfl : c = '\x22' := eq_of_beq quote
    obtain ⟨more, rfl⟩ := List.head?_eq_some_iff.mp first_
    rw [divide, next?_unclosed found] at divided
    cases divided
  have tick : kind = .tick → ticksAfter last = true ∨ character '\x27' text = none := by
    rintro rfl
    refine (tick_of_next? found).imp_right fun none_ => ?_
    exact character_loosens none_ loosens again (plain rfl)
  have found' := next?_loosens found loosens closed tick
  rw [List.cons_append, read_token found', List.drop_left, again]

/-- What was read to its end is read so again when it is spread out, as long as its ticks lead to
tokens that do not start with an apostrophe. -/
theorem read_spread {source : List Char} {lexemes : List Lexeme}
    (divided : divide last source = (lexemes, [])) (spread : Spread lexemes text)
    (leads : ticksLead ((words lexemes).map Prod.fst) = true) :
    read last text = (words lexemes, []) := by
  fun_induction divide last source generalizing text lexemes with
  | case1 last =>
      cases divided
      obtain ⟨blank⟩ := spread
      have alone : read last (_ ++ []) = _ := read_blanks blank
      rw [List.append_nil] at alone
      rw [alone, read, divide]
  | case2 => cases divided
  | case3 last first rest lexeme found more stuck rest_ ih =>
      obtain ⟨rfl, rfl⟩ := Prod.mk.inj divided
      have whole := text_append_drop found
      have behind := divide_append (lexeme.kind.or last) (rest.drop (lexeme.text.length - 1))
      rw [rest_, List.append_nil] at behind
      cases spread with
      | @cons _ _ run tail blank spread =>
          rw [read_blanks blank]
          obtain ⟨kind, word⟩ := lexeme
          cases kind with
          | none =>
              have again : read last tail = (words more, []) := ih rest_ spread leads
              have layout := isLayout_of_next? found rfl whole.symm
              have some_ : ∀ lexeme ∈ more, lexeme.text ≠ [] := fun lexeme member =>
                text_ne_nil_of_mem_divide (by rwa [rest_])
              rw [← behind] at layout
              rw [read_spread_layout layout spread some_]
              exact again
          | some kind =>
              obtain ⟨next, leads⟩ := Bool.and_eq_true_iff.mp leads
              have again : read (some kind) tail = (words more, []) := ih rest_ spread leads
              obtain ⟨part, rfl⟩ : ∃ part, word = first :: part := by
                obtain ⟨length, taken⟩ := next?_eq_some found
                exact ⟨_, taken⟩
              obtain ⟨rest, rfl⟩ : ∃ tail, rest = part ++ tail := ⟨_, (List.cons.inj whole).2.symm⟩
              have left : (part ++ rest).drop ((first :: part).length - 1) = rest := List.drop_left
              rw [left] at rest_
              refine read_spread_token found rest_ spread again ?_
              rintro rfl
              exact next

end Lexeme

end AdaExpressions
