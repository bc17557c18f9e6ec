import AdaExpressions.Parser.Basic
import AdaExpressions.Proofs.Reading.Choosing

/-!
# Operators matched by their words

Rules tell the next operator of a table by two kinds that they look at, and take its words. A parser
compares the words of each entry of a table with what stands next and moves on over those that agree.
Both come to the same, since no operator has more than two words and none has the end of the input
among them.

Result: `Parser.matchOperator_eq`.
-/

namespace AdaExpressions

namespace Parser

variable {parser : Parser}

theorem standsNext_iff {kinds : List Kind} :
    parser.standsNext kinds = true ↔ parser.setting.WordsAt kinds parser.mark := by
  have from_ (count : Nat) :
      ((kinds.zipIdx count).all fun entry => parser.peekKind entry.2 == entry.1) = true ↔
        parser.setting.WordsAt kinds (parser.mark + count) := by
    induction kinds generalizing count with
    | nil => simp [Setting.WordsAt]
    | cons kind more ih =>
        simp only [List.zipIdx_cons, List.all_cons, Bool.and_eq_true, ih, beq_iff_eq]
        rfl
  exact from_ 0

/-- The two kinds that a program looks at tell whether the words of an operator stand next. -/
theorem isPrefixOf_peek (op : Op) :
    op.words.isPrefixOf
        [(parser.setting.peek parser.state).1, (parser.setting.peek parser.state).2] =
      parser.standsNext op.words := by
  have more := op.eof_not_mem_words
  rw [Bool.eq_iff_iff, standsNext_iff]
  obtain ⟨first, one | ⟨second, two⟩⟩ := op.words_cases
  · simp only [one, Setting.WordsAt, List.isPrefixOf, Bool.and_true, and_true, beq_iff_eq]
    exact eq_comm
  · rw [two] at more ⊢
    simp only [List.mem_cons, not_or] at more
    simp only [Setting.WordsAt, Setting.peek, List.isPrefixOf, Bool.and_true, Bool.and_eq_true,
      and_true, beq_iff_eq]
    constructor
    · rintro ⟨rfl, rfl⟩
      exact ⟨rfl, (if_neg (Ne.symm more.1)).symm⟩
    · rintro ⟨rfl, rfl⟩
      exact ⟨rfl, (if_neg (Ne.symm more.1)).symm⟩

/-- To move on over words that stand next is to move as far as there are words. -/
theorem advances_eq {kinds : List Kind} (words : parser.setting.WordsAt kinds parser.mark)
    (more : .eof ∉ kinds) :
    kinds.foldl (fun parser _ => parser.advance.2) parser =
      parser.reset (parser.mark + kinds.length) := by
  induction kinds generalizing parser with
  | nil => rfl
  | cons kind rest ih =>
      simp only [List.mem_cons, not_or] at more
      have further : parser.buffer.next parser.mark = parser.mark + 1 :=
        Buffer.next_of_ne_eof fun ended => more.1 (ended.symm.trans words.1)
      have moved : parser.advance.2 = parser.reset (parser.mark + 1) :=
        congrArg parser.reset further
      have behind : (parser.reset (parser.mark + 1)).setting.WordsAt rest (parser.mark + 1) := words.2
      rw [List.foldl_cons, moved, ih behind more.2, List.length_cons, Nat.add_comm rest.length,
        ← Nat.add_assoc]
      rfl

theorem run_takeAll {kinds : List Kind} {state : State}
    (words : parser.setting.WordsAt kinds state.index) (more : .eof ∉ kinds)
    (call : (rule : Rule) → State → Outcome rule.Node) :
    (Program.takeAll kinds).run parser.setting call state =
      .done () (state.moveTo (state.index + kinds.length)) := by
  induction kinds generalizing state with
  | nil => rfl
  | cons kind rest ih =>
      simp only [List.mem_cons, not_or] at more
      have further : parser.setting.buffer.next state.index = state.index + 1 :=
        Buffer.next_of_ne_eof fun ended => more.1 (ended.symm.trans words.1)
      have taken : parser.setting.take kind state =
          .done (parser.setting.current state) (state.moveTo (state.index + 1)) :=
        (if_pos words.1).trans (congrArg (fun index => Outcome.done _ (state.moveTo index)) further)
      have behind : parser.setting.WordsAt rest (state.moveTo (state.index + 1)).index := words.2
      show Program.run _ _ (.andThen (.take kind) fun _ => Program.takeAll rest) _ = _
      simp only [Program.run, taken]
      rw [ih behind more.2, List.length_cons, Nat.add_comm rest.length, ← Nat.add_assoc]
      rfl

theorem run_takeOperator {op : Op} (words : parser.setting.WordsAt op.words parser.mark)
    (call : (rule : Rule) → State → Outcome rule.Node) :
    (Program.takeOperator op).run parser.setting call parser.state =
      .done ⟨parser.current, parser.buffer.token (parser.mark + op.words.length - 1)⟩
        (parser.state.moveTo (parser.mark + op.words.length)) := by
  have some_ : 0 < op.words.length := List.length_pos_iff.mpr op.words_ne_nil
  have last : max parser.mark (parser.mark + op.words.length - 1) =
      parser.mark + op.words.length - 1 := by omega
  have extent : parser.setting.extent parser.mark (parser.mark + op.words.length) =
      ⟨parser.current, parser.buffer.token (parser.mark + op.words.length - 1)⟩ := by
    rw [Setting.extent, last]
    rfl
  simp only [Program.takeOperator, bind, pure, Program.run, run_takeAll words op.eof_not_mem_words]
  exact congrArg (Outcome.done · _) extent

/-- Rules match an operator of a table as its words are matched. -/
theorem matchOperator_eq (table : List Op) :
    parser.matchOperator table =
      let found := parser.matchWords (table.map fun op => (op.words, op))
      (.accepted found.1, found.2) := by
  have next : Op.next? table (parser.setting.peek parser.state).1
      (parser.setting.peek parser.state).2 = table.find? fun op => parser.standsNext op.words :=
    congrArg (table.find? ·) (funext isPrefixOf_peek)
  have entry : (table.map fun op => (op.words, op)).find? (fun entry => parser.standsNext entry.1) =
      (table.find? fun op => parser.standsNext op.words).map fun op => (op.words, op) :=
    List.find?_map
  unfold matchOperator matchWords read Setting.read Program.read
  rw [entry]
  cases found : table.find? fun op => parser.standsNext op.words with
  | none =>
      rw [found] at next
      simp only [Program.nextOperator, bind, pure, Program.run, next, Option.map_none]
  | some op =>
      rw [found] at next
      have stands : parser.standsNext op.words = true := by simpa using List.find?_some found
      have words := standsNext_iff.mp stands
      simp only [Program.nextOperator, bind, pure, Program.run, next, run_takeOperator words,
        Option.map_some, advances_eq words op.eof_not_mem_words]
      rfl

end Parser

end AdaExpressions
