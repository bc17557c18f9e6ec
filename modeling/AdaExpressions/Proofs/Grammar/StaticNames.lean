import AdaExpressions.Proofs.Grammar.RightRecursion
import AdaExpressions.Proofs.Printing.Associations

/-!
# Static names

A static name is one loop over selections; a name tries four forms of step behind its first part and
leaves a form that fails. `Selections` says which selections stand behind a part. The loop reads them
and no more, and the steps of a name begin with them: an opening parenthesis or a tick stands at none
of them, and an identifier or operator symbol is read as such wherever it is selected. Behind them a
name may go on, with a call, with `.all` or with an attribute. Where it does not, it is the same tree.

Results: `Selections.reads_staticRounds` and `Selections.reads_nameSteps` (the two readings of
selections), `exists_nameSteps` (the steps of a name come to an end wherever they start), and
`staticName_begins_name`.
-/

namespace AdaExpressions

open Program Grammar

/-! ### Identifiers and operator symbols -/

namespace Setting

/-- An identifier or operator symbol stands here. -/
def IdentAt (setting : Setting) (index : Nat) : Prop :=
  setting.buffer.kind index = .identifier ∨ setting.buffer.kind index = .string

instance (setting : Setting) (index : Nat) : Decidable (setting.IdentAt index) :=
  inferInstanceAs (Decidable (_ ∨ _))

/-- The identifier or operator symbol that stands here. -/
def ident (setting : Setting) (index : Nat) : Ident :=
  ⟨if setting.buffer.kind index = .string then .operatorSymbol else .identifier,
    setting.buffer.token index⟩

end Setting

variable {setting : Setting} {index stop : Nat}

theorem Setting.ident_plain : (setting.ident index).form ≠ .enumeration := by
  unfold ident
  split <;> simp

theorem Setting.IdentAt.kind (here : setting.IdentAt index) : setting.buffer.kind index =
    if (setting.ident index).form = .operatorSymbol then .string else .identifier := by
  rcases here with identifier | string
  · simp [ident, identifier]
  · simp [ident, string]

theorem failsAt_staticPart_of_not (missing : ¬ setting.IdentAt index) :
    staticPart.FailsAt setting index := by
  obtain ⟨identifier, string⟩ := not_or.mp missing
  exact failsAt_staticPart string identifier

/-! ### Selections -/

/-- The identifiers that are selected one after another from the index on, and where the last of
them ends. A dot with something else behind it is no selection. -/
inductive Selections (setting : Setting) : Nat → List Ident → Nat → Prop
  | stop {index : Nat} :
      ¬ (setting.buffer.kind index = .dot ∧ setting.IdentAt (index + 1)) →
      Selections setting index [] index
  | next {index stop : Nat} {more : List Ident} :
      setting.buffer.kind index = .dot → setting.IdentAt (index + 1) →
      Selections setting (index + 2) more stop →
      Selections setting index (setting.ident (index + 1) :: more) stop

theorem exists_selections (setting : Setting) (index : Nat) :
    ∃ more stop, Selections setting index more stop := by
  by_cases next : setting.buffer.kind index = .dot ∧ setting.IdentAt (index + 1)
  · have within : index + 1 < setting.buffer.size :=
      Buffer.succ_lt_size_of_ne_eof (by rw [next.1]; decide)
    obtain ⟨more, stop, selections⟩ := exists_selections setting (index + 2)
    exact ⟨_, stop, .next next.1 next.2 selections⟩
  · exact ⟨[], index, .stop next⟩
termination_by setting.buffer.size - index

/-- One round of the loop in `staticName`. -/
def staticRound (base : Name) : Program (Option Name) := do
  if (← nextKind) = .dot then
    let some selector ← attempt (do let _ ← take .dot; staticPart) | return none
    return some (base.select selector)
  else
    return none

theorem staticName_eq : staticName = (do
    let first ← staticPart
    let path ← iterate (.simple first) staticRound
    return .name path) :=
  rfl

theorem reads_staticRound_none {base : Name}
    (ends : ¬ (setting.buffer.kind index = .dot ∧ setting.IdentAt (index + 1))) :
    Reads setting (staticRound base) index (.done none index) := by
  refine .andThen reads_nextKind ?_
  split
  next dot =>
    have missing : ¬ setting.IdentAt (index + 1) := fun here => ends ⟨dot, here⟩
    have fails : (do let _ ← take .dot; staticPart : Program Ident).FailsAt setting index :=
      .behind (reads_take dot (by decide)) (failsAt_staticPart_of_not missing)
    exact .andThen (reads_attempt_none fails) .yield
  next => exact .yield

theorem reads_staticRound {base : Name} (dot : setting.buffer.kind index = .dot)
    (here : setting.IdentAt (index + 1)) : Reads setting (staticRound base) index
      (.done (some (base.select (setting.ident (index + 1)))) (index + 2)) := by
  refine .andThen reads_nextKind ?_
  rw [if_pos dot]
  have part := reads_staticPart Setting.ident_plain here.kind
  exact .andThen (.attempt (.andThen (reads_take dot (by decide)) part)) .yield

theorem reads_selection (dot : setting.buffer.kind index = .dot)
    (here : setting.IdentAt (index + 1)) : Reads setting (call (.step .selection)) index
      (.done (.select (.name (.simple (setting.ident (index + 1))))) (index + 2)) := by
  have direct := reads_directName_ident Setting.ident_plain here.kind
  exact .call (.andThen (reads_take dot (by decide)) (.andThen direct .yield))

theorem Expr.select_ident {path : Name} {ident : Ident} (plain : ident.form ≠ .enumeration) :
    Expr.select (.name path) (.name (.simple ident)) = .name (path.select ident) := by
  rw [select, if_neg plain]

namespace Selections

variable {more : List Ident}

/-- The loop of a static name reads the selections. -/
theorem reads_staticRounds (selections : Selections setting index more stop) (path : Name) :
    Reads setting (iterate path staticRound) index
      (.done (more.foldl Name.select path) stop) := by
  induction selections generalizing path with
  | stop ends => exact .iterateStop (reads_staticRound_none ends)
  | next dot here _ ih => exact .iterateNext (reads_staticRound dot here) (ih _)

/-- The steps of a name begin with the selections. -/
theorem reads_nameSteps (selections : Selections setting index more stop) {path : Name}
    {result : Expr} {last : Nat}
    (further : Reads setting (nameSteps (.name (more.foldl Name.select path))) stop
      (.done result last)) :
    Reads setting (nameSteps (.name path)) index (.done result last) := by
  induction selections generalizing path with
  | stop => exact further
  | next dot here _ ih =>
      refine AdaExpressions.reads_nameSteps [.call] rfl ?_ (reads_selection dot here) ?_
      · refine List.forall_mem_singleton.mpr (StepRule.call.failsAt_of_start ?_)
        rw [dot]
        decide
      · rw [NameStep.extend, Expr.select_ident Setting.ident_plain]
        exact ih further

end Selections

/-! ### Further steps -/

/-- Of the forms of step, the first that does not fail here, if there is one. -/
theorem exists_step (allowed : ∀ violation, setting.options.rejects violation = false)
    (rules : List StepRule) (index : Nat) :
    (∀ rule ∈ rules, (call (.step rule)).FailsAt setting index) ∨
      ∃ before rule after step middle, rules = before ++ rule :: after ∧
        (∀ other ∈ before, (call (.step other)).FailsAt setting index) ∧
        Reads setting (call (.step rule)) index (.done step middle) := by
  induction rules with
  | nil => exact .inl (List.forall_mem_nil _)
  | cons rule more ih =>
      rcases Rule.reads_or_fails allowed (.step rule) index with ⟨step, middle, reads⟩ | fails
      · exact .inr ⟨[], rule, more, step, middle, rfl, List.forall_mem_nil _, reads⟩
      · rcases ih with none_ | ⟨before, other, after, step, middle, rfl, earlier, reads⟩
        · exact .inl (List.forall_mem_cons.mpr ⟨fails, none_⟩)
        · exact .inr ⟨rule :: before, other, after, step, middle, rfl,
            List.forall_mem_cons.mpr ⟨fails, earlier⟩, reads⟩

/-- Where nothing is rejected, the steps of a name come to an end; if they take no token, they leave
the tree as it is. -/
theorem exists_nameSteps (allowed : ∀ violation, setting.options.rejects violation = false)
    (base : Expr) (index : Nat) :
    ∃ result stop, Reads setting (nameSteps base) index (.done result stop) ∧ index ≤ stop ∧
      (stop = index → result = base) := by
  rcases exists_step allowed StepRule.ordered index with
    none_ | ⟨before, rule, after, step, middle, ordered, fail, reads⟩
  · refine ⟨base, index, .iterateStop (.andThen (reads_firstOf_none fun part member => ?_) .yield),
      Nat.le_refl _, fun _ => rfl⟩
    obtain ⟨rule, known, rfl⟩ := List.mem_map.mp member
    exact none_ rule known
  · have moved := Rule.stop_of_reads reads
    obtain ⟨result, stop, further, later, _⟩ :=
      exists_nameSteps allowed (step.extend base) middle
    refine ⟨result, stop, AdaExpressions.reads_nameSteps before ordered fail reads further, ?_, ?_⟩
    · omega
    · intro same
      omega
termination_by setting.buffer.size - index

/-! ### The two rules -/

namespace Name

theorem components_foldl_select (path : Name) (more : List Ident) :
    (more.foldl select path).components = path.components ++ more := by
  induction more generalizing path with
  | nil => simp
  | cons ident more ih => simp [ih, select, components]

theorem getLast?_components (path : Name) :
    path.components.getLast?.map Ident.token = some path.token := by
  cases path <;> simp [components, token]

end Name

theorem reads_staticName {more : List Ident} (here : setting.IdentAt index)
    (selections : Selections setting (index + 1) more stop) :
    Reads setting (expr .staticName) index
      (.done (.name (more.foldl Name.select (.simple (setting.ident index)))) stop) := by
  refine .call ?_
  show Reads setting staticName index _
  rw [staticName_eq]
  exact .andThen (reads_staticPart Setting.ident_plain here.kind)
    (.andThen (selections.reads_staticRounds _) .yield)

/-- A name that starts with an identifier or operator symbol is read, as far as the static name or
further; and no further only if it is the static name. -/
theorem exists_name (allowed : ∀ violation, setting.options.rejects violation = false)
    {more : List Ident} (here : setting.IdentAt index)
    (selections : Selections setting (index + 1) more stop) :
    ∃ tree last, Reads setting (expr .name) index (.done tree last) ∧ stop ≤ last ∧
      (last = stop → tree = .name (more.foldl Name.select (.simple (setting.ident index)))) := by
  obtain ⟨tree, last, further, later, same⟩ := exists_nameSteps allowed
    (.name (more.foldl Name.select (.simple (setting.ident index)))) stop
  have direct := reads_directName_ident Setting.ident_plain here.kind
  exact ⟨tree, last, .call (.andThen direct (selections.reads_nameSteps further)), later, same⟩

theorem meets_rule (rule : ExprRule) :
    (expr rule).Meets setting (moving setting) index fun _ _ => True :=
  ⟨trivial, fun _ _ _ _ => trivial⟩

namespace Parser

variable {parser : Parser}

theorem accepted_rule (agrees : parser.state.Agrees parser.setting) {rule : ExprRule} {tree : Expr}
    (reads : Reads parser.setting (expr rule) parser.mark (.done tree stop)) :
    ∃ after, parser.rule (.expr rule) = (.accepted tree, after) ∧ after.mark = stop := by
  have keyed : (expr rule).Keyed := trivial
  obtain ⟨answer, stops⟩ := accepted_of_reads agrees keyed (meets_rule rule) reads
  exact ⟨_, Prod.ext answer rfl, stops⟩

theorem rule_ne_accepted (agrees : parser.state.Agrees parser.setting) {rule : ExprRule}
    (fails : (expr rule).FailsAt parser.setting parser.mark) (tree : Expr) (after : Parser) :
    parser.rule (.expr rule) ≠ (.accepted tree, after) := by
  obtain ⟨failure, reads, _⟩ := fails
  have keyed : (expr rule).Keyed := trivial
  have rejected := rejected_of_reads agrees keyed (meets_rule rule) reads
  intro accepted
  cases rejected.symm.trans (congrArg Prod.fst accepted)

end Parser

/-- Under the default options and wherever a session leads, a static name is accepted just where an
identifier or operator symbol stands. It consists of that one and all that are selected behind it,
nested to the left, and leaves a dot that selects none. A name is accepted there too, and goes at
least as far; if it goes no further, it is the same tree. -/
theorem staticName_begins_name {tokens : List Token} {file : String} {parser : Parser}
    (session : Session tokens file .lenient parser) :
    ((∃ tree static, parser.rule (.expr .staticName) = (.accepted tree, static)) ↔
      parser.current.kind = .identifier ∨ parser.current.kind = .string) ∧
    ∀ tree static, parser.rule (.expr .staticName) = (.accepted tree, static) →
      (∃ path first more, tree = .name path ∧ first = parser.setting.ident parser.mark ∧
        Selections parser.setting (parser.mark + 1) more static.mark ∧
        path = more.foldl Name.select (.simple first) ∧ path.components = first :: more ∧
        path.components.getLast?.map Ident.token = some path.token) ∧
      ∃ other whole, parser.rule (.expr .name) = (.accepted other, whole) ∧
        static.mark ≤ whole.mark ∧ (whole.mark = static.mark → other = tree) := by
  obtain ⟨agrees, _⟩ := session.keeps
  have options : parser.setting.options = .lenient := congrArg Setting.options session.setting_eq
  have allowed (violation : Violation) : parser.setting.options.rejects violation = false := by
    rw [options]
    cases violation <;> rfl
  obtain ⟨more, stop, selections⟩ := exists_selections parser.setting (parser.mark + 1)
  by_cases here : parser.setting.IdentAt parser.mark
  · obtain ⟨static, answer, stops⟩ := Parser.accepted_rule agrees (reads_staticName here selections)
    refine ⟨⟨fun _ => here, fun _ => ⟨_, static, answer⟩⟩, fun tree static' answer' => ?_⟩
    cases answer.symm.trans answer'
    subst stops
    refine ⟨⟨_, _, more, rfl, rfl, selections, rfl, ?_, Name.getLast?_components _⟩, ?_⟩
    · rw [Name.components_foldl_select]
      rfl
    · obtain ⟨other, last, reads, later, same⟩ := exists_name allowed here selections
      obtain ⟨whole, answer, stops⟩ := Parser.accepted_rule agrees reads
      rw [← stops] at later same
      exact ⟨other, whole, answer, later, same⟩
  · have other : parser.setting.buffer.kind parser.mark ∉ ExprRule.staticName.starters := by
      simpa [ExprRule.starters, Setting.IdentAt, and_comm] using here
    have rejected := Parser.rule_ne_accepted agrees (ExprRule.staticName.failsAt_of_start other)
    refine ⟨⟨?_, fun found => absurd found here⟩, fun tree static answer => ?_⟩
    · rintro ⟨tree, static, answer⟩
      exact absurd answer (rejected tree static)
    · exact absurd answer (rejected tree static)

/-- Of `A.B.all` the static name is `A.B`, with the second dot left, and the name goes on. -/
theorem staticName_begins_name_dereference :
    let outer : Token := ⟨.identifier, "A", default⟩
    let inner : Token := ⟨.identifier, "B", default⟩
    let dot : Token := ⟨.dot, ".", default⟩
    let tokens : List Token := [outer, dot, inner, dot, ⟨.kwAll, "all", default⟩]
    let parser := Parser.ofTokens tokens "" .lenient
    let path : Name := .select (.simple ⟨.identifier, outer⟩) ⟨.identifier, inner⟩
    Session tokens "" .lenient parser ∧
      ∃ static, parser.rule (.expr .staticName) = (.accepted (.name path), static) ∧
        static.mark = 3 ∧
        (∃ more, Selections parser.setting 1 more 3 ∧
          path.components = ⟨.identifier, outer⟩ :: more) ∧
        ∃ other whole, parser.rule (.expr .name) = (.accepted other, whole) ∧ 3 ≤ whole.mark := by
  intro outer inner dot tokens parser path
  have session : Session tokens "" .lenient parser := .start
  obtain ⟨starts, parts⟩ := staticName_begins_name session
  obtain ⟨tree, static, answer⟩ := starts.mpr (.inl rfl)
  have accepted : (parser.rule (.expr .staticName)).1 = .accepted (.name path) := by cbv
  have three : (parser.rule (.expr .staticName)).2.mark = 3 := by cbv
  rw [answer] at accepted three
  obtain ⟨⟨_, first, more, same, here, selections, _, components, _⟩, other, whole, name, later,
    _⟩ := parts tree static answer
  have tree_ : tree = .name path := Verdict.accepted.inj accepted
  have first_ : first = ⟨.identifier, outer⟩ := here
  rw [← Expr.name.inj (tree_.symm.trans same), first_] at components
  have three : static.mark = 3 := three
  rw [three] at selections later
  exact ⟨session, static, tree_ ▸ answer, three, ⟨more, selections, components⟩, other, whole, name,
    later⟩

end AdaExpressions
