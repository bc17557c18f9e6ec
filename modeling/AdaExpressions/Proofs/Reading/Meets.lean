import AdaExpressions.Proofs.Reading.Basic

/-!
# Conditions on what a program reads

A contract says where rules may be called and what they then ensure of the value and the index they
give. `Program.Meets` computes, instruction by instruction, what has to be shown for a program to
reach a goal whenever it does not fail; a repetition asks for a condition that every round keeps
while it moves on. A part that was attempted in vain is known to have failed.

Results: `Program.Meets.of_bodies` (where the body of every rule keeps the contract, what is read
reaches the goal), `Program.Meets.imp` (goals and contracts may be weakened).
-/

namespace AdaExpressions

structure Contract where
  /-- Where a rule may be called. -/
  allows : Rule → Nat → Prop
  /-- What a call gives: from an index, a value and the index after it. -/
  ensures : (rule : Rule) → Nat → rule.Node → Nat → Prop

/-- The program starts a failure that an attempt would note. -/
def Program.FailsAt (setting : Setting) {α : Type} (program : Program α) (index : Nat) : Prop :=
  ∃ failure, Reads setting program index (.failed failure) ∧ failure.isFatal = false

def Program.Meets (setting : Setting) (contract : Contract) :
    {α : Type} → Program α → Nat → (α → Nat → Prop) → Prop
  | _, .yield value, index, goal => goal value index
  | _, .andThen first next, index, goal =>
      first.Meets setting contract index fun value middle =>
        (next value).Meets setting contract middle goal
  | _, .fail _, _, _ => True
  | _, .take kind, index, goal =>
      setting.buffer.kind index = kind →
        goal (setting.buffer.token index) (setting.buffer.next index)
  | _, .peek, index, goal => goal (setting.kindsAt index) index
  | _, .forbid violation _, index, goal =>
      setting.options.rejects violation = false → goal () index
  | _, .attempt part, index, goal =>
      (part.Meets setting contract index fun value stop => goal (some value) stop) ∧
        (part.FailsAt setting index → goal none index)
  | _, .extent part, index, goal =>
      part.Meets setting contract index fun value stop =>
        goal (value, setting.extent index stop) stop
  | σ, .iterate value step, index, goal =>
      ∃ holds : σ → Nat → Prop, holds value index ∧
        ∀ value index, holds value index →
          (step value).Meets setting contract index fun next stop =>
            match next with
            | none => goal value stop
            | some next => index < stop ∧ holds next stop
  | _, .remember _ rule, index, goal =>
      contract.allows (.expr rule) index ∧
        ∀ value stop, Reads setting (.call (.expr rule)) index (.done value stop) →
          contract.ensures (.expr rule) index value stop → goal value stop
  | _, .call rule, index, goal =>
      contract.allows rule index ∧
        ∀ value stop, Reads setting (.call rule) index (.done value stop) →
          contract.ensures rule index value stop → goal value stop

namespace Program.Meets

variable {setting : Setting} {contract other : Contract} {α β : Type}

theorem imp (allows : ∀ rule index, contract.allows rule index → other.allows rule index)
    (ensures : ∀ rule index value stop, other.ensures rule index value stop →
      contract.ensures rule index value stop)
    {program : Program α} {index : Nat} {goal weaker : α → Nat → Prop}
    (meets : program.Meets setting contract index goal)
    (implies : ∀ value stop, goal value stop → weaker value stop) :
    program.Meets setting other index weaker := by
  induction program generalizing index with
  | yield value => exact implies _ _ meets
  | andThen first next ihFirst ihNext =>
      exact ihFirst meets fun value middle rest => ihNext value rest implies
  | fail objection => exact trivial
  | take kind => exact fun found => implies _ _ (meets found)
  | peek => exact implies _ _ meets
  | forbid violation token => exact fun allowed => implies _ _ (meets allowed)
  | attempt part ih =>
      exact ⟨ih meets.1 fun value stop => implies (some value) stop,
        fun fails => implies _ _ (meets.2 fails)⟩
  | extent part ih => exact ih meets fun value stop => implies _ _
  | iterate value step ih =>
      obtain ⟨holds, start, keeps⟩ := meets
      refine ⟨holds, start, fun value index here => ih value (keeps value index here) ?_⟩
      rintro (_ | next) stop reached
      · exact implies _ _ reached
      · exact reached
  | remember key rule =>
      exact ⟨allows _ _ meets.1, fun value stop reads ensured =>
        implies _ _ (meets.2 value stop reads (ensures _ _ _ _ ensured))⟩
  | call rule =>
      exact ⟨allows _ _ meets.1, fun value stop reads ensured =>
        implies _ _ (meets.2 value stop reads (ensures _ _ _ _ ensured))⟩

theorem mono {program : Program α} {index : Nat} {goal weaker : α → Nat → Prop}
    (meets : program.Meets setting contract index goal)
    (implies : ∀ value stop, goal value stop → weaker value stop) :
    program.Meets setting contract index weaker :=
  imp (fun _ _ => id) (fun _ _ _ _ => id) meets implies

/-- The induction is on what is read: a call is one step deeper than the body it runs. -/
theorem of_sound
    (sound : ∀ rule index, contract.allows rule index →
      rule.body.Meets setting contract index (contract.ensures rule index) ∨
        ∀ value stop, Reads setting (.call rule) index (.done value stop) →
          contract.ensures rule index value stop)
    {program : Program α} {index stop : Nat} {value : α} {goal : α → Nat → Prop}
    (meets : program.Meets setting contract index goal)
    (reads : Reads setting program index (.done value stop)) : goal value stop := by
  generalize result : Reading.done value stop = reading at reads
  induction reads generalizing stop with
  | yield => cases result; exact meets
  | andThen _ _ ihFirst ihNext => exact ihNext (ihFirst meets rfl) result
  | take found => cases result; exact meets found
  | peek => cases result; exact meets
  | forbid allowed => cases result; exact meets allowed
  | attempt _ ih => cases result; exact ih meets.1 rfl
  | attemptNone part recoverable => cases result; exact meets.2 ⟨_, part, recoverable⟩
  | extent _ ih => cases result; exact ih meets rfl
  | iterateStop _ ih =>
      cases result
      obtain ⟨holds, start, keeps⟩ := meets
      exact ih (keeps _ _ start) rfl
  | iterateNext _ _ ihStep ihRest =>
      obtain ⟨holds, start, keeps⟩ := meets
      exact ihRest ⟨holds, (ihStep (keeps _ _ start) rfl).2, keeps⟩ result
  | remember call ih =>
      cases result
      exact meets.2 _ _ call (ih ⟨meets.1, fun _ _ _ => id⟩ rfl)
  | call body ih =>
      cases result
      rcases sound _ _ meets.1 with bodyMeets | ensured
      · exact meets.2 _ _ (.call body) (ih bodyMeets rfl)
      · exact meets.2 _ _ (.call body) (ensured _ _ (.call body))
  | _ => cases result

/-- Where the bodies of the rules keep the contract, what is read reaches the goal. -/
theorem of_bodies
    (bodies : ∀ rule index, contract.allows rule index →
      rule.body.Meets setting contract index (contract.ensures rule index))
    {program : Program α} {index stop : Nat} {value : α} {goal : α → Nat → Prop}
    (meets : program.Meets setting contract index goal)
    (reads : Reads setting program index (.done value stop)) : goal value stop :=
  of_sound (fun rule index allowed => .inl (bodies rule index allowed)) meets reads

/-- Where every call is known to keep the contract, what is read reaches the goal. -/
theorem of_calls
    (calls : ∀ rule index value stop, Reads setting (.call rule) index (.done value stop) →
      contract.ensures rule index value stop)
    {program : Program α} {index stop : Nat} {value : α} {goal : α → Nat → Prop}
    (meets : program.Meets setting contract index goal)
    (reads : Reads setting program index (.done value stop)) : goal value stop :=
  of_sound (fun rule index _ => .inr (calls rule index)) meets reads

end Program.Meets

/-! ### Programs written with `do` -/

namespace Setting

/-- The kinds stand in the buffer from the index on. -/
def WordsAt (setting : Setting) : List Kind → Nat → Prop
  | [], _ => True
  | kind :: more, index => setting.buffer.kind index = kind ∧ setting.WordsAt more (index + 1)

theorem WordsAt.within {setting : Setting} {kinds : List Kind} {index : Nat}
    (words : setting.WordsAt kinds index) (some_ : kinds ≠ []) (more : .eof ∉ kinds) :
    index + kinds.length < setting.buffer.size := by
  induction kinds generalizing index with
  | nil => exact absurd rfl some_
  | cons kind rest ih =>
      simp only [List.mem_cons, not_or] at more
      have here := Buffer.succ_lt_size_of_ne_eof (by rw [words.1]; exact Ne.symm more.1)
      cases rest with
      | nil => exact here
      | cons next rest =>
          have later := ih words.2 (by simp) more.2
          simp only [List.length_cons] at later ⊢
          omega

/-- An operator takes at least one token, and none that ends the input. -/
theorem WordsAt.operator {setting : Setting} {op : Op} {index : Nat}
    (words : setting.WordsAt op.words index) :
    index < index + op.words.length ∧ index + op.words.length < setting.buffer.size :=
  ⟨Nat.lt_add_of_pos_right (List.length_pos_iff.mpr op.words_ne_nil),
    words.within op.words_ne_nil op.eof_not_mem_words⟩

end Setting

namespace Program

variable {setting : Setting} {contract : Contract} {α β : Type} {index : Nat}

@[simp] theorem meets_pure {value : α} {goal : α → Nat → Prop} :
    (pure value : Program α).Meets setting contract index goal ↔ goal value index :=
  Iff.rfl

@[simp] theorem meets_bind {first : Program α} {next : α → Program β} {goal : β → Nat → Prop} :
    (first >>= next).Meets setting contract index goal ↔
      first.Meets setting contract index fun value middle =>
        (next value).Meets setting contract middle goal :=
  Iff.rfl

@[simp] theorem meets_fail {objection : Objection} {goal : α → Nat → Prop} :
    (fail objection : Program α).Meets setting contract index goal ↔ True :=
  Iff.rfl

@[simp] theorem meets_take {kind : Kind} {goal : Token → Nat → Prop} (more : kind ≠ .eof) :
    (take kind).Meets setting contract index goal ↔
      (setting.buffer.kind index = kind → index + 1 < setting.buffer.size →
        goal (setting.buffer.token index) (index + 1)) := by
  refine forall_congr' fun found => ?_
  have here : setting.buffer.kind index ≠ .eof := by rwa [found]
  simp [Buffer.next_of_ne_eof here, Buffer.succ_lt_size_of_ne_eof here]

@[simp] theorem meets_forbid {violation : Violation} {token : Token} {goal : Unit → Nat → Prop} :
    (forbid violation token).Meets setting contract index goal ↔
      (setting.options.rejects violation = false → goal () index) :=
  Iff.rfl

@[simp] theorem meets_attempt {part : Program α} {goal : Option α → Nat → Prop} :
    (attempt part).Meets setting contract index goal ↔
      (part.Meets setting contract index fun value stop => goal (some value) stop) ∧
        (part.FailsAt setting index → goal none index) :=
  Iff.rfl

@[simp] theorem meets_extent {part : Program α} {goal : α × Extent → Nat → Prop} :
    (extent part).Meets setting contract index goal ↔
      part.Meets setting contract index fun value stop =>
        goal (value, setting.extent index stop) stop :=
  Iff.rfl

theorem meets_call (rule : Rule) {goal : rule.Node → Nat → Prop} :
    (call rule).Meets setting contract index goal ↔
      contract.allows rule index ∧
        ∀ value stop, Reads setting (.call rule) index (.done value stop) →
          contract.ensures rule index value stop → goal value stop :=
  Iff.rfl

@[simp] theorem meets_remember {key : MemoKey} {rule : ExprRule} {goal : Expr → Nat → Prop} :
    (remember key rule).Meets setting contract index goal ↔
      (expr rule).Meets setting contract index goal :=
  Iff.rfl

@[simp] theorem meets_expr {rule : ExprRule} {goal : Expr → Nat → Prop} :
    (expr rule).Meets setting contract index goal ↔
      contract.allows (.expr rule) index ∧
        ∀ value stop, Reads setting (expr rule) index (.done value stop) →
          contract.ensures (.expr rule) index value stop → goal value stop :=
  Iff.rfl

theorem meets_iterate {σ : Type} {value : σ} {step : σ → Program (Option σ)}
    {goal : σ → Nat → Prop} (holds : σ → Nat → Prop) (start : holds value index)
    (keeps : ∀ value index, holds value index →
      (step value).Meets setting contract index fun next stop =>
        match next with
        | none => goal value stop
        | some next => index < stop ∧ holds next stop) :
    (iterate value step).Meets setting contract index goal :=
  ⟨holds, start, keeps⟩

@[simp] theorem meets_ite {condition : Prop} [Decidable condition] {yes no : Program α}
    {goal : α → Nat → Prop} :
    (if condition then yes else no).Meets setting contract index goal ↔
      (condition → yes.Meets setting contract index goal) ∧
        (¬ condition → no.Meets setting contract index goal) := by
  split <;> simp [*]

/-! ### Parts that many rules share -/

@[simp] theorem meets_nextKind {goal : Kind → Nat → Prop} :
    nextKind.Meets setting contract index goal ↔ goal (setting.buffer.kind index) index :=
  Iff.rfl

@[simp] theorem meets_peek {goal : Kind × Kind → Nat → Prop} :
    peek.Meets setting contract index goal ↔ goal (setting.kindsAt index) index :=
  Iff.rfl

@[simp] theorem meets_takeOneOf {label : String} {kinds : List Kind} {goal : Token → Nat → Prop}
    (more : .eof ∉ kinds) :
    (takeOneOf label kinds).Meets setting contract index goal ↔
      (setting.buffer.kind index ∈ kinds → index + 1 < setting.buffer.size →
        goal (setting.buffer.token index) (index + 1)) := by
  simp only [takeOneOf, meets_bind, meets_nextKind, meets_ite, meets_fail, List.contains_iff_mem,
    implies_true, and_true]
  refine forall_congr' fun member => ?_
  rw [meets_take fun same => more (same ▸ member)]
  simp

@[simp] theorem meets_orElse {first second : Program α} {goal : α → Nat → Prop} :
    (orElse first second).Meets setting contract index goal ↔
      first.Meets setting contract index goal ∧
        (first.FailsAt setting index → second.Meets setting contract index goal) :=
  Iff.rfl

@[simp] theorem meets_firstOf_nil {goal : Option α → Nat → Prop} :
    (firstOf []).Meets setting contract index goal ↔ goal none index :=
  Iff.rfl

@[simp] theorem meets_firstOf_cons {part : Program α} {more : List (Program α)}
    {goal : Option α → Nat → Prop} :
    (firstOf (part :: more)).Meets setting contract index goal ↔
      (part.Meets setting contract index fun value stop => goal (some value) stop) ∧
        (part.FailsAt setting index → (firstOf more).Meets setting contract index goal) :=
  Iff.rfl

@[simp] theorem meets_parenthesized {inner : Program α} {goal : α → Nat → Prop} :
    (parenthesized inner).Meets setting contract index goal ↔
      (setting.buffer.kind index = .openParen → index + 1 < setting.buffer.size →
        inner.Meets setting contract (index + 1) fun value stop =>
          setting.buffer.kind stop = .closeParen → stop + 1 < setting.buffer.size →
            goal value (stop + 1)) := by
  simp [parenthesized]

theorem meets_separated {separator : Kind} {item : Program α} {goal : List α → Nat → Prop}
    (more : separator ≠ .eof) (holds : List α → Nat → Prop)
    (first : item.Meets setting contract index fun value stop => holds [value] stop)
    (next : ∀ items index, holds items index → setting.buffer.kind index = separator →
      index + 1 < setting.buffer.size →
        item.Meets setting contract (index + 1) fun value stop =>
          index < stop ∧ holds (items ++ [value]) stop)
    (last : ∀ items index, holds items index → goal items index) :
    (separated separator item).Meets setting contract index goal := by
  simp only [separated, meets_bind]
  refine Meets.mono first fun value stop here => ?_
  refine meets_iterate (fun items index => holds (value :: items.reverse) index) here ?_
  intro items index here
  simp only [meets_bind, meets_nextKind, meets_ite, meets_attempt, meets_pure]
  refine ⟨fun found => ⟨?_, fun _ => last _ _ here⟩, fun _ => last _ _ here⟩
  rw [meets_take more]
  intro _ within
  refine Meets.mono (next _ _ here found within) fun value stop reached => ?_
  simpa using reached

/-! ### Operators -/

@[simp] theorem meets_nextOperator {table : List Op} {goal : Option Op → Nat → Prop} :
    (nextOperator table).Meets setting contract index goal ↔
      goal (Op.next? table (setting.kindsAt index).1 (setting.kindsAt index).2) index :=
  Iff.rfl

theorem meets_takeAll {kinds : List Kind} {goal : Unit → Nat → Prop} (more : .eof ∉ kinds)
    (meets : setting.WordsAt kinds index → goal () (index + kinds.length)) :
    (takeAll kinds).Meets setting contract index goal := by
  induction kinds generalizing index with
  | nil => exact meets trivial
  | cons kind rest ih =>
      simp only [List.mem_cons, not_or] at more
      simp only [takeAll, meets_bind, meets_take (Ne.symm more.1)]
      intro found _
      refine ih more.2 fun words => ?_
      have reached := meets ⟨found, words⟩
      rwa [List.length_cons, show index + (rest.length + 1) = index + 1 + rest.length by omega]
        at reached

theorem meets_takeOperator {op : Op} {goal : Extent → Nat → Prop}
    (meets : setting.WordsAt op.words index →
      goal (setting.extent index (index + op.words.length)) (index + op.words.length)) :
    (takeOperator op).Meets setting contract index goal :=
  meets_takeAll op.eof_not_mem_words meets

theorem meets_attemptRight {op : Op} {right : Program α} {goal : Option (Extent × α) → Nat → Prop}
    (found : setting.WordsAt op.words index →
      right.Meets setting contract (index + op.words.length) fun value stop =>
        goal (some (setting.extent index (index + op.words.length), value)) stop)
    (missing : goal none index) :
    (attemptRight op right).Meets setting contract index goal :=
  ⟨meets_takeOperator found, fun _ => missing⟩

theorem meets_leftChain {table : List Op} {first right : ExprRule} {goal : Expr → Nat → Prop}
    (holds : Expr → Nat → Prop)
    (start : (expr first).Meets setting contract index holds)
    (next : ∀ left index op, holds left index → op ∈ table → setting.WordsAt op.words index →
      (expr right).Meets setting contract (index + op.words.length) fun operand stop =>
        index < stop ∧ holds (.ofBinary left op operand) stop)
    (last : ∀ left index, holds left index → goal left index) :
    (leftChain table first right).Meets setting contract index goal := by
  simp only [leftChain, meets_bind]
  refine Meets.mono start fun operand stop here => meets_iterate holds here ?_
  intro left index here
  simp only [chainStep, meets_bind, meets_nextOperator]
  split
  next op found =>
    exact meets_attemptRight (next left index op here (Op.mem_of_next? found)) (last _ _ here)
  next => exact last _ _ here

theorem meets_unary {table : List Op} {operand : ExprRule} {plain : Program Expr}
    {goal : Expr → Nat → Prop}
    (found : ∀ op ∈ table, setting.WordsAt op.words index →
      (expr operand).Meets setting contract (index + op.words.length) fun operand stop =>
        goal (.ofUnary op (setting.extent index (index + op.words.length)).span operand) stop)
    (missing : plain.Meets setting contract index goal) :
    (unary table operand plain).Meets setting contract index goal := by
  simp only [unary, meets_bind, meets_nextOperator]
  split
  next op here => exact meets_takeOperator (found op (Op.mem_of_next? here))
  next => exact missing

/-! ### Parts of rules -/

open Grammar

@[simp] theorem meets_staticPart {goal : Ident → Nat → Prop} :
    staticPart.Meets setting contract index goal ↔
      (setting.buffer.kind index = .string → index + 1 < setting.buffer.size →
        goal ⟨.operatorSymbol, setting.buffer.token index⟩ (index + 1)) ∧
      (setting.buffer.kind index = .identifier → index + 1 < setting.buffer.size →
        goal ⟨.identifier, setting.buffer.token index⟩ (index + 1)) := by
  simp only [staticPart, ident, meets_bind, meets_nextKind]
  by_cases string : setting.buffer.kind index = .string <;> simp [string]

@[simp] theorem meets_box {goal : Expr → Nat → Prop} :
    box.Meets setting contract index goal ↔
      (setting.buffer.kind index = .diamond → index + 1 < setting.buffer.size →
        goal (.box (setting.buffer.token index).span) (index + 1)) := by
  simp [box]

end Program

end AdaExpressions
