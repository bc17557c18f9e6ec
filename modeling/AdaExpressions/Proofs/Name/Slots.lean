import AdaExpressions.Name.Resolution

/-!
# Slots are written once

Names, copies of names and tables live side by side. Questions are put to any node of any name, about
any table and any scope, while nodes are copied and tables grow. A question fills empty slots below
the node that it is put to and does nothing else; so what a node once answered it answers ever after,
and so does every copy of it that was taken since, while names that are not asked stay as they are.

Results: `ResolvedName.askAt?_keeps`, `ResolvedName.askAt?_elsewhere`, `slots_written_once`.
-/

namespace AdaExpressions

namespace ResolvedName

/-- The slot of the node itself. -/
def slot : ResolvedName → Slot
  | .simple ident => ident.slot
  | .selected _ _ slot => slot

/-- The slot of the node at the end of a path. -/
def slotAt? (path : List Step) (name : ResolvedName) : Option Slot :=
  (name.node? path).map slot

section

variable {base : ResolvedName} {ident selector : ResolvedIdent} {kept : Slot} {path : List Step}

@[simp] theorem slotAt?_simple {step : Step} : (simple ident).slotAt? (step :: path) = none := by
  cases step <;> rfl

@[simp] theorem slotAt?_selector :
    (selected base selector kept).slotAt? (.selector :: path) = (simple selector).slotAt? path :=
  rfl

theorem node?_append (name : ResolvedName) (path more : List Step) :
    name.node? (path ++ more) = (name.node? path).bind (·.node? more) := by
  induction path generalizing name with
  | nil => rfl
  | cons step path ih =>
      cases name with
      | simple ident => cases step <;> rfl
      | selected base selector kept => cases step <;> exact ih _

/-- The slots of a node taken by itself are those behind its path. -/
theorem slotAt?_append {name node : ResolvedName} {path : List Step}
    (found : name.node? path = some node) (more : List Step) :
    name.slotAt? (path ++ more) = node.slotAt? more := by
  rw [slotAt?, node?_append, found]
  rfl

end

variable {table : EnvTable} {env : EnvId}

/-! ### What a question fills -/

/-- Every filled slot is kept as it is. -/
def Keeps (before after : ResolvedName) : Prop :=
  ∀ path answer, before.slotAt? path = some (some answer) → after.slotAt? path = some (some answer)

theorem Keeps.refl (name : ResolvedName) : name.Keeps name :=
  fun _ _ => id

/-- A selection keeps its slots where its parts keep theirs and its own slot is kept. -/
theorem Keeps.selected {base baseAfter : ResolvedName} {selector selectorAfter : ResolvedIdent}
    {slot slotAfter : Slot} (keepsBase : base.Keeps baseAfter)
    (keepsSelector : (simple selector).Keeps (simple selectorAfter))
    (own : ∀ answer, slot = some answer → slotAfter = some answer) :
    (selected base selector slot).Keeps (selected baseAfter selectorAfter slotAfter)
  | [], answer, filled => congrArg some (own answer (Option.some.inj filled))
  | .base :: path, answer, filled => keepsBase path answer filled
  | .selector :: path, answer, filled => keepsSelector path answer filled

theorem designate?_ident_of_slot {ident : ResolvedIdent} {answer : Option EnvId}
    (filled : ident.slot = some answer) : ident.designate? table env = some (answer, ident) := by
  simp only [ResolvedIdent.designate?, filled]

/-- Once it has been asked what it designates, an identifier holds the answer, and it kept the one
that it held. -/
theorem slot_ident {ident after : ResolvedIdent} {answer : Option EnvId}
    (asked : ident.designate? table env = some (answer, after)) :
    after.slot = some answer ∧ (simple ident).Keeps (simple after) := by
  obtain ⟨ident, slot⟩ := ident
  cases slot with
  | some held =>
      cases asked
      exact ⟨rfl, .refl _⟩
  | none =>
      obtain ⟨found, _, same⟩ := Option.map_eq_some_iff.mp asked
      cases same
      refine ⟨rfl, fun path answer filled => ?_⟩
      cases path with
      | nil => cases filled
      | cons step path => simp at filled

/-- What a selection whose own slot is empty asks: what its base designates, and if that is a scope,
what its selector designates there. -/
theorem designate?_selected {base after : ResolvedName} {selector : ResolvedIdent}
    {answer : Option EnvId}
    (asked : (selected base selector none).designate? table env = some (answer, after)) :
    ∃ reached baseAfter selectorAfter, base.designate? table env = some (reached, baseAfter) ∧
      (selectorAfter = selector ∨ ∃ inner,
        selector.designate? table inner = some (answer, selectorAfter)) ∧
      after = selected baseAfter selectorAfter (some answer) := by
  rw [designate?] at asked
  obtain ⟨⟨reached, baseAfter⟩, askedBase, asked⟩ := Option.bind_eq_some_iff.mp asked
  cases reached with
  | none =>
      cases asked
      exact ⟨none, baseAfter, selector, askedBase, .inl rfl, rfl⟩
  | some inner =>
      obtain ⟨⟨given, selectorAfter⟩, askedSelector, same⟩ := Option.bind_eq_some_iff.mp asked
      cases same
      exact ⟨some inner, baseAfter, selectorAfter, askedBase, .inr ⟨inner, askedSelector⟩, rfl⟩

theorem keeps_designate? {name after : ResolvedName} {answer : Option EnvId}
    (asked : name.designate? table env = some (answer, after)) : name.Keeps after := by
  induction name generalizing answer after with
  | simple ident =>
      obtain ⟨⟨given, identAfter⟩, askedIdent, same⟩ := Option.map_eq_some_iff.mp asked
      cases same
      exact (slot_ident askedIdent).2
  | selected base selector slot ih =>
      cases slot with
      | some held =>
          cases asked
          exact .refl _
      | none =>
          obtain ⟨_, _, _, askedBase, below, rfl⟩ := designate?_selected asked
          refine .selected (ih askedBase) ?_ fun _ empty => by cases empty
          obtain rfl | ⟨inner, askedSelector⟩ := below
          · exact .refl _
          · exact (slot_ident askedSelector).2

/-- Once it has been asked what it designates, a node holds the answer. -/
theorem slot_designate? {name after : ResolvedName} {answer : Option EnvId}
    (asked : name.designate? table env = some (answer, after)) : after.slot = some answer := by
  cases name with
  | simple ident =>
      obtain ⟨⟨given, identAfter⟩, askedIdent, same⟩ := Option.map_eq_some_iff.mp asked
      cases same
      exact (slot_ident askedIdent).1
  | selected base selector slot =>
      cases slot with
      | some held =>
          cases asked
          rfl
      | none =>
          obtain ⟨_, _, _, _, _, rfl⟩ := designate?_selected asked
          rfl

/-- A node that holds an answer gives it, and stays as it is. -/
theorem designate?_of_slot {name : ResolvedName} {answer : Option EnvId}
    (filled : name.slot = some answer) : name.designate? table env = some (answer, name) := by
  cases name with
  | simple ident => rw [designate?, designate?_ident_of_slot filled, Option.map_some]
  | selected base selector slot =>
      obtain rfl : slot = some answer := filled
      rfl

theorem keeps_ask? {question : Question} {name after : ResolvedName} {answer : Option EnvId}
    (asked : name.ask? question table env = some (answer, after)) : name.Keeps after := by
  cases question with
  | designated => exact keeps_designate? asked
  | scope =>
      cases name with
      | simple ident =>
          cases asked
          exact .refl _
      | selected base selector slot =>
          obtain ⟨⟨given, baseAfter⟩, askedBase, same⟩ := Option.map_eq_some_iff.mp asked
          cases same
          exact .selected (keeps_designate? askedBase) (.refl _) fun _ => id

theorem keeps_askIdent? {question : Question} {ident after : ResolvedIdent}
    {answer : Option EnvId} (asked : askIdent? question table env ident = some (answer, after)) :
    (simple ident).Keeps (simple after) := by
  cases question with
  | designated => exact (slot_ident asked).2
  | scope =>
      cases asked
      exact .refl _

/-! ### Questions to a node inside a name -/

/-- What is left of a question to a node inside a selection. -/
theorem askAt?_cons {question : Question} {step : Step} {path : List Step}
    {name after : ResolvedName} {answer : Option EnvId}
    (asked : name.askAt? question table env (step :: path) = some (answer, after)) :
    ∃ base selector slot, name = selected base selector slot ∧
      ((∃ baseAfter, step = .base ∧ base.askAt? question table env path = some (answer, baseAfter) ∧
          after = selected baseAfter selector slot) ∨
        ∃ selectorAfter, step = .selector ∧ path = [] ∧
          askIdent? question table env selector = some (answer, selectorAfter) ∧
          after = selected base selectorAfter slot) := by
  cases name with
  | simple ident => cases step <;> cases path <;> cases asked
  | selected base selector slot =>
      refine ⟨base, selector, slot, rfl, ?_⟩
      cases step with
      | base =>
          simp only [askAt?, Option.map_eq_some_iff] at asked
          obtain ⟨⟨given, baseAfter⟩, found, same⟩ := asked
          cases same
          exact .inl ⟨baseAfter, rfl, found, rfl⟩
      | selector =>
          cases path with
          | nil =>
              simp only [askAt?, Option.map_eq_some_iff] at asked
              obtain ⟨⟨given, selectorAfter⟩, found, same⟩ := asked
              cases same
              exact .inr ⟨selectorAfter, rfl, rfl, found, rfl⟩
          | cons _ _ => cases asked

/-- A question keeps every filled slot. -/
theorem askAt?_keeps {question : Question} {path : List Step} {name after : ResolvedName}
    {answer : Option EnvId} (asked : name.askAt? question table env path = some (answer, after)) :
    name.Keeps after := by
  induction path generalizing name after with
  | nil => exact keeps_ask? asked
  | cons step path ih =>
      obtain ⟨base, selector, slot, rfl, ⟨baseAfter, rfl, below, rfl⟩ | ⟨_, rfl, rfl, below, rfl⟩⟩ :=
        askAt?_cons asked
      · exact .selected (ih below) (.refl _) fun _ => id
      · exact .selected (.refl base) (keeps_askIdent? below) fun _ => id

/-- A question changes no slot but those of the node that it is put to and of nodes inside it. -/
theorem askAt?_elsewhere {question : Question} {path : List Step} {name after : ResolvedName}
    {answer : Option EnvId} (asked : name.askAt? question table env path = some (answer, after))
    {other : List Step} (apart : ¬ path <+: other) : after.slotAt? other = name.slotAt? other := by
  induction path generalizing name after other with
  | nil => exact absurd other.nil_prefix apart
  | cons step path ih =>
      obtain ⟨base, selector, slot, rfl, ⟨baseAfter, rfl, below, rfl⟩ | ⟨_, rfl, rfl, _, rfl⟩⟩ :=
        askAt?_cons asked
      · cases other with
        | nil => rfl
        | cons first other =>
            cases first with
            | base => exact ih below fun inside => apart (List.cons_prefix_cons.mpr ⟨rfl, inside⟩)
            | selector => rfl
      · cases other with
        | nil => rfl
        | cons first other =>
            cases first with
            | base => rfl
            | selector => exact absurd (List.cons_prefix_cons.mpr ⟨rfl, other.nil_prefix⟩) apart

/-- A node that has been asked what it designates holds the answer. -/
theorem slotAt?_of_askAt? {path : List Step} {name after : ResolvedName} {answer : Option EnvId}
    (asked : name.askAt? .designated table env path = some (answer, after)) :
    after.slotAt? path = some (some answer) := by
  induction path generalizing name after with
  | nil => exact congrArg some (slot_designate? asked)
  | cons step path ih =>
      obtain ⟨base, selector, slot, rfl, ⟨baseAfter, rfl, below, rfl⟩ | ⟨_, rfl, rfl, below, rfl⟩⟩ :=
        askAt?_cons asked
      · exact ih below
      · exact congrArg some (slot_ident below).1

/-- A node that holds an answer gives it, and nothing changes. -/
theorem askAt?_of_slotAt? {path : List Step} {name : ResolvedName} {answer : Option EnvId}
    (filled : name.slotAt? path = some (some answer)) :
    name.askAt? .designated table env path = some (answer, name) := by
  induction path generalizing name with
  | nil => exact designate?_of_slot (Option.some.inj filled)
  | cons step path ih =>
      cases name with
      | simple ident => simp at filled
      | selected base selector slot =>
          cases step with
          | base =>
              rw [askAt?, ih filled]
              rfl
          | selector =>
              cases path with
              | nil =>
                  rw [askAt?, askIdent?, designate?_ident_of_slot (Option.some.inj filled)]
                  rfl
              | cons _ _ => simp at filled

end ResolvedName

/-! ### Interleavings -/

open ResolvedName

/-- Tables and names, each known by its place. -/
structure Workspace where
  tables : List EnvTable
  names : List ResolvedName

/-- A node of one of the names. -/
structure Node where
  name : Nat
  path : List Step

inductive Action
  | ask (question : Question) (table : Nat) (env : EnvId) (node : Node)
  | token (node : Node)
  /-- Puts a copy of the node behind the names. -/
  | copy (node : Node)
  | addScope (table : Nat) (parent : EnvId)
  | declare (table : Nat) (env : EnvId) (declaration : Declaration)

/-- Some question is put to a node of the name. -/
def Action.Asks (name : Nat) : Action → Prop
  | .ask _ _ _ node => node.name = name
  | _ => False

namespace Workspace

def node? (work : Workspace) (node : Node) : Option ResolvedName :=
  work.names[node.name]?.bind (·.node? node.path)

def slot? (work : Workspace) (node : Node) : Option Slot :=
  work.names[node.name]?.bind (slotAt? node.path)

/-- The answer to a question and the workspace after it, if the table and the node are there and the
question has an answer. -/
def ask? (work : Workspace) (question : Question) (table : Nat) (env : EnvId) (node : Node) :
    Option (Option EnvId × Workspace) :=
  work.tables[table]?.bind fun table => work.names[node.name]?.bind fun name =>
    (name.askAt? question table env node.path).map fun (answer, after) =>
      (answer, { work with names := work.names.set node.name after })

/-- What an action leaves. One that speaks of what is not there leaves everything as it is, and so
does a question without an answer. -/
def perform (work : Workspace) : Action → Workspace
  | .ask question table env node =>
      match work.ask? question table env node with
      | some (_, after) => after
      | none => work
  | .token _ => work
  | .copy node =>
      match work.node? node with
      | some copy => { work with names := work.names ++ [copy] }
      | none => work
  | .addScope table parent =>
      { work with tables := work.tables.modify table fun table => (table.addScope parent).2 }
  | .declare table env declaration =>
      { work with tables := work.tables.modify table fun table =>
          (table.declare? env declaration).getD table }

def run (work : Workspace) (actions : List Action) : Workspace :=
  actions.foldl perform work

/-- While the actions are performed, the second node is, or becomes, the first one or a copy of it:
of the node by itself or as a part of another one, and copies of copies too. -/
inductive Copies : Workspace → List Action → Node → Node → Prop
  | itself {work : Workspace} {node : Node} : Copies work [] node node
  | stays {work : Workspace} {action : Action} {more : List Action} {node other : Node} :
      Copies (work.perform action) more node other → Copies work (action :: more) node other
  | copied {work : Workspace} {name : Nat} {path rest : List Step} {copy : ResolvedName}
      {more : List Action} {other : Node} :
      work.node? ⟨name, path⟩ = some copy →
      Copies (work.perform (.copy ⟨name, path⟩)) more ⟨work.names.length, rest⟩ other →
      Copies work (.copy ⟨name, path⟩ :: more) ⟨name, path ++ rest⟩ other

variable {work after : Workspace} {question : Question} {table : Nat} {env : EnvId} {node : Node}
  {answer : Option EnvId}

theorem ask?_eq_some (asked : work.ask? question table env node = some (answer, after)) :
    ∃ about name changed, work.tables[table]? = some about ∧ work.names[node.name]? = some name ∧
      name.askAt? question about env node.path = some (answer, changed) ∧
      after = { work with names := work.names.set node.name changed } := by
  simp only [ask?, Option.bind_eq_some_iff, Option.map_eq_some_iff] at asked
  obtain ⟨about, hasTable, name, hasName, ⟨given, changed⟩, asked, same⟩ := asked
  cases same
  exact ⟨about, name, changed, hasTable, hasName, asked, rfl⟩

theorem slot?_set {name changed : ResolvedName} {place : Nat} (there : work.names[place]? = some name)
    (other : Node) :
    slot? { work with names := work.names.set place changed } other =
      if place = other.name then changed.slotAt? other.path else work.slot? other := by
  have within : place < work.names.length := (List.getElem?_eq_some_iff.mp there).1
  simp only [slot?, List.getElem?_set, within, if_true]
  split
  next => rfl
  next => rfl

/-- A question changes no table, no slot outside of the node it is put to, and no filled slot. -/
theorem slot?_ask (asked : work.ask? question table env node = some (answer, after)) :
    after.tables = work.tables ∧ ∀ other,
      (¬ (other.name = node.name ∧ node.path <+: other.path) → after.slot? other = work.slot? other) ∧
      ∀ kept, work.slot? other = some (some kept) → after.slot? other = some (some kept) := by
  obtain ⟨about, name, changed, _, there, changes, rfl⟩ := ask?_eq_some asked
  refine ⟨rfl, fun other => ?_⟩
  rw [slot?_set there]
  split
  next here =>
    have before : work.slot? other = name.slotAt? other.path := by rw [slot?, ← here, there]; rfl
    rw [before]
    exact ⟨fun apart => askAt?_elsewhere changes fun inside => apart ⟨here.symm, inside⟩,
      askAt?_keeps changes other.path⟩
  next => exact ⟨fun _ => rfl, fun _ => id⟩

/-- What a node was asked once, it holds. -/
theorem slot?_of_ask? (asked : work.ask? .designated table env node = some (answer, after)) :
    after.slot? node = some (some answer) := by
  obtain ⟨about, name, changed, _, there, changes, rfl⟩ := ask?_eq_some asked
  rw [slot?_set there, if_pos rfl]
  exact slotAt?_of_askAt? changes

/-- What a node holds, it answers to every question, and nothing changes. -/
theorem ask?_of_slot? (filled : work.slot? node = some (some answer))
    (there : table < work.tables.length) :
    work.ask? .designated table env node = some (answer, work) := by
  obtain ⟨name, hasName, filled⟩ := Option.bind_eq_some_iff.mp filled
  have same : work.names.set node.name name = work.names := by
    obtain ⟨within, rfl⟩ := List.getElem?_eq_some_iff.mp hasName
    exact List.set_getElem_self within
  simp [ask?, List.getElem?_eq_getElem there, hasName, askAt?_of_slotAt? filled, same]

/-! ### What an action keeps -/

/-- What an action can do: nothing, put a question, add a copy, or change the tables, which stay as
many as they are. -/
inductive Performs (work : Workspace) : Action → Workspace → Prop
  | nothing {action : Action} : Performs work action work
  | asked {question : Question} {table : Nat} {env : EnvId} {node : Node} {answer : Option EnvId}
      {after : Workspace} :
      work.ask? question table env node = some (answer, after) →
      Performs work (.ask question table env node) after
  | copied {node : Node} {copy : ResolvedName} :
      work.node? node = some copy →
      Performs work (.copy node) { work with names := work.names ++ [copy] }
  | changed {action : Action} {tables : List EnvTable} :
      tables.length = work.tables.length → Performs work action { work with tables }

theorem performs (work : Workspace) (action : Action) :
    work.Performs action (work.perform action) := by
  cases action with
  | ask question table env node =>
      simp only [perform]
      split
      next found => exact .asked found
      next => exact .nothing
  | token node => exact .nothing
  | copy node =>
      simp only [perform]
      split
      next found => exact .copied found
      next => exact .nothing
  | addScope table parent => exact .changed (List.length_modify _ _ _)
  | declare table env declaration => exact .changed (List.length_modify _ _ _)

theorem slot?_append {copy : ResolvedName} {other : Node} {kept : Slot}
    (here : work.slot? other = some kept) :
    slot? { work with names := work.names ++ [copy] } other = some kept := by
  obtain ⟨name, hasName, here⟩ := Option.bind_eq_some_iff.mp here
  have within : other.name < work.names.length := (List.getElem?_eq_some_iff.mp hasName).1
  rw [slot?, List.getElem?_append_left within, hasName]
  exact here

theorem Performs.slot? {action : Action} (performs : work.Performs action after) {other : Node}
    {kept : Option EnvId} (filled : work.slot? other = some (some kept)) :
    after.slot? other = some (some kept) := by
  cases performs with
  | nothing => exact filled
  | asked asked => exact ((slot?_ask asked).2 other).2 kept filled
  | copied found => exact slot?_append filled
  | changed _ => exact filled

/-- A copy holds what the node held when it was taken, and all that is held is kept. -/
theorem Copies.slot? {actions : List Action} {node other : Node} {kept : Option EnvId}
    (copies : Copies work actions node other) (filled : work.slot? node = some (some kept)) :
    (work.run actions).slot? other = some (some kept) := by
  induction copies with
  | itself => exact filled
  | stays _ ih => exact ih ((performs _ _).slot? filled)
  | @copied work name path rest copy more other found _ ih =>
      -- The slots of the copy are those of the node that it was taken from.
      refine ih ?_
      simp only [perform, found, Workspace.slot?, List.getElem?_concat_length, Option.bind_some]
      obtain ⟨whole, hasName, found⟩ := Option.bind_eq_some_iff.mp found
      rw [Workspace.slot?, hasName] at filled
      exact (slotAt?_append found rest).symm.trans filled

theorem Performs.tables_length {action : Action} (performs : work.Performs action after) :
    after.tables.length = work.tables.length := by
  cases performs with
  | nothing => rfl
  | asked asked => exact congrArg List.length (slot?_ask asked).1
  | copied _ => rfl
  | changed same => exact same

theorem tables_length_run (actions : List Action) :
    (work.run actions).tables.length = work.tables.length := by
  induction actions generalizing work with
  | nil => rfl
  | cons action more ih => exact ih.trans (work.performs action).tables_length

/-- A name to which no question is put stays as it is. -/
theorem Performs.names {action : Action} (performs : work.Performs action after) {name : Nat}
    (there : name < work.names.length) (unasked : ¬ action.Asks name) :
    after.names[name]? = work.names[name]? := by
  cases performs with
  | nothing => rfl
  | asked asked =>
      obtain ⟨_, _, changed, _, _, _, rfl⟩ := ask?_eq_some asked
      exact List.getElem?_set_ne unasked
  | copied _ => exact List.getElem?_append_left there
  | changed _ => rfl

theorem names_run {actions : List Action} {name : Nat} (there : name < work.names.length)
    (unasked : ∀ action ∈ actions, ¬ action.Asks name) :
    (work.run actions).names[name]? = work.names[name]? := by
  induction actions generalizing work with
  | nil => rfl
  | cons action more ih =>
      have here := (work.performs action).names there (unasked action List.mem_cons_self)
      have within : name < (work.perform action).names.length := by
        rw [List.getElem?_eq_getElem there] at here
        exact (List.getElem?_eq_some_iff.mp here).1
      exact (ih within fun later member => unasked later (List.mem_cons_of_mem action member)).trans
        here

end Workspace

open Workspace in
/-- However questions, copies and changes of tables follow one another: what a node once designates
it designates ever after, and so do its later copies; names that are not asked, copies among them, do
not change; and a question changes nothing but empty slots in the node that it is put to. -/
theorem slots_written_once (work : Workspace) :
    (∀ table env node answer after,
      work.ask? .designated table env node = some (answer, after) →
      ∀ actions other, Copies after actions node other →
        ∀ again from_, again < work.tables.length →
          (after.run actions).ask? .designated again from_ other =
            some (answer, after.run actions)) ∧
    (∀ actions name, name < work.names.length → (∀ action ∈ actions, ¬ action.Asks name) →
      (work.run actions).names[name]? = work.names[name]?) ∧
    ∀ question table env node answer after,
      work.ask? question table env node = some (answer, after) →
      after.tables = work.tables ∧ ∀ other,
        (¬ (other.name = node.name ∧ node.path <+: other.path) →
          after.slot? other = work.slot? other) ∧
        ∀ kept, work.slot? other = some (some kept) → after.slot? other = some (some kept) := by
  refine ⟨fun table env node answer after asked actions other copies again from_ there => ?_,
    fun actions name => names_run, fun question table env node answer after => slot?_ask⟩
  refine ask?_of_slot? (copies.slot? (slot?_of_ask? asked)) ?_
  rw [tables_length_run, (slot?_ask asked).1]
  exact there

open Workspace in
/-- `A` designates nothing when it is asked first. Its copy inside a copy of `A.B` says the same after
an `A` has been declared. -/
theorem slots_written_once_in_copy :
    let ident (text : String) : Ident := ⟨.identifier, ⟨.identifier, text, default⟩⟩
    let name := (Name.simple (ident "A")).select (ident "B")
    let work : Workspace := ⟨[.new], [.fresh name]⟩
    let actions : List Action := [.copy ⟨0, []⟩, .declare 0 EnvTable.root ⟨"A", some EnvTable.root⟩]
    ∃ after, work.ask? .designated 0 EnvTable.root ⟨0, [.base]⟩ = some (none, after) ∧
      Copies after actions ⟨0, [.base]⟩ ⟨1, [.base]⟩ ∧
      (after.run actions).ask? .designated 0 EnvTable.root ⟨1, [.base]⟩ =
        some (none, after.run actions) := by
  intro ident name work actions
  have copies {after : Workspace} {whole : ResolvedName} (found : after.node? ⟨0, []⟩ = some whole) :
      Copies after actions ⟨0, [.base]⟩ ⟨after.names.length, [.base]⟩ :=
    @Copies.copied after 0 [] [.base] whole _ _ found (.stays .itself)
  exact ⟨_, rfl, copies rfl, (slots_written_once work).1 0 EnvTable.root ⟨0, [.base]⟩ none _ rfl
    actions _ (copies rfl) 0 EnvTable.root (by decide)⟩

end AdaExpressions
