import AdaExpressions.Proofs.Scope.Walks

/-!
# Tables and their histories

A table is made by adding scopes and declarations, each to a scope that is there already. So the scope
around another one is older, and every walk outwards ends at the root. What a name finds from a scope
is told by the history alone: the declarations of the name in the scope, then those in the scope
around it, and so on, each in the order in which they were made.

Results: `EnvTable.MadeBy.scope?_eq` (a table holds what its history says), `lookup_of_history`.
-/

namespace AdaExpressions

/-- What can be done to a table. -/
inductive Change
  | addScope (parent : EnvId)
  | declare (env : EnvId) (declaration : Declaration)

/-! ### What a history says -/

namespace Change

def parent? : Change → Option EnvId
  | .addScope parent => some parent
  | .declare _ _ => none

def declarationIn? (env : EnvId) : Change → Option Declaration
  | .addScope _ => none
  | .declare place declaration => if place = env then some declaration else none

end Change

/-- For every scope, the root first, the scope that it was added to. -/
def parentsIn (history : List Change) : List (Option EnvId) :=
  none :: (history.filterMap Change.parent?).map some

/-- What was declared in a scope, in the order of the declarations. -/
def declaredIn (history : List Change) (env : EnvId) : List Declaration :=
  history.filterMap (Change.declarationIn? env)

/-- Of what was declared in a scope, that whose name is `name` but for the case of letters. -/
def namedIn (history : List Change) (name : String) (env : EnvId) : List Declaration :=
  (declaredIn history env).filter fun declaration =>
    Text.lowercase declaration.name == Text.lowercase name

/-- The scopes from one out to the root. -/
inductive Encloses (history : List Change) : EnvId → List EnvId → Prop
  | root : Encloses history EnvTable.root [EnvTable.root]
  | nested {env parent : EnvId} {outer : List EnvId} :
      (parentsIn history)[env.index]? = some (some parent) → Encloses history parent outer →
      Encloses history env (env :: outer)

section

variable {history : List Change} {env place parent : EnvId} {declaration : Declaration}

@[simp] theorem parentsIn_addScope :
    parentsIn (history ++ [.addScope parent]) = parentsIn history ++ [some parent] := by
  simp [parentsIn, Change.parent?]

@[simp] theorem parentsIn_declare :
    parentsIn (history ++ [.declare place declaration]) = parentsIn history := by
  simp [parentsIn, Change.parent?]

@[simp] theorem declaredIn_addScope :
    declaredIn (history ++ [.addScope parent]) env = declaredIn history env := by
  simp [declaredIn, Change.declarationIn?]

@[simp] theorem declaredIn_declare :
    declaredIn (history ++ [.declare place declaration]) env =
      declaredIn history env ++ if place = env then [declaration] else [] := by
  simp only [declaredIn, List.filterMap_append, List.filterMap_cons, List.filterMap_nil,
    Change.declarationIn?]
  split <;> simp_all

@[simp] theorem namedIn_addScope {name : String} :
    namedIn (history ++ [.addScope parent]) name = namedIn history name :=
  funext fun _ => by simp only [namedIn, declaredIn_addScope]

theorem namedIn_declare {name : String} :
    namedIn (history ++ [.declare place declaration]) name env =
      namedIn history name env ++
        if place = env ∧ Text.lowercase declaration.name = Text.lowercase name then [declaration]
        else [] := by
  simp only [namedIn, declaredIn_declare, List.filter_append]
  by_cases here : place = env <;>
    by_cases same : Text.lowercase declaration.name = Text.lowercase name <;> simp [here, same]

/-- A declaration elsewhere, or of another name, is not found. -/
theorem flatMap_namedIn_declare {name : String} {scopes : List EnvId}
    (apart : ¬ (place ∈ scopes ∧ Text.lowercase declaration.name = Text.lowercase name)) :
    scopes.flatMap (namedIn (history ++ [.declare place declaration]) name) =
      scopes.flatMap (namedIn history name) := by
  induction scopes with
  | nil => rfl
  | cons scope more ih =>
      simp only [List.mem_cons, or_and_right, not_or] at apart
      rw [List.flatMap_cons, List.flatMap_cons, namedIn_declare, if_neg apart.1, List.append_nil,
        ih apart.2]

end

/-- The way out from a scope stays when younger scopes are added. -/
theorem Encloses.mono {history longer : List Change} {env : EnvId} {chain : List EnvId}
    (kept : ∀ (index : Nat) (parent : EnvId), (parentsIn history)[index]? = some (some parent) →
      (parentsIn longer)[index]? = some (some parent))
    (encloses : Encloses history env chain) : Encloses longer env chain := by
  induction encloses with
  | root => exact .root
  | nested added _ ih => exact .nested (kept _ _ added) ih

/-! ### What a table holds -/

namespace EnvTable

/-- The table that comes of a new one by these changes, each of scopes that the table has by then. -/
inductive MadeBy : List Change → EnvTable → Prop
  | new : MadeBy [] .new
  | addScope {history : List Change} {table : EnvTable} {parent : EnvId} :
      MadeBy history table → parent.index < table.scopes.size →
      MadeBy (history ++ [.addScope parent]) (table.addScope parent).2
  | declare {history : List Change} {table after : EnvTable} {env : EnvId}
      {declaration : Declaration} :
      MadeBy history table → table.declare? env declaration = some after →
      MadeBy (history ++ [.declare env declaration]) after

theorem declare?_eq_some {table after : EnvTable} {env : EnvId} {declaration : Declaration} :
    table.declare? env declaration = some after ↔
      env.index < table.scopes.size ∧
        after = ⟨table.scopes.modify env.index fun scope =>
          { scope with declarations := scope.declarations ++ [declaration] }⟩ := by
  unfold declare?
  split <;> simp [*, eq_comm]

namespace MadeBy

variable {history : List Change} {table : EnvTable}

theorem size_eq (made : MadeBy history table) :
    (parentsIn history).length = table.scopes.size := by
  induction made with
  | new => rfl
  | addScope _ _ ih => simp [EnvTable.addScope, ih]
  | declare _ declared ih =>
      obtain ⟨_, rfl⟩ := declare?_eq_some.mp declared
      simp [ih]

/-- Nothing is declared in a scope that the table has not. -/
theorem declaredIn_eq_nil (made : MadeBy history table) {env : EnvId}
    (unknown : table.scopes.size ≤ env.index) : declaredIn history env = [] := by
  induction made with
  | new => rfl
  | addScope _ _ ih =>
      simp only [EnvTable.addScope, Array.size_push] at unknown
      rw [declaredIn_addScope, ih (by omega)]
  | @declare _ _ _ place _ _ declared ih =>
      obtain ⟨known, rfl⟩ := declare?_eq_some.mp declared
      simp only [Array.size_modify] at unknown
      have other : place ≠ env := by
        rintro rfl
        omega
      rw [declaredIn_declare, ih unknown, if_neg other, List.append_nil]

/-- A table holds the scopes that were added, each inside the one it was added to, with what was
declared in it. -/
theorem scope?_eq (made : MadeBy history table) (env : EnvId) :
    table.scope? env =
      (parentsIn history)[env.index]?.map fun parent => ⟨parent, declaredIn history env⟩ := by
  induction made with
  | new =>
      obtain ⟨index⟩ := env
      cases index <;> rfl
  | @addScope history table parent made _ ih =>
      have size := made.size_eq
      rcases Nat.lt_trichotomy env.index table.scopes.size with known | last | past
      · rw [scope?_addScope known, ih, parentsIn_addScope, declaredIn_addScope,
          List.getElem?_append_left (size ▸ known)]
      · have none_ := made.declaredIn_eq_nil (Nat.le_of_eq last.symm)
        have there : env.index = (parentsIn history).length := last.trans size.symm
        rw [parentsIn_addScope, declaredIn_addScope, none_, there, List.getElem?_concat_length]
        simp [scope?, EnvTable.addScope, last]
      · have far : (parentsIn history ++ [some parent]).length ≤ env.index := by
          simp only [List.length_append, List.length_singleton]
          omega
        rw [parentsIn_addScope, List.getElem?_eq_none far]
        simp [scope?, EnvTable.addScope]
        omega
  | @declare history table _ place declaration made declared ih =>
      obtain ⟨_, rfl⟩ := declare?_eq_some.mp declared
      have before : table.scopes[env.index]? = _ := ih
      rw [parentsIn_declare, declaredIn_declare, scope?, Array.getElem?_modify, before,
        Option.map_map]
      by_cases here : place = env
      · subst here
        simp [Function.comp_def]
      · have apart : place.index ≠ env.index := fun same => here (by cases place; cases env; simp_all)
        simp [apart, here]

/-- A scope is younger than the one that it was added to. -/
theorem parent_lt (made : MadeBy history table) {index : Nat} {parent : EnvId}
    (added : (parentsIn history)[index]? = some (some parent)) : parent.index < index := by
  induction made with
  | new => cases index <;> simp [parentsIn] at added
  | @addScope history table place made known ih =>
      have size := made.size_eq
      rw [parentsIn_addScope, List.getElem?_append] at added
      split at added
      · exact ih added
      next past =>
        obtain ⟨rfl, last⟩ : place = parent ∧ index - (parentsIn history).length = 0 := by
          grind
        omega
  | declare _ _ ih => exact ih (parentsIn_declare ▸ added)

end MadeBy

/-! ### The way out -/

variable {history : List Change} {table : EnvTable}

/-- From every scope of the table there is a way out to the root. -/
theorem MadeBy.exists_encloses (made : MadeBy history table) {env : EnvId}
    (known : env.index < table.scopes.size) : ∃ chain, Encloses history env chain := by
  obtain ⟨index⟩ := env
  -- By induction on the index: the scope around this one is older, so its way out is known.
  induction index using Nat.strongRecOn with
  | ind index ih =>
      cases index with
      | zero => exact ⟨_, .root⟩
      | succ index =>
          have within : index + 1 < (parentsIn history).length := made.size_eq ▸ known
          have added : ∃ parent, (parentsIn history)[index + 1]? = some (some parent) := by
            rw [List.getElem?_eq_getElem within]
            simp [parentsIn]
          obtain ⟨parent, added⟩ := added
          have older := made.parent_lt added
          obtain ⟨outer, chain⟩ := ih parent.index older (Nat.lt_trans older known)
          exact ⟨_, .nested added chain⟩

theorem MadeBy.index_le (made : MadeBy history table) {env : EnvId} {chain : List EnvId}
    (encloses : Encloses history env chain) : ∀ outer ∈ chain, outer.index ≤ env.index := by
  induction encloses with
  | root => simp
  | nested added _ ih =>
      intro outer member
      have older := made.parent_lt added
      rcases List.mem_cons.mp member with rfl | further
      · exact Nat.le_refl _
      · exact Nat.le_trans (ih outer further) (Nat.le_of_lt older)

/-- On the way out every scope is older than those before it. -/
theorem MadeBy.chain_decreases (made : MadeBy history table) {env : EnvId} {chain : List EnvId}
    (encloses : Encloses history env chain) : chain.Pairwise fun inner outer =>
      outer.index < inner.index := by
  induction encloses with
  | root => exact List.pairwise_singleton _ _
  | nested added outer ih =>
      exact List.pairwise_cons.mpr ⟨fun further member =>
        Nat.lt_of_le_of_lt (made.index_le outer further member) (made.parent_lt added), ih⟩

/-- The scope that the history says is at a place. -/
def scopeIn (history : List Change) (env : EnvId) : Scope :=
  ⟨(parentsIn history)[env.index]?.join, declaredIn history env⟩

/-- A walk through a table goes the way that its history tells. -/
theorem MadeBy.walks (made : MadeBy history table) {env : EnvId} {chain : List EnvId}
    (encloses : Encloses history env chain) :
    table.Walks (some env) (chain.map (scopeIn history)) := by
  induction encloses with
  | root => exact .pass (by simp [made.scope?_eq, scopeIn, parentsIn, root]) (.stop rfl)
  | nested added _ ih =>
      exact .pass (by simp [made.scope?_eq, scopeIn, added]) (by simpa [scopeIn, added] using ih)

/-- Looking up from a scope has an answer: what was declared in the scope or around it. -/
theorem MadeBy.lookup?_eq (made : MadeBy history table) {env : EnvId} {chain : List EnvId}
    (encloses : Encloses history env chain) (name : String) :
    table.lookup? env name = some (chain.flatMap (namedIn history name)) := by
  refine lookup?_eq_some_iff.mpr ⟨_, made.walks encloses, ?_⟩
  rw [List.flatMap_map]
  rfl

/-- A new scope changes nothing that is looked up from an old one. -/
theorem MadeBy.lookup?_addScope (made : MadeBy history table) {env parent : EnvId}
    (known : env.index < table.scopes.size) (there : parent.index < table.scopes.size)
    (name : String) : (table.addScope parent).2.lookup? env name = table.lookup? env name := by
  obtain ⟨chain, encloses⟩ := made.exists_encloses known
  have later : Encloses (history ++ [.addScope parent]) env chain := by
    refine encloses.mono fun index outer added => ?_
    have within : index < (parentsIn history).length := (List.getElem?_eq_some_iff.mp added).1
    rw [parentsIn_addScope, List.getElem?_append_left within, added]
  rw [made.lookup?_eq encloses, (made.addScope there).lookup?_eq later, namedIn_addScope]

/-- After a declaration the way out is what it was. -/
theorem MadeBy.lookup?_declare (made : MadeBy history table) {env place : EnvId}
    {chain : List EnvId} {declaration : Declaration} {after : EnvTable}
    (encloses : Encloses history env chain)
    (declared : table.declare? place declaration = some after) (name : String) :
    after.lookup? env name =
      some (chain.flatMap (namedIn (history ++ [.declare place declaration]) name)) := by
  have later : Encloses (history ++ [.declare place declaration]) env chain :=
    encloses.mono fun _ _ added => by rwa [parentsIn_declare]
  exact (made.declare declared).lookup?_eq later name

/-- A declaration of another name, or off the way out, changes nothing that is looked up. -/
theorem MadeBy.lookup?_declare_apart (made : MadeBy history table) {env place : EnvId}
    {chain : List EnvId} {declaration : Declaration} {after : EnvTable}
    (encloses : Encloses history env chain)
    (declared : table.declare? place declaration = some after) {name : String}
    (apart : ¬ (place ∈ chain ∧ Text.lowercase declaration.name = Text.lowercase name)) :
    after.lookup? env name = table.lookup? env name := by
  rw [made.lookup?_declare encloses declared, flatMap_namedIn_declare apart,
    made.lookup?_eq encloses]

/-- A declaration of the name comes last of those of its scope, and no other scope on the way out
gets it. -/
theorem MadeBy.lookup?_declare_within (made : MadeBy history table) {env place : EnvId}
    {inner outer : List EnvId} {declaration : Declaration} {after : EnvTable}
    (encloses : Encloses history env (inner ++ place :: outer))
    (declared : table.declare? place declaration = some after) {name : String}
    (same : Text.lowercase declaration.name = Text.lowercase name) :
    after.lookup? env name = some
      (inner.flatMap (namedIn history name) ++ (namedIn history name place ++ [declaration]) ++
        outer.flatMap (namedIn history name)) := by
  -- No scope stands twice on the way out, so the declaration shows once.
  have decreases := made.chain_decreases encloses
  rw [List.pairwise_append, List.pairwise_cons] at decreases
  obtain ⟨_, ⟨older, _⟩, younger⟩ := decreases
  have before : place ∉ inner := fun member =>
    Nat.lt_irrefl _ (younger place member place List.mem_cons_self)
  have behind : place ∉ outer := fun member => Nat.lt_irrefl _ (older place member)
  rw [made.lookup?_declare encloses declared, List.flatMap_append, List.flatMap_cons,
    flatMap_namedIn_declare (before ·.1), flatMap_namedIn_declare (behind ·.1), namedIn_declare,
    if_pos ⟨rfl, same⟩]
  simp only [List.append_assoc]

end EnvTable

open EnvTable in
/-- A name that is looked up from a scope of a table has an answer. It is told by the table's history,
and what a further change does to it too: a declaration adds one element, and only for its own name
and where its scope is on the way out; a new scope adds none. -/
theorem lookup_of_history {history : List Change} {table : EnvTable} (made : MadeBy history table)
    {env : EnvId} (known : env.index < table.scopes.size) (name : String) :
    ∃ chain, Encloses history env chain ∧
      (∃ scopes, table.Walks (some env) scopes ∧
        table.lookup? env name = some (scopes.flatMap (·.elements (Text.lowercase name)))) ∧
      table.lookup? env name = some (chain.flatMap (namedIn history name)) ∧
      (∀ place declaration after, table.declare? place declaration = some after →
        (¬ (place ∈ chain ∧ Text.lowercase declaration.name = Text.lowercase name) →
          after.lookup? env name = table.lookup? env name) ∧
        ∀ inner outer, chain = inner ++ place :: outer →
          Text.lowercase declaration.name = Text.lowercase name →
          after.lookup? env name = some
            (inner.flatMap (namedIn history name) ++
              (namedIn history name place ++ [declaration]) ++
              outer.flatMap (namedIn history name))) ∧
      ∀ parent, parent.index < table.scopes.size →
        (table.addScope parent).2.lookup? env name = table.lookup? env name := by
  obtain ⟨chain, encloses⟩ := made.exists_encloses known
  have walks := made.walks encloses
  refine ⟨chain, encloses, ⟨_, walks, lookup?_eq_some_iff.mpr ⟨_, walks, rfl⟩⟩,
    made.lookup?_eq encloses name, fun place declaration after declared => ⟨?_, ?_⟩,
    fun parent there => made.lookup?_addScope known there name⟩
  · exact made.lookup?_declare_apart encloses declared
  · rintro inner outer rfl same
    exact made.lookup?_declare_within encloses declared same

open EnvTable in
/-- `x`, declared in a scope inside the root, is found before the `X` of the root. -/
theorem lookup_of_history_overloaded :
    let far : Declaration := ⟨"X", none⟩
    let near : Declaration := ⟨"x", some root⟩
    let history : List Change := [.addScope root, .declare root far, .declare ⟨1⟩ near]
    let table : EnvTable := ⟨#[⟨none, [far]⟩, ⟨some root, [near]⟩]⟩
    MadeBy history table ∧
      ∃ chain, Encloses history ⟨1⟩ chain ∧
        table.lookup? ⟨1⟩ "X" = some (chain.flatMap (namedIn history "X")) := by
  intro far near history table
  have made : MadeBy history table := .declare (.declare (.addScope .new (by decide)) rfl) rfl
  have known : (⟨1⟩ : EnvId).index < table.scopes.size := by decide
  obtain ⟨chain, encloses, _, found, _⟩ := lookup_of_history made known "X"
  exact ⟨made, chain, encloses, found⟩

end AdaExpressions
