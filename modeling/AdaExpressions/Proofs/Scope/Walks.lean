import Mathlib.Data.List.Perm.Subperm
import AdaExpressions.Scope.Environment

/-!
# Walks through a table

Looking up walks outwards, from each scope to the one around it, until there is no further one. A
walk that ends passes no scope twice: from a scope there is only one walk, and it would have to be
longer than itself. So it passes no more scopes than the table has, and looking up has an answer
exactly where the walk ends.

Results: `Walks.length_le`, `lookup?_eq_some_iff`.
-/

namespace AdaExpressions.EnvTable

/-- A walk outwards passes these scopes and ends where there is no further one. -/
inductive Walks (table : EnvTable) : Option EnvId → List Scope → Prop
  | stop {env : Option EnvId} : env.bind table.scope? = none → Walks table env []
  | pass {env : Option EnvId} {scope : Scope} {outer : List Scope} :
      env.bind table.scope? = some scope → Walks table scope.parent outer →
      Walks table env (scope :: outer)

variable {table : EnvTable} {env : Option EnvId} {scopes : List Scope}

theorem Walks.unique {others : List Scope} (walks : table.Walks env scopes)
    (again : table.Walks env others) : scopes = others := by
  induction walks generalizing others with
  | stop ends =>
      cases again with
      | stop => rfl
      | pass found => cases ends.symm.trans found
  | pass found _ ih =>
      cases again with
      | stop ends => cases ends.symm.trans found
      | pass found' outer =>
          cases found.symm.trans found'
          rw [ih outer]

/-- The places that a walk passes: no two are the same, and from none of them it is longer. -/
theorem Walks.exists_places (walks : table.Walks env scopes) :
    ∃ places : List Nat, places.length = scopes.length ∧ places.Nodup ∧ ∀ place ∈ places,
      place < table.scopes.size ∧
        ∃ rest, table.Walks (some ⟨place⟩) rest ∧ rest.length ≤ scopes.length := by
  induction walks with
  | stop => exact ⟨[], rfl, List.nodup_nil, by simp⟩
  | @pass env scope outer found walks ih =>
      obtain ⟨places, length, distinct, known⟩ := ih
      obtain ⟨⟨place⟩, rfl, here⟩ := Option.bind_eq_some_iff.mp found
      have whole : table.Walks (some ⟨place⟩) (scope :: outer) := .pass found walks
      have new : place ∉ places := by
        intro member
        obtain ⟨_, rest, again, short⟩ := known place member
        rw [← whole.unique again] at short
        exact Nat.not_succ_le_self _ short
      refine ⟨place :: places, congrArg (· + 1) length, List.nodup_cons.mpr ⟨new, distinct⟩, ?_⟩
      intro other member
      rcases List.mem_cons.mp member with rfl | member
      · exact ⟨(Array.getElem?_eq_some_iff.mp here).1, _, whole, Nat.le_refl _⟩
      · obtain ⟨within, rest, walk, short⟩ := known other member
        exact ⟨within, rest, walk, Nat.le_succ_of_le short⟩

/-- A walk that ends passes no more scopes than the table has. -/
theorem Walks.length_le (walks : table.Walks env scopes) : scopes.length ≤ table.scopes.size := by
  obtain ⟨places, length, distinct, known⟩ := walks.exists_places
  have within : places ⊆ List.range table.scopes.size := fun place member =>
    List.mem_range.mpr (known place member).1
  have few := (List.subperm_of_subset distinct within).length_le
  rwa [length, List.length_range] at few

theorem Walks.enclosing?_eq (walks : table.Walks env scopes) {steps : Nat}
    (enough : scopes.length ≤ steps) : table.enclosing? steps env = some scopes := by
  induction walks generalizing steps with
  | stop ends =>
      unfold enclosing?
      rw [ends]
  | pass found _ ih =>
      cases steps with
      | zero => cases enough
      | succ steps =>
          unfold enclosing?
          rw [found]
          exact congrArg (Option.map _) (ih (Nat.le_of_succ_le_succ enough))

theorem walks_of_enclosing? {steps : Nat} (passed : table.enclosing? steps env = some scopes) :
    table.Walks env scopes := by
  induction steps generalizing env scopes with
  | zero =>
      unfold enclosing? at passed
      cases found : env.bind table.scope? with
      | none =>
          simp only [found] at passed
          cases passed
          exact .stop found
      | some scope =>
          simp only [found] at passed
          cases passed
  | succ steps ih =>
      unfold enclosing? at passed
      cases found : env.bind table.scope? with
      | none =>
          simp only [found] at passed
          cases passed
          exact .stop found
      | some scope =>
          simp only [found, Option.map_eq_some_iff] at passed
          obtain ⟨outer, passed, rfl⟩ := passed
          exact .pass found (ih passed)

theorem enclosing?_eq_some_iff :
    table.enclosing? table.scopes.size env = some scopes ↔ table.Walks env scopes :=
  ⟨walks_of_enclosing?, fun walks => walks.enclosing?_eq walks.length_le⟩

/-- Looking up has an answer exactly where the walk outwards ends: what is declared under the name
in the scopes that are passed. -/
theorem lookup?_eq_some_iff {env : EnvId} {name : String} {found : List Declaration} :
    table.lookup? env name = some found ↔ ∃ scopes, table.Walks (some env) scopes ∧
      found = scopes.flatMap (·.elements (Text.lowercase name)) := by
  unfold lookup?
  rw [Option.map_eq_some_iff]
  exact exists_congr fun scopes => and_congr enclosing?_eq_some_iff eq_comm

end AdaExpressions.EnvTable
