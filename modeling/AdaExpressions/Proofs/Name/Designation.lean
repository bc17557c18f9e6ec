import AdaExpressions.Name.Resolution

/-!
# What a name designates

Followed from a scope, a name leads through the scopes that its components open, one after another.
A name under resolution gives this answer whatever was asked of it and of its bases before, as long
as all questions were asked of one table and from one scope: every slot that is filled holds what its
node designates from there, failures included.

Results: `ResolvedName.Faithful.designate?`, `replies_of_fresh`.
-/

namespace AdaExpressions

namespace EnvTable

/-- The scope opened by the first declaration that the identifier may denote from `env`. -/
def opens? (table : EnvTable) (env : EnvId) (ident : Ident) : Option (Option EnvId) :=
  (table.lookup? env ident.token.symbol).map fun found => found.head?.bind Declaration.opened

/-- What the identifier leads to from what was reached in front of it. -/
def leads? (table : EnvTable) (reached : Option EnvId) (ident : Ident) : Option (Option EnvId) :=
  match reached with
  | none => some none
  | some env => table.opens? env ident

/-- The scope that is reached from `env` through the scopes opened by the identifiers, each looked up
in the one reached before. None is reached as soon as one of them opens none. -/
def follow? (table : EnvTable) (env : EnvId) (idents : List Ident) : Option (Option EnvId) :=
  idents.foldlM table.leads? (some env)

variable {table : EnvTable} {env : EnvId}

theorem follow?_singleton {ident : Ident} : table.follow? env [ident] = table.opens? env ident := by
  simp [follow?, leads?]

theorem follow?_concat {idents : List Ident} {ident : Ident} :
    table.follow? env (idents ++ [ident]) =
      (table.follow? env idents).bind (table.leads? · ident) := by
  simp [follow?, List.foldlM_append]

end EnvTable

namespace ResolvedName

/-- The identifiers of the name from left to right. -/
def components : ResolvedName → List Ident
  | .simple ident => [ident.ident]
  | .selected base selector _ => base.components ++ [selector.ident]

@[simp] theorem components_fresh (name : Name) : (fresh name).components = name.components := by
  induction name with
  | simple ident => rfl
  | selected base selector span ih => simp [fresh, components, Name.components, ih, ResolvedIdent.fresh]

theorem components_ne_nil (name : ResolvedName) : name.components ≠ [] := by
  cases name <;> simp [components]

theorem token_eq (name : ResolvedName) :
    name.components.getLast?.map Ident.token = some name.token := by
  cases name <;> simp [components, token]

variable {table : EnvTable} {env : EnvId}

/-! ### Faithful slots -/

/-- Every slot that is filled holds what its node designates when the name is followed from `env`. A
selector is followed from where its base leads. -/
def Faithful (table : EnvTable) (env : EnvId) : ResolvedName → Prop
  | .simple ident => ∀ answer, ident.slot = some answer →
      table.follow? env [ident.ident] = some answer
  | .selected base selector slot =>
      base.Faithful table env ∧
        (∀ answer, selector.slot = some answer →
          table.follow? env (base.components ++ [selector.ident]) = some answer) ∧
        ∀ answer, slot = some answer →
          table.follow? env (base.components ++ [selector.ident]) = some answer

theorem faithful_fresh (name : Name) : (fresh name).Faithful table env := by
  induction name with
  | simple ident => simp [fresh, Faithful, ResolvedIdent.fresh]
  | selected base selector span ih => simp [fresh, Faithful, ResolvedIdent.fresh, ih]

/-- A question to the name has the answer that is due, if one is due, and leaves faithful slots. -/
inductive Gives (table : EnvTable) (env : EnvId) (name : ResolvedName) :
    Option (Option EnvId) → Option (Option EnvId × ResolvedName) → Prop
  | nothing : Gives table env name none none
  | replied {answer : Option EnvId} {after : ResolvedName} :
      after.Faithful table env → after.components = name.components →
      Gives table env name (some answer) (some (answer, after))

end ResolvedName

/-- An identifier whose slot is empty or right gives the right answer, and keeps it. -/
theorem ResolvedIdent.designate?_of_slot {table : EnvTable} {env : EnvId} {ident : ResolvedIdent}
    (kept : ∀ answer, ident.slot = some answer → table.opens? env ident.ident = some answer) :
    ident.designate? table env =
      (table.opens? env ident.ident).map fun answer => (answer, ⟨ident.ident, some answer⟩) := by
  obtain ⟨ident, slot⟩ := ident
  cases slot with
  | none =>
      rw [EnvTable.opens?, Option.map_map]
      rfl
  | some answer =>
      rw [kept answer rfl]
      rfl

namespace ResolvedName

variable {table : EnvTable} {env : EnvId}

/-- A name with faithful slots designates what it leads to, and its slots stay faithful. -/
theorem Faithful.designate? {name : ResolvedName} (faithful : name.Faithful table env) :
    name.Gives table env (table.follow? env name.components) (name.designate? table env) := by
  induction name with
  | simple ident =>
      simp only [Faithful, EnvTable.follow?_singleton] at faithful
      rw [components, EnvTable.follow?_singleton, ResolvedName.designate?,
        ResolvedIdent.designate?_of_slot faithful]
      cases opened : table.opens? env ident.ident with
      | none => exact .nothing
      | some answer =>
          refine .replied (fun other filled => ?_) rfl
          rw [EnvTable.follow?_singleton, opened]
          exact filled
  | selected base selector slot ih =>
      obtain ⟨faithfulBase, faithfulSelector, faithfulSlot⟩ := faithful
      cases slot with
      | some answer =>
          rw [components, faithfulSlot answer rfl, ResolvedName.designate?]
          exact .replied ⟨faithfulBase, faithfulSelector, faithfulSlot⟩ rfl
      | none =>
          have along : table.follow? env (base.components ++ [selector.ident]) =
              (table.follow? env base.components).bind (table.leads? · selector.ident) :=
            EnvTable.follow?_concat
          have given := ih faithfulBase
          rw [components, ResolvedName.designate?]
          generalize table.follow? env base.components = reached at given along
          generalize base.designate? table env = asked at given
          cases given with
          | nothing =>
              rw [along]
              exact .nothing
          | @replied inner after faithfulAfter same =>
              cases inner with
              | none =>
                  -- The base leads nowhere, so the selector is not asked and stays as it was.
                  rw [along]
                  refine .replied ⟨faithfulAfter, same ▸ faithfulSelector, fun answer filled => ?_⟩
                    (congrArg (· ++ [selector.ident]) same)
                  rw [same, along]
                  exact filled
              | some inner =>
                  rw [along] at faithfulSelector ⊢
                  have answers := ResolvedIdent.designate?_of_slot faithfulSelector
                  cases opened : table.opens? inner selector.ident with
                  | none =>
                      rw [opened] at answers
                      simpa [EnvTable.leads?, opened, answers] using Gives.nothing
                  | some answer =>
                      have leads : table.follow? env (after.components ++ [selector.ident]) =
                          some answer := by
                        rw [same, along]
                        exact opened
                      rw [opened] at answers
                      have keeps : (selected after ⟨selector.ident, some answer⟩
                          (some answer)).Faithful table env :=
                        ⟨faithfulAfter, fun _ filled => leads.trans filled,
                          fun _ filled => leads.trans filled⟩
                      have given : (selected base selector none).Gives table env (some answer) _ :=
                        .replied keeps (congrArg (· ++ [selector.ident]) same)
                      simpa [EnvTable.leads?, opened, answers] using given

theorem Gives.of_base {base : ResolvedName} {selector : ResolvedIdent} {slot : Slot}
    {due : Option (Option EnvId)} {asked : Option (Option EnvId × ResolvedName)}
    (gives : base.Gives table env due asked)
    (faithful : (selected base selector slot).Faithful table env) :
    (selected base selector slot).Gives table env due
      (asked.map fun (answer, after) => (answer, selected after selector slot)) := by
  obtain ⟨_, faithfulSelector, faithfulSlot⟩ := faithful
  cases gives with
  | nothing => exact .nothing
  | replied faithfulAfter same =>
      have keeps : (selected _ selector slot).Faithful table env :=
        ⟨faithfulAfter, same.symm ▸ faithfulSelector, same.symm ▸ faithfulSlot⟩
      exact .replied keeps (congrArg (· ++ [selector.ident]) same)

/-! ### Questions to the bases of a name -/

/-- What a question to the node of these components is to answer: what they lead to, or what all but
the last lead to. -/
def Question.expected? (table : EnvTable) (env : EnvId) (components : List Ident) :
    Question → Option (Option EnvId)
  | .designated => table.follow? env components
  | .scope => table.follow? env components.dropLast

theorem Faithful.ask? {name : ResolvedName} (faithful : name.Faithful table env)
    (question : Question) :
    name.Gives table env (question.expected? table env name.components)
      (name.ask? question table env) := by
  cases question with
  | designated => exact faithful.designate?
  | scope =>
      cases name with
      | simple ident => exact .replied faithful rfl
      | selected base selector slot =>
          have part : (components (selected base selector slot)).dropLast = base.components := by
            simp [components]
          rw [Question.expected?, part]
          exact faithful.1.designate?.of_base faithful

/-- The components of the base some steps down, if there is one: all but as many at the end. -/
def componentsAt? (components : List Ident) (steps : Nat) : Option (List Ident) :=
  if steps < components.length then some (components.take (components.length - steps)) else none

theorem componentsAt?_zero (name : ResolvedName) :
    componentsAt? name.components 0 = some name.components := by
  simp [componentsAt?, List.length_pos_iff.mpr name.components_ne_nil]

theorem componentsAt?_succ (base : ResolvedName) (selector : ResolvedIdent) (slot : Slot)
    (steps : Nat) :
    componentsAt? (selected base selector slot).components (steps + 1) =
      componentsAt? base.components steps := by
  have few : base.components.length + 1 - (steps + 1) = base.components.length - steps := by omega
  simp only [componentsAt?, components, List.length_append, List.length_singleton, few,
    Nat.add_lt_add_iff_right, List.take_append_of_le_length (Nat.sub_le _ _)]

theorem componentsAt?_simple (ident : ResolvedIdent) (steps : Nat) :
    componentsAt? (simple ident).components (steps + 1) = none := by
  simp [componentsAt?, components]

theorem components_node? (name : ResolvedName) (steps : Nat) :
    (name.node? (List.replicate steps .base)).map components =
      componentsAt? name.components steps := by
  induction steps generalizing name with
  | zero => exact (componentsAt?_zero name).symm
  | succ steps ih =>
      cases name with
      | simple ident => exact (componentsAt?_simple ident steps).symm
      | selected base selector slot =>
          rw [componentsAt?_succ, ← ih]
          rfl

/-- A question to the base some steps down, if there is one, is answered as its components call
for. -/
theorem Faithful.askAt? {name : ResolvedName} (faithful : name.Faithful table env)
    (question : Question) (steps : Nat) :
    name.Gives table env
      ((componentsAt? name.components steps).bind (question.expected? table env ·))
      (name.askAt? question table env (List.replicate steps .base)) := by
  induction steps generalizing name with
  | zero =>
      rw [componentsAt?_zero, Option.bind_some]
      exact faithful.ask? question
  | succ steps ih =>
      cases name with
      | simple ident =>
          rw [componentsAt?_simple]
          exact .nothing
      | selected base selector slot =>
          rw [componentsAt?_succ]
          exact (ih faithful.1).of_base faithful

/-! ### Inquiries one after another -/

/-- A question to, or the token of, the base some steps down. -/
inductive Inquiry
  | ask (question : Question) (steps : Nat)
  | token (steps : Nat)

inductive Reply
  | env (answer : Option EnvId)
  | token (token : Token)

namespace Inquiry

/-- The reply to an inquiry and the name after it, if the node is there. -/
def put? (table : EnvTable) (env : EnvId) (name : ResolvedName) :
    Inquiry → Option (Reply × ResolvedName)
  | .ask question steps =>
      (name.askAt? question table env (List.replicate steps .base)).map fun (answer, after) =>
        (.env answer, after)
  | .token steps =>
      (name.node? (List.replicate steps .base)).map fun node => (.token node.token, name)

/-- The reply that the components of the node call for. -/
def expected? (table : EnvTable) (env : EnvId) (components : List Ident) : Inquiry → Option Reply
  | .ask question steps =>
      ((componentsAt? components steps).bind (question.expected? table env ·)).map .env
  | .token steps =>
      (componentsAt? components steps).bind fun part =>
        part.getLast?.map fun ident => .token ident.token

end Inquiry

/-- The replies to inquiries put to a name one after another. -/
def replies (table : EnvTable) (env : EnvId) : ResolvedName → List Inquiry → List (Option Reply)
  | _, [] => []
  | name, inquiry :: more =>
      match inquiry.put? table env name with
      | some (reply, after) => some reply :: replies table env after more
      | none => none :: replies table env name more

theorem Faithful.put? {name : ResolvedName} (faithful : name.Faithful table env)
    (inquiry : Inquiry) :
    (inquiry.expected? table env name.components = none ∧ inquiry.put? table env name = none) ∨
      ∃ reply after, inquiry.expected? table env name.components = some reply ∧
        inquiry.put? table env name = some (reply, after) ∧
        after.Faithful table env ∧ after.components = name.components := by
  cases inquiry with
  | ask question steps =>
      have gives := faithful.askAt? question steps
      rw [Inquiry.expected?, Inquiry.put?]
      generalize (componentsAt? name.components steps).bind _ = due at gives
      generalize name.askAt? question table env _ = asked at gives
      cases gives with
      | nothing => exact .inl ⟨rfl, rfl⟩
      | replied kept same => exact .inr ⟨_, _, rfl, rfl, kept, same⟩
  | token steps =>
      have parts := name.components_node? steps
      cases found : name.node? (List.replicate steps .base) with
      | none =>
          rw [found, Option.map_none] at parts
          exact .inl ⟨by rw [Inquiry.expected?, ← parts]; rfl, by rw [Inquiry.put?, found]; rfl⟩
      | some node =>
          rw [found, Option.map_some] at parts
          refine .inr ⟨.token node.token, name, ?_, by rw [Inquiry.put?, found]; rfl, faithful, rfl⟩
          have named := congrArg (Option.map Reply.token) node.token_eq
          rw [Option.map_map, Option.map_some] at named
          rw [Inquiry.expected?, ← parts, Option.bind_some, ← named]
          rfl

theorem Faithful.replies {name : ResolvedName} (faithful : name.Faithful table env)
    (inquiries : List Inquiry) :
    name.replies table env inquiries =
      inquiries.map (Inquiry.expected? table env name.components) := by
  induction inquiries generalizing name with
  | nil => rfl
  | cons inquiry more ih =>
      rw [ResolvedName.replies, List.map_cons]
      rcases faithful.put? inquiry with ⟨none_, absent⟩ | ⟨reply, after, due, given, kept, same⟩
      · rw [none_, absent, ← ih faithful]
      · rw [due, given, ← same, ← ih kept]

end ResolvedName

/-- Of a name whose slots are all empty every node gives what its components lead to from the scope
at the start, whatever has been asked before. -/
theorem replies_of_fresh (name : Name) (table : EnvTable) (env : EnvId)
    (inquiries : List ResolvedName.Inquiry) :
    (ResolvedName.fresh name).replies table env inquiries =
      inquiries.map (ResolvedName.Inquiry.expected? table env name.components) := by
  rw [(ResolvedName.faithful_fresh name).replies, ResolvedName.components_fresh]

end AdaExpressions
