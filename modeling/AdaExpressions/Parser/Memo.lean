import AdaExpressions.Grammar.Failure
import AdaExpressions.Grammar.Rule

/-!
# Remembered results

For each index of a token buffer there is a row with a slot for each key. A slot keeps the result
that was last stored in it: a tree with the index after it, or a failure.

Results: `find?_store` (what is stored is found, and nothing else changes) and `count_le` (there are
never more results than three for each index).
-/

namespace AdaExpressions

inductive Remembered
  | tree (expr : Expr) (stop : Nat)
  | failure (failure : Failure)

structure MemoRow where
  expression : Option Remembered
  simpleExpr : Option Remembered
  primary : Option Remembered

namespace MemoRow

def empty : MemoRow :=
  ⟨none, none, none⟩

def find? (row : MemoRow) : MemoKey → Option Remembered
  | .expression => row.expression
  | .simpleExpr => row.simpleExpr
  | .primary => row.primary

def store (row : MemoRow) (key : MemoKey) (result : Remembered) : MemoRow :=
  match key with
  | .expression => { row with expression := some result }
  | .simpleExpr => { row with simpleExpr := some result }
  | .primary => { row with primary := some result }

def count (row : MemoRow) : Nat :=
  row.expression.isSome.toNat + row.simpleExpr.isSome.toNat + row.primary.isSome.toNat

theorem find?_store (row : MemoRow) (key other : MemoKey) (result : Remembered) :
    (row.store key result).find? other =
      if key = other then some result else row.find? other := by
  cases key <;> cases other <;> rfl

theorem count_le (row : MemoRow) : row.count ≤ 3 := by
  have bound (b : Bool) : b.toNat ≤ 1 := Bool.toNat_le b
  have first := bound row.expression.isSome
  have second := bound row.simpleExpr.isSome
  have third := bound row.primary.isSome
  simp only [count]
  omega

end MemoRow

structure Memo where
  rows : Array MemoRow

namespace Memo

/-- No results yet for a buffer of `size` tokens. -/
def empty (size : Nat) : Memo :=
  ⟨Array.replicate size .empty⟩

def find? (memo : Memo) (key : MemoKey) (index : Nat) : Option Remembered :=
  memo.rows[index]?.bind (·.find? key)

def store (memo : Memo) (key : MemoKey) (index : Nat) (result : Remembered) : Memo :=
  ⟨memo.rows.modify index (·.store key result)⟩

/-- How many results are kept. -/
def count (memo : Memo) : Nat :=
  memo.rows.foldl (fun sum row => sum + row.count) 0

@[simp] theorem find?_empty (size : Nat) (key : MemoKey) (index : Nat) :
    (empty size).find? key index = none := by
  simp only [find?, empty, Array.getElem?_replicate]
  split
  · cases key <;> rfl
  · rfl

theorem find?_store {memo : Memo} {key other : MemoKey} {index place : Nat}
    {result : Remembered} (known : index < memo.rows.size) :
    (memo.store key index result).find? other place =
      if index = place ∧ key = other then some result else memo.find? other place := by
  by_cases same : index = place
  · subst same
    simp [find?, store, known, Array.getElem_modify_self, MemoRow.find?_store]
  · simp [find?, store, Array.getElem?_modify, same]

@[simp] theorem size_store (memo : Memo) (key : MemoKey) (index : Nat) (result : Remembered) :
    (memo.store key index result).rows.size = memo.rows.size := by
  simp [store]

theorem count_le (memo : Memo) : memo.count ≤ 3 * memo.rows.size := by
  have bound (rows : List MemoRow) (start : Nat) :
      rows.foldl (fun sum row => sum + row.count) start ≤ start + 3 * rows.length := by
    induction rows generalizing start with
    | nil => simp
    | cons row more ih =>
        have here := row.count_le
        have rest := ih (start + row.count)
        simp only [List.foldl_cons, List.length_cons]
        omega
  have := bound memo.rows.toList 0
  simpa [count] using this

end Memo

end AdaExpressions
