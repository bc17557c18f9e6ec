import AdaExpressions.Source.Line
import AdaExpressions.Text.Blank
import AdaExpressions.Text.Lowercase

/-!
# The case of ASCII letters

`small` makes the ASCII letters of a text small and keeps every other character. It moves nothing:
each character keeps its length in bytes. Folding a text to lower case gives the same whether its
ASCII letters are made small first or not.

Results: `caseless`, `toLower_eq_iff`, `lowercase_smallText`.
-/

namespace AdaExpressions.Text

/-- What does not change when one of the capital ASCII letters is made small, never does. -/
theorem caseless {α : Type} {f : Char → α}
    (letters : ∀ place < 26, f (Char.ofNat (65 + place)).toLower = f (Char.ofNat (65 + place)))
    (c : Char) : f c.toLower = f c := by
  by_cases capital : 65 ≤ c.toNat ∧ c.toNat ≤ 90
  · have here := letters (c.toNat - 65) (by omega)
    rwa [show 65 + (c.toNat - 65) = c.toNat by omega, Char.ofNat_toNat] at here
  · have same : c.toLower = c := by
      unfold Char.toLower
      exact dif_neg capital
    rw [same]

@[simp] theorem toLower_toLower (c : Char) : c.toLower.toLower = c.toLower :=
  caseless (f := Char.toLower) (by decide) c

@[simp] theorem isBlank_toLower (c : Char) : isBlank c.toLower = isBlank c :=
  caseless (by decide) c

/-- Nothing but a letter becomes a character that is no letter. -/
theorem toLower_eq_iff {mark : Char} (other : mark.isAlpha = false) (c : Char) :
    c.toLower = mark ↔ c = mark := by
  have alpha : ∀ place < 26, (Char.ofNat (65 + place)).toLower.isAlpha = true ∧
      (Char.ofNat (65 + place)).isAlpha = true := by decide
  have differs {c : Char} (letter : c.isAlpha = true) : ¬ c = mark := by
    rintro rfl
    rw [letter] at other
    cases other
  refine iff_of_eq (caseless (f := (· = mark)) (fun place letter => ?_) c)
  rw [eq_false (differs (alpha place letter).1), eq_false (differs (alpha place letter).2)]

theorem toLower_ne {mark c : Char} (other : mark.isAlpha = false) (differs : c ≠ mark) :
    c.toLower ≠ mark :=
  fun same => differs ((toLower_eq_iff other c).mp same)

/-! ### Small letters -/

/-- A text with small ASCII letters. -/
def small (text : List Char) : List Char :=
  text.map Char.toLower

@[simp] theorem small_nil : small [] = [] := rfl

@[simp] theorem small_cons (c : Char) (rest : List Char) :
    small (c :: rest) = c.toLower :: small rest := rfl

@[simp] theorem length_small (text : List Char) : (small text).length = text.length :=
  List.length_map _

@[simp] theorem small_small (text : List Char) : small (small text) = small text := by
  simp [small, Function.comp_def]

theorem small_drop (count : Nat) (text : List Char) :
    (small text).drop count = small (text.drop count) :=
  List.map_drop.symm

theorem small_take (count : Nat) (text : List Char) :
    (small text).take count = small (text.take count) :=
  List.map_take.symm

theorem small_append (first second : List Char) :
    small (first ++ second) = small first ++ small second :=
  List.map_append

@[simp] theorem byteLength_small (text : List Char) :
    byteLength (small text) = byteLength text := by
  have size (c : Char) : c.toLower.utf8Size = c.utf8Size := caseless (by decide) c
  induction text with
  | nil => rfl
  | cons c rest ih => rw [small_cons, byteLength_cons, byteLength_cons, size, ih]

def smallText (text : String) : String :=
  String.ofList (small text.toList)

@[simp] theorem toList_smallText (text : String) : (smallText text).toList = small text.toList :=
  String.toList_ofList

@[simp] theorem smallText_smallText (text : String) :
    smallText (smallText text) = smallText text := by
  rw [smallText, toList_smallText, small_small, smallText]

theorem smallText_append (first second : String) :
    smallText (first ++ second) = smallText first ++ smallText second := by
  rw [smallText, String.toList_append, small_append, String.ofList_append]
  rfl

/-! ### Lower case -/

theorem nearestIsCased_small (text : List Char) :
    nearestIsCased (small text) = nearestIsCased text := by
  have ignorable (c : Char) : isCaseIgnorable c.toLower = isCaseIgnorable c :=
    caseless (by decide +kernel) c
  have cased (c : Char) : isCased c.toLower = isCased c := caseless (by decide +kernel) c
  induction text with
  | nil => rfl
  | cons c rest ih =>
      by_cases passed : isCaseIgnorable c = true
      · simp only [nearestIsCased, small_cons, List.dropWhile_cons, ignorable, passed, if_true]
          at ih ⊢
        exact ih
      · simp only [nearestIsCased, small_cons, List.dropWhile_cons, ignorable, passed]
        exact cased c

theorem lowercaseFrom_small (before text : List Char) :
    lowercaseFrom (small before) (small text) = lowercaseFrom before text := by
  have lower (c : Char) : lowerChar c.toLower = lowerChar c := caseless (by decide +kernel) c
  have sigma (c : Char) : c.toLower = '\u03a3' ↔ c = '\u03a3' := toLower_eq_iff (by decide) c
  have dotted (c : Char) : c.toLower = '\u0130' ↔ c = '\u0130' := toLower_eq_iff (by decide) c
  induction text generalizing before with
  | nil => rfl
  | cons c rest ih =>
      simp only [small_cons, lowercaseFrom, lowerSigma, lower, sigma, dotted, nearestIsCased_small]
      rw [← small_cons, ih]

/-- Lower case does not tell a small ASCII letter from the capital one. -/
theorem lowercase_smallText (text : String) : lowercase (smallText text) = lowercase text := by
  rw [lowercase, toList_smallText, lowercase, ← lowercaseFrom_small [] text.toList, small_nil]

end AdaExpressions.Text
