import AdaExpressions.Expr.Shape
import AdaExpressions.Proofs.Token.TokenText

/-!
# Shapes written out

The text of a shape holds words, heads with brackets behind them, and commas. A string or character
literal among the words may hold brackets and commas of its own, but where a word starts it shows
where it ends, as long as a closing bracket, a comma or nothing follows it. So a legible shape can
be told from its text.

Results: `Shape.isWord_of_tokenText` (leaf texts are words), `Shape.Legible.tellsApart` (the text of
a legible shape is that of no other one, whatever closes it), `Shape.eq_of_render`.
-/

namespace AdaExpressions

open Lexeme (Ends runLength runLength_append closingQuote number goesOnNumber isWordChar ends_cons
  TokenText)

namespace Shape

/-! ### Words -/

/-- What words are told apart by: brackets, the comma, and quotation marks. -/
def marks : List Char :=
  ['(', ')', '[', ']', ',', '\x22', '\x27']

def isPlain (c : Char) : Bool :=
  !marks.contains c

/-- How long the word is that a text starts with. -/
def wordLength : List Char → Nat
  | [] => 0
  | first :: rest =>
      if first.isDigit then 1 + (number first rest).getD 0
      else if first = '\x22' then 1 + (closingQuote rest).getD 0
      else if first = '\x27' then 3
      else runLength isPlain (first :: rest)

/-- Nothing comes next, or a character that closes an argument. -/
def Closed (rest : List Char) : Prop :=
  ∀ c ∈ rest.head?, c ∈ [')', ']', ',']

/-- The text is a word wherever it is closed. -/
def IsWord (text : List Char) : Prop :=
  text ≠ [] ∧ ∀ rest, Closed rest → wordLength (text ++ rest) = text.length

section

variable {p : Char → Bool} {first c : Char} {text part rest : List Char}

@[simp] theorem closed_nil : Closed [] := nofun

@[simp] theorem closed_cons : Closed (c :: rest) ↔ c ∈ [')', ']', ','] := by
  simp [Closed]

/-- What closes a word is no character that the word could go on with. -/
theorem Closed.ends (closed : Closed rest) (none_ : [')', ']', ','].any p = false) : Ends p rest :=
  fun c first => Bool.eq_false_iff.mpr (List.any_eq_false.mp none_ c (closed c first))

/-- A class of characters that no mark belongs to. -/
theorem isPlain_of (none_ : marks.any p = false) (holds : p c = true) : isPlain c = true := by
  cases known : marks.contains c with
  | false => simp only [isPlain, known, Bool.not_false]
  | true =>
      have member : c ∈ marks := by simpa using known
      exact absurd holds (List.any_eq_false.mp none_ c member)

/-- Behind a letter a word goes on as long as characters are plain. -/
theorem wordLength_of_isAlpha (letter : first.isAlpha = true) :
    wordLength (first :: rest) = runLength isPlain (first :: rest) := by
  have digit : first.isDigit = false := by
    cases known : first.isDigit with
    | false => rfl
    | true =>
        rw [Lexeme.isAlpha_of_isDigit known] at letter
        cases letter
  have quote : first ≠ '\x22' := by
    rintro rfl
    exact absurd letter (by decide)
  have apostrophe : first ≠ '\x27' := by
    rintro rfl
    exact absurd letter (by decide)
  rw [wordLength, digit, if_neg Bool.false_ne_true, if_neg quote, if_neg apostrophe]

theorem isWord_of_plain (letter : first.isAlpha = true) (plain : ∀ c ∈ part, isPlain c = true) :
    IsWord (first :: part) := by
  refine ⟨List.cons_ne_nil _ _, fun rest closed => ?_⟩
  have starts : isPlain first = true := isPlain_of (by decide) letter
  rw [List.cons_append, wordLength_of_isAlpha letter, ← List.cons_append]
  exact runLength_append (List.forall_mem_cons.mpr ⟨starts, plain⟩) (closed.ends (by decide))

/-- The texts of identifiers, reserved words and literals are words. -/
theorem isWord_of_tokenText {kind : Kind} (text_ : TokenText kind text)
    (open_ : kind ∉ Kind.delimiters) : IsWord text := by
  cases text_ with
  | @word first part letter holds =>
      refine isWord_of_plain letter fun c member => ?_
      exact isPlain_of (by decide) (holds c member)
  | @number first part found =>
      have digit : first.isDigit = true := by
        unfold number at found
        split at found
        next digit => exact digit
        next => cases found
      obtain ⟨_, rest, rfl, size, again⟩ := Lexeme.number_append found
      obtain rfl : rest = [] := by
        rw [List.length_append] at size
        exact List.length_eq_zero_iff.mp (by omega)
      rw [List.append_nil] at *
      refine ⟨List.cons_ne_nil _ _, fun rest closed => ?_⟩
      have more := again rest (closed.ends (by decide))
      rw [List.cons_append, wordLength, if_pos digit, more, Option.getD_some, List.length_cons,
        Nat.add_comm]
  | @string part found =>
      obtain ⟨_, rest, rfl, size, again⟩ := Lexeme.closingQuote_append found
      obtain rfl : rest = [] := by
        rw [List.length_append] at size
        exact List.length_eq_zero_iff.mp (by omega)
      rw [List.append_nil] at *
      refine ⟨List.cons_ne_nil _ _, fun rest closed => ?_⟩
      have more := again rest (closed.ends (by decide))
      rw [List.cons_append, wordLength, if_neg (by decide), if_pos rfl, more, Option.getD_some,
        List.length_cons, Nat.add_comm]
  | character => exact ⟨List.cons_ne_nil _ _, fun rest _ => rfl⟩
  | delimiter known => exact absurd known open_

end

/-! ### Legible shapes -/

/-- Every text in the shape is a word and every head is made of letters. -/
inductive Legible : Shape → Prop
  | text {content : String} : IsWord content.toList → Legible (.text content)
  | node {head : String} {arguments : List Shape} :
      head.toList.all Char.isAlpha = true → (∀ shape ∈ arguments, Legible shape) →
      Legible (.node head arguments)
  | list {head : String} {items : List Shape} :
      head.toList.all Char.isAlpha = true → (∀ shape ∈ items, Legible shape) →
      Legible (.list head items)

/-- The text of the shape, closed, is not that of another legible shape. -/
def TellsApart (shape : Shape) : Prop :=
  ∀ other rest more, Legible other → Closed rest → Closed more →
    shape.render.toList ++ rest = other.render.toList ++ more → shape = other ∧ rest = more

section

variable {head : String} {arguments items : List Shape} {text head' inner rest more : List Char}
  {opening closing : Char}

theorem toList_render_node : (node head arguments).render.toList ++ rest =
    head.toList ++ '(' :: ((renderList arguments).toList ++ ')' :: rest) := by
  simp [render]

theorem toList_render_list : (list head items).render.toList ++ rest =
    head.toList ++ '[' :: ((renderList items).toList ++ ']' :: rest) := by
  simp [render]

/-- A head ends where its bracket opens. -/
theorem wordLength_head (letters : head'.all Char.isAlpha = true)
    (bracket : opening = '(' ∨ opening = '[') :
    wordLength (head' ++ opening :: inner) = head'.length := by
  have opens : Ends isPlain (opening :: inner) := by
    rcases bracket with rfl | rfl
    · exact ends_cons.mpr (by decide)
    · exact ends_cons.mpr (by decide)
  cases head' with
  | nil =>
      have none_ : runLength isPlain ([] ++ opening :: inner) = 0 := runLength_append nofun opens
      rw [List.nil_append] at none_ ⊢
      rcases bracket with rfl | rfl
      · exact none_
      · exact none_
  | cons first part =>
      rw [List.all_eq_true] at letters
      have plain : ∀ c ∈ first :: part, isPlain c = true := fun c member =>
        isPlain_of (by decide) (letters c member)
      rw [List.cons_append, wordLength_of_isAlpha (letters first List.mem_cons_self),
        ← List.cons_append]
      exact runLength_append plain opens

/-- A word is no head with a bracket behind it. -/
theorem IsWord.ne_bracketed (word : IsWord text) (closed : Closed rest)
    (letters : head'.all Char.isAlpha = true) (bracket : opening = '(' ∨ opening = '[') :
    text ++ rest ≠ head' ++ opening :: inner := by
  intro same
  have length := word.2 rest closed
  rw [same, wordLength_head letters bracket] at length
  obtain ⟨_, rfl⟩ := List.append_inj same length.symm
  have closes := closed_cons.mp closed
  rcases bracket with rfl | rfl
  · exact absurd closes (by decide)
  · exact absurd closes (by decide)

/-- Heads with their brackets are the same if the texts that start with them are. -/
theorem bracketed_inj {other inner' : List Char} {opening' : Char}
    (letters : head'.all Char.isAlpha = true) (letters' : other.all Char.isAlpha = true)
    (bracket : opening = '(' ∨ opening = '[') (bracket' : opening' = '(' ∨ opening' = '[')
    (same : head' ++ opening :: inner = other ++ opening' :: inner') :
    head' = other ∧ opening = opening' ∧ inner = inner' := by
  have length : wordLength (head' ++ opening :: inner) = head'.length :=
    wordLength_head letters bracket
  rw [same, wordLength_head letters' bracket'] at length
  obtain ⟨heads, behind⟩ := List.append_inj same length.symm
  obtain ⟨brackets, inside⟩ := List.cons.inj behind
  exact ⟨heads, brackets, inside⟩

/-- Before a closing bracket no word starts. -/
theorem wordLength_closing (closes : closing = ')' ∨ closing = ']') :
    wordLength (closing :: rest) = 0 := by
  rcases closes with rfl | rfl
  · rfl
  · rfl

/-- A legible shape does not start with a closing bracket. -/
theorem Legible.ne_closing {shape : Shape} (legible : Legible shape)
    (closes : closing = ')' ∨ closing = ']') : closing :: more ≠ shape.render.toList ++ rest := by
  -- A closing bracket is not what a head starts with.
  have bracketed {head inner : List Char} {opening : Char} (letters : head.all Char.isAlpha = true)
      (bracket : opening = '(' ∨ opening = '[') : closing :: more ≠ head ++ opening :: inner := by
    intro same
    have length : wordLength (head ++ opening :: inner) = head.length :=
      wordLength_head letters bracket
    rw [← same, wordLength_closing closes] at length
    rw [List.length_eq_zero_iff.mp length.symm] at same
    obtain ⟨rfl, -⟩ := List.cons.inj same
    rcases closes with rfl | rfl
    · exact absurd bracket (by decide)
    · exact absurd bracket (by decide)
  cases legible with
  | @text content word =>
      intro same
      obtain ⟨first, part, spelt⟩ := List.exists_cons_of_ne_nil word.1
      have length := word.2 [] closed_nil
      rw [List.append_nil, spelt] at length
      have same : closing :: more = first :: part ++ rest := spelt ▸ same
      obtain ⟨rfl, -⟩ := List.cons.inj same
      rw [wordLength_closing closes] at length
      cases length
  | node letters =>
      rw [toList_render_node]
      exact bracketed letters (.inl rfl)
  | list letters =>
      rw [toList_render_list]
      exact bracketed letters (.inr rfl)

/-- What comes behind the first of several shapes. -/
def restText : List Shape → List Char
  | [] => []
  | next :: more => ',' :: ' ' :: (renderList (next :: more)).toList

theorem toList_renderList (shape : Shape) (shapes : List Shape) :
    (renderList (shape :: shapes)).toList = shape.render.toList ++ restText shapes := by
  cases shapes with
  | nil => simp [renderList, restText]
  | cons next more => simp [renderList, restText]

theorem closed_restText {shapes : List Shape} (closes : closing = ')' ∨ closing = ']') :
    Closed (restText shapes ++ closing :: rest) := by
  cases shapes with
  | nil =>
      rcases closes with rfl | rfl
      · exact closed_cons.mpr (by decide)
      · exact closed_cons.mpr (by decide)
  | cons next more => exact closed_cons.mpr (by decide)

/-- Lists of legible shapes are the same if their texts are, closing bracket included. -/
theorem renderList_inj {shapes others : List Shape} {closing' : Char}
    (each : ∀ shape ∈ shapes, Legible shape ∧ TellsApart shape)
    (legible : ∀ shape ∈ others, Legible shape) (closes : closing = ')' ∨ closing = ']')
    (closes' : closing' = ')' ∨ closing' = ']')
    (same : (renderList shapes).toList ++ closing :: rest =
      (renderList others).toList ++ closing' :: more) :
    shapes = others ∧ rest = more := by
  -- Nor does a comma stand where the other list is over.
  have noComma {left tail : List Char} {bracket : Char} (closes : bracket = ')' ∨ bracket = ']') :
      bracket :: left ≠ ',' :: tail := by
    intro same
    obtain ⟨rfl, -⟩ := List.cons.inj same
    exact absurd closes (by decide)
  induction shapes generalizing others with
  | nil =>
      cases others with
      | nil => exact ⟨rfl, (List.cons.inj same).2⟩
      | cons other others =>
          rw [toList_renderList, List.append_assoc] at same
          exact absurd same ((legible other List.mem_cons_self).ne_closing closes)
  | cons shape shapes ih =>
      obtain ⟨⟨here, apart⟩, eachMore⟩ := List.forall_mem_cons.mp each
      cases others with
      | nil =>
          rw [toList_renderList, List.append_assoc] at same
          exact absurd same.symm (here.ne_closing closes')
      | cons other others =>
          obtain ⟨otherLegible, legibleMore⟩ := List.forall_mem_cons.mp legible
          rw [toList_renderList, toList_renderList, List.append_assoc, List.append_assoc] at same
          obtain ⟨rfl, behind⟩ := apart other _ _ otherLegible (closed_restText closes)
            (closed_restText closes') same
          cases shapes with
          | nil =>
              cases others with
              | nil => exact ⟨rfl, (List.cons.inj behind).2⟩
              | cons next tail => exact absurd behind (noComma closes)
          | cons next tail =>
              cases others with
              | nil => exact absurd behind.symm (noComma closes')
              | cons next' tail' =>
                  have inner := (List.cons.inj (List.cons.inj behind).2).2
                  obtain ⟨rest, more⟩ := ih eachMore legibleMore inner
                  exact ⟨congrArg _ rest, more⟩

end

theorem Legible.tellsApart {shape : Shape} (legible : Legible shape) : shape.TellsApart := by
  have round : '(' = '(' ∨ '(' = '[' := .inl rfl
  have square : '[' = '(' ∨ '[' = '[' := .inr rfl
  induction legible with
  | @text content word =>
      intro other rest more legible closed closed' same
      cases legible with
      | @text content' word' =>
          have length := word.2 rest closed
          have same : content.toList ++ rest = content'.toList ++ more := same
          rw [same, word'.2 more closed'] at length
          obtain ⟨texts, rests⟩ := List.append_inj same length.symm
          exact ⟨congrArg Shape.text (String.toList_inj.mp texts), rests⟩
      | node letters =>
          rw [toList_render_node] at same
          exact absurd same (word.ne_bracketed closed letters round)
      | list letters =>
          rw [toList_render_list] at same
          exact absurd same (word.ne_bracketed closed letters square)
  | @node head arguments letters each ih =>
      intro other rest more legible closed closed' same
      rw [toList_render_node] at same
      cases legible with
      | text word' => exact absurd same.symm (word'.ne_bracketed closed' letters round)
      | node letters' each' =>
          rw [toList_render_node] at same
          obtain ⟨heads, _, inner⟩ := bracketed_inj letters letters' round round same
          obtain ⟨rfl, rests⟩ := renderList_inj
            (fun shape member => ⟨each shape member, ih shape member⟩) each' (.inl rfl) (.inl rfl)
            inner
          exact ⟨congrArg (Shape.node · arguments) (String.toList_inj.mp heads), rests⟩
      | list letters' =>
          rw [toList_render_list] at same
          obtain ⟨_, brackets, _⟩ := bracketed_inj letters letters' round square same
          exact absurd brackets (by decide)
  | @list head items letters each ih =>
      intro other rest more legible closed closed' same
      rw [toList_render_list] at same
      cases legible with
      | text word' => exact absurd same.symm (word'.ne_bracketed closed' letters square)
      | node letters' =>
          rw [toList_render_node] at same
          obtain ⟨_, brackets, _⟩ := bracketed_inj letters letters' square round same
          exact absurd brackets (by decide)
      | list letters' each' =>
          rw [toList_render_list] at same
          obtain ⟨heads, _, inner⟩ := bracketed_inj letters letters' square square same
          obtain ⟨rfl, rests⟩ := renderList_inj
            (fun shape member => ⟨each shape member, ih shape member⟩) each' (.inr rfl) (.inr rfl)
            inner
          exact ⟨congrArg (Shape.list · items) (String.toList_inj.mp heads), rests⟩

theorem eq_of_render {shape other : Shape} (legible : Legible shape) (legible' : Legible other)
    (same : shape.render = other.render) : shape = other := by
  have apart := legible.tellsApart other [] [] legible' closed_nil closed_nil
  exact (apart (by rw [same])).1

end Shape

end AdaExpressions
