import Mathlib.Computability.Language
import AdaExpressions.Proofs.Token.TokenText

/-!
# The languages of the patterns

Each pattern has a regular language, built from classes of characters by sequence, choice and
repetition. A match is made by looking at a text once from the left, where a part that was taken is
never given back. `Munches` says when such a search still finds the longest prefix in the language:
it takes a part of the language, and every shorter part of it is followed by a character of a class
that the next piece cannot start with.

Results: the closure of `Munches` under the ways to put languages together (`Munches.andThen`,
`Munches.orNothing`, `Munches.or`) and `Pattern.munches` (each pattern takes the longest prefix in
its language).
-/

namespace AdaExpressions.Lexeme

open scoped Computability

/-! ### Languages -/

/-- The texts of one character of a class. -/
def oneOf (p : Char → Bool) : Language Char :=
  {text | ∃ c, p c = true ∧ text = [c]}

def manyOf (p : Char → Bool) : Language Char :=
  (oneOf p)∗

def someOf (p : Char → Bool) : Language Char :=
  oneOf p * manyOf p

def optionally (language : Language Char) : Language Char :=
  1 + language

/-- Number signs around hexadecimal digits with at most one point among them. -/
def basedText : Language Char :=
  oneOf (· == '#') * (someOf isHexChar *
    (optionally (oneOf (· == '.') * someOf isHexChar) * oneOf (· == '#')))

def fractionText : Language Char :=
  oneOf (· == '.') * (oneOf Char.isDigit * manyOf isDigitChar)

def exponentText : Language Char :=
  oneOf (fun c => c == 'e' || c == 'E') *
    (optionally (oneOf fun c => c == '+' || c == '-') * someOf Char.isDigit)

/-- What stands for one character of a string literal: itself, if it is on the line and no quotation
mark, or a pair of quotation marks. -/
def quotedOne : Language Char :=
  oneOf (fun c => c != '\x22' && c != '\n') + oneOf (· == '\x22') * oneOf (· == '\x22')

/-- A string literal behind its first quotation mark. -/
def quotedText : Language Char :=
  quotedOne∗ * oneOf (· == '\x22')

namespace Pattern

/-- The texts that the pattern stands for. -/
def language : Pattern → Language Char
  | .blanks => someOf Text.isBlank
  | .comment => oneOf (· == '-') * (oneOf (· == '-') * manyOf (· != '\n'))
  | .word => oneOf Char.isAlpha * manyOf isWordChar
  | .number => oneOf Char.isDigit * (manyOf isDigitChar *
      (optionally (basedText + fractionText) * optionally exponentText))
  | .string => oneOf (· == '\x22') * quotedText
  | .character => oneOf (· == '\x27') * (oneOf (· != '\n') * oneOf (· == '\x27'))
  | .delimiter kind => {kind.spelling.toList}

/-- How many characters of a text the pattern takes. -/
def find (pattern : Pattern) : List Char → Option Nat
  | first :: rest => (pattern.match? first rest).map (1 + ·)
  | [] => none

end Pattern

variable {p q s t : Char → Bool} {language other : Language Char} {text : List Char}

theorem mem_manyOf : text ∈ manyOf p ↔ ∀ c ∈ text, p c = true := by
  refine Language.mem_kstar.trans ⟨?_, fun holds => ?_⟩
  · rintro ⟨parts, rfl, each⟩ c member
    obtain ⟨part, known, member⟩ := List.mem_flatten.mp member
    obtain ⟨only, holds, rfl⟩ := each part known
    rwa [List.mem_singleton.mp member]
  · refine ⟨text.map fun c => [c], ?_, fun part known => ?_⟩
    · induction text with
      | nil => rfl
      | cons c text ih =>
          rw [List.map_cons, List.flatten_cons, ← ih fun c known => holds c (.tail _ known)]
          rfl
    · obtain ⟨c, member, rfl⟩ := List.mem_map.mp known
      exact ⟨c, holds c member, rfl⟩

/-! ### How the texts of a language start -/

/-- No text of the language is empty, and the first character of each is of the class. -/
def Opens (s : Char → Bool) (language : Language Char) : Prop :=
  ∀ text ∈ language, ∃ c rest, text = c :: rest ∧ s c = true

/-- A text of the language, unless it is empty, starts with a character of the class. -/
def MayOpen (s : Char → Bool) (language : Language Char) : Prop :=
  ∀ c rest, c :: rest ∈ language → s c = true

theorem opens_oneOf (p : Char → Bool) : Opens p (oneOf p) := by
  rintro _ ⟨c, holds, rfl⟩
  exact ⟨c, [], rfl, holds⟩

theorem Opens.nil_notMem (opens : Opens s language) : [] ∉ language := by
  intro empty
  obtain ⟨c, rest, same, -⟩ := opens [] empty
  cases same

theorem Opens.mul (opens : Opens s language) : Opens s (language * other) := by
  intro text member
  obtain ⟨first, here, behind, -, rfl⟩ := Language.mem_mul.mp member
  obtain ⟨c, rest, rfl, holds⟩ := opens first here
  exact ⟨c, rest ++ behind, rfl, holds⟩

theorem Opens.add (left : Opens s language) (right : Opens t other) :
    Opens (fun c => s c || t c) (language + other) := by
  rintro text (member | member)
  · obtain ⟨c, rest, rfl, holds⟩ := left text member
    exact ⟨c, rest, rfl, by simp [holds]⟩
  · obtain ⟨c, rest, rfl, holds⟩ := right text member
    exact ⟨c, rest, rfl, by simp [holds]⟩

theorem Opens.mayOpen (opens : Opens s language) : MayOpen s language := by
  intro c rest member
  obtain ⟨_, _, same, holds⟩ := opens _ member
  cases same
  exact holds

theorem Opens.optionally (opens : Opens s language) : MayOpen s (optionally language) := by
  rintro c rest (empty | member)
  · cases (Language.mem_one _).mp empty
  · exact opens.mayOpen c rest member

theorem MayOpen.mul (left : MayOpen s language) (right : MayOpen t other) :
    MayOpen (fun c => s c || t c) (language * other) := by
  intro c rest member
  obtain ⟨first, here, behind, there, same⟩ := Language.mem_mul.mp member
  cases first with
  | nil =>
      obtain rfl : behind = c :: rest := same
      simp [right c rest there]
  | cons d first =>
      cases same
      simp [left c first here]

theorem Opens.optionally_mul (opens : Opens s language) (behind : Opens t other) :
    Opens (fun c => s c || t c) (Lexeme.optionally language * other) := by
  intro text member
  obtain ⟨first, here, rest, there, rfl⟩ := Language.mem_mul.mp member
  obtain ⟨d, more, rfl, holds⟩ := behind rest there
  cases first with
  | nil => exact ⟨d, more, rfl, by simp [holds]⟩
  | cons c first => exact ⟨c, first ++ d :: more, rfl, by simp [opens.optionally c first here]⟩

/-! ### Searches that take the longest prefix -/

/-- The search takes the longest prefix in the language. A shorter one in it is followed by a
character of the class `further`. -/
structure Munches (find : List Char → Option Nat) (language : Language Char)
    (further : Char → Bool) : Prop where
  sound : ∀ {text : List Char} {length : Nat}, find text = some length →
    ∃ part rest, text = part ++ rest ∧ part.length = length ∧ part ∈ language
  longest : ∀ {part : List Char} (rest : List Char), part ∈ language →
    ∃ length, find (part ++ rest) = some length ∧
      (part.length = length ∨ part.length < length ∧ ∃ c ∈ rest.head?, further c = true)

/-- Two searches, the second where the first ends. -/
def andThen (find next : List Char → Option Nat) (text : List Char) : Option Nat :=
  (find text).bind fun length => (next (text.drop length)).map (length + ·)

def orNothing (find : List Char → Option Nat) (text : List Char) : Option Nat :=
  some ((find text).getD 0)

def findOne (p : Char → Bool) : List Char → Option Nat
  | c :: _ => if p c then some 1 else none
  | [] => none

def findMany (p : Char → Bool) (text : List Char) : Option Nat :=
  some (runLength p text)

def findSome (p : Char → Bool) : List Char → Option Nat :=
  andThen (findOne p) (findMany p)

theorem munches_findOne (p : Char → Bool) : Munches (findOne p) (oneOf p) fun _ => false where
  sound {text length} found := by
    cases text with
    | nil => cases found
    | cons c rest =>
        simp only [findOne, Option.ite_none_right_eq_some, Option.some.injEq] at found
        obtain ⟨holds, rfl⟩ := found
        exact ⟨[c], rest, rfl, rfl, c, holds, rfl⟩
  longest {part} rest member := by
    obtain ⟨c, holds, rfl⟩ := member
    exact ⟨1, by simp [findOne, holds], .inl rfl⟩

theorem munches_findMany (p : Char → Bool) : Munches (findMany p) (manyOf p) p where
  sound {text length} found := by
    obtain ⟨run, divided, size, holds⟩ := exists_run p text
    cases found
    exact ⟨run, _, divided, size, mem_manyOf.mpr holds⟩
  longest {part} rest member := by
    refine ⟨_, rfl, ?_⟩
    rw [runLength, List.takeWhile_append_of_pos (mem_manyOf.mp member), List.length_append]
    cases rest with
    | nil => exact .inl rfl
    | cons c rest =>
        cases holds : p c with
        | false => exact .inl (by simp [holds])
        | true => exact .inr ⟨by simp [holds], c, rfl, holds⟩

section Combine

variable {find next : List Char → Option Nat}

/-- What comes behind does not start with a character that the part before it could go on with, so
nothing has to be given back. Only where the second part can be empty is the end of the first one
seen from outside. -/
theorem Munches.sequence (first : Munches find language p) (second : Munches next other q)
    (starts : MayOpen s other) (apart : ∀ c, s c = true → p c = false)
    (empty : [] ∈ other → ∀ c, p c = true → t c = true) (whole : ∀ c, q c = true → t c = true) :
    Munches (andThen find next) (language * other) t where
  sound {text length} found := by
    obtain ⟨size, here, more⟩ := Option.bind_eq_some_iff.mp found
    obtain ⟨size', there, rfl⟩ := Option.map_eq_some_iff.mp more
    obtain ⟨part, rest, rfl, rfl, known⟩ := first.sound here
    rw [List.drop_left] at there
    obtain ⟨behind, rest, rfl, rfl, known'⟩ := second.sound there
    exact ⟨part ++ behind, rest, (List.append_assoc ..).symm, List.length_append,
      Language.append_mem_mul known known'⟩
  longest {text} rest member := by
    obtain ⟨part, known, behind, known', rfl⟩ := Language.mem_mul.mp member
    obtain ⟨size, here, exact_ | ⟨shorter, c, head, goes⟩⟩ :=
      first.longest (behind ++ rest) known
    · subst exact_
      obtain ⟨size', there, more⟩ := second.longest rest known'
      refine ⟨part.length + size', ?_, ?_⟩
      · rw [andThen, List.append_assoc, here, Option.bind_some, List.drop_left, there]
        rfl
      · rw [List.length_append]
        refine more.imp (by omega) fun ⟨shorter, c, head, goes⟩ => ?_
        exact ⟨by omega, c, head, whole c goes⟩
    · cases behind with
      | cons d behind =>
          obtain rfl : d = c := Option.some.inj head
          rw [apart d (starts d behind known')] at goes
          cases goes
      | nil =>
          obtain ⟨size', there, -⟩ := second.longest ((part ++ rest).drop size) known'
          rw [List.nil_append] at here there
          refine ⟨size + size', ?_, .inr ⟨?_, c, head, empty known' c goes⟩⟩
          · rw [andThen, List.append_nil, here, Option.bind_some, there]
            rfl
          · rw [List.append_nil]
            omega

/-- Two parts, of which the second may be empty. -/
theorem Munches.andThen (first : Munches find language p) (second : Munches next other q)
    (starts : MayOpen s other) (apart : ∀ c, s c = true → p c = false) :
    Munches (andThen find next) (language * other) (fun c => p c || q c) :=
  first.sequence second starts apart (fun _ c goes => by simp [goes]) fun c goes => by simp [goes]

/-- Two parts, of which the second is never empty. -/
theorem Munches.closedBy (first : Munches find language p) (second : Munches next other q)
    (starts : Opens s other) (apart : ∀ c, s c = true → p c = false) :
    Munches (Lexeme.andThen find next) (language * other) q :=
  first.sequence second starts.mayOpen apart (fun empty => absurd empty starts.nil_notMem)
    fun _ => id

/-- A single character in front never has more of its class behind it. -/
theorem Munches.behindOne (munches : Munches next other q) (p : Char → Bool) :
    Munches (Lexeme.andThen (findOne p) next) (oneOf p * other) q :=
  (munches_findOne p).sequence munches (s := fun _ => true) (fun _ _ _ => rfl) (fun _ _ => rfl)
    (fun _ _ none_ => absurd none_ Bool.false_ne_true) fun _ => id

theorem Munches.orNothing (munches : Munches find language p) (opens : Opens s language) :
    Munches (orNothing find) (optionally language) (fun c => s c || p c) where
  sound {text length} found := by
    cases here : find text with
    | none =>
        rw [Lexeme.orNothing, here] at found
        cases found
        exact ⟨[], text, rfl, rfl, .inl rfl⟩
    | some size =>
        rw [Lexeme.orNothing, here] at found
        cases found
        obtain ⟨part, rest, divided, size, known⟩ := munches.sound here
        exact ⟨part, rest, divided, size, .inr known⟩
  longest {part} rest member := by
    refine ⟨_, rfl, ?_⟩
    rcases member with empty | known
    · obtain rfl := (Language.mem_one _).mp empty
      cases here : find ([] ++ rest) with
      | none => exact .inl rfl
      | some size =>
          obtain ⟨part, rest', divided, rfl, known⟩ := munches.sound here
          obtain ⟨c, more, rfl, holds⟩ := opens part known
          rw [List.nil_append] at divided
          exact .inr ⟨Nat.succ_pos _, c, by rw [divided]; rfl, by simp [holds]⟩
    · obtain ⟨size, here, more⟩ := munches.longest rest known
      rw [here]
      exact more.imp id fun ⟨shorter, c, head, goes⟩ => ⟨shorter, c, head, by simp [goes]⟩

/-- Of two searches the first that finds something, where the texts of the languages start apart. -/
theorem Munches.or (left : Munches find language p) (right : Munches next other q)
    (opens : Opens s language) (opens' : Opens t other) (apart : ∀ c, s c = true → t c = false) :
    Munches (fun text => (find text).or (next text)) (language + other)
      (fun c => p c || q c) where
  sound {text length} found := by
    rcases Option.or_eq_some_iff.mp found with here | ⟨-, there⟩
    · obtain ⟨part, rest, divided, size, known⟩ := left.sound here
      exact ⟨part, rest, divided, size, .inl known⟩
    · obtain ⟨part, rest, divided, size, known⟩ := right.sound there
      exact ⟨part, rest, divided, size, .inr known⟩
  longest {part} rest member := by
    rcases member with known | known
    · obtain ⟨size, here, more⟩ := left.longest rest known
      refine ⟨size, by simp [here], more.imp id fun ⟨shorter, c, head, goes⟩ => ?_⟩
      exact ⟨shorter, c, head, by simp [goes]⟩
    · obtain ⟨size, there, more⟩ := right.longest rest known
      have none_ : find (part ++ rest) = none := by
        cases here : find (part ++ rest) with
        | none => rfl
        | some size =>
            obtain ⟨part', rest', divided, -, known'⟩ := left.sound here
            obtain ⟨c, tail, rfl, holds⟩ := opens' part known
            obtain ⟨d, tail', rfl, holds'⟩ := opens part' known'
            obtain ⟨rfl, -⟩ := List.cons.inj divided
            rw [apart c holds'] at holds
            cases holds
      refine ⟨size, by simp [none_, there], more.imp id fun ⟨shorter, c, head, goes⟩ => ?_⟩
      exact ⟨shorter, c, head, by simp [goes]⟩

end Combine

@[simp] theorem andThen_findOne_cons (next : List Char → Option Nat) (c : Char)
    (rest : List Char) :
    andThen (findOne p) next (c :: rest) = if p c then (next rest).map (1 + ·) else none := by
  by_cases holds : p c <;> simp [andThen, findOne, holds]

@[simp] theorem andThen_findOne_nil (next : List Char → Option Nat) :
    andThen (findOne p) next [] = none := rfl

theorem findOne_eq_none {d : Char} (absent : ∀ rest, text = d :: rest → False) :
    findOne (· == d) text = none := by
  cases text with
  | nil => rfl
  | cons c rest =>
      have differs : c ≠ d := fun same => absent rest (by rw [same])
      simp [findOne, differs]

theorem findSome_eq (p : Char → Bool) (text : List Char) :
    findSome p text = if runLength p text = 0 then none else some (runLength p text) := by
  cases text with
  | nil => rfl
  | cons c rest =>
      by_cases holds : p c = true
      · simp [findSome, findMany, runLength, holds, Nat.add_comm]
      · simp [findSome, runLength, holds]

theorem munches_findSome (p : Char → Bool) : Munches (findSome p) (someOf p) p :=
  (munches_findMany p).behindOne p

/-! ### Parts of numbers -/

theorem basedPart_eq : basedPart = andThen (findOne (· == '#')) (andThen (findSome isHexChar)
    (andThen (orNothing (andThen (findOne (· == '.')) (findSome isHexChar)))
      (findOne (· == '#')))) := by
  funext text
  unfold basedPart
  split
  next rest =>
    rw [andThen_findOne_cons, if_pos (beq_self_eq_true _)]
    dsimp only
    rw [andThen, findSome_eq]
    split
    next none_ => rfl
    next some_ =>
      rw [Option.bind_some]
      split
      next tail closed =>
        simp [andThen, orNothing, closed, findOne]
        omega
      next tail pointed =>
        rw [pointed, andThen, orNothing, andThen_findOne_cons, if_pos (beq_self_eq_true _),
          findSome_eq]
        split
        next none_ => simp [findOne]
        next fractional =>
          split
          next tail closed =>
            simp [Nat.add_comm 1, closed, findOne]
            omega
          next other_ =>
            simp [Nat.add_comm 1, findOne_eq_none other_]
      next closes_ pointed_ =>
        have no_fraction : andThen (findOne (· == '.')) (findSome isHexChar)
            (rest.drop (runLength isHexChar rest)) = none := by
          rw [andThen, findOne_eq_none pointed_]
          rfl
        rw [andThen, orNothing, no_fraction]
        simp [findOne_eq_none closes_]
  next other_ =>
    cases text with
    | nil => rfl
    | cons c rest =>
        have differs : c ≠ '#' := fun same => other_ rest (by rw [same])
        simp [differs]

theorem fractionPart_eq : fractionPart = andThen (findOne (· == '.'))
    (andThen (findOne Char.isDigit) (findMany isDigitChar)) := by
  funext text
  unfold fractionPart
  split
  next first rest =>
    by_cases digit : first.isDigit = true
    · simp [digit, findMany]
      omega
    · simp [digit]
  next other_ =>
    cases text with
    | nil => rfl
    | cons c rest =>
        cases rest with
        | nil => simp
        | cons d rest =>
            have differs : c ≠ '.' := fun same => other_ d rest (by rw [same])
            simp [differs]

theorem exponentPart_eq : exponentPart = andThen (findOne fun c => c == 'e' || c == 'E')
    (andThen (orNothing (findOne fun c => c == '+' || c == '-')) (findSome Char.isDigit)) := by
  funext text
  cases text with
  | nil => rfl
  | cons mark rest =>
      unfold exponentPart
      rw [andThen_findOne_cons]
      simp only [Bool.or_eq_true, beq_iff_eq]
      split
      next letter =>
        simp only [andThen, orNothing, Option.bind_some, findSome_eq]
        split
        next tail => simp [findOne, apply_ite (Option.map _), ← Nat.add_assoc]
        next tail => simp [findOne, apply_ite (Option.map _), ← Nat.add_assoc]
        next plus dash =>
          have unsigned : findOne (fun c => c == '+' || c == '-') rest = none := by
            cases rest with
            | nil => rfl
            | cons c rest =>
                have plus_ : c ≠ '+' := fun same => plus rest (by rw [same])
                have dash_ : c ≠ '-' := fun same => dash rest (by rw [same])
                simp [findOne, plus_, dash_]
          simp [unsigned, apply_ite (Option.map _)]
      next => rfl

/-- A based part ends with its second number sign: none is the beginning of another. -/
theorem munches_basedPart : Munches basedPart basedText fun _ => false := by
  have sign : isHexChar '#' = false := by decide
  have point : isHexChar '.' = false := by decide
  have opens : Opens (· == '.') (oneOf (· == '.') * someOf isHexChar) := (opens_oneOf _).mul
  have fraction := ((munches_findSome isHexChar).behindOne (· == '.')).orNothing opens
  have closed := fraction.closedBy (munches_findOne (· == '#')) (opens_oneOf _)
    (by simp [sign])
  have digits := (munches_findSome isHexChar).closedBy closed
    (opens.optionally_mul (opens_oneOf (· == '#'))) (by simp [sign, point])
  rw [basedPart_eq]
  exact digits.behindOne (· == '#')

theorem munches_fractionPart : Munches fractionPart fractionText isDigitChar := by
  rw [fractionPart_eq]
  exact ((munches_findMany isDigitChar).behindOne Char.isDigit).behindOne (· == '.')

theorem munches_exponentPart : Munches exponentPart exponentText fun c =>
    c.isDigit := by
  have opens := opens_oneOf fun c => c == '+' || c == '-'
  have plus : Char.isDigit '+' = false := by decide
  have sign := (munches_findOne fun c => c == '+' || c == '-').orNothing opens
  have digits := sign.closedBy (munches_findSome Char.isDigit) (opens_oneOf Char.isDigit).mul
    fun c digit => ?_
  · rw [exponentPart_eq]
    exact digits.behindOne _
  · have digit_ : c.isDigit = true := digit
    have plus : c ≠ '+' := fun same => absurd (same ▸ digit_) (by decide)
    have dash : c ≠ '-' := fun same => absurd (same ▸ digit_) (by decide)
    simp [plus, dash]

/-! ### Quotation marks -/

theorem append_mem_quotedText {piece : List Char} (known : piece ∈ quotedOne)
    (member : text ∈ quotedText) : piece ++ text ∈ quotedText := by
  obtain ⟨inner, inside, closing, mark, rfl⟩ := Language.mem_mul.mp member
  have more : piece ++ inner ∈ quotedOne∗ := by
    rw [← Language.one_add_self_mul_kstar_eq_kstar]
    exact .inr (Language.append_mem_mul known inside)
  rw [← List.append_assoc]
  exact Language.append_mem_mul more mark

theorem mark_mem_quotedText : ['\x22'] ∈ quotedText :=
  Language.append_mem_mul (Language.nil_mem_kstar _) ⟨'\x22', rfl, rfl⟩

theorem pair_mem_quotedOne : ['\x22', '\x22'] ∈ quotedOne :=
  have mark : ['\x22'] ∈ oneOf (· == '\x22') := ⟨'\x22', rfl, rfl⟩
  .inr (Language.append_mem_mul mark mark)

theorem closingQuote_append_one {piece : List Char} {length : Nat} (known : piece ∈ quotedOne)
    (found : closingQuote text = some length) :
    closingQuote (piece ++ text) = some (piece.length + length) := by
  rcases known with ⟨c, plain, rfl⟩ | pair
  · obtain ⟨quote, line⟩ : c ≠ '\x22' ∧ c ≠ '\n' := by simpa using plain
    simp [closingQuote, quote, found, Nat.add_comm]
  · obtain ⟨_, ⟨first, isFirst, rfl⟩, _, ⟨second, isSecond, rfl⟩, rfl⟩ := Language.mem_mul.mp pair
    obtain rfl := beq_iff_eq.mp isFirst
    obtain rfl := beq_iff_eq.mp isSecond
    simp [closingQuote, found, Nat.add_comm]

theorem munches_closingQuote : Munches closingQuote quotedText (· == '\x22') where
  sound {text length} found := by
    fun_induction closingQuote text generalizing length with
    | case1 => cases found
    | case2 => cases found
    | case3 rest inner closed ih =>
        cases found
        obtain ⟨part, rest, rfl, rfl, known⟩ := ih closed
        exact ⟨'\x22' :: '\x22' :: part, rest, rfl, rfl,
          append_mem_quotedText pair_mem_quotedOne known⟩
    | case4 rest =>
        cases found
        exact ⟨['\x22'], '\x22' :: rest, rfl, rfl, mark_mem_quotedText⟩
    | case5 rest =>
        cases found
        exact ⟨['\x22'], rest, rfl, rfl, mark_mem_quotedText⟩
    | case6 c rest line _ quote ih =>
        obtain ⟨inner, closed, rfl⟩ := Option.map_eq_some_iff.mp found
        obtain ⟨part, rest, rfl, rfl, known⟩ := ih closed
        have plain : (c != '\x22' && c != '\n') = true := by
          simp [show c ≠ '\x22' from quote, show c ≠ '\n' from line]
        exact ⟨c :: part, rest, rfl, rfl, append_mem_quotedText (.inl ⟨c, plain, rfl⟩) known⟩
  longest {part} rest member := by
    obtain ⟨inner, inside, closing, ⟨mark, quote, rfl⟩, rfl⟩ := Language.mem_mul.mp member
    obtain rfl := beq_iff_eq.mp quote
    obtain ⟨pieces, rfl, each⟩ := Language.mem_kstar.mp inside
    clear member inside quote
    induction pieces with
    | nil =>
        cases rest with
        | nil => exact ⟨1, rfl, .inl rfl⟩
        | cons c rest =>
            by_cases again : c = '\x22'
            · subst again
              cases closed : closingQuote rest with
              | none => exact ⟨1, by simp [closingQuote, closed], .inl rfl⟩
              | some length =>
                  refine ⟨length + 2, by simp [closingQuote, closed], .inr ⟨?_, _, rfl, rfl⟩⟩
                  simp
            · exact ⟨1, by simp [closingQuote, again], .inl rfl⟩
    | cons piece pieces ih =>
        obtain ⟨length, found, more⟩ := ih fun piece known => each piece (.tail _ known)
        refine ⟨piece.length + length, ?_, more.imp ?_ ?_⟩
        · rw [List.flatten_cons, List.append_assoc, List.append_assoc, ← List.append_assoc _ _ rest]
          exact closingQuote_append_one (each piece List.mem_cons_self) found
        · simp only [List.flatten_cons, List.length_append]
          omega
        · rintro ⟨shorter, c, head, goes⟩
          simp only [List.flatten_cons, List.length_append] at shorter ⊢
          exact ⟨by omega, c, head, goes⟩

/-! ### Patterns -/

namespace Pattern

theorem find_word : find .word = andThen (findOne Char.isAlpha) (findMany isWordChar) := by
  funext text
  cases text with
  | nil => rfl
  | cons first rest => simp [find, match?, Lexeme.word, findMany, apply_ite (Option.map _)]

theorem find_blanks : find .blanks = findSome Text.isBlank := by
  funext text
  cases text with
  | nil => rfl
  | cons first rest =>
      simp [find, match?, Lexeme.blanks, findSome, findMany, apply_ite (Option.map _)]

theorem find_comment : find .comment =
    andThen (findOne (· == '-')) (andThen (findOne (· == '-')) (findMany (· != '\n'))) := by
  funext text
  cases text with
  | nil => rfl
  | cons first rest =>
      cases rest with
      | nil => simp [find, match?, Lexeme.comment]
      | cons second rest =>
          by_cases one_ : first = '-'
          · by_cases two : second = '-' <;> simp [find, match?, Lexeme.comment, findMany, one_, two]
          · simp [find, match?, Lexeme.comment, one_]

theorem find_number : find .number = andThen (findOne Char.isDigit) (andThen (findMany isDigitChar)
    (andThen (orNothing fun text => (basedPart text).or (fractionPart text))
      (orNothing exponentPart))) := by
  funext text
  cases text with
  | nil => rfl
  | cons first rest =>
      by_cases digit : first.isDigit = true
      · rw [andThen_findOne_cons, if_pos digit]
        simp [find, match?, Lexeme.number, digit, andThen, findMany, orNothing, Nat.add_assoc]
      · simp [find, match?, Lexeme.number, digit]

theorem find_string : find .string = andThen (findOne (· == '\x22')) closingQuote := by
  funext text
  cases text with
  | nil => rfl
  | cons first rest => simp [find, match?, Lexeme.string, apply_ite (Option.map _)]

theorem find_character : find .character = andThen (findOne (· == '\x27'))
    (andThen (findOne (· != '\n')) (findOne (· == '\x27'))) := by
  funext text
  cases text with
  | nil => rfl
  | cons first rest =>
      rcases rest with - | ⟨middle, - | ⟨last, rest⟩⟩
      · simp [find, match?, Lexeme.character]
      · simp [find, match?, Lexeme.character, findOne]
      · by_cases open_ : first = '\x27'
        · by_cases line : middle = '\n'
          · simp [find, match?, Lexeme.character, line]
          · by_cases close_ : last = '\x27' <;>
            simp [find, match?, Lexeme.character, findOne, open_, line, close_]
        · simp [find, match?, Lexeme.character, open_]

/-- What a number can be continued with, apart from an exponent. -/
theorem munches_part : Munches (fun text => (basedPart text).or (fractionPart text))
    (basedText + fractionText) isDigitChar := by
  have both := munches_basedPart.or munches_fractionPart (opens_oneOf (· == '#')).mul
    (opens_oneOf (· == '.')).mul (by simp)
  simpa using both

/-- Neither a based nor a fractional part starts like the digits before it, and an exponent starts
like neither of them: whatever the parts are, they are the longest ones. -/
theorem munches_number :
    ∃ further, Munches Pattern.number.find Pattern.number.language further := by
  have part : Opens (fun c => c == '#' || c == '.') (basedText + fractionText) :=
    (opens_oneOf (· == '#')).mul.add (opens_oneOf (· == '.')).mul
  have exponent : Opens (fun c => c == 'e' || c == 'E') exponentText := (opens_oneOf _).mul
  have behind := (munches_part.orNothing part).andThen (munches_exponentPart.orNothing exponent)
    exponent.optionally fun c letter => by
      rcases Bool.or_eq_true_iff.mp letter with mark | mark <;> rw [beq_iff_eq.mp mark] <;> decide
  have whole := (munches_findMany isDigitChar).andThen behind
    (part.optionally.mul exponent.optionally) fun c first => by
      simp only [Bool.or_eq_true, beq_iff_eq] at first
      rcases first with (rfl | rfl) | rfl | rfl <;> decide
  rw [find_number]
  exact ⟨_, whole.behindOne Char.isDigit⟩

theorem munches_delimiter {kind : Kind} (known : kind ∈ Kind.delimiters) :
    Munches (Pattern.delimiter kind).find (Pattern.delimiter kind).language fun _ => false where
  sound {text length} found := by
    cases text with
    | nil => cases found
    | cons first rest =>
        obtain ⟨size, matches_, rfl⟩ := Option.map_eq_some_iff.mp found
        have spelt : (Lexeme.delimiter kind first rest) = some size := matches_
        rw [delimiter_eq] at spelt
        obtain ⟨⟨⟨tail, divided⟩, some_⟩, size_⟩ := Option.ite_none_right_eq_some.mp spelt
        have size_ := Option.some.inj size_
        have positive := List.length_pos_of_ne_nil some_
        exact ⟨_, tail, divided.symm, by omega, rfl⟩
  longest {part} rest member := by
    obtain rfl : part = kind.spelling.toList := member
    have some_ : ∀ kind ∈ Kind.delimiters, kind.spelling.toList ≠ [] := by decide
    obtain ⟨first, more, spelt⟩ := List.exists_cons_of_ne_nil (some_ kind known)
    refine ⟨_, ?_, .inl rfl⟩
    rw [spelt, List.cons_append, find, match?, delimiter_eq, spelt]
    simp [Nat.add_comm]

/-- Every pattern takes the longest prefix in its language. -/
theorem munches : ∀ pattern ∈ ordered, ∃ further, Munches pattern.find pattern.language further
  | .blanks, _ => ⟨_, find_blanks ▸ munches_findSome Text.isBlank⟩
  | .comment, _ => ⟨_, find_comment ▸ ((munches_findMany _).behindOne _).behindOne _⟩
  | .word, _ => ⟨_, find_word ▸ (munches_findMany _).behindOne _⟩
  | .number, _ => munches_number
  | .string, _ => ⟨_, find_string ▸ munches_closingQuote.behindOne _⟩
  | .character, _ => ⟨_, find_character ▸ ((munches_findOne _).behindOne _).behindOne _⟩
  | .delimiter kind, known => ⟨_, munches_delimiter (by simpa [ordered] using known)⟩

end Pattern

end AdaExpressions.Lexeme
