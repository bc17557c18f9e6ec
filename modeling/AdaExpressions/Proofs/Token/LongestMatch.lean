import AdaExpressions.Proofs.Token.Lossless
import AdaExpressions.Proofs.Token.Munch

/-!
# The longest match

The scan takes the first pattern that matches. It is also the pattern with the longest match: of two
patterns that could both match somewhere, the one that is tried first has the longer texts. They are
few, since most patterns start with different characters: a comment and the minus sign, a character
literal and the tick, and a delimiter that goes on where a shorter one ends.

Results: `ordered_outlasts` (the order of the patterns), `longest_of_firstMatch` (the first match is
the longest one), `scan_takes_longest` (what every round of a scan takes).
-/

namespace AdaExpressions.Lexeme

variable {pattern other : Pattern} {text part rest : List Char}

/-! ### Which patterns can match at one place -/

namespace Pattern

/-- The characters with which a text of the pattern starts. -/
def starts : Pattern → Char → Bool
  | .blanks => Text.isBlank
  | .comment => (· == '-')
  | .word => Char.isAlpha
  | .number => Char.isDigit
  | .string => (· == '\x22')
  | .character => (· == '\x27')
  | .delimiter kind => fun c => kind.spelling.toList.head? == some c

theorem opens (known : pattern ∈ ordered) : Opens pattern.starts pattern.language := by
  cases pattern with
  | delimiter kind =>
      have some_ : ∀ kind ∈ Kind.delimiters, kind.spelling.toList ≠ [] := by decide
      have known' : kind ∈ Kind.delimiters := by simpa [ordered] using known
      obtain ⟨c, rest, spelt⟩ := List.exists_cons_of_ne_nil (some_ kind known')
      intro text member
      obtain rfl : text = kind.spelling.toList := member
      exact ⟨c, rest, spelt, by simp [starts, spelt]⟩
  | _ => exact (opens_oneOf _).mul

/-- Where both patterns match, the first one matches more. -/
def Outlasts (pattern other : Pattern) : Prop :=
  ∀ text, ∀ part ∈ pattern.language, ∀ shorter ∈ other.language,
    part <+: text → shorter <+: text → shorter.length < part.length

/-- Patterns that start apart never match at one place. -/
theorem outlasts_of_starts (known : pattern ∈ ordered) (known' : other ∈ ordered)
    (apart : ∀ c, pattern.starts c = true → other.starts c = false) : Outlasts pattern other := by
  intro text part member part' member' prefix_ prefix_'
  obtain ⟨c, more, rfl, start⟩ := opens known part member
  obtain ⟨d, more', rfl, start'⟩ := opens known' part' member'
  obtain ⟨tail, rfl⟩ := prefix_
  obtain ⟨rfl, -⟩ := List.cons_prefix_cons.mp prefix_'
  rw [apart d start] at start'
  cases start'

theorem comment_outlasts_dash : Outlasts .comment (.delimiter .dash) := by
  intro text part member shorter same prefix_ _
  obtain rfl : shorter = Kind.dash.spelling.toList := same
  obtain ⟨_, ⟨c, -, rfl⟩, _, ⟨_, ⟨d, -, rfl⟩, line, -, rfl⟩, rfl⟩ := member
  simp [Kind.spelling]

theorem character_outlasts_tick : Outlasts .character (.delimiter .tick) := by
  intro text part member shorter same prefix_ _
  obtain rfl : shorter = Kind.tick.spelling.toList := same
  obtain ⟨_, ⟨c, -, rfl⟩, _, ⟨_, ⟨d, -, rfl⟩, _, ⟨e, -, rfl⟩, rfl⟩, rfl⟩ := member
  simp [Kind.spelling]

theorem delimiter_outlasts {kind kind' : Kind} (known : kind' ∈ Kind.delimiters)
    (earlier : kind ∈ Kind.delimiters.takeWhile (· != kind')) :
    Outlasts (.delimiter kind) (.delimiter kind') := by
  intro text part same shorter same' prefix_ prefix_'
  obtain rfl : part = kind.spelling.toList := same
  obtain rfl : shorter = kind'.spelling.toList := same'
  obtain ⟨apart, -⟩ := delimiters_ordered kind' known kind earlier
  by_contra long
  exact apart (List.prefix_of_prefix_length_le prefix_ prefix_' (by omega))

/-- The patterns that are not delimiters. -/
def classes : List Pattern :=
  [.blanks, .comment, .word, .number, .string, .character]

/-- The pattern, apart from delimiters, that a character starts. -/
def opened (c : Char) : Option Pattern :=
  if Text.isBlank c then some .blanks
  else if c = '-' then some .comment
  else if c.isAlpha then some .word
  else if c.isDigit then some .number
  else if c = '\x22' then some .string
  else if c = '\x27' then some .character
  else none

theorem opened_of_starts {c : Char} (known : pattern ∈ classes) (start : pattern.starts c = true) :
    opened c = some pattern := by
  cases pattern with
  | blanks =>
      have blank : Text.isBlank c = true := start
      simp [opened, blank]
  | comment => exact beq_iff_eq.mp start ▸ by decide
  | word =>
      have alpha : c.isAlpha = true := start
      have dash : c ≠ '-' := fun same => absurd (same ▸ alpha) (by decide)
      simp [opened, isBlank_of_isAlpha alpha, dash, alpha]
  | number =>
      have digit : c.isDigit = true := start
      have dash : c ≠ '-' := fun same => absurd (same ▸ digit) (by decide)
      simp [opened, isBlank_of_isDigit digit, dash, isAlpha_of_isDigit digit, digit]
  | string => exact beq_iff_eq.mp start ▸ by decide
  | character => exact beq_iff_eq.mp start ▸ by decide
  | delimiter kind => simp [classes] at known

/-- A hyphen and an apostrophe start more than delimiters. -/
theorem opened_of_delimiter {kind : Kind} {c : Char} (known : kind ∈ Kind.delimiters)
    (start : (Pattern.delimiter kind).starts c = true) :
    opened c = none ∨ opened c = some .comment ∧ kind = .dash ∨
      opened c = some .character ∧ kind = .tick := by
  have heads : ∀ kind ∈ Kind.delimiters, kind.spelling.toList.head?.all (fun c =>
      decide (opened c = none ∨ opened c = some .comment ∧ kind = .dash ∨
        opened c = some .character ∧ kind = .tick)) = true := by decide +kernel
  have head := heads kind known
  rw [beq_iff_eq.mp start] at head
  exact of_decide_eq_true head

theorem classes_outlast : classes.Pairwise Outlasts := by
  have distinct : classes.Pairwise fun pattern other =>
      (pattern ∈ classes ∧ other ∈ classes) ∧ pattern ≠ other := by decide
  have within {pattern : Pattern} (known : pattern ∈ classes) : pattern ∈ ordered :=
    List.mem_append_left _ known
  refine distinct.imp fun ⟨⟨known, known'⟩, differ⟩ => ?_
  refine outlasts_of_starts (within known) (within known') fun c start => ?_
  refine Bool.eq_false_iff.mpr fun start' => differ (Option.some.inj ?_)
  exact (opened_of_starts known start).symm.trans (opened_of_starts known' start')

theorem outlasts_delimiter {kind : Kind} (known : pattern ∈ classes)
    (known' : kind ∈ Kind.delimiters) : Outlasts pattern (.delimiter kind) := by
  by_cases dash : pattern = .comment ∧ kind = .dash
  · obtain ⟨rfl, rfl⟩ := dash
    exact comment_outlasts_dash
  by_cases tick : pattern = .character ∧ kind = .tick
  · obtain ⟨rfl, rfl⟩ := tick
    exact character_outlasts_tick
  have later : Pattern.delimiter kind ∈ ordered := by simpa [ordered] using known'
  refine outlasts_of_starts (List.mem_append_left _ known) later fun c start => ?_
  refine Bool.eq_false_iff.mpr fun start' => ?_
  have opened_ := opened_of_starts known start
  rcases opened_of_delimiter known' start' with none_ | ⟨comment_, same⟩ | ⟨character_, same⟩
  · cases none_.symm.trans opened_
  · exact dash ⟨(Option.some.inj (comment_.symm.trans opened_)).symm, same⟩
  · exact tick ⟨(Option.some.inj (character_.symm.trans opened_)).symm, same⟩

theorem delimiters_outlast : Kind.delimiters.Pairwise fun kind kind' =>
    Outlasts (.delimiter kind) (.delimiter kind') := by
  have apart : Kind.delimiters.Pairwise fun kind kind' =>
      kind ∈ Kind.delimiters.takeWhile (· != kind') ∧ kind' ∈ Kind.delimiters := by decide
  exact apart.imp fun ⟨earlier, known⟩ => delimiter_outlasts known earlier

/-- Of two patterns the one that is tried first has the longer match. -/
theorem ordered_outlasts : ordered.Pairwise Outlasts := by
  refine List.pairwise_append.mpr
    ⟨classes_outlast, List.pairwise_map.mpr delimiters_outlast, fun pattern known later among => ?_⟩
  obtain ⟨kind, known', rfl⟩ := List.mem_map.mp among
  exact outlasts_delimiter known known'

end Pattern

/-! ### The longest prefix of any pattern -/

/-- The text is in the language of the pattern and in that of no other one, and no longer prefix of
`rest` is in the language of any pattern. -/
structure Longest (pattern : Pattern) (text rest : List Char) : Prop where
  known : pattern ∈ Pattern.ordered
  isText : text ∈ pattern.language
  only : ∀ other ∈ Pattern.ordered, text ∈ other.language → other = pattern
  isPrefix : text <+: rest
  longest : ∀ other ∈ Pattern.ordered, ∀ part ∈ other.language, part <+: rest →
    part.length ≤ text.length

theorem Longest.unique {text' : List Char} (longest : Longest pattern text rest)
    (longest' : Longest other text' rest) : pattern = other ∧ text = text' := by
  have length : text.length = text'.length :=
    Nat.le_antisymm (longest'.longest _ longest.known _ longest.isText longest.isPrefix)
      (longest.longest _ longest'.known _ longest'.isText longest'.isPrefix)
  obtain rfl : text = text' :=
    (List.prefix_of_prefix_length_le longest.isPrefix longest'.isPrefix length.le).eq_of_length
      length
  exact ⟨longest'.only _ longest.known longest.isText, rfl⟩

theorem longest_of_firstMatch {first : Char} {length : Nat}
    (found : firstMatch first rest = some (pattern, length)) :
    Longest pattern (first :: rest.take length) (first :: rest) := by
  obtain ⟨before, pattern, after, divided, here, earlier⟩ := List.findSome?_eq_some_iff.mp found
  obtain ⟨length, matches_, same⟩ := Option.map_eq_some_iff.mp here
  cases same
  have outlasts := Pattern.ordered_outlasts
  have known : pattern ∈ Pattern.ordered := by simp [divided]
  obtain ⟨further, munches⟩ := Pattern.munches pattern known
  have taken : pattern.find (first :: rest) = some (1 + length) := by
    rw [Pattern.find, matches_]
    rfl
  obtain ⟨part, behind, whole, size, isText⟩ := munches.sound taken
  obtain rfl : part = first :: rest.take length := by
    have prefix_ := List.prefix_iff_eq_take.mp ⟨behind, whole.symm⟩
    rw [prefix_, size, Nat.add_comm, List.take_succ_cons]
  have isPrefix : first :: rest.take length <+: first :: rest := ⟨behind, whole.symm⟩
  -- an earlier pattern finds nothing, and a later one that matches takes less
  have shorter : ∀ other ∈ Pattern.ordered, ∀ part ∈ other.language, part <+: first :: rest →
      other ≠ pattern → part.length < (first :: rest.take length).length := by
    intro other known' part member prefix_ differs
    rw [divided] at known' outlasts
    rcases List.mem_append.mp known' with early | late
    · obtain ⟨_, munches'⟩ := Pattern.munches other (by simp [divided, early])
      obtain ⟨tail, parts⟩ := prefix_
      obtain ⟨length', found', -⟩ := munches'.longest tail member
      rw [parts, Pattern.find] at found'
      obtain ⟨size', found', -⟩ := Option.map_eq_some_iff.mp found'
      have none_ := earlier other early
      rw [found'] at none_
      cases none_
    · have late := (List.mem_cons.mp late).resolve_left differs
      have pairs := (List.pairwise_cons.mp (List.pairwise_append.mp outlasts).2.1).1
      exact pairs other late _ _ isText _ member isPrefix prefix_
  refine ⟨known, isText, fun other known' member => ?_, isPrefix,
    fun other known' part member prefix_ => ?_⟩
  · by_contra differs
    exact absurd (shorter other known' _ member isPrefix differs) (Nat.lt_irrefl _)
  · by_cases same : other = pattern
    · subst same
      obtain ⟨tail, parts⟩ := prefix_
      obtain ⟨length', found', more⟩ := munches.longest tail member
      rw [parts, taken] at found'
      have := Option.some.inj found'
      omega
    · exact (shorter other known' part member prefix_ same).le

theorem exists_firstMatch {first : Char} (longest : Longest pattern text (first :: rest)) :
    ∃ length, firstMatch first rest = some (pattern, length) ∧
      text = first :: rest.take length := by
  cases found : firstMatch first rest with
  | none =>
      have none_ := List.findSome?_eq_none_iff.mp found pattern longest.known
      obtain ⟨_, munches⟩ := Pattern.munches pattern longest.known
      obtain ⟨tail, parts⟩ := longest.isPrefix
      obtain ⟨length, taken, -⟩ := munches.longest tail longest.isText
      rw [parts, Pattern.find, Option.map_eq_none_iff.mp none_] at taken
      cases taken
  | some match_ =>
      obtain ⟨same, same'⟩ := longest.unique (longest_of_firstMatch found)
      exact ⟨match_.2, by rw [same], same'⟩

/-! ### The lexeme of the longest match -/

/-- The lexeme that the longest match gives behind a token of kind `last`. Only of a character
literal less is taken, its first apostrophe, and only behind a name, a closing parenthesis or
`all`. -/
inductive Taken (last : Option Kind) : Pattern → List Char → Lexeme → Prop
  | blanks {text : List Char} : Taken last .blanks text ⟨none, text⟩
  | comment {text : List Char} : Taken last .comment text ⟨none, text⟩
  | reserved {text : List Char} {kind : Kind} :
      kind ∈ Kind.reservedWords → kind.spelling.toList = text.map Char.toLower →
      Taken last .word text ⟨some kind, text⟩
  | identifier {text : List Char} :
      (∀ kind ∈ Kind.reservedWords, kind.spelling.toList ≠ text.map Char.toLower) →
      Taken last .word text ⟨some .identifier, text⟩
  | number {text : List Char} : Taken last .number text ⟨some .number, text⟩
  | string {text : List Char} : Taken last .string text ⟨some .string, text⟩
  | character {text : List Char} :
      last ≠ some .identifier → last ≠ some .closeParen → last ≠ some .kwAll →
      Taken last .character text ⟨some .char, text⟩
  | tick {text : List Char} :
      last = some .identifier ∨ last = some .closeParen ∨ last = some .kwAll →
      Taken last .character text ⟨some .tick, ['\x27']⟩
  | delimiter {kind : Kind} {text : List Char} : Taken last (.delimiter kind) text ⟨some kind, text⟩

theorem ticksAfter_iff {last : Option Kind} : ticksAfter last = true ↔
    last = some .identifier ∨ last = some .closeParen ∨ last = some .kwAll := by
  cases last with
  | none => simp [ticksAfter]
  | some kind => simp [ticksAfter, Kind.precedesTick, or_assoc]

/-- A reserved word has one spelling. -/
theorem ofWord_eq {text : List Char} {kind : Kind} (known : kind ∈ Kind.reservedWords)
    (spelt : kind.spelling.toList = text.map Char.toLower) : Kind.ofWord text = kind := by
  have apart : ∀ kind ∈ Kind.reservedWords, ∀ other ∈ Kind.reservedWords,
      kind.spelling.toList = other.spelling.toList → kind = other := by decide +kernel
  unfold Kind.ofWord
  cases found : Kind.reservedWords.find? _ with
  | none =>
      have none_ := List.find?_eq_none.mp found kind known
      simp [spelt] at none_
  | some other =>
      have spelt' := List.find?_some found
      have known' := List.mem_of_find?_eq_some found
      exact apart other known' kind known ((beq_iff_eq.mp spelt').trans spelt.symm)

theorem ofWord_eq_identifier {text : List Char}
    (none_ : ∀ kind ∈ Kind.reservedWords, kind.spelling.toList ≠ text.map Char.toLower) :
    Kind.ofWord text = .identifier := by
  rw [Kind.ofWord, List.find?_eq_none.mpr fun kind known => by simpa using none_ kind known]
  rfl

/-- A word makes the token of the reserved word that it spells, if it spells one. -/
theorem taken_word (last : Option Kind) (text : List Char) :
    Taken last .word text ⟨some (.ofWord text), text⟩ := by
  by_cases spells : ∃ kind ∈ Kind.reservedWords, kind.spelling.toList = text.map Char.toLower
  · obtain ⟨kind, known, spelt⟩ := spells
    rw [ofWord_eq known spelt]
    exact .reserved known spelt
  · have none_ : ∀ kind ∈ Kind.reservedWords, kind.spelling.toList ≠ text.map Char.toLower :=
      fun kind known spelt => spells ⟨kind, known, spelt⟩
    rw [ofWord_eq_identifier none_]
    exact .identifier none_

/-- The lexeme at the start of a text is that of the longest match. -/
theorem next?_iff {last : Option Kind} {first : Char} {lexeme : Lexeme} :
    next? last first rest = some lexeme ↔
      ∃ pattern text, Longest pattern text (first :: rest) ∧ Taken last pattern text lexeme := by
  constructor
  · intro found
    unfold next? at found
    split at found
    next => cases found
    next length matched =>
      have longest := longest_of_firstMatch matched
      have apostrophe : first = '\x27' := by
        obtain ⟨c, _, same, start⟩ := Pattern.opens longest.known _ longest.isText
        rw [(List.cons.inj same).1]
        exact beq_iff_eq.mp start
      split at found
      next ticks =>
        cases found
        exact ⟨_, _, longest, apostrophe ▸ .tick (ticksAfter_iff.mp ticks)⟩
      next literal =>
        cases found
        have none_ := mt ticksAfter_iff.mpr literal
        simp only [not_or] at none_
        exact ⟨_, _, longest, .character none_.1 none_.2.1 none_.2.2⟩
    next pattern length other matched =>
      have longest := longest_of_firstMatch matched
      cases found
      refine ⟨_, _, longest, ?_⟩
      cases pattern with
      | blanks => exact .blanks
      | comment => exact .comment
      | word => exact taken_word last _
      | number => exact .number
      | string => exact .string
      | character => exact absurd rfl other
      | delimiter => exact .delimiter
  · rintro ⟨pattern, text, longest, taken⟩
    obtain ⟨length, matched, rfl⟩ := exists_firstMatch longest
    rw [next?, matched]
    cases taken with
    | reserved known spelt => simp [Pattern.kind, ofWord_eq known spelt]
    | identifier none_ => simp [Pattern.kind, ofWord_eq_identifier none_]
    | character name closing all =>
        have literal : ¬ ticksAfter last = true := by
          rw [ticksAfter_iff]
          simp [name, closing, all]
        simp [literal]
    | tick after =>
        obtain ⟨c, _, same, start⟩ := Pattern.opens longest.known _ longest.isText
        rw [← beq_iff_eq.mp start, (List.cons.inj same).1]
        exact if_pos (ticksAfter_iff.mpr after)
    | _ => rfl

end AdaExpressions.Lexeme

namespace AdaExpressions

open Lexeme (Longest Taken)

/-! ### The rounds of a scan -/

/-- Behind a name, a closing parenthesis or `all` there is no character literal. -/
def TicksOnly (earlier later : Token) : Prop :=
  later.kind = .char →
    earlier.kind ≠ .identifier ∧ earlier.kind ≠ .closeParen ∧ earlier.kind ≠ .kwAll

namespace Scanner

variable {scanner next : Scanner} {rest : List Char}

theorem step_iff (here : scanner.remainder? = some rest) : scanner.Step next ↔
    ∃ pattern text lexeme, Longest pattern text rest ∧
      Taken scanner.lastKind? pattern text lexeme ∧ next = scanner.collect lexeme := by
  constructor
  · rintro ⟨here', found⟩
    obtain rfl := Option.some.inj (here.symm.trans here')
    obtain ⟨pattern, text, longest, taken⟩ := Lexeme.next?_iff.mp found
    exact ⟨pattern, text, _, longest, taken, rfl⟩
  · rintro ⟨pattern, text, lexeme, longest, taken, rfl⟩
    obtain ⟨first, more, rfl, -⟩ := Lexeme.Pattern.opens longest.known text longest.isText
    obtain ⟨tail, rfl⟩ := longest.isPrefix
    exact .collect here (Lexeme.next?_iff.mpr ⟨pattern, _, longest, taken⟩)

/-- A round adds a token that may stand behind the last one. The latest token comes first. -/
theorem Step.ticksOnly (step : scanner.Step next)
    (chain : scanner.tokens.IsChain fun later earlier => TicksOnly earlier later) :
    next.tokens.IsChain fun later earlier => TicksOnly earlier later := by
  obtain ⟨here, found⟩ := step
  obtain ⟨pattern, text, longest, taken⟩ := Lexeme.next?_iff.mp found
  unfold Scanner.collect
  split
  next layout => exact chain
  next kind token =>
    refine chain.cons fun earlier last literal => ?_
    have lastKind : scanner.lastKind? = some earlier.kind := by rw [lastKind?, last]; rfl
    rw [lastKind] at taken
    obtain rfl : kind = .char := literal
    cases taken with
    | character name closing all =>
        exact ⟨by simpa using name, by simpa using closing, by simpa using all⟩
    | reserved known => cases token; exact absurd known (by decide)
    | delimiter => cases token; exact absurd longest.known (by decide)
    | _ => cases token

theorem ticksOnly_of_reached {source file : String}
    (reached : Relation.ReflTransGen Step (.ofSource source file) scanner) :
    scanner.tokens.IsChain fun later earlier => TicksOnly earlier later := by
  induction reached with
  | refl => exact .nil
  | tail _ step ih => exact step.ticksOnly ih

/-- The scan of a source comes to its end, with the answer of the tokenizer. -/
theorem exists_scan_tokenize (source file : String) :
    ∃ final, Relation.ReflTransGen Step (.ofSource source file) final ∧
      (∀ next, ¬ final.Step next) ∧ final.answer? = some (tokenize source file) := by
  have start : (ofSource source file).Stands [] source.toList := ⟨rfl, rfl⟩
  have first : (ofSource source file).lastKind? = none := rfl
  obtain ⟨final, reached, stops, answer⟩ := exists_scan start first
  exact ⟨final, reached, stops, by rw [answer, answerAfter_ofSource]⟩

end Scanner

theorem ticksOnly_of_tokenize {source file : String} {tokens : List Token}
    (tokenized : tokenize source file = .ok tokens) : tokens.IsChain TicksOnly := by
  obtain ⟨final, reached, -, answer⟩ := Scanner.exists_scan_tokenize source file
  rw [tokenized] at answer
  obtain ⟨rest, -, answered⟩ := Option.map_eq_some_iff.mp answer
  cases rest with
  | cons => cases answered
  | nil =>
      obtain rfl := Except.ok.inj answered
      refine List.isChain_append.mpr
        ⟨List.isChain_reverse.mpr (Scanner.ticksOnly_of_reached reached), .singleton _, ?_⟩
      intro earlier _ closing head literal
      obtain rfl := Option.some.inj head
      cases literal

/-- Wherever a round of the scan starts, it takes the longest prefix of the rest of the source that
is in the language of a pattern, with the kind of that pattern, except that of a character literal
only the first apostrophe is taken behind a name, a closing parenthesis or `all`; and the scan goes
on as long as there is such a prefix. It ends with the answer of the tokenizer, in whose tokens no
character literal stands right behind one of those three. -/
theorem scan_takes_longest (source file : String) :
    (∀ scanner rest, Relation.ReflTransGen Scanner.Step (.ofSource source file) scanner →
      scanner.remainder? = some rest → ∀ next, scanner.Step next ↔
        ∃ pattern text lexeme, Longest pattern text rest ∧
          Taken scanner.lastKind? pattern text lexeme ∧ next = scanner.collect lexeme) ∧
    (∃ final, Relation.ReflTransGen Scanner.Step (.ofSource source file) final ∧
      (∀ next, ¬ final.Step next) ∧ final.answer? = some (tokenize source file)) ∧
    (∀ scanner, Relation.ReflTransGen Scanner.Step (.ofSource source file) scanner →
      scanner.tokens.reverse.IsChain TicksOnly) ∧
    ∀ tokens, tokenize source file = .ok tokens → tokens.IsChain TicksOnly := by
  refine ⟨fun scanner rest _ here next => Scanner.step_iff here,
    Scanner.exists_scan_tokenize source file, ?_, ?_⟩
  · exact fun scanner reached => List.isChain_reverse.mpr (Scanner.ticksOnly_of_reached reached)
  · exact fun tokens tokenized => ticksOnly_of_tokenize tokenized

/-- Behind a name an apostrophe is a tick, although a character literal could start there. -/
theorem scan_takes_longest_tick :
    (∀ next, (Scanner.ofSource "X'('a')" "shell").Step next ↔
      ∃ pattern text lexeme, Longest pattern text "X'('a')".toList ∧
        Taken none pattern text lexeme ∧
        next = (Scanner.ofSource "X'('a')" "shell").collect lexeme) ∧
    tokenize "X'('a')" "shell" = .ok
      [⟨.identifier, "X", .ofBytes 0 1 "shell"⟩, ⟨.tick, "'", .ofBytes 1 1 "shell"⟩,
        ⟨.openParen, "(", .ofBytes 2 1 "shell"⟩, ⟨.char, "'a'", .ofBytes 3 3 "shell"⟩,
        ⟨.closeParen, ")", .ofBytes 6 1 "shell"⟩, .eof (.ofBytes 7 "shell")] ∧
    List.IsChain TicksOnly
      [⟨.identifier, "X", .ofBytes 0 1 "shell"⟩, ⟨.tick, "'", .ofBytes 1 1 "shell"⟩,
        ⟨.openParen, "(", .ofBytes 2 1 "shell"⟩, ⟨.char, "'a'", .ofBytes 3 3 "shell"⟩,
        ⟨.closeParen, ")", .ofBytes 6 1 "shell"⟩, .eof (.ofBytes 7 "shell")] := by
  obtain ⟨rounds, -, -, ticks⟩ := scan_takes_longest "X'('a')" "shell"
  have tokenized : tokenize "X'('a')" "shell" = .ok
      [⟨.identifier, "X", .ofBytes 0 1 "shell"⟩, ⟨.tick, "'", .ofBytes 1 1 "shell"⟩,
        ⟨.openParen, "(", .ofBytes 2 1 "shell"⟩, ⟨.char, "'a'", .ofBytes 3 3 "shell"⟩,
        ⟨.closeParen, ")", .ofBytes 6 1 "shell"⟩, .eof (.ofBytes 7 "shell")] := by decide +kernel
  exact ⟨rounds _ _ .refl rfl, tokenized, ticks _ tokenized⟩

end AdaExpressions
