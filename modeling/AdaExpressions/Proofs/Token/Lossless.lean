import Mathlib.Algebra.Group.Nat.Defs
import Mathlib.Data.List.Chain
import Mathlib.Logic.Relation
import AdaExpressions.Proofs.Token.TokenText
import AdaExpressions.Token.Scanner

/-!
# Nothing of a source is lost

`Placed` says how tokens stand in a text: each right behind some layout, the closing one at the end.
The lexemes that a text is divided into place their tokens so. While offsets fit their 32 bits, the
spans of placed tokens can be read back as parts of the source, which is what `Lossless` says.

`Scanner.Step` is one round of the scan over the bytes of a source: the lexeme where the scanner
stands is collected and the scanner moves behind it. It always stands between two characters.

Results: `placed_of_divide` (the tokens of lexemes are placed), `Placed.lossless` (placed tokens
give the source back), `Scanner.exists_scan` (the scan ends, and with the answer of the division),
`tokenize_lossless`.
-/

namespace AdaExpressions

open Lexeme (next? divide runLength Ends TokenText)

/-! ### Layout -/

/-- A run of blanks, or a comment up to the end of its line, in front of `rest`. -/
inductive IsLayout (rest : List Char) : List Char → Prop
  | blanks {run : List Char} :
      run ≠ [] → (∀ c ∈ run, Text.isBlank c = true) → IsLayout rest run
  | comment {line : List Char} :
      '\n' ∉ line → (∀ c ∈ rest.head?, c = '\n') → IsLayout rest ('-' :: '-' :: line)

/-- Runs of blanks and comments, one after another, in front of `rest`. -/
inductive Layout (rest : List Char) : List Char → Prop
  | nil : Layout rest []
  | cons {part more : List Char} :
      IsLayout (more ++ rest) part → Layout rest more → Layout rest (part ++ more)

namespace Lexeme

theorem take_runLength (p : Char → Bool) (text : List Char) :
    text.take (runLength p text) = text.takeWhile p :=
  (List.prefix_iff_eq_take.mp (List.takeWhile_prefix p)).symm

/-- What is left behind a longest run does not go on with it. -/
theorem ends_drop_runLength (p : Char → Bool) (text : List Char) :
    Ends p (text.drop (runLength p text)) := by
  have left : text.drop (runLength p text) = text.dropWhile p := by
    have same := (List.take_append_drop (runLength p text) text).trans
      (List.takeWhile_append_dropWhile (p := p)).symm
    rw [take_runLength] at same
    exact List.append_cancel_left same
  rw [left]
  intro c first
  have here := List.head?_dropWhile_not p text
  rw [Option.mem_def.mp first] at here
  simpa using here

/-- A lexeme without a kind is layout in front of what follows it. -/
theorem isLayout_of_next? {last : Option Kind} {first : Char} {rest more : List Char}
    {lexeme : Lexeme} (found : next? last first rest = some lexeme) (layout : lexeme.kind = none)
    (divided : first :: rest = lexeme.text ++ more) : IsLayout more lexeme.text := by
  unfold next? at found
  split at found
  next => cases found
  next =>
    split at found
    · cases found
      cases layout
    · cases found
      cases layout
  next pattern length _ matched =>
    obtain ⟨pattern, _, matches_⟩ := List.exists_of_findSome?_eq_some matched
    obtain ⟨_, matches_, same⟩ := Option.map_eq_some_iff.mp matches_
    cases same
    cases found
    cases pattern with
    | blanks =>
        have blanks_ : blanks first rest = some length := matches_
        unfold blanks at blanks_
        split at blanks_
        next blank =>
          cases blanks_
          dsimp only
          rw [take_runLength]
          refine .blanks (List.cons_ne_nil first _) (List.forall_mem_cons.mpr ⟨blank, ?_⟩)
          exact fun c => List.all_eq_true.mp List.all_takeWhile c
        next => cases blanks_
    | comment =>
        have comment_ : comment first rest = some length := matches_
        cases rest with
        | nil => cases comment_
        | cons second line =>
            rw [comment] at comment_
            split at comment_
            next hyphens =>
              obtain ⟨rfl, rfl⟩ := hyphens
              cases comment_
              have taken : ('-' :: line).take (1 + runLength (· != '\n') line)
                  = '-' :: line.takeWhile (· != '\n') := by
                rw [Nat.add_comm, List.take_succ_cons, take_runLength]
              dsimp only at divided ⊢
              rw [taken] at divided ⊢
              refine .comment (fun newline => ?_) fun c head => ?_
              · have other := List.all_eq_true.mp List.all_takeWhile '\n' newline
                simp at other
              · have behind : line.drop (runLength (· != '\n') line) = more := by
                  have same : line = line.takeWhile (· != '\n') ++ more := by simpa using divided
                  have parts := List.take_append_drop (runLength (· != '\n') line) line
                  rw [take_runLength] at parts
                  exact List.append_cancel_left (parts.trans same)
                have ends := ends_drop_runLength (· != '\n') line c (behind ▸ head)
                simpa using ends
            next => cases comment_
    | _ => cases layout

/-- The lexeme at the start of a text, and behind it what the division goes on with. -/
theorem text_append_drop {last : Option Kind} {first : Char} {rest : List Char} {lexeme : Lexeme}
    (found : next? last first rest = some lexeme) :
    lexeme.text ++ rest.drop (lexeme.text.length - 1) = first :: rest := by
  obtain ⟨length, taken⟩ := next?_eq_some found
  rw [taken, List.length_cons, Nat.add_sub_cancel, List.cons_append, List.length_take]
  rcases Nat.le_total length rest.length with fits | wide
  · rw [Nat.min_eq_left fits, List.take_append_drop]
  · rw [Nat.min_eq_right wide, List.take_of_length_le wide, List.drop_length, List.append_nil]

theorem TokenText.kind_ne_eof {kind : Kind} {text : List Char} (text_ : TokenText kind text) :
    kind ≠ .eof := by
  cases text_ with
  | word =>
      rcases ofWord_isWord _ with word | word
      · rw [word]
        decide
      · intro closing
        rw [closing] at word
        exact absurd word (by decide)
  | delimiter known =>
      rintro rfl
      exact absurd known (by decide)
  | _ => decide

end Lexeme

/-! ### Tokens in their places -/

/-- The tokens, of which the last closes the input, stand one after another in a text that starts at
byte `offset` of a file, with nothing but layout around them. -/
inductive Placed (file : String) : Nat → List Char → List Token → Prop
  | closing {offset : Nat} {gap : List Char} :
      Layout [] gap → Placed file offset gap [.eof (.ofBytes (offset + byteLength gap) file)]
  | token {offset : Nat} {gap text rest : List Char} {kind : Kind} {more : List Token} :
      Layout (text ++ rest) gap → text ≠ [] → kind ≠ .eof →
      Placed file (offset + byteLength gap + byteLength text) rest more →
      Placed file offset (gap ++ (text ++ rest))
        (⟨kind, String.ofList text, .ofBytes (offset + byteLength gap) (byteLength text) file⟩ ::
          more)

namespace Placed

variable {file : String} {offset : Nat} {text rest : List Char} {tokens : List Token}

theorem ne_nil (placed : Placed file offset text tokens) : tokens ≠ [] := by
  cases placed <;> exact List.cons_ne_nil _ _

/-- Layout in front of placed tokens belongs to the gap before the first of them. -/
theorem layout (layout : IsLayout rest text)
    (placed : Placed file (offset + byteLength text) rest tokens) :
    Placed file offset (text ++ rest) tokens := by
  cases placed with
  | @closing _ gap inner =>
      have whole : Layout [] (text ++ rest) := .cons (by rwa [List.append_nil]) inner
      rw [Nat.add_assoc, ← byteLength_append]
      exact .closing whole
  | @token _ gap word rest kind more inner some_ open_ behind =>
      have whole : Layout (word ++ rest) (text ++ gap) := .cons layout inner
      rw [Nat.add_assoc offset, ← byteLength_append] at behind ⊢
      rw [← List.append_assoc]
      exact .token whole some_ open_ behind

end Placed

/-- The tokens of the lexemes of a text stand in it in their places. -/
theorem placed_of_divide {last : Option Kind} {text : List Char} {lexemes : List Lexeme}
    (file : String) (offset : Nat) (divided : divide last text = (lexemes, [])) :
    Placed file offset text (placeLexemes file offset lexemes) := by
  fun_induction divide last text generalizing lexemes offset with
  | case1 =>
      cases divided
      exact .closing .nil
  | case2 => cases divided
  | case3 last first rest lexeme found more stuck rest_ ih =>
      obtain ⟨rfl, rfl⟩ := Prod.mk.inj divided
      have whole := (Lexeme.text_append_drop found).symm
      have placed := ih (offset + byteLength lexeme.text) rest_
      rw [whole, placeLexemes]
      split
      next layout => exact .layout (Lexeme.isLayout_of_next? found layout whole) placed
      next kind token =>
        obtain ⟨length, taken⟩ := Lexeme.next?_eq_some found
        have some_ : lexeme.text ≠ [] := by simp [taken]
        have open_ := (Lexeme.tokenText_of_next? found token).kind_ne_eof
        exact Placed.token Layout.nil some_ open_ placed

/-! ### Tokens and the bytes of the source -/

namespace Token

/-- The first byte of the token. -/
def start (token : Token) : Nat :=
  token.span.start.offset.toNat

/-- The byte behind the last one of the token. -/
def stop (token : Token) : Nat :=
  token.span.stop.offset.toNat

end Token

theorem Position.toNat_ofBytes {bytes : Nat} (small : bytes < 2 ^ 32) (file : String) :
    (Position.ofBytes bytes file).offset.toNat = bytes := by
  rw [Position.ofBytes, UInt32.toNat_ofNat', Nat.mod_eq_of_lt small]

/-- The bytes from `start` up to `stop` are the characters of `text`, and behind them is `after`. -/
def IsSlice (source : List Char) (start stop : Nat) (text after : List Char) : Prop :=
  ∃ before, source = before ++ (text ++ after) ∧ byteLength before = start ∧
    byteLength (before ++ text) = stop

/-- There is nothing but layout from `start` up to `stop`. -/
def IsGap (source : List Char) (start stop : Nat) : Prop :=
  ∃ gap after, IsSlice source start stop gap after ∧ Layout after gap

/-- The tokens give the source back from a byte on: the text of each is where its span says, and
what is between them is layout. -/
structure Lossless (source : List Char) (offset : Nat) (tokens : List Token) : Prop where
  ordered : tokens.Pairwise fun earlier later => earlier.stop ≤ later.start
  texts : ∀ token ∈ tokens.dropLast, token.kind ≠ .eof ∧ token.start < token.stop ∧
    ∃ after, IsSlice source token.start token.stop token.text.toList after
  closing : ∃ token, tokens.getLast? = some token ∧ token.kind = .eof ∧
    token.start = byteLength source ∧ token.stop = byteLength source
  gapBefore : ∀ token ∈ tokens.head?, IsGap source offset token.start
  gaps : tokens.IsChain fun earlier later => IsGap source earlier.stop later.start

theorem byteLength_pos {text : List Char} (some_ : text ≠ []) : 0 < byteLength text := by
  obtain ⟨first, rest, rfl⟩ := List.exists_cons_of_ne_nil some_
  have first_ := first.utf8Size_pos
  rw [byteLength_cons]
  omega

namespace Placed

variable {file : String} {offset : Nat} {before text : List Char} {tokens : List Token}

theorem offset_le_start (placed : Placed file offset text tokens)
    (small : offset + byteLength text < 2 ^ 32) : ∀ token ∈ tokens, offset ≤ token.start := by
  induction placed with
  | @closing offset gap layout =>
      intro token member
      obtain rfl := List.mem_singleton.mp member
      have start := Position.toNat_ofBytes small file
      exact Nat.le_trans (Nat.le_add_right _ _) (Nat.le_of_eq start.symm)
  | @token offset gap text rest kind more layout some_ open_ behind ih =>
      simp only [byteLength_append] at small
      intro token member
      rcases List.mem_cons.mp member with rfl | later
      · have fits : offset + byteLength gap < 2 ^ 32 := by omega
        have start := Position.toNat_ofBytes fits file
        exact Nat.le_trans (Nat.le_add_right _ _) (Nat.le_of_eq start.symm)
      · have after := ih (by omega) token later
        omega

/-- The closing token of placed tokens is where the text ends, and before it every token has its
text at its span. -/
theorem lossless (placed : Placed file offset text tokens) (here : byteLength before = offset)
    (small : byteLength (before ++ text) < 2 ^ 32) :
    Lossless (before ++ text) offset tokens := by
  induction placed generalizing before with
  | @closing offset gap layout =>
      have end_ : offset + byteLength gap = byteLength (before ++ gap) := by
        rw [byteLength_append, here]
      have start : (Token.eof (.ofBytes (offset + byteLength gap) file)).start
          = byteLength (before ++ gap) := by
        rw [end_]
        exact Position.toNat_ofBytes small file
      refine ⟨List.pairwise_singleton _ _, nofun, ⟨_, rfl, rfl, start, start⟩, ?_, .singleton _⟩
      intro token first
      obtain rfl := Option.some.inj first
      refine ⟨gap, [], ⟨before, ?_, here, start.symm⟩, layout⟩
      rw [List.append_nil]
  | @token offset gap text rest kind more layout some_ open_ behind ih =>
      have whole : before ++ (gap ++ (text ++ rest)) = before ++ gap ++ text ++ rest := by
        simp only [List.append_assoc]
      have first : byteLength (before ++ gap) = offset + byteLength gap := by
        rw [byteLength_append, here]
      have last : byteLength (before ++ gap ++ text)
          = offset + byteLength gap + byteLength text := by
        rw [byteLength_append, first]
      rw [whole] at small ⊢
      have within : offset + byteLength gap + byteLength text + byteLength rest < 2 ^ 32 := by
        rwa [byteLength_append, last] at small
      have rest_ := ih last small
      have later := behind.offset_le_start within
      have length := byteLength_pos some_
      have starts : offset + byteLength gap < 2 ^ 32 := by omega
      have stops : offset + byteLength gap + byteLength text < 2 ^ 32 := by omega
      generalize made : (⟨kind, String.ofList text,
        .ofBytes (offset + byteLength gap) (byteLength text) file⟩ : Token) = token
      have start_ : token.start = offset + byteLength gap := by
        rw [← made]
        exact Position.toNat_ofBytes starts file
      have stop_ : token.stop = offset + byteLength gap + byteLength text := by
        rw [← made]
        exact Position.toNat_ofBytes stops file
      have text_ : token.text.toList = text := by
        rw [← made]
        exact String.toList_ofList
      refine ⟨?_, ?_, ?_, ?_, ?_⟩
      · refine List.pairwise_cons.mpr ⟨fun other member => ?_, rest_.ordered⟩
        rw [stop_]
        exact later other member
      · rw [List.dropLast_cons_of_ne_nil behind.ne_nil]
        refine List.forall_mem_cons.mpr ⟨⟨?_, by omega, rest, ?_⟩, rest_.texts⟩
        · rw [← made]
          exact open_
        · refine ⟨before ++ gap, ?_, ?_, ?_⟩
          · rw [text_, List.append_assoc]
          · rw [start_, first]
          · rw [text_, stop_, last]
      · obtain ⟨closing, found, closed⟩ := rest_.closing
        refine ⟨closing, ?_, closed⟩
        rw [List.getLast?_cons_of_ne_nil behind.ne_nil, found]
      · intro other head
        obtain rfl := Option.some.inj head
        refine ⟨gap, text ++ rest, ⟨before, ?_, here, ?_⟩, layout⟩
        · simp only [List.append_assoc]
        · rw [start_, first]
      · refine List.isChain_cons.mpr ⟨fun other head => ?_, rest_.gaps⟩
        rw [stop_]
        exact rest_.gapBefore other head

end Placed

/-- The tokens of a source that is shorter than `2 ^ 32` bytes give it back. -/
theorem lossless_of_tokenize {source file : String} {tokens : List Token}
    (tokenized : tokenize source file = .ok tokens) (small : byteLength source.toList < 2 ^ 32) :
    Lossless source.toList 0 tokens := by
  unfold tokenize at tokenized
  split at tokenized
  next lexemes divided =>
    cases tokenized
    have placed := placed_of_divide file 0 divided
    have none_ : byteLength [] = 0 := rfl
    exact placed.lossless none_ small
  next => cases tokenized

/-- Each token of a source starts behind all that stand before it. -/
theorem Lossless.start_lt_start {source : List Char} {offset : Nat} {tokens : List Token}
    (lossless : Lossless source offset tokens) {first second : Nat} {earlier later : Token}
    (before : first < second) (here : tokens[first]? = some earlier)
    (there : tokens[second]? = some later) : earlier.start < later.start := by
  obtain ⟨within, rfl⟩ := List.getElem?_eq_some_iff.mp there
  have open_ : tokens.dropLast[first]? = some earlier := by
    rw [List.getElem?_dropLast, if_pos (by omega), here]
  obtain ⟨_, some_, _⟩ := lossless.texts earlier (List.mem_of_getElem? open_)
  obtain ⟨bound, rfl⟩ := List.getElem?_eq_some_iff.mp here
  have ordered := List.pairwise_iff_getElem.mp lossless.ordered first second bound within before
  exact Nat.lt_of_lt_of_le some_ ordered

/-! ### The scan -/

namespace Scanner

/-- The scanner collects a lexeme, unless it is layout, and moves behind it. -/
def collect (scanner : Scanner) (lexeme : Lexeme) : Scanner :=
  let bytes := byteLength lexeme.text
  match lexeme.kind with
  | none => scanner.advance bytes
  | some kind => (scanner.push ⟨kind, String.ofList lexeme.text, scanner.span bytes⟩).advance bytes

/-- One round of the scan. -/
inductive Step (scanner : Scanner) : Scanner → Prop
  | collect {first : Char} {rest : List Char} {lexeme : Lexeme} :
      scanner.remainder? = some (first :: rest) →
      Lexeme.next? scanner.lastKind? first rest = some lexeme →
      Step scanner (scanner.collect lexeme)

/-- What the scan answers when it stops here, unless the scanner stands inside a character. -/
def answer? (scanner : Scanner) : Option (Except Error (List Token)) :=
  scanner.remainder?.map fun rest => match rest with
    | [] => .ok (scanner.tokens.reverse ++ [.eof (.ofBytes scanner.offset scanner.file)])
    | stuck :: _ =>
        .error ⟨.unrecognised stuck.toString, .ofBytes scanner.offset scanner.file⟩

/-- The scanner stands between two characters: behind one part of its source, in front of the
other. -/
structure Stands (scanner : Scanner) (passed rest : List Char) : Prop where
  source : scanner.source = passed ++ rest
  offset : scanner.offset = byteLength passed

variable {scanner next : Scanner} {passed rest : List Char} {lexeme : Lexeme}

@[simp] theorem collect_source : (scanner.collect lexeme).source = scanner.source := by
  unfold collect
  split <;> rfl

@[simp] theorem collect_file : (scanner.collect lexeme).file = scanner.file := by
  unfold collect
  split <;> rfl

@[simp] theorem collect_offset :
    (scanner.collect lexeme).offset = scanner.offset + byteLength lexeme.text := by
  unfold collect
  split <;> rfl

@[simp] theorem collect_lastKind? :
    (scanner.collect lexeme).lastKind? = lexeme.kind.or scanner.lastKind? := by
  unfold collect
  split
  next layout => rw [layout]; rfl
  next kind token => rw [token]; rfl

theorem Stands.remainder? (stands : scanner.Stands passed rest) :
    scanner.remainder? = some rest := by
  rw [Scanner.remainder?, stands.source, stands.offset]
  exact dropBytes?_append passed rest

theorem Stands.collect {first : Char} (stands : scanner.Stands passed (first :: rest))
    (found : Lexeme.next? scanner.lastKind? first rest = some lexeme) :
    (scanner.collect lexeme).Stands (passed ++ lexeme.text)
      (rest.drop (lexeme.text.length - 1)) := by
  refine ⟨?_, ?_⟩
  · rw [collect_source, stands.source, List.append_assoc, Lexeme.text_append_drop found]
  · rw [collect_offset, stands.offset, byteLength_append]

/-- A round leads from one place between characters to a later one. -/
theorem Step.stands (step : scanner.Step next) (stands : scanner.Stands passed rest) :
    (∃ passed rest, next.Stands passed rest) ∧ next.source = scanner.source ∧
      scanner.offset < next.offset := by
  cases step with
  | @collect _ _ lexeme here found =>
      obtain rfl := Option.some.inj (stands.remainder?.symm.trans here)
      refine ⟨⟨_, _, stands.collect found⟩, collect_source, ?_⟩
      obtain ⟨length, taken⟩ := Lexeme.next?_eq_some found
      have some_ : lexeme.text ≠ [] := by simp [taken]
      have longer := byteLength_pos some_
      rw [collect_offset]
      omega

/-- The scan reaches only places between characters. -/
theorem exists_stands {source file : String}
    (reached : Relation.ReflTransGen Step (.ofSource source file) scanner) :
    (∃ passed rest, scanner.Stands passed rest) ∧ scanner.source = source.toList := by
  induction reached with
  | refl => exact ⟨⟨[], source.toList, rfl, rfl⟩, rfl⟩
  | tail _ step ih =>
      obtain ⟨⟨passed, rest, stands⟩, same⟩ := ih
      obtain ⟨stands, same', _⟩ := step.stands stands
      exact ⟨stands, same'.trans same⟩

/-- What the scan answers if the text from here on is divided so. -/
def answerAfter (scanner : Scanner) : List Lexeme × List Char → Except Error (List Token)
  | (lexemes, []) =>
      .ok (scanner.tokens.reverse ++ placeLexemes scanner.file scanner.offset lexemes)
  | (lexemes, stuck :: _) =>
      .error ⟨.unrecognised stuck.toString,
        .ofBytes (scanner.offset + byteLength (lexemes.flatMap Lexeme.text)) scanner.file⟩

theorem answerAfter_collect (more : List Lexeme) (stuck : List Char) :
    (scanner.collect lexeme).answerAfter (more, stuck)
      = scanner.answerAfter (lexeme :: more, stuck) := by
  cases stuck with
  | cons c stuck =>
      simp only [answerAfter, collect_file, collect_offset, List.flatMap_cons, byteLength_append,
        Nat.add_assoc]
  | nil =>
      simp only [answerAfter, collect_file, collect_offset, placeLexemes]
      unfold collect
      cases lexeme.kind with
      | none => rfl
      | some kind => simp [advance, push, span]

theorem answerAfter_ofSource (source file : String) :
    (ofSource source file).answerAfter (divide none source.toList) = tokenize source file := by
  unfold tokenize
  generalize divide none source.toList = divided
  obtain ⟨lexemes, stuck⟩ := divided
  cases stuck with
  | nil => rfl
  | cons c stuck =>
      have start : (ofSource source file).offset = 0 := rfl
      simp only [answerAfter, start, Nat.zero_add]
      rfl

/-- The scan stops, and its answer is that of the division. -/
theorem exists_scan {last : Option Kind} (stands : scanner.Stands passed rest)
    (kind : scanner.lastKind? = last) :
    ∃ final, Relation.ReflTransGen Step scanner final ∧ (∀ next, ¬ final.Step next) ∧
      final.answer? = some (scanner.answerAfter (divide last rest)) := by
  fun_induction divide last rest generalizing scanner passed with
  | case1 =>
      refine ⟨scanner, .refl, ?_, ?_⟩
      · intro next step
        cases step with
        | collect here => cases stands.remainder?.symm.trans here
      · rw [answer?, stands.remainder?]
        rfl
  | case2 last first rest none_ =>
      refine ⟨scanner, .refl, ?_, ?_⟩
      · intro next step
        cases step with
        | collect here found =>
            cases stands.remainder?.symm.trans here
            rw [kind, none_] at found
            cases found
      · rw [answer?, stands.remainder?]
        rfl
  | case3 last first rest lexeme found more stuck divided ih =>
      rw [← kind] at found
      have step : scanner.Step (scanner.collect lexeme) := .collect stands.remainder? found
      obtain ⟨final, reached, stops, answer⟩ :=
        ih (stands.collect found) (by rw [collect_lastKind?, kind])
      refine ⟨final, .head step reached, stops, ?_⟩
      rw [answer, divided, answerAfter_collect]

end Scanner

/-- Tokens of a source shorter than `2 ^ 32` bytes are in source order, each but the last with its
text at its span, with only layout around them, and the last one closes the source. On any source
the scan stands between characters, moves forward in every round, and comes to a round that is the
last, where it answers. -/
theorem tokenize_lossless (source file : String) :
    (∀ tokens, tokenize source file = .ok tokens → byteLength source.toList < 2 ^ 32 →
      Lossless source.toList 0 tokens) ∧
    (∀ scanner, Relation.ReflTransGen Scanner.Step (.ofSource source file) scanner →
      (∃ passed rest, source.toList = passed ++ rest ∧ scanner.offset = byteLength passed ∧
        scanner.remainder? = some rest) ∧
      ∀ next, scanner.Step next → scanner.offset < next.offset) ∧
    ∃ final, Relation.ReflTransGen Scanner.Step (.ofSource source file) final ∧
      (∀ next, ¬ final.Step next) ∧ final.answer? = some (tokenize source file) := by
  refine ⟨fun tokens tokenized small => lossless_of_tokenize tokenized small, ?_, ?_⟩
  · intro scanner reached
    obtain ⟨⟨passed, rest, stands⟩, same⟩ := Scanner.exists_stands reached
    refine ⟨⟨passed, rest, ?_, stands.offset, stands.remainder?⟩, fun next step => ?_⟩
    · rw [← same, stands.source]
    · obtain ⟨_, _, further⟩ := step.stands stands
      exact further
  · have start : (Scanner.ofSource source file).Stands [] source.toList := ⟨rfl, rfl⟩
    have first : (Scanner.ofSource source file).lastKind? = none := rfl
    obtain ⟨final, reached, stops, answer⟩ := Scanner.exists_scan start first
    refine ⟨final, reached, stops, ?_⟩
    rw [answer, Scanner.answerAfter_ofSource]

/-- A call with a comment in it, which holds a character of two bytes. -/
theorem tokenize_lossless_comment :
    tokenize "f -- \u00e9\n('a')" "shell" = .ok
      [⟨.identifier, "f", .ofBytes 0 1 "shell"⟩, ⟨.openParen, "(", .ofBytes 8 1 "shell"⟩,
        ⟨.char, "'a'", .ofBytes 9 3 "shell"⟩, ⟨.closeParen, ")", .ofBytes 12 1 "shell"⟩,
        .eof (.ofBytes 13 "shell")] ∧
    Lossless "f -- \u00e9\n('a')".toList 0
      [⟨.identifier, "f", .ofBytes 0 1 "shell"⟩, ⟨.openParen, "(", .ofBytes 8 1 "shell"⟩,
        ⟨.char, "'a'", .ofBytes 9 3 "shell"⟩, ⟨.closeParen, ")", .ofBytes 12 1 "shell"⟩,
        .eof (.ofBytes 13 "shell")] := by
  have tokenized : tokenize "f -- \u00e9\n('a')" "shell" = .ok
      [⟨.identifier, "f", .ofBytes 0 1 "shell"⟩, ⟨.openParen, "(", .ofBytes 8 1 "shell"⟩,
        ⟨.char, "'a'", .ofBytes 9 3 "shell"⟩, ⟨.closeParen, ")", .ofBytes 12 1 "shell"⟩,
        .eof (.ofBytes 13 "shell")] := by decide +kernel
  have small : byteLength "f -- \u00e9\n('a')".toList < 2 ^ 32 := by decide
  exact ⟨tokenized, (tokenize_lossless _ "shell").1 _ tokenized small⟩

end AdaExpressions
