import AdaExpressions.Diagnostic.Report
import AdaExpressions.Proofs.Source.Lines
import AdaExpressions.Token.Scan

/-!
# Where the caret stands

A report on an error in its source ends in two lines: the source line under its number, and below it
a line of hyphens with a caret. The caret is put as many columns behind the gutter as there are
bytes between the indentation of the line and the error, and the line above it has a column for each
character. So the caret stands under the character at the error where each character in between takes
one byte, and further to the right where one takes more. Beyond column 65535 there is no report.

Results: `showsLine_of_lineAt` (the two lines, wherever the error is), `caret_under_character`, and
`caret_beside_character` (an input on which the caret is beside the character).
-/

namespace AdaExpressions

/-- The last two lines of a text that ends each of its lines with a newline. -/
def EndsInLines (text first second : List Char) : Prop :=
  '\n' ∉ first ∧ '\n' ∉ second ∧
    ∃ above, StartsLine above ∧ text = above ++ (first ++ '\n' :: (second ++ ['\n']))

theorem length_le_byteLength (text : List Char) : text.length ≤ byteLength text := by
  induction text with
  | nil => exact Nat.le_refl 0
  | cons c rest ih =>
      have size := c.utf8Size_pos
      rw [List.length_cons, byteLength_cons]
      omega

/-- A text has as many bytes as characters if each of them takes one. -/
theorem byteLength_eq_length_iff {text : List Char} :
    byteLength text = text.length ↔ ∀ c ∈ text, c.utf8Size = 1 := by
  induction text with
  | nil => simp
  | cons c rest ih =>
      have size := c.utf8Size_pos
      have more := length_le_byteLength rest
      rw [byteLength_cons, List.length_cons, List.forall_mem_cons, ← ih]
      omega

namespace Report

variable {before after : List Char}

/-- What stands in front of a line that is shown. -/
def label (number : Nat) : List Char :=
  (Nat.repr number ++ " | ").toList

/-- The place between two parts of a source is not inside the indentation of its line. -/
def OutsideIndent (before after : List Char) : Prop :=
  ((lineBefore before ++ lineAfter after).takeWhile isIndent).length ≤ (lineBefore before).length

instance : Decidable (OutsideIndent before after) :=
  inferInstanceAs (Decidable (_ ≤ _))

/-- The line between two parts of a source is shown under its number, without its indentation and
the blanks at its end. Up to where the second part starts it shows `front`. -/
structure Shows (before after shown front : List Char) : Prop where
  shown : shown = label (1 + before.count '\n') ++
    dropTrailingBlanks ((lineBefore before ++ lineAfter after).dropWhile isIndent)
  front : label (1 + before.count '\n') ++
    (lineBefore before ++ lineAfter after).dropWhile isIndent = front ++ lineAfter after

/-! ### The indentation of a line -/

theorem isIndent_iff {c : Char} : isIndent c = true ↔ c = ' ' ∨ c = '\t' := by
  simp [isIndent]

/-- Outside the indentation a part of the line has all of it. -/
theorem OutsideIndent.takeWhile_eq (outside : OutsideIndent before after) :
    (lineBefore before ++ lineAfter after).takeWhile isIndent =
      (lineBefore before).takeWhile isIndent := by
  unfold OutsideIndent at outside
  rw [List.takeWhile_append] at outside ⊢
  split at outside
  next whole =>
    rw [List.length_append] at outside
    have none_ : (lineAfter after).takeWhile isIndent = [] :=
      List.eq_nil_of_length_eq_zero (by omega)
    rw [if_pos whole, none_, List.append_nil]
    exact ((List.takeWhile_prefix _).eq_of_length whole).symm
  next part => rw [if_neg part]

theorem OutsideIndent.dropWhile_eq (outside : OutsideIndent before after) :
    (lineBefore before ++ lineAfter after).dropWhile isIndent =
      (lineBefore before).dropWhile isIndent ++ lineAfter after := by
  have parts := List.takeWhile_append_dropWhile (p := isIndent)
    (l := lineBefore before ++ lineAfter after)
  have parts' := List.takeWhile_append_dropWhile (p := isIndent) (l := lineBefore before)
  rw [outside.takeWhile_eq] at parts
  refine List.append_cancel_left (parts.trans ?_)
  rw [← List.append_assoc, parts']

/-- A newline at the end of a line is no indentation. -/
theorem takeWhile_isIndent_append (text : List Char) {ending : List Char}
    (ends : ending = [] ∨ ending = ['\n']) :
    (text ++ ending).takeWhile isIndent = text.takeWhile isIndent ∧
      (text ++ ending).dropWhile isIndent = text.dropWhile isIndent ++ ending := by
  rcases ends with rfl | rfl
  · simp
  · have newline : isIndent '\n' = false := by decide
    induction text with
    | nil => simp [newline]
    | cons c rest ih => cases indent : isIndent c <;> simp [indent, ih]

theorem byteLength_indent (text : List Char) :
    byteLength (text.takeWhile isIndent) = (text.takeWhile isIndent).length := by
  refine byteLength_eq_length_iff.mpr fun c member => ?_
  rcases isIndent_iff.mp (List.mem_takeWhile_imp member) with rfl | rfl
  · rfl
  · rfl

/-! ### The two lines -/

theorem dropTrailingBlanks_append (text : List Char) {ending : List Char}
    (ends : ending = [] ∨ ending = ['\n']) :
    dropTrailingBlanks (text ++ ending) = dropTrailingBlanks text := by
  rcases ends with rfl | rfl
  · rw [List.append_nil]
  · have newline : Text.isBlank '\n' = true := by decide
    simp [dropTrailingBlanks, newline]

theorem shownText_eq {number column : Nat} {text ending : List Char}
    (ends : ending = [] ∨ ending = ['\n']) :
    shownText ⟨number, text ++ ending, column⟩ = dropTrailingBlanks (text.dropWhile isIndent) := by
  rw [shownText, (takeWhile_isIndent_append text ends).2, dropTrailingBlanks_append _ ends]

/-- There is a hyphen for each byte between the indentation and the error. -/
theorem caret_eq {number : Nat} {ending : List Char} (ends : ending = [] ∨ ending = ['\n'])
    (outside : OutsideIndent before after) :
    caret ⟨number, lineBefore before ++ lineAfter after ++ ending,
        byteLength (lineBefore before)⟩ =
      List.replicate (byteLength ((lineBefore before).dropWhile isIndent)) '-' ++ ['^'] := by
  have parts := congrArg byteLength
    (List.takeWhile_append_dropWhile (p := isIndent) (l := lineBefore before))
  rw [byteLength_append, byteLength_indent] at parts
  rw [caret, (takeWhile_isIndent_append _ ends).1, outside.takeWhile_eq]
  dsimp only
  rw [show byteLength (lineBefore before) - ((lineBefore before).takeWhile isIndent).length =
    byteLength ((lineBefore before).dropWhile isIndent) by omega]

theorem length_caret {number : Nat} {ending : List Char} (ends : ending = [] ∨ ending = ['\n'])
    (outside : OutsideIndent before after) :
    (caret ⟨number, lineBefore before ++ lineAfter after ++ ending,
        byteLength (lineBefore before)⟩).length =
      byteLength ((lineBefore before).dropWhile isIndent) + 1 := by
  rw [caret_eq ends outside, List.length_append, List.length_replicate, List.length_singleton]

theorem newline_notMem_label (number : Nat) : '\n' ∉ label number := by
  intro newline
  rw [label, Nat.repr_eq_ofList_toDigits, String.toList_append, String.toList_ofList] at newline
  rcases List.mem_append.mp newline with digit | bar
  · exact absurd (Nat.isDigit_of_mem_toDigits (by decide) (by decide) digit) (by decide)
  · exact absurd bar (by decide)

theorem dropTrailingBlanks_subset (text : List Char) : dropTrailingBlanks text ⊆ text := by
  intro c member
  exact List.mem_reverse.mp ((List.dropWhile_sublist _).subset (List.mem_reverse.mp member))

/-- The newline that a line ends in is not shown. -/
theorem newline_notMem_shownText {source : String} {position : UInt32} {line : SourceLine}
    (found : lineAt source position = some line) : '\n' ∉ shownText line := by
  obtain ⟨before, after, -, -, -, inLine, -⟩ := (lineAt_eq_some_iff.mp found).place
  obtain ⟨number, text, column⟩ := line
  have plain {body ending : List Char} (ends : ending = [] ∨ ending = ['\n'])
      (apart : '\n' ∉ body) : '\n' ∉ shownText ⟨number, body ++ ending, column⟩ := by
    rw [shownText_eq ends]
    exact fun newline =>
      apart ((List.dropWhile_sublist _).subset (dropTrailingBlanks_subset _ newline))
  cases inLine with
  | ended apart => exact plain (.inr rfl) apart
  | last apart => simpa using plain (.inl rfl) apart

/-- The gutter, a space and hyphens. -/
def leftOfCaret (number hyphens : Nat) : List Char :=
  List.replicate ((Nat.repr number).length + 1) ' ' ++ ['|', ' '] ++ List.replicate hyphens '-'

theorem mem_leftOfCaret {number hyphens : Nat} {c : Char} (member : c ∈ leftOfCaret number hyphens) :
    c = ' ' ∨ c = '|' ∨ c = '-' := by
  simp only [leftOfCaret, List.mem_append, List.mem_replicate, List.mem_cons, List.not_mem_nil,
    or_false] at member
  rcases member with (⟨-, space⟩ | bar | space) | ⟨-, hyphen⟩
  · exact .inl space
  · exact .inr (.inl bar)
  · exact .inl space
  · exact .inr (.inr hyphen)

/-- The hyphens start where the line shown does. -/
theorem length_leftOfCaret (number hyphens : Nat) :
    (leftOfCaret number hyphens).length = (label number).length + hyphens := by
  rw [label, String.toList_append, List.length_append, String.length_toList]
  simp only [leftOfCaret, List.length_append, List.length_replicate]
  rfl

theorem toList_gutter (number : Nat) (hyphens : Nat) :
    (gutter number ++ " ").toList ++ (List.replicate hyphens '-' ++ ['^']) =
      leftOfCaret number hyphens ++ ['^'] := by
  simp [gutter, leftOfCaret]

theorem newline_notMem_caret (number hyphens : Nat) : '\n' ∉ leftOfCaret number hyphens ++ ['^'] := by
  intro newline
  rcases List.mem_append.mp newline with inside | caret_
  · rcases mem_leftOfCaret inside with same | same | same <;> cases same
  · exact absurd caret_ (by decide)

/-- There is a report if the caret has room, and then it ends in the last two lines of its excerpt. -/
theorem render?_eq {source : String} (file : String) {error : Error} {line : SourceLine}
    (found : lineAt source error.position.offset = some line) :
    (65535 < (caret line).length ∧ render? error source file = none) ∨
      (caret line).length ≤ 65535 ∧ ∃ above report, StartsLine above ∧
        render? error source file = some report ∧ report.toList =
          above ++ (label line.number ++ shownText line ++ '\n' ::
            ((gutter line.number ++ " ").toList ++ caret line ++ ['\n'])) := by
  rw [render?, lines?, found]
  dsimp only
  unfold excerpt? fieldLimit
  split
  next room =>
    let above := headline error ++ "\n" ++ ("-> " ++ file ++ "\n") ++ gutter line.number
    refine .inr ⟨room, above.toList ++ ['\n'], _, .inr List.getLast?_concat, rfl, ?_⟩
    simp [above, label]
  next wide => exact .inl ⟨Nat.not_le.mp wide, rfl⟩

/-! ### What is shown of a line -/

/-- A line is shown without the spaces and tabs it starts with and the blanks it ends with. -/
structure Trims (line indent shown trail : List Char) : Prop where
  parts : line = indent ++ (shown ++ trail)
  indent : ∀ c ∈ indent, c = ' ' ∨ c = '\t'
  starts : ∀ c ∈ (shown ++ trail).head?, c ≠ ' ' ∧ c ≠ '\t'
  trail : ∀ c ∈ trail, Text.isBlank c = true
  ends : ∀ c ∈ shown.getLast?, Text.isBlank c = false

theorem exists_trims (text : List Char) :
    ∃ trail, Trims text (text.takeWhile isIndent)
      (dropTrailingBlanks (text.dropWhile isIndent)) trail := by
  let rest := text.dropWhile isIndent
  have parts : dropTrailingBlanks rest ++ rest.rtakeWhile Text.isBlank = rest :=
    List.rdropWhile_append_rtakeWhile
  refine ⟨rest.rtakeWhile Text.isBlank, ?_, ?_, ?_, ?_, ?_⟩
  · rw [parts, List.takeWhile_append_dropWhile]
  · exact fun c member => isIndent_iff.mp (List.mem_takeWhile_imp member)
  · rw [parts]
    intro c first
    have start := List.head?_dropWhile_not isIndent text
    rw [Option.mem_def.mp first] at start
    exact not_or.mp (isIndent_iff.not.mp (Bool.eq_false_iff.mp start))
  · exact fun c member => List.mem_rtakeWhile_imp member
  · intro c last
    obtain ⟨some_, rfl⟩ := List.mem_getLast?_eq_getLast last
    exact Bool.eq_false_iff.mpr (List.rdropWhile_last_not Text.isBlank rest some_)

/-- Whatever the file is called, the report on the error ends in the line, without the spaces and
tabs it starts with and the blanks it ends with, and below it a caret behind a hyphen for each byte
between the indentation and the column. If the caret would be further to the right than column 65535
there is no report. -/
def ShowsLine (error : Error) (source : String) (line : SourceLine) : Prop :=
  ∃ indent shown trail, Trims line.text indent shown trail ∧ ∀ file,
    (line.column - indent.length < 65535 → ∃ report, render? error source file = some report ∧
      EndsInLines report.toList (label line.number ++ shown)
        (leftOfCaret line.number (line.column - indent.length) ++ ['^'])) ∧
    (65535 ≤ line.column - indent.length → render? error source file = none)

theorem showsLine_of_lineAt {source : String} {error : Error} {line : SourceLine}
    (found : lineAt source error.position.offset = some line) : ShowsLine error source line := by
  obtain ⟨trail, trims⟩ := exists_trims line.text
  refine ⟨_, _, trail, trims, fun file => ?_⟩
  have width : (caret line).length = line.column - (line.text.takeWhile isIndent).length + 1 := by
    rw [caret, List.length_append, List.length_replicate, List.length_singleton]
  obtain ⟨wide, none_⟩ | ⟨room, above, report, starts, given, text⟩ := render?_eq file found
  · rw [width] at wide
    exact ⟨fun room => absurd room (by omega), fun _ => none_⟩
  · rw [width] at room
    rw [caret, toList_gutter] at text
    refine ⟨fun _ => ⟨report, given, ?_, newline_notMem_caret _ _, above, starts, text⟩,
      fun wide => absurd wide (by omega)⟩
    exact fun newline => (List.mem_append.mp newline).elim (newline_notMem_label _)
      (newline_notMem_shownText found)

/-! ### Reports on a place of a source -/

/-- Behind 65535 bytes of a line there is no report. -/
theorem render?_eq_none {source file : String} {error : Error}
    (divided : source.toList = before ++ after)
    (here : byteLength before = error.position.offset.toNat) (outside : OutsideIndent before after)
    (wide : 65535 ≤ byteLength ((lineBefore before).dropWhile isIndent)) :
    render? error source file = none := by
  obtain ⟨ending, ends, found⟩ := exists_lineAt divided here
  obtain ⟨-, none_⟩ | ⟨room, -⟩ := render?_eq file found
  · exact none_
  · rw [length_caret ends outside] at room
    omega

/-- A report on an error at a place of its source, outside the indentation of the line, ends in the
line that has the place and a line with a single caret, its last character. The caret is further to
the right than the place is on the line shown by the bytes that the characters between indentation
and place take beyond one each. So it stands under the character at the place, or just behind the
line where that has ended, if and only if each of those characters takes one byte. -/
theorem caret_under_character {source file : String} {error : Error} {before after : List Char}
    (divided : source.toList = before ++ after)
    (here : byteLength before = error.position.offset.toNat)
    (outside : OutsideIndent before after)
    (room : byteLength ((lineBefore before).dropWhile isIndent) < 65535) :
    ∃ report shown front left, render? error source file = some report ∧
      EndsInLines report.toList shown (left ++ ['^']) ∧
      Shows before after shown front ∧ '^' ∉ left ∧
      left.length + ((lineBefore before).dropWhile isIndent).length =
        front.length + byteLength ((lineBefore before).dropWhile isIndent) ∧
      (left.length = front.length ↔
        ∀ c ∈ (lineBefore before).dropWhile isIndent, c.utf8Size = 1) := by
  obtain ⟨ending, ends, found⟩ := exists_lineAt divided here
  obtain ⟨wide, -⟩ | ⟨-, above, report, starts, given, text⟩ := render?_eq file found
  · rw [length_caret ends outside] at wide
    omega
  have plain := newline_notMem_shownText found
  rw [shownText_eq ends] at text plain
  rw [caret_eq ends outside, toList_gutter] at text
  have shows : Shows before after _ (label (1 + before.count '\n') ++
      (lineBefore before).dropWhile isIndent) :=
    ⟨rfl, by rw [outside.dropWhile_eq, List.append_assoc]⟩
  have length := length_leftOfCaret (1 + before.count '\n')
    (byteLength ((lineBefore before).dropWhile isIndent))
  refine ⟨report, _, _, _, given, ⟨?_, newline_notMem_caret _ _, above, starts, text⟩, shows,
    ?_, ?_, ?_⟩
  · exact fun newline => (List.mem_append.mp newline).elim (newline_notMem_label _) plain
  · intro caret_
    rcases mem_leftOfCaret caret_ with same | same | same <;> cases same
  · rw [length, List.length_append]
    omega
  · rw [length, List.length_append, Nat.add_left_cancel_iff, byteLength_eq_length_iff]

/-- The second line of a source, indented by a tab. -/
theorem caret_under_character_indented :
    let source := "X\n\tA + * B"
    let error : Error := ⟨.unexpected "*", .ofBytes 7 "shell"⟩
    let before := "X\n\tA + ".toList
    source.toList = before ++ "* B".toList ∧
      byteLength before = error.position.offset.toNat ∧ OutsideIndent before "* B".toList ∧
      byteLength ((lineBefore before).dropWhile isIndent) < 65535 ∧
      ∃ report shown front left, render? error source "shell" = some report ∧
        EndsInLines report.toList shown (left ++ ['^']) ∧
        Shows before "* B".toList shown front ∧ '^' ∉ left ∧
        left.length + ((lineBefore before).dropWhile isIndent).length =
          front.length + byteLength ((lineBefore before).dropWhile isIndent) ∧
        (left.length = front.length ↔
          ∀ c ∈ (lineBefore before).dropWhile isIndent, c.utf8Size = 1) := by
  intro source error before
  have divided : source.toList = before ++ "* B".toList := by decide
  have here : byteLength before = error.position.offset.toNat := by decide
  have outside : OutsideIndent before "* B".toList := by decide
  have room : byteLength ((lineBefore before).dropWhile isIndent) < 65535 := by decide
  exact ⟨divided, here, outside, room, caret_under_character divided here outside room⟩

/-- Behind a character of two bytes the caret is beside the character that no lexeme starts with. -/
theorem caret_beside_character :
    let source := "'\u00e9' @"
    let error : Error := ⟨.unrecognised "@", .ofBytes 5 "shell"⟩
    let before := "'\u00e9' ".toList
    let report := "Error: UnrecognisedToken\n-> shell\n  |\n1 | '\u00e9' @\n  | -----^\n"
    let shown := "1 | '\u00e9' @".toList
    let left := "  | -----".toList
    tokenize source "shell" = .error error ∧
      source.toList = before ++ ['@'] ∧ byteLength before = error.position.offset.toNat ∧
      OutsideIndent before ['@'] ∧ render? error source "shell" = some report ∧
      EndsInLines report.toList shown (left ++ ['^']) ∧
      shown[8]? = some '@' ∧ left.length = 9 := by
  intro source error before report shown left
  refine ⟨by decide +kernel, by decide, by decide, by decide, by decide +kernel, ⟨by decide, by decide, ?_⟩,
    by decide, by decide⟩
  exact ⟨"Error: UnrecognisedToken\n-> shell\n  |\n".toList, .inr (by decide), by decide⟩

end Report

end AdaExpressions
