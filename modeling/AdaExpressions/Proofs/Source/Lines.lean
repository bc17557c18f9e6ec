import Mathlib.Data.List.DropRight
import Mathlib.Data.List.Nodup
import AdaExpressions.Source.Line

/-!
# The line at a position

A line goes from just behind one newline through the next; the last one goes up to the end of the
source and has no newline. `SourceLine.HoldsAt` says which line holds a byte position, how it is
numbered and where in it the position is, without dividing the source.

Results: `HoldsAt.unique` (one line holds a position), `lineAt_eq_some_iff` (it is the line that is
found), `lineAt_exact`, and `exists_lineAt` (what is found between two parts of a source).
-/

namespace AdaExpressions

/-- How many newlines start before a byte position. -/
def newlinesBefore (source : List Char) (position : Nat) : Nat :=
  (List.range source.length).countP fun index =>
    source[index]? == some '\n' && decide (byteLength (source.take index) < position)

/-- Behind this part of a source a line starts. -/
def StartsLine (before : List Char) : Prop :=
  before = [] ∨ before.getLast? = some '\n'

/-- A position in a line, with the line's text, what stands before it and what stands behind it. -/
inductive InLine (position : Nat) (before : List Char) : List Char → List Char → Prop
  | ended {body after : List Char} :
      '\n' ∉ body → position < byteLength (before ++ (body ++ ['\n'])) →
      InLine position before (body ++ ['\n']) after
  | last {text : List Char} :
      '\n' ∉ text → position ≤ byteLength (before ++ text) → InLine position before text []

/-- The line of the source that the position is in. -/
structure SourceLine.HoldsAt (line : SourceLine) (source : List Char) (position : Nat) : Prop where
  number : line.number = 1 + newlinesBefore source position
  place : ∃ before after, source = before ++ (line.text ++ after) ∧ StartsLine before ∧
    byteLength before ≤ position ∧ InLine position before line.text after ∧
    line.column = position - byteLength before

/-! ### Prefixes and their bytes -/

theorem byteLength_eq_zero {text : List Char} : byteLength text = 0 ↔ text = [] := by
  cases text with
  | nil => simp
  | cons c rest =>
      have size := c.utf8Size_pos
      simp only [byteLength_cons, List.cons_ne_nil, iff_false]
      omega

/-- Of two beginnings of a text the one with fewer bytes begins the other. -/
theorem prefix_of_byteLength_le {first second text : List Char} (start : first <+: text)
    (start' : second <+: text) (shorter : byteLength first ≤ byteLength second) :
    first <+: second := by
  rcases List.prefix_or_prefix_of_prefix start start' with begins | ⟨more, rfl⟩
  · exact begins
  · rw [byteLength_append] at shorter
    have empty : byteLength more = 0 := by omega
    exact ⟨[], by rw [byteLength_eq_zero.mp empty, List.append_nil, List.append_nil]⟩

/-! ### Newlines before a position -/

theorem newlinesBefore_cons (c : Char) (rest : List Char) (position : Nat) :
    newlinesBefore (c :: rest) position =
      (if c = '\n' ∧ 0 < position then 1 else 0) + newlinesBefore rest (position - c.utf8Size) := by
  have size := c.utf8Size_pos
  have shift (index : Nat) : byteLength ((c :: rest).take (index + 1)) < position ↔
      byteLength (rest.take index) < position - c.utf8Size := by
    rw [List.take_succ_cons, byteLength_cons]
    omega
  unfold newlinesBefore
  rw [List.length_cons, List.range_succ_eq_map, List.countP_cons, List.countP_map, Nat.add_comm]
  congr 1
  · by_cases newline : c = '\n' <;> by_cases some_ : 0 < position <;> simp [newline, some_]
  · refine List.countP_congr fun index _ => ?_
    simp only [Function.comp_apply, Nat.succ_eq_add_one, List.getElem?_cons_succ,
      Bool.and_eq_true, decide_eq_true_eq, shift]

theorem newlinesBefore_append {before : List Char} {position : Nat} (rest : List Char)
    (within : byteLength before ≤ position) : newlinesBefore (before ++ rest) position =
      before.count '\n' + newlinesBefore rest (position - byteLength before) := by
  induction before generalizing position with
  | nil => simp
  | cons c before ih =>
      have size := c.utf8Size_pos
      rw [byteLength_cons] at within ⊢
      rw [List.cons_append, newlinesBefore_cons, ih (by omega), List.count_cons, Nat.sub_sub]
      simp only [beq_iff_eq, show 0 < position by omega, and_true]
      omega

/-- There is none before a position that a line without newlines reaches up to. -/
theorem newlinesBefore_eq_zero {body : List Char} {position : Nat} (rest : List Char)
    (plain : '\n' ∉ body) (within : position ≤ byteLength body) :
    newlinesBefore (body ++ rest) position = 0 := by
  induction body generalizing position with
  | nil =>
      obtain rfl : position = 0 := Nat.le_zero.mp within
      simp [newlinesBefore]
  | cons c body ih =>
      rw [byteLength_cons] at within
      have differs : c ≠ '\n' := fun same => plain (same ▸ List.mem_cons_self)
      rw [List.cons_append, newlinesBefore_cons,
        ih (fun member => plain (.tail _ member)) (by omega)]
      simp [differs]

theorem InLine.position_le {position : Nat} {before text after : List Char}
    (inLine : InLine position before text after) : position ≤ byteLength (before ++ text) := by
  cases inLine with
  | ended _ short => exact Nat.le_of_lt short
  | last _ short => exact short

theorem InLine.newlinesBefore {position : Nat} {before text after : List Char}
    (inLine : InLine position before text after) (within : byteLength before ≤ position) :
    newlinesBefore (before ++ (text ++ after)) position = before.count '\n' := by
  rw [newlinesBefore_append _ within]
  cases inLine with
  | ended plain short =>
      simp only [byteLength_append, byteLength_cons, byteLength_nil] at short
      have size : '\n'.utf8Size = 1 := rfl
      rw [List.append_assoc, newlinesBefore_eq_zero _ plain (by omega), Nat.add_zero]
  | last plain short =>
      rw [byteLength_append] at short
      rw [newlinesBefore_eq_zero _ plain (by omega), Nat.add_zero]

/-! ### One line holds a position -/

/-- No other line starts between the start of a line and a position in it. -/
theorem InLine.start_eq {position : Nat} {before middle text after : List Char}
    (inLine : InLine position before text after) (starts : StartsLine (before ++ middle))
    (within : byteLength (before ++ middle) ≤ position) (begins : middle <+: text ++ after) :
    middle = [] := by
  by_contra some_
  have newline : '\n' ∈ middle := by
    rcases starts with none_ | last
    · exact absurd (List.append_eq_nil_iff.mp none_).2 some_
    · rw [List.getLast?_append_of_ne_nil _ some_] at last
      exact List.mem_of_getLast? last
  have size : '\n'.utf8Size = 1 := rfl
  cases inLine with
  | @ended body after plain short =>
      have fits : byteLength middle ≤ byteLength body := by
        simp only [byteLength_append, byteLength_cons, byteLength_nil] at short within
        omega
      have body_ : body <+: body ++ ['\n'] ++ after := by simp
      exact plain ((prefix_of_byteLength_le begins body_ fits).subset newline)
  | last plain =>
      rw [List.append_nil] at begins
      exact plain (begins.subset newline)

/-- Two lines that start at one place are the same. -/
theorem InLine.text_eq {position : Nat} {before text after text' after' : List Char}
    (inLine : InLine position before text after) (inLine' : InLine position before text' after')
    (same : text ++ after = text' ++ after') : text = text' := by
  -- what stands before the first newline of a text
  have body {body : List Char} (after : List Char) (plain : '\n' ∉ body) :
      (body ++ ['\n'] ++ after).takeWhile (· != '\n') = body := by
    rw [List.append_assoc, List.takeWhile_append_of_pos fun c member => ?_]
    · simp
    · have differs : c ≠ '\n' := fun newline => plain (newline ▸ member)
      simpa using differs
  cases inLine with
  | ended plain _ =>
      cases inLine' with
      | ended plain' _ => rw [← body after plain, same, body after' plain']
      | last plain' _ =>
          rw [List.append_nil] at same
          exact absurd (same ▸ by simp) plain'
  | last plain _ =>
      rw [List.append_nil] at same
      cases inLine' with
      | ended plain' _ => exact absurd (same ▸ by simp) plain
      | last plain' _ => rw [same, List.append_nil]

theorem SourceLine.HoldsAt.unique {line other : SourceLine} {source : List Char} {position : Nat}
    (holds : line.HoldsAt source position) (holds' : other.HoldsAt source position) :
    line = other := by
  obtain ⟨before, after, divided, starts, within, inLine, column⟩ := holds.place
  obtain ⟨before', after', divided', starts', within', inLine', column'⟩ := holds'.place
  have start : before <+: source := ⟨_, divided.symm⟩
  have start' : before' <+: source := ⟨_, divided'.symm⟩
  obtain rfl : before = before' := by
    rcases List.prefix_or_prefix_of_prefix start start' with ⟨middle, rfl⟩ | ⟨middle, rfl⟩
    · rw [divided, List.append_assoc] at divided'
      have begins : middle <+: line.text ++ after := ⟨_, (List.append_cancel_left divided').symm⟩
      rw [inLine.start_eq starts' within' begins, List.append_nil]
    · rw [divided', List.append_assoc] at divided
      have begins : middle <+: other.text ++ after' := ⟨_, (List.append_cancel_left divided).symm⟩
      rw [inLine'.start_eq starts within begins, List.append_nil]
  have text := inLine.text_eq inLine' (List.append_cancel_left (divided.symm.trans divided'))
  have number := holds.number.trans holds'.number.symm
  cases line
  cases other
  simp_all

/-! ### The line that is found -/

/-- A division into lines: each but the last ends with its only newline. -/
inductive Lines : List (List Char) → Prop
  | last {line : List Char} : '\n' ∉ line → Lines [line]
  | ended {body : List Char} {more : List (List Char)} :
      '\n' ∉ body → Lines more → Lines ((body ++ ['\n']) :: more)

theorem lines_splitLines (text : List Char) : Lines (splitLines text) := by
  induction text with
  | nil => exact .last List.not_mem_nil
  | cons c rest ih =>
      unfold splitLines
      split
      next newline => exact newline ▸ .ended List.not_mem_nil ih
      next other =>
        have plain {body : List Char} (plain : '\n' ∉ body) : '\n' ∉ c :: body :=
          List.not_mem_cons_of_ne_of_not_mem (Ne.symm other) plain
        generalize splitLines rest = lines at ih
        cases ih with
        | last absent => exact .last (plain absent)
        | ended absent more => exact .ended (plain absent) more

theorem Lines.ne_nil {lines : List (List Char)} (lines_ : Lines lines) : lines ≠ [] := by
  cases lines_ <;> exact List.cons_ne_nil _ _

theorem findLine_cons {lines : List (List Char)} (some_ : lines ≠ []) (line : List Char)
    (position number start : Nat) : findLine position number start (line :: lines) =
      if position < start + byteLength line then some ⟨number, line, position - start⟩
      else findLine position (number + 1) (start + byteLength line) lines := by
  cases lines with
  | nil => exact absurd rfl some_
  | cons next more => rfl

theorem InLine.holdsAt {position number : Nat} {before text after : List Char}
    (inLine : InLine position before text after) (starts : StartsLine before)
    (counted : number = 1 + before.count '\n') (within : byteLength before ≤ position) :
    SourceLine.HoldsAt ⟨number, text, position - byteLength before⟩ (before ++ (text ++ after))
      position where
  number := by rw [inLine.newlinesBefore within, counted]
  place := ⟨before, after, rfl, starts, within, inLine, rfl⟩

/-- The line that is found among those behind the first part of a source. -/
theorem Lines.holdsAt {lines : List (List Char)} {before : List Char} {position number : Nat}
    {line : SourceLine} (lines_ : Lines lines) (starts : StartsLine before)
    (counted : number = 1 + before.count '\n') (within : byteLength before ≤ position)
    (found : findLine position number (byteLength before) lines = some line) :
    line.HoldsAt (before ++ lines.flatten) position := by
  induction lines_ generalizing before number with
  | @last text plain =>
      simp only [findLine, Option.ite_none_right_eq_some, Option.some.injEq] at found
      obtain ⟨short, rfl⟩ := found
      rw [← byteLength_append] at short
      exact (InLine.last plain short).holdsAt starts counted within
  | @ended body more plain more_ ih =>
      rw [findLine_cons more_.ne_nil, ← byteLength_append] at found
      split at found
      next short =>
        cases found
        exact (InLine.ended plain short).holdsAt starts counted within
      next far =>
        have counted' : number + 1 = 1 + (before ++ (body ++ ['\n'])).count '\n' := by
          rw [counted, List.count_append, List.count_append, List.count_eq_zero.mpr plain]
          simp [Nat.add_assoc]
        rw [List.flatten_cons, ← List.append_assoc]
        exact ih (.inr (by simp)) counted' (Nat.not_lt.mp far) found

theorem lineAt_eq_some_iff {source : String} {position : UInt32} {line : SourceLine} :
    lineAt source position = some line ↔ line.HoldsAt source.toList position.toNat := by
  have sound {line : SourceLine} (found : lineAt source position = some line) :
      line.HoldsAt source.toList position.toNat := by
    have found : findLine position.toNat 1 (byteLength []) (splitLines source.toList) = some line :=
      found
    have holds := (lines_splitLines source.toList).holdsAt (.inl rfl) rfl (Nat.zero_le _) found
    rwa [List.nil_append, splitLines_flatten] at holds
  refine ⟨sound, fun holds => ?_⟩
  cases found : lineAt source position with
  | some other => rw [(sound found).unique holds]
  | none =>
      have past := lineAt_eq_none_iff.mp found
      obtain ⟨before, after, divided, -, -, inLine, -⟩ := holds.place
      have short := inLine.position_le
      rw [divided, ← List.append_assoc, byteLength_append] at past
      omega

/-- At the end of a source that is empty or ends in a newline the line has no text. -/
theorem SourceLine.HoldsAt.eq_of_end {line : SourceLine} {source : List Char}
    (holds : line.HoldsAt source (byteLength source)) (starts : StartsLine source) :
    line.text = [] ∧ line.column = 0 := by
  obtain ⟨before, after, divided, -, -, inLine, column⟩ := holds.place
  have empty : line.text ++ after = [] := by
    refine inLine.start_eq (divided ▸ starts) ?_ (List.prefix_refl _)
    rw [← divided]
  obtain ⟨text, rfl⟩ := List.append_eq_nil_iff.mp empty
  refine ⟨text, ?_⟩
  rw [column, divided, text, List.append_nil, List.append_nil, Nat.sub_self]

/-- A position past the end of a source is in no line. Any other is in one: it is numbered by the
newlines before the position, goes from just behind a newline through the next one or up to the end,
and the column counts its bytes in front of the position. At the end of a source that is empty or
ends in a newline it is empty. -/
theorem lineAt_exact (source : String) (position : UInt32) :
    (lineAt source position = none ↔ byteLength source.toList < position.toNat) ∧
    (∀ line, lineAt source position = some line ↔
      line.HoldsAt source.toList position.toNat) ∧
    (byteLength source.toList = position.toNat → StartsLine source.toList →
      ∃ number, lineAt source position = some ⟨number, [], 0⟩) := by
  refine ⟨lineAt_eq_none_iff, fun line => lineAt_eq_some_iff, fun ends starts => ?_⟩
  obtain ⟨line, found⟩ : ∃ line, lineAt source position = some line := by
    refine Option.ne_none_iff_exists'.mp fun none_ => ?_
    exact absurd (lineAt_eq_none_iff.mp none_) (by omega)
  have holds := lineAt_eq_some_iff.mp found
  rw [← ends] at holds
  obtain ⟨text, column⟩ := holds.eq_of_end starts
  exact ⟨line.number, by rw [found, ← text, ← column]⟩

/-- The end of two lines, of which the second holds no more than a carriage return. -/
theorem lineAt_exact_end :
    byteLength "A\n\r\n".toList = (4 : UInt32).toNat ∧ StartsLine "A\n\r\n".toList ∧
      ∃ number, lineAt "A\n\r\n" 4 = some ⟨number, [], 0⟩ := by
  have ends : byteLength "A\n\r\n".toList = (4 : UInt32).toNat := by decide
  have starts : StartsLine "A\n\r\n".toList := .inr (by decide)
  exact ⟨ends, starts, (lineAt_exact "A\n\r\n" 4).2.2 ends starts⟩

/-! ### The line between two parts of a source -/

/-- What stands on its line in front of the end of a part of a source. -/
def lineBefore (before : List Char) : List Char :=
  before.rtakeWhile (· != '\n')

/-- What stands on its line from the start of a part of a source on. -/
def lineAfter (after : List Char) : List Char :=
  after.takeWhile (· != '\n')

theorem newline_notMem_lineBefore (before : List Char) : '\n' ∉ lineBefore before := by
  intro newline
  have other := List.mem_rtakeWhile_imp newline
  simp at other

theorem newline_notMem_lineAfter (after : List Char) : '\n' ∉ lineAfter after := by
  intro newline
  have other := List.all_eq_true.mp List.all_takeWhile '\n' newline
  simp at other

theorem exists_lineBefore (before : List Char) :
    ∃ earlier, before = earlier ++ lineBefore before ∧ StartsLine earlier := by
  refine ⟨before.rdropWhile (· != '\n'), List.rdropWhile_append_rtakeWhile.symm, ?_⟩
  by_cases some_ : before.rdropWhile (· != '\n') = []
  · exact .inl some_
  · have last := List.rdropWhile_last_not _ _ some_
    refine .inr ?_
    rw [List.getLast?_eq_some_getLast some_]
    simpa using last

theorem exists_lineAfter (after : List Char) :
    ∃ ending later, after = lineAfter after ++ (ending ++ later) ∧
      (ending = [] ∧ later = [] ∨ ending = ['\n']) := by
  have parts := (List.takeWhile_append_dropWhile (p := (· != '\n')) (l := after)).symm
  cases rest : after.dropWhile (· != '\n') with
  | nil => exact ⟨[], [], by rwa [rest] at parts, .inl ⟨rfl, rfl⟩⟩
  | cons c later =>
      have first := List.head?_dropWhile_not (· != '\n') after
      rw [rest, List.head?_cons] at first
      obtain rfl : c = '\n' := by simpa using first
      exact ⟨['\n'], later, by rwa [rest] at parts, .inr rfl⟩

/-- Between two parts of a source is the line that both have a part of, with its newline unless it
is the last one. -/
theorem exists_lineAt {source : String} {position : UInt32} {before after : List Char}
    (divided : source.toList = before ++ after) (here : byteLength before = position.toNat) :
    ∃ ending, (ending = [] ∨ ending = ['\n']) ∧
      lineAt source position = some ⟨1 + before.count '\n',
        lineBefore before ++ lineAfter after ++ ending, byteLength (lineBefore before)⟩ := by
  obtain ⟨earlier, parts, starts⟩ := exists_lineBefore before
  obtain ⟨ending, later, parts', ends⟩ := exists_lineAfter after
  have plain : '\n' ∉ lineBefore before ++ lineAfter after := fun newline =>
    (List.mem_append.mp newline).elim (newline_notMem_lineBefore _) (newline_notMem_lineAfter _)
  have start : byteLength earlier + byteLength (lineBefore before) = position.toNat := by
    rw [← byteLength_append, ← parts, here]
  have inLine : InLine position.toNat earlier
      (lineBefore before ++ lineAfter after ++ ending) later := by
    rcases ends with ⟨rfl, rfl⟩ | rfl
    · rw [List.append_nil]
      refine .last plain ?_
      simp only [byteLength_append]
      omega
    · refine .ended plain ?_
      have size : '\n'.utf8Size = 1 := rfl
      simp only [byteLength_append, byteLength_cons, byteLength_nil]
      omega
  have counted : 1 + before.count '\n' = 1 + earlier.count '\n' := by
    conv_lhs => rw [parts]
    rw [List.count_append, List.count_eq_zero.mpr (newline_notMem_lineBefore before), Nat.add_zero]
  have whole : earlier ++ (lineBefore before ++ lineAfter after ++ ending ++ later)
      = source.toList := by
    rw [List.append_assoc, List.append_assoc, ← parts', ← List.append_assoc, ← parts, divided]
  have column : byteLength (lineBefore before) = position.toNat - byteLength earlier := by omega
  refine ⟨ending, ends.imp And.left id, lineAt_eq_some_iff.mpr ?_⟩
  rw [column, ← whole]
  exact inLine.holdsAt starts counted (by omega)

end AdaExpressions
