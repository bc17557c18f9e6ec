import AdaExpressions.Token.Basic

/-!
# Token buffers

The tokens a parser reads, closed by an end-of-input token. Every index has a token: past the end
it is the closing one. An end-of-input token may also stand among the others; reading never goes
past the first.
-/

namespace AdaExpressions

structure Buffer where
  /-- The tokens before the closing one. -/
  body : Array Token
  closing : Token
  closing_kind : closing.kind = .eof

namespace Buffer

/-- Closes a list that does not end with an end-of-input token where its last token stops; an empty
one at the start of `file`. -/
def ofTokens (tokens : List Token) (file : String) : Buffer :=
  match tokens.getLast? with
  | none => ⟨#[], .eof (.ofBytes 0 file), rfl⟩
  | some last =>
      if h : last.kind = .eof then ⟨tokens.dropLast.toArray, last, h⟩
      else ⟨tokens.toArray, .eof last.span.stop, rfl⟩

def size (buffer : Buffer) : Nat :=
  buffer.body.size + 1

def token (buffer : Buffer) (index : Nat) : Token :=
  buffer.body[index]?.getD buffer.closing

def kind (buffer : Buffer) (index : Nat) : Kind :=
  (buffer.token index).kind

/-- The index after `index`, unless the token there ends the input. -/
def next (buffer : Buffer) (index : Nat) : Nat :=
  if buffer.kind index = .eof then index else index + 1

def toList (buffer : Buffer) : List Token :=
  buffer.body.toList ++ [buffer.closing]

theorem kind_of_size_le {buffer : Buffer} {index : Nat} (past : buffer.body.size ≤ index) :
    buffer.kind index = .eof := by
  simp [kind, token, Array.getElem?_eq_none past, buffer.closing_kind]

theorem next_lt_size {buffer : Buffer} {index : Nat} (within : index < buffer.size) :
    buffer.next index < buffer.size := by
  unfold next
  split
  · exact within
  · next more =>
      by_cases past : buffer.body.size ≤ index
      · exact absurd (kind_of_size_le past) more
      · simp only [size] at *
        omega

theorem next_of_ne_eof {buffer : Buffer} {index : Nat} (more : buffer.kind index ≠ .eof) :
    buffer.next index = index + 1 := by
  simp [next, more]

theorem succ_lt_size_of_ne_eof {buffer : Buffer} {index : Nat} (more : buffer.kind index ≠ .eof) :
    index + 1 < buffer.size := by
  have within : ¬ buffer.body.size ≤ index := fun past => more (kind_of_size_le past)
  simp only [size]
  omega

theorem ofTokens_toList (buffer : Buffer) (file : String) :
    ofTokens buffer.toList file = buffer := by
  obtain ⟨body, closing, kind⟩ := buffer
  simp [ofTokens, toList, kind]

/-- A buffer of the tokens from `start` on holds what the whole buffer holds from there. -/
theorem token_ofTokens_drop {tokens : List Token} {file : String} {start : Nat}
    (more : start < tokens.length) (index : Nat) :
    (ofTokens (tokens.drop start) file).token index =
      (ofTokens tokens file).token (index + start) := by
  have last : (tokens.drop start).getLast? = tokens.getLast? := by
    rw [List.getLast?_drop, if_neg (Nat.not_le_of_lt more)]
  unfold ofTokens
  rw [last]
  cases found : tokens.getLast? with
  | none => simp_all
  | some closing =>
      simp only
      split
      · simp [token, List.getElem?_dropLast]
        grind
      · simp [token, Nat.add_comm]

theorem le_next (buffer : Buffer) (index : Nat) : index ≤ buffer.next index := by
  unfold next
  split <;> omega

end Buffer

end AdaExpressions
