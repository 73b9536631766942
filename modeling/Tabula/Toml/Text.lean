import Tabula.Toml.Line

/-!
# Texts of configuration documents

A text stands between double or single quotes, three of them if it runs over several lines.  Between double
quotes a backslash starts an escape.

A long text ends with the first three quotes in a row.  One or two quotes right before these belong to the
text, and an end of line right behind the opening quotes does not.  In a long text between double quotes, a
backslash at the end of a line hides it together with all blanks and ends of lines that follow.
-/

namespace Tabula.Toml

/-- Read the number of a character in `n` hexadecimal digits. -/
def readCharNumber (n : Nat) (cs : List Char) : Option (Char × List Char) := do
  let values ← (cs.take n).mapM hexValue?
  let number := values.foldl (fun number d => 16 * number + d) 0
  if values.length = n ∧ number.isValidChar then some (Char.ofNat number, cs.drop n) else none

theorem length_of_readCharNumber {n : Nat} {cs rest : List Char} {c : Char}
    (h : readCharNumber n cs = some (c, rest)) : rest.length ≤ cs.length := by
  unfold readCharNumber at h
  obtain ⟨values, _, h⟩ := Option.bind_eq_some_iff.1 h
  simp only at h
  split at h
  · cases h
    simp
  · cases h

/-- Read an escape behind its backslash. -/
def readEscape : Reader Char
  | 'b' :: cs => some (Char.ofNat 8, cs)
  | 't' :: cs => some ('\t', cs)
  | 'n' :: cs => some ('\n', cs)
  | 'f' :: cs => some (Char.ofNat 12, cs)
  | 'r' :: cs => some ('\r', cs)
  | '\x22' :: cs => some ('\x22', cs)
  | '\\' :: cs => some ('\\', cs)
  | 'u' :: cs => readCharNumber 4 cs
  | 'U' :: cs => readCharNumber 8 cs
  | _ => none

theorem length_of_readEscape {cs rest : List Char} {c : Char} (h : readEscape cs = some (c, rest)) :
    rest.length < cs.length := by
  unfold readEscape at h
  split at h
  case h_8 => exact Nat.lt_succ_of_le (length_of_readCharNumber h)
  case h_9 => exact Nat.lt_succ_of_le (length_of_readCharNumber h)
  case h_10 => cases h
  all_goals
    cases h
    exact Nat.lt_succ_self _

/-- The rest of a text between double quotes. -/
def readBasic (cs : List Char) : Option (List Char × List Char) :=
  match cs with
  | [] => none
  | c :: cs =>
      if c == '\x22' then some ([], cs)
      else if c == '\\' then
        match hescape : readEscape cs with
        | none => none
        | some (first, rest) =>
            have := length_of_readEscape hescape
            (readBasic rest).map fun r => (first :: r.1, r.2)
      else if isPrintable c then (readBasic cs).map fun r => (c :: r.1, r.2)
      else none
termination_by cs.length
decreasing_by
  · simp only [List.length_cons]
    omega
  · simp

/-- The rest of a text between single quotes, which has no escapes. -/
def readLiteral : Reader (List Char)
  | [] => none
  | c :: cs =>
      if c == '\x27' then some ([], cs)
      else if isPrintable c then (readLiteral cs).map fun r => (c :: r.1, r.2)
      else none

/-- The end of a long text, if it is here: three quotes, after at most two that belong to the text. -/
def readClosing (quote : Char) (cs : List Char) : Option (List Char × List Char) :=
  let quotes := (cs.take 5).takeWhile (· == quote)
  if 3 ≤ quotes.length then some (quotes.drop 3, cs.drop quotes.length) else none

/-- Leave out blanks and ends of lines. -/
def skipSpace : List Char → List Char
  | '\n' :: cs => skipSpace cs
  | '\r' :: '\n' :: cs => skipSpace cs
  | c :: cs => if isGap c then skipSpace cs else c :: cs
  | [] => []

theorem length_skipSpace (cs : List Char) : (skipSpace cs).length ≤ cs.length := by
  fun_induction skipSpace cs with
  | case1 cs ih =>
      simp only [List.length_cons]
      omega
  | case2 cs ih =>
      simp only [List.length_cons]
      omega
  | case3 c cs _ _ _ ih =>
      simp only [List.length_cons]
      omega
  | case4 => exact Nat.le_refl _
  | case5 => exact Nat.le_refl _

/-- The text behind a backslash at the end of a line. -/
def readContinuation (cs : List Char) : Option (List Char) :=
  (readNewline (skipGap cs)).map skipSpace

theorem length_of_readContinuation {cs rest : List Char} (h : readContinuation cs = some rest) :
    rest.length < cs.length := by
  obtain ⟨line, hline, rfl⟩ := Option.map_eq_some_iff.1 h
  have := length_of_readNewline hline
  have := length_skipGap cs
  have := length_skipSpace line
  omega

/-- The rest of a long text between double quotes. -/
def readLongBasic (cs : List Char) : Option (List Char × List Char) :=
  match readClosing '\x22' cs with
  | some r => some r
  | none =>
      match cs with
      | [] => none
      | '\n' :: cs => (readLongBasic cs).map fun r => ('\n' :: r.1, r.2)
      | '\r' :: '\n' :: cs => (readLongBasic cs).map fun r => ('\n' :: r.1, r.2)
      | '\\' :: cs =>
          match hcontinuation : readContinuation cs with
          | some rest =>
              have := length_of_readContinuation hcontinuation
              readLongBasic rest
          | none =>
              match hescape : readEscape cs with
              | none => none
              | some (first, rest) =>
                  have := length_of_readEscape hescape
                  (readLongBasic rest).map fun r => (first :: r.1, r.2)
      | c :: cs => if isPrintable c then (readLongBasic cs).map fun r => (c :: r.1, r.2) else none
termination_by cs.length
decreasing_by
  all_goals
    simp only [List.length_cons]
    omega

/-- The rest of a long text between single quotes. -/
def readLongLiteral (cs : List Char) : Option (List Char × List Char) :=
  match readClosing '\x27' cs with
  | some r => some r
  | none =>
      match cs with
      | [] => none
      | '\n' :: cs => (readLongLiteral cs).map fun r => ('\n' :: r.1, r.2)
      | '\r' :: '\n' :: cs => (readLongLiteral cs).map fun r => ('\n' :: r.1, r.2)
      | c :: cs => if isPrintable c then (readLongLiteral cs).map fun r => (c :: r.1, r.2) else none

/-- Leave out an end of line, if there is one. -/
def skipNewline (cs : List Char) : List Char :=
  (readNewline cs).getD cs

/-- Read a text between quotes of any kind. -/
def readText : Reader String
  | '\x22' :: '\x22' :: '\x22' :: cs =>
      (readLongBasic (skipNewline cs)).map fun r => (String.ofList r.1, r.2)
  | '\x22' :: cs => (readBasic cs).map fun r => (String.ofList r.1, r.2)
  | '\x27' :: '\x27' :: '\x27' :: cs =>
      (readLongLiteral (skipNewline cs)).map fun r => (String.ofList r.1, r.2)
  | '\x27' :: cs => (readLiteral cs).map fun r => (String.ofList r.1, r.2)
  | _ => none

end Tabula.Toml
