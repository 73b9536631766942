import Tabula.Toml.Number
import Tabula.Toml.Text

/-!
# Reading configuration documents

`Toml.parse` reads a document line by line: comments, headers `[a.b]` and assignments `a.b = value`.  Lists and
tables in braces may be nested in each other up to a limit, and a key may not have too many parts.

Settings cannot be lists of tables, so headers in double brackets are refused.
-/

namespace Tabula.Toml

/-- How deep lists and tables in braces may be nested. -/
def maxNesting : Nat :=
  79

/-- How many parts a dotted key may have. -/
def maxKeyParts : Nat :=
  79

/-- A character of a key that needs no quotes. -/
def isBare (c : Char) : Bool :=
  c.isAlphanum || c == '_' || c == '-'

/-- Read one part of a key. -/
def readKeyPart : Reader String
  | '\x22' :: cs => (readBasic cs).map fun r => (String.ofList r.1, r.2)
  | '\x27' :: cs => (readLiteral cs).map fun r => (String.ofList r.1, r.2)
  | cs =>
      let part := cs.takeWhile isBare
      if part.isEmpty then none else some (String.ofList part, cs.dropWhile isBare)

/-- Read a key with at most `parts` parts, separated by dots. -/
def readKeyWithin : Nat → Reader (List String)
  | 0, _ => none
  | parts + 1, cs => do
      let (part, cs) ← readKeyPart (skipGap cs)
      match skipGap cs with
      | '.' :: cs => do
          let (path, cs) ← readKeyWithin parts cs
          return (part :: path, cs)
      | cs => return ([part], cs)

/-- Read a key and the blanks around it. -/
def readKey : Reader (List String) :=
  readKeyWithin maxKeyParts

/-- Read a value that has no parts. -/
def readScalar (cs : List Char) : Option (Value × List Char) :=
  match cs with
  | '\x22' :: _ | '\x27' :: _ => (readText cs).map fun r => (.text r.1, r.2)
  | 't' :: 'r' :: 'u' :: 'e' :: rest => some (.boolean true, rest)
  | 'f' :: 'a' :: 'l' :: 's' :: 'e' :: rest => some (.boolean false, rest)
  | _ =>
      match readMoment cs with
      | some (m, rest) => some (.moment m, rest)
      | none => readNumber cs

/-- Read at most `count` items of a list and its closing bracket. -/
def readItems (value : Reader Value) : Nat → Reader (List Value)
  | 0, _ => none
  | count + 1, cs => do
      match ← skipBlank cs with
      | ']' :: cs => return ([], cs)
      | cs =>
          let (item, cs) ← value cs
          match ← skipBlank cs with
          | ',' :: cs =>
              let (items, cs) ← readItems value count cs
              return (item :: items, cs)
          | ']' :: cs => return ([item], cs)
          | _ => none

/-- Read at most `count` assignments of a table in braces, which follow `entries`, and its closing brace. -/
def readPairs (value : Reader Value) : Nat → Entries → Reader Entries
  | 0, _, _ => none
  | count + 1, entries, cs => do
      let (path, cs) ← readKey cs
      match cs with
      | '=' :: cs =>
          let (v, cs) ← value (skipGap cs)
          let entries ← Entries.assign v path entries
          match skipGap cs with
          | ',' :: cs => readPairs value count entries cs
          | '\x7d' :: cs => return (entries, cs)
          | _ => none
      | _ => none

/-- Read a value with at most `nesting` lists and tables inside each other. -/
def readValue : Nat → Reader Value
  | 0, cs => readScalar cs
  | nesting + 1, cs =>
      match cs with
      | '[' :: cs =>
          (readItems (readValue nesting) (cs.length + 1) cs).map fun r => (.array r.1, r.2)
      | '\x7b' :: cs =>
          match skipGap cs with
          | '\x7d' :: cs => some (.table [], cs)
          | cs =>
              (readPairs (readValue nesting) (cs.length + 1) [] cs).map fun r =>
                (.table (toValues r.1), r.2)
      | cs => readScalar cs

/-- A document that is being read: the table that the last header opened, and all contents. -/
structure Document where
  current : List String
  entries : Entries

/-- Read a header behind its opening bracket. -/
def readHeader (doc : Document) (cs : List Char) : Option (Document × List Char) := do
  let (path, cs) ← readKey cs
  match cs with
  | ']' :: cs =>
      let cs ← finishLine cs
      return (⟨path, ← Entries.openTable path doc.entries⟩, cs)
  | _ => none

/-- Read an assignment. -/
def readAssignment (doc : Document) (cs : List Char) : Option (Document × List Char) := do
  let (path, cs) ← readKey cs
  match cs with
  | '=' :: cs =>
      let (v, cs) ← readValue maxNesting (skipGap cs)
      let cs ← finishLine cs
      return (⟨doc.current, ← Entries.modify (Entries.assign v path) doc.current doc.entries⟩, cs)
  | _ => none

/-- Read at most `lines` statements. -/
def readStatements : Nat → Document → List Char → Option Document
  | 0, _, _ => none
  | lines + 1, doc, cs => do
      match ← skipBlank cs with
      | [] => return doc
      | '[' :: cs =>
          let (doc, cs) ← readHeader doc cs
          readStatements lines doc cs
      | cs =>
          let (doc, cs) ← readAssignment doc cs
          readStatements lines doc cs

/-- Leave out a byte order mark at the start of a document. -/
def skipMark : List Char → List Char
  | c :: cs => if c.toNat = 0xFEFF then cs else c :: cs
  | [] => []

/-- The contents of a document. -/
def parse (source : String) : Option (List (String × Value)) := do
  let cs := skipMark source.toList
  let doc ← readStatements (cs.length + 1) ⟨[], []⟩ cs
  return toValues doc.entries

end Tabula.Toml
