import ContentOverlay.Toml.Value

/-!
# Whole configuration texts

A document is read line by line: a header opens a table, and a pair of a path and a value adds to
the table that was opened last.  The order of the lines matters only where a table is opened or
added to twice.
-/

set_option autoImplicit false

namespace ContentOverlay
namespace Toml

/-- What has been read of a document: its tables, and the path to the one that was opened last. -/
structure Progress where
  root : Entries
  place : List String

/-- Opens a table with one of the two kinds of header. -/
def Progress.enter (p : Progress) (opening : String → Entries → Option Entries)
    (path : List String) : Option Progress :=
  match path.getLast? with
  | none => none
  | some key => (p.root.within (opening key) path.dropLast).map (⟨·, path⟩)

/-- Adds to the table that was opened last. -/
def Progress.add (p : Progress) (path : List String) (node : Node) : Option Progress :=
  (p.root.within (·.insertDotted node path) p.place).map (⟨·, p.place⟩)

/-- Reads the rest of a header whose path ends in these brackets. -/
def headerRest (brackets : List Char) : Read (List String) := fun cs =>
  match keyPath cs with
  | none => none
  | some (path, rest) => readAs (fun _ => path) (word brackets) rest

/-- Reads a line that is not blank. -/
def line (p : Progress) : List Char → Option (Progress × List Char)
  | '[' :: '[' :: rest =>
    match headerRest [']', ']'] rest with
    | none => none
    | some (path, rest) => (p.enter Entries.openElement path).bind fun p => endLine p rest
  | '[' :: rest =>
    match headerRest [']'] rest with
    | none => none
    | some (path, rest) => (p.enter Entries.openTable path).bind fun p => endLine p rest
  | cs =>
    match keyValue (value (depthBound - 1)) cs with
    | none => none
    | some ((path, node), rest) => (p.add path node).bind fun p => endLine p rest
where
  /-- Goes on with the next line. -/
  endLine (p : Progress) (rest : List Char) : Option (Progress × List Char) :=
    (endOfLine? rest).map (p, ·)

/-- Reads lines to the end of the text.  Every line has a character at least, so `fuel` of them are
enough when it is more than there are characters. -/
def lines (p : Progress) : (fuel : Nat) → List Char → Option Entries
  | 0, _ => none
  | fuel + 1, cs =>
    match skipBlanks cs with
    | [] => some p.root
    | '#' :: rest => (endOfLine? ('#' :: rest)).bind (lines p fuel)
    | c :: rest =>
      match lineEnd? (c :: rest) with
      | some rest => lines p fuel rest
      | none => (line p (c :: rest)).bind fun q => lines q.1 fuel q.2

/-- A mark that may stand at the beginning of a text and does not count. -/
def byteOrderMark : Char := Char.ofNat 0xFEFF

/-- Reads a document. -/
def read (text : String) : Option Entries :=
  let cs := text.toList
  let cs := if cs.head? = some byteOrderMark then cs.drop 1 else cs
  lines ⟨[], []⟩ (cs.length + 1) cs

end Toml
end ContentOverlay
