/-!
# The parts of a configuration text

Characters, blanks, line ends and comments, and two ways to read several things in a row.

A reader looks at the front of a text and gives what it has read and what follows, or nothing.
-/

set_option autoImplicit false

namespace ContentOverlay
namespace Toml

/-- Reads something from the front of a text. -/
abbrev Read (α : Type) := List Char → Option (α × List Char)

/-- Blanks within a line. -/
def isBlank (c : Char) : Bool := c = ' ' ∨ c = '\t'

/-- Control characters. -/
def isControl (c : Char) : Bool := c.toNat < 32 ∨ c.toNat = 127

/-- The characters that may stand in a comment or in quotes: all but the control characters, of
which the tabulator alone is allowed. -/
def isText (c : Char) : Bool := c = '\t' ∨ !isControl c

/-- What follows a line end. -/
def lineEnd? : List Char → Option (List Char)
  | '\n' :: rest => some rest
  | '\r' :: '\n' :: rest => some rest
  | _ => none

/-- What follows the blanks. -/
def skipBlanks (cs : List Char) : List Char := cs.dropWhile isBlank

/-- What follows a comment, if there is one. -/
def skipComment : List Char → List Char
  | '#' :: rest => rest.dropWhile isText
  | cs => cs

/-- What follows the line, of which nothing but blanks and a comment may be left. -/
def endOfLine? (cs : List Char) : Option (List Char) :=
  match skipComment (skipBlanks cs) with
  | [] => some []
  | rest => lineEnd? rest

/-- What follows blanks, comments and line ends.  A comment that is broken by a control character
ends there, and nothing can be read at such a place. -/
def skipLines (inComment : Bool) : List Char → List Char
  | [] => []
  | '\n' :: rest => skipLines false rest
  | '\r' :: '\n' :: rest => skipLines false rest
  | c :: rest =>
    if inComment then (if isText c then skipLines true rest else c :: rest)
    else if isBlank c then skipLines false rest
    else if c = '#' then skipLines true rest
    else c :: rest

/-- Reads a given character. -/
def symbol (c : Char) : Read Unit
  | [] => none
  | d :: rest => if c = d then some ((), rest) else none

/-! ## Several things in a row -/

/-- Reads things as long as there are some, at most `fuel` of them; `acc` has those before, last one
first. -/
def many {α : Type} (item : Read α) (acc : List α) : (fuel : Nat) → List Char → List α × List Char
  | 0, cs => (acc.reverse, cs)
  | fuel + 1, cs =>
    match item cs with
    | none => (acc.reverse, cs)
    | some (a, rest) => many item (a :: acc) fuel rest

/-- Reads things with a separator between them, one at least and at most `fuel`.  A separator that
nothing follows is left where it is. -/
def separated {α : Type} (separator : Char) (item : Read α) : (fuel : Nat) → Read (List α)
  | 0, _ => none
  | fuel + 1, cs =>
    match item cs with
    | none => none
    | some (a, rest) =>
      match symbol separator rest with
      | none => some ([a], rest)
      | some (_, after) =>
        match separated separator item fuel after with
        | none => some ([a], rest)
        | some (as, rest) => some (a :: as, rest)

end Toml
end ContentOverlay
