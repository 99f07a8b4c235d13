import ContentOverlay.Text.Hex
import ContentOverlay.Toml.Lexical

/-!
# Quoting texts

Of the four ways to write a text between quotes the first is taken that shows the text as it is:
basic, literal, basic over several lines, literal over several lines.  Only the tabulator is escaped
where it could be shown.  A text that none of them can show is written in the basic way with all the
escapes it needs, over several lines if it has a line feed.
-/

set_option autoImplicit false

namespace ContentOverlay
namespace Toml

/-- The four ways to write a text. -/
inductive Quoting where
  | basic
  | literal
  | basicLines
  | literalLines
deriving DecidableEq

/-- Whether a character cannot be shown: a control character other than the tabulator and the line
feed. -/
def isHidden (c : Char) : Bool := isControl c ∧ c ≠ '\t' ∧ c ≠ '\n'

/-- The length of the longest run of a character; `run` is the one that is going on. -/
def longestRun (quote : Char) (run : Nat) : List Char → Nat
  | [] => run
  | c :: cs =>
    if c = quote then longestRun quote (run + 1) cs else max run (longestRun quote 0 cs)

/-- Whether a way of writing shows a text as it is. -/
def Quoting.suits (cs : List Char) : Quoting → Bool
  | basic => !cs.any isHidden && !cs.contains '\\' && !cs.contains '"' && !cs.contains '\n'
  | literal => !cs.any isHidden && !cs.contains '\'' && !cs.contains '\n'
  | basicLines => !cs.any isHidden && !cs.contains '\\' && longestRun '"' 0 cs ≤ 2
  | literalLines => !cs.any isHidden && longestRun '\'' 0 cs ≤ 2

/-- How a text is written. -/
def quotingOf (cs : List Char) : Quoting :=
  match [Quoting.basic, .literal, .basicLines, .literalLines].find? (·.suits cs) with
  | some q => q
  | none => if cs.contains '\n' then .basicLines else .basic

/-- A character with a backslash before it, or its code after one. -/
def escapeOf (c : Char) : Option (List Char) :=
  if c = '\x08' then some ['\\', 'b']
  else if c = '\t' then some ['\\', 't']
  else if c = '\n' then some ['\\', 'n']
  else if c = '\x0c' then some ['\\', 'f']
  else if c = '\r' then some ['\\', 'r']
  else if c = '\\' then some ['\\', '\\']
  else if isControl c then some ('\\' :: 'u' :: (Hex.digits 4 c.toNat).map Char.toUpper)
  else none

/-- The characters between double quotes, on one line. -/
def escapeAll (cs : List Char) : List Char :=
  cs.flatMap fun c => if c = '"' then ['\\', '"'] else (escapeOf c).getD [c]

/-- The characters between three double quotes.  Line feeds stand as they are, and so do two quotes
in a row, but not a third; `run` counts those that have just been written. -/
def escapeLines (run : Nat) : List Char → List Char
  | [] => []
  | c :: cs =>
    if c = '"' then
      if run < 2 then '"' :: escapeLines (run + 1) cs else '\\' :: '"' :: escapeLines 0 cs
    else if c = '\n' then '\n' :: escapeLines 0 cs
    else (escapeOf c).getD [c] ++ escapeLines 0 cs

/-- The quotes at either end. -/
def Quoting.quotes : Quoting → List Char
  | basic => ['"']
  | literal => ['\'']
  | basicLines => ['"', '"', '"']
  | literalLines => ['\'', '\'', '\'']

/-- What stands between the quotes.  A text of several lines begins on a line of its own. -/
def Quoting.body (cs : List Char) : Quoting → List Char
  | basic => escapeAll cs
  | literal => cs
  | basicLines => (if cs.contains '\n' then ['\n'] else []) ++ escapeLines 0 cs
  | literalLines => (if cs.contains '\n' then ['\n'] else []) ++ cs

/-- The characters of a text, quoted. -/
def writeQuoted (t : String) : List Char :=
  let q := quotingOf t.toList
  q.quotes ++ q.body t.toList ++ q.quotes

end Toml
end ContentOverlay
