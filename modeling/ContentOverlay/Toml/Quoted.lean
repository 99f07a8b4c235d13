import ContentOverlay.Text.Hex
import ContentOverlay.Toml.Lexical

/-!
# Quoted texts

A text is written between quotes in one of four ways: *basic* with double quotes, where a backslash
escapes, and *literal* with single quotes, where nothing does; and each of the two on one line with
one quote at either end, or over several lines with three.

Over several lines, a line end right after the opening quotes does not count, every other one stands
for a line feed, and one or two quotes may stand for themselves, also right before the closing ones.

`readQuoted` reads all four, and `readLine` the two that stay on one line.
-/

set_option autoImplicit false

namespace ContentOverlay
namespace Toml

/-- The character that a letter after a backslash stands for. -/
def escaped? : Char → Option Char
  | 'b' => some '\x08'
  | 't' => some '\t'
  | 'n' => some '\n'
  | 'f' => some '\x0c'
  | 'r' => some '\r'
  | '"' => some '"'
  | '\\' => some '\\'
  | _ => none

/-- Whether a number is that of a character. -/
def isScalar (n : Nat) : Bool := n < 0xD800 ∨ (0xE000 ≤ n ∧ n < 0x110000)

/-- A character given by so many hexadecimal digits. -/
def coded (count : Nat) : Read Char := fun cs =>
  let digits := cs.take count
  match Hex.number? digits with
  | some n =>
    if digits.length = count ∧ isScalar n then some (Char.ofNat n, cs.drop count) else none
  | none => none

/-- What follows a backslash. -/
def escape : Read Char
  | 'u' :: rest => coded 4 rest
  | 'U' :: rest => coded 8 rest
  | c :: rest => (escaped? c).map (·, rest)
  | [] => none

/-- A character between double quotes. -/
def basicChar : Read Char
  | '\\' :: rest => escape rest
  | c :: rest => if isText c ∧ c ≠ '"' then some (c, rest) else none
  | [] => none

/-- A character between single quotes. -/
def literalChar : Read Char
  | c :: rest => if isText c ∧ c ≠ '\'' then some (c, rest) else none
  | [] => none

/-- One or two quotes that another character follows. -/
def innerQuotes (quote : Char) : Read (List Char)
  | a :: b :: c :: rest =>
    if a = quote ∧ b = quote ∧ c ≠ quote then some ([a, b], c :: rest)
    else if a = quote ∧ b ≠ quote then some ([a], b :: c :: rest)
    else none
  | [a, b] => if a = quote ∧ b ≠ quote then some ([a], [b]) else none
  | _ => none

/-- What follows a backslash at the end of a line, and all blanks and line ends after it. -/
def continuation? (cs : List Char) : Option (List Char) :=
  (lineEnd? (skipBlanks cs)).map (skipBlankLines ·)
where
  /-- What follows blanks and line ends. -/
  skipBlankLines : List Char → List Char
    | [] => []
    | '\n' :: rest => skipBlankLines rest
    | '\r' :: '\n' :: rest => skipBlankLines rest
    | c :: rest => if isBlank c then skipBlankLines rest else c :: rest

/-- A piece between three double quotes. -/
def basicPiece : Read (List Char)
  | '"' :: rest => innerQuotes '"' ('"' :: rest)
  | '\\' :: rest =>
    match continuation? rest with
    | some rest => some ([], rest)
    | none => (escape rest).map fun p => ([p.1], p.2)
  | cs =>
    match lineEnd? cs with
    | some rest => some (['\n'], rest)
    | none => (basicChar cs).map fun p => ([p.1], p.2)

/-- A piece between three single quotes. -/
def literalPiece : Read (List Char)
  | '\'' :: rest => innerQuotes '\'' ('\'' :: rest)
  | cs =>
    match lineEnd? cs with
    | some rest => some (['\n'], rest)
    | none => (literalChar cs).map fun p => ([p.1], p.2)

/-- The end of a text on several lines: three quotes, with up to two before them that belong to the
text. -/
def closing (quote : Char) : Read (List Char)
  | a :: b :: c :: rest =>
    if a = quote ∧ b = quote ∧ c = quote then
      match rest with
      | d :: e :: rest =>
        if d = quote ∧ e = quote then some ([quote, quote], rest)
        else if d = quote then some ([quote], e :: rest)
        else some ([], d :: e :: rest)
      | [d] => if d = quote then some ([quote], []) else some ([], [d])
      | [] => some ([], [])
    else none
  | _ => none

/-- The rest of a text on one line. -/
def oneLine (char : Read Char) (quote : Char) : Read String := fun cs =>
  let (chars, rest) := many char [] cs.length cs
  (symbol quote rest).map fun p => (String.ofList chars, p.2)

/-- The rest of a text on several lines. -/
def manyLines (piece : Read (List Char)) (quote : Char) : Read String := fun cs =>
  let cs := (lineEnd? cs).getD cs
  let (pieces, rest) := many piece [] cs.length cs
  (closing quote rest).map fun p => (String.ofList (pieces.flatten ++ p.1), p.2)

/-- A text on one line, quoted. -/
def readLine : Read String
  | '"' :: rest => oneLine basicChar '"' rest
  | '\'' :: rest => oneLine literalChar '\'' rest
  | _ => none

/-- A quoted text. -/
def readQuoted : Read String
  | '"' :: '"' :: '"' :: rest => manyLines basicPiece '"' rest
  | '\'' :: '\'' :: '\'' :: rest => manyLines literalPiece '\'' rest
  | cs => readLine cs

end Toml
end ContentOverlay
