import ContentOverlay.Toml.Moment
import ContentOverlay.Toml.Node
import ContentOverlay.Toml.Number
import ContentOverlay.Toml.Quoted

/-!
# Keys and values

A key is a bare word or a text in quotes; several keys with dots between them are a path.

Arrays may run over several lines and may end in a comma.  Tables that are written as values stand
on one line.  Arrays and tables nest to a limited depth, and paths have a limited length.
-/

set_option autoImplicit false

namespace ContentOverlay
namespace Toml

/-- The length that a path must not reach, and one more than how deep values nest. -/
def depthBound : Nat := 80

/-! ## Keys -/

/-- The characters of bare keys. -/
def isBare (c : Char) : Bool :=
  ('a' ≤ c ∧ c ≤ 'z') ∨ ('A' ≤ c ∧ c ≤ 'Z') ∨ ('0' ≤ c ∧ c ≤ '9') ∨ c = '_' ∨ c = '-'

/-- Reads a key. -/
def simpleKey : Read String := fun cs =>
  match readLine cs with
  | some p => some p
  | none =>
    match cs.takeWhile isBare with
    | [] => none
    | word => some (String.ofList word, cs.dropWhile isBare)

/-- Reads a key with blanks around it. -/
def spacedKey : Read String := fun cs =>
  (simpleKey (skipBlanks cs)).map fun p => (p.1, skipBlanks p.2)

/-- Reads a path of keys. -/
def keyPath : Read (List String) := fun cs =>
  match separated '.' spacedKey cs.length cs with
  | some (path, rest) => if path.length < depthBound then some (path, rest) else none
  | none => none

/-! ## Values -/

/-- Reads a given word. -/
def word (w : List Char) : Read Unit := fun cs =>
  if w.isPrefixOf cs then some ((), cs.drop w.length) else none

/-- Reads the first of several things that is there. -/
def firstOf {α : Type} : List (Read α) → Read α
  | [], _ => none
  | r :: rs, cs =>
    match r cs with
    | some p => some p
    | none => firstOf rs cs

/-- Reads something and says what it is. -/
def readAs {α β : Type} (f : α → β) (r : Read α) : Read β := fun cs =>
  (r cs).map fun p => (f p.1, p.2)

/-- Reads a value that holds no others. -/
def scalar : Read Node :=
  firstOf [readAs Node.text readQuoted, readAs (fun _ => Node.moment) moment,
    readAs Node.decimal decimal, readAs Node.integer integer,
    readAs (fun _ => Node.truth true) (word "true".toList),
    readAs (fun _ => Node.truth false) (word "false".toList)]

/-- Reads the rest of an array whose items are read by `item`. -/
def arrayRest (item : Read Node) : Read (List Node) := fun cs =>
  let spaced : Read Node := fun cs =>
    (item (skipLines false cs)).map fun p => (p.1, skipLines false p.2)
  let close := fun (items : List Node) (cs : List Char) =>
    readAs (fun _ => items) (symbol ']') (skipLines false cs)
  match separated ',' spaced cs.length cs with
  | none => close [] cs
  | some (items, rest) =>
    match symbol ',' rest with
    | some (_, rest) => close items rest
    | none => close items rest

/-- Reads a path and what stands under it. -/
def keyValue (item : Read Node) : Read (List String × Node) := fun cs =>
  match keyPath cs with
  | none => none
  | some (path, rest) =>
    match symbol '=' rest with
    | none => none
    | some (_, rest) =>
      (item (skipBlanks rest)).map fun p => ((path, p.1), p.2)

/-- Adds what stands under some paths. -/
def collect (es : Entries) : List (List String × Node) → Option Entries
  | [] => some es
  | (path, node) :: more =>
    match es.insertDotted node path with
    | some es => collect es more
    | none => none

/-- Reads the rest of a table that is a value and whose members are read by `item`. -/
def tableRest (item : Read Node) : Read Entries := fun cs =>
  let spaced : Read (List String × Node) := fun cs =>
    (keyValue item cs).map fun p => (p.1, skipBlanks p.2)
  match separated ',' spaced cs.length cs with
  | none => readAs (fun _ => []) (symbol '\x7d') (skipBlanks cs)
  | some (pairs, rest) =>
    match collect [] pairs with
    | none => none
    | some es => readAs (fun _ => es) (symbol '\x7d') rest

/-- Reads a value in which others nest to the given depth. -/
def value : (depth : Nat) → Read Node
  | 0, cs => scalar cs
  | depth + 1, cs =>
    match cs with
    | '[' :: rest => readAs Node.array (arrayRest (value depth)) rest
    | '\x7b' :: rest => readAs Node.closed (tableRest (value depth)) rest
    | cs => scalar cs

end Toml
end ContentOverlay
