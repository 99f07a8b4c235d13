import ContentOverlay.Decimal.Binary64

/-!
# Configuration documents

A TOML document is a tree of tables.  Values stand in tables under keys; tables are opened by
headers, or they come about along the way to something deeper, or they are written as values.

Which of these a table is decides what may still be added to it, so a table has a `Style`:

* a table that was *opened* by its header is added to under that header only;
* one that is *implied* by a longer header may still be opened, once;
* one that is implied by a *dotted* key grows by further dotted keys, and cannot be opened.

Tables and arrays that are values are closed.  An array of tables grows by an element with every
header of its own, and what comes after belongs to the last element.
-/

set_option autoImplicit false

namespace ContentOverlay
namespace Toml

/-- How a table came about. -/
inductive Style where
  | opened
  | implied
  | dotted
deriving DecidableEq

/-- What stands under a key. -/
inductive Node where
  | text (t : String)
  | integer (n : Int)
  | decimal (x : Binary64)
  | truth (b : Bool)
  /-- A date, a time, or both. -/
  | moment
  | array (items : List Node)
  /-- A table that is a value. -/
  | closed (entries : List (String × Node))
  | table (style : Style) (entries : List (String × Node))
  /-- An array of tables. -/
  | tables (elements : List (List (String × Node)))

/-- What stands in a table, in the order in which it was added. -/
abbrev Entries := List (String × Node)

namespace Entries

/-- What stands under a key. -/
def get? (es : Entries) (key : String) : Option Node := es.lookup key

/-- Adds something under a new key. -/
def push (es : Entries) (key : String) (node : Node) : Entries := es ++ [(key, node)]

/-- Puts something else under a key that is there. -/
def replace (es : Entries) (key : String) (node : Node) : Entries :=
  es.map fun e => if e.1 = key then (key, node) else e

/-! ## Adding -/

/-- Adds something under a dotted key.  The tables on the way may be implied ones, and the last of
them must come from dotted keys only. -/
def insertDotted (node : Node) : List String → Entries → Option Entries
  | [], _ => none
  | [key], es =>
    match es.get? key with
    | none => some (es.push key node)
    | some _ => none
  | key :: next :: path, es =>
    let direct := path.isEmpty
    match es.get? key with
    | none =>
      (insertDotted node (next :: path) []).map fun inner => es.push key (.table .dotted inner)
    | some (.table style inner) =>
      if style = .opened ∨ (direct ∧ style ≠ .dotted) then none
      else (insertDotted node (next :: path) inner).map fun inner =>
        es.replace key (.table style inner)
    | some (.tables elements) =>
      if direct then none
      else (insertDotted node (next :: path) (elements.getLast?.getD [])).map fun last =>
        es.replace key (.tables (elements.dropLast ++ [last]))
    | some _ => none

/-- Changes the table at the end of a path of headers.  Tables that are missing on the way are
implied. -/
def within (change : Entries → Option Entries) : List String → Entries → Option Entries
  | [], es => change es
  | key :: path, es =>
    match es.get? key with
    | none => (within change path []).map fun inner => es.push key (.table .implied inner)
    | some (.table style inner) =>
      (within change path inner).map fun inner => es.replace key (.table style inner)
    | some (.tables elements) =>
      (within change path (elements.getLast?.getD [])).map fun last =>
        es.replace key (.tables (elements.dropLast ++ [last]))
    | some _ => none

/-- Opens a table, which must be new or implied. -/
def openTable (key : String) (es : Entries) : Option Entries :=
  match es.get? key with
  | none => some (es.push key (.table .opened []))
  | some (.table .implied inner) => some (es.replace key (.table .opened inner))
  | some _ => none

/-- Begins another element of an array of tables. -/
def openElement (key : String) (es : Entries) : Option Entries :=
  match es.get? key with
  | none => some (es.push key (.tables [[]]))
  | some (.tables elements) => some (es.replace key (.tables (elements ++ [[]])))
  | some _ => none

end Entries
end Toml
end ContentOverlay
