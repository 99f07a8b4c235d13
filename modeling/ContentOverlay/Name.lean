/-!
# Qualified names

A name is a local part in a namespace.  It is written `{uri}local`, with empty braces for the empty
namespace; a text without braces is read as a name in the empty namespace.

A name that was built from parts or read from text has a non-empty local part and no brace in either
part, which is what makes its text unambiguous.  The type itself does not insist on that: a name may
also arrive as a JSON document, which is taken as it is.
-/

set_option autoImplicit false

namespace ContentOverlay

/-- A local name in a namespace. -/
structure Name where
  uri : String
  localPart : String
deriving DecidableEq

namespace Name

/-- `{uri}local`. -/
def render (uri localPart : String) : String := "\x7b" ++ uri ++ "\x7d" ++ localPart

/-- The text of a name. -/
def text (n : Name) : String := render n.uri n.localPart

/-- Why there is no such name. -/
inductive Fault where
  /-- The local part is empty. -/
  | emptyLocalPart
  /-- A part holds a brace. -/
  | brace (uri localPart : String)
  /-- An opening brace without a closing one. -/
  | unclosed (text : String)
deriving DecidableEq

/-- The words for a fault. -/
def Fault.message : Fault → String
  | .emptyLocalPart => "invalid qualified name: empty local name"
  | .brace uri localPart => "invalid qualified name: " ++ render uri localPart
  | .unclosed text => "invalid qualified name: " ++ text

/-- Braces delimit the namespace in a name's text. -/
def isBrace (c : Char) : Bool := c = '{' ∨ c = '}'

/-- Whether a part of a name holds a brace. -/
def hasBrace (part : String) : Bool := part.toList.any isBrace

/-- The name of two parts. -/
def ofParts (uri localPart : String) : Except Fault Name :=
  if localPart.toList = [] then .error .emptyLocalPart
  else if hasBrace uri || hasBrace localPart then .error (.brace uri localPart)
  else .ok ⟨uri, localPart⟩

/-- Splits a text at its first closing brace. -/
def splitAtBrace : List Char → Option (List Char × List Char)
  | [] => none
  | c :: cs => if c = '}' then some ([], cs) else (splitAtBrace cs).map fun p => (c :: p.1, p.2)

/-- Reads a name.  The namespace reaches to the first closing brace. -/
def read (text : String) : Except Fault Name :=
  match text.toList with
  | '{' :: cs =>
    match splitAtBrace cs with
    | some (uri, localPart) => ofParts (String.ofList uri) (String.ofList localPart)
    | none => .error (.unclosed text)
  | _ => ofParts "" text

/-- Names are ordered by namespace, then by local part, both by code points, which is also the order
of their UTF-8 bytes. -/
def precedes (a b : Name) : Bool :=
  a.uri < b.uri ∨ (a.uri = b.uri ∧ a.localPart < b.localPart)

/-- The names in order, each once. -/
def sorted (names : List Name) : List Name :=
  names.eraseDups.mergeSort fun a b => !precedes b a

end Name
end ContentOverlay
