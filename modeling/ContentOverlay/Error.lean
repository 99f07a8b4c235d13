import ContentOverlay.Config.Basic
import ContentOverlay.Record.Basic
import ContentOverlay.Status

/-!
# Errors

One type for everything that an operation of the library may report.  An error is its cause; the
words for it are derived.

An error is a *programming error* when the caller could have known better: it chose a status or a
target that the operation never accepts, or used a code that stands for no status.
-/

set_option autoImplicit false

namespace ContentOverlay

/-- The two ways to construct a state. -/
inductive Construction where
  | fresh
  | overlay
deriving DecidableEq

/-- What a construction is called. -/
def Construction.label : Construction → String
  | fresh => "fresh construction"
  | overlay => "overlay construction"

/-- What an operation may report. -/
inductive Error where
  /-- A state cannot begin with this status. -/
  | illegalStatus (status : Status) (construction : Construction)
  /-- No status has this code. -/
  | unknownStatusCode (code : Int)
  /-- No kind has this code. -/
  | unknownKindCode (code : Int)
  /-- The state to be overlaid overlays another one itself. -/
  | nestedOverlay (target : ItemId)
  /-- A text is no value of a kind. -/
  | value (fault : Value.Fault)
  /-- A text, or a pair of parts, is no name. -/
  | name (fault : Name.Fault)
  /-- The byte form of a record. -/
  | record (error : Record.Error)
  /-- The configuration. -/
  | config (fault : Config.Fault)
deriving DecidableEq

namespace Error

/-- The words for an error. -/
def message : Error → String
  | illegalStatus status construction =>
    "illegal status " ++ status.name ++ " for " ++ construction.label
  | unknownStatusCode code => s!"illegal status code: {code}"
  | unknownKindCode code => s!"unknown property type code: {code}"
  | nestedOverlay target => "cannot overlay " ++ target.text ++ ": target is itself an overlay"
  | value fault => fault.message
  | name fault => fault.message
  | record error => error.message
  | config fault => fault.message

/-- The words for the causes of an error, outermost first. -/
def sources : Error → List String
  | record error => error.cause.messages
  | _ => []

/-- Whether the caller could have known better. -/
def isProgramming : Error → Bool
  | illegalStatus _ _ => true
  | unknownStatusCode _ => true
  | nestedOverlay _ => true
  | _ => false

end Error

/-! ## Codes -/

/-- The status of a code. -/
def Status.ofCode (code : Int) : Except Error Status :=
  match Status.ofCode? code with
  | some status => .ok status
  | none => .error (.unknownStatusCode code)

/-- The kind of a code. -/
def Kind.ofCode (code : Int) : Except Error Kind :=
  match Kind.ofCode? code with
  | some kind => .ok kind
  | none => .error (.unknownKindCode code)

end ContentOverlay
