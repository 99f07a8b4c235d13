import ContentOverlay.Config.Basic
import ContentOverlay.Decimal.Integer
import ContentOverlay.Toml.Document
import ContentOverlay.Toml.Quoting

/-!
# The text of a configuration

A configuration is written as a TOML document with two settings.  Reading takes the default for a
setting that is missing, and ignores whatever else there is.

The integers of such documents have 64 bits with a sign, so not every buffer size can be written.
-/

set_option autoImplicit false

namespace ContentOverlay
namespace Config

/-- The key of the base version. -/
def baseVersionKey : String := "initial_base_version"

/-- The key of the buffer size. -/
def capacityKey : String := "binary_buffer_capacity"

/-- The first buffer size that a document cannot hold. -/
def writtenBound : Nat := Toml.integerBound

/-! ## Reading -/

/-- The base version of a document. -/
def baseVersionOf? : Option Toml.Node → Option String
  | none => some default.baseVersion
  | some (.text t) => some t
  | some _ => none

/-- The buffer size of a document. -/
def capacityOf? : Option Toml.Node → Option Nat
  | none => some default.capacity
  | some (.integer n) => if 0 ≤ n then some n.toNat else none
  | some _ => none

/-- The settings of a document. -/
def ofEntries? (es : Toml.Entries) : Option Config := do
  let baseVersion ← baseVersionOf? (es.get? baseVersionKey)
  return ⟨baseVersion, ← capacityOf? (es.get? capacityKey)⟩

/-- The configuration of a text. -/
def read (text : String) : Except Fault Config :=
  match (Toml.read text).bind ofEntries? with
  | some c => c.check
  | none => .error .unreadable

/-! ## Writing -/

/-- A setting on a line of its own. -/
def settingLine (key : String) (value : List Char) : List Char :=
  key.toList ++ [' ', '=', ' '] ++ value ++ ['\n']

/-- The text of a configuration, which need not be one that may be used. -/
def write (c : Config) : Except Fault String :=
  if c.capacity < writtenBound then
    .ok (String.ofList (settingLine baseVersionKey (Toml.writeQuoted c.baseVersion) ++
      settingLine capacityKey (Nat.toDigits 10 c.capacity)))
  else .error .unwritable

end Config
end ContentOverlay
