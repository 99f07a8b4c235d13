import ContentOverlay.Config.Settings
import ContentOverlay.Directory
import ContentOverlay.Text.Utf8

/-!
# The file of a configuration

A configuration is loaded from a file, saved to one, and a file with the default text is made where
there is none.
-/

set_option autoImplicit false

namespace ContentOverlay

/-- The text of a file. -/
def Directory.readText (d : Directory) (path : String) : Except Fault String :=
  match d.read path with
  | .error why => .error why
  | .ok bytes => (Utf8.toString? bytes).mapError fun _ => .notText

namespace Config

/-- Loads a configuration. -/
def load (d : Directory) (path : String) : Except Fault Config :=
  match d.readText path with
  | .error why => .error (.readFile (d.shown path) why.message)
  | .ok text => (read text).mapError (.inFile (d.shown path))

/-- Makes a file with the default text, if there is nothing at the path. -/
def writeDefault (d : Directory) (path : String) : Except Fault Directory :=
  if d.has path then .ok d
  else
    (d.write path (Utf8.ofString defaultText)).mapError fun why =>
      .writeDefault (d.shown path) why.message

/-- Saves a configuration, whether or not it may be used. -/
def save (c : Config) (d : Directory) (path : String) : Except Fault Directory :=
  match c.write with
  | .error fault => .error fault
  | .ok text =>
    (d.write path (Utf8.ofString text)).mapError fun why =>
      .writeFile (d.shown path) why.message

end Config
end ContentOverlay
