import ContentOverlay.Record.Writing
import ContentOverlay.Text.Blank

/-!
# Configuration

A configuration says which base version new states get, and how large the buffer for the text of
binary values is at first.  It is kept in a file.

`Config.check` accepts a configuration whose base version is not blank and whose buffer size is not
zero.  `Config.Fault` has everything that can go wrong with a configuration or with its file.
-/

set_option autoImplicit false

namespace ContentOverlay

/-- Settings for the construction and the encoding of states. -/
structure Config where
  /-- The base version of states that overlay nothing. -/
  baseVersion : String
  /-- The first size of the buffer for the text of a binary value, in bytes. -/
  capacity : Nat
deriving DecidableEq

namespace Config

/-- The base version of states, unless it is configured. -/
def defaultBaseVersion : String := "v0.0"

/-- The settings that hold without a file. -/
def default : Config := ⟨defaultBaseVersion, Record.defaultCapacity⟩

/-- The usual name of the file. -/
def fileName : String := "itemstate.toml"

/-- The text of the file that is written when there is none. -/
def defaultText : String :=
  "# Item-state configuration\n" ++
  "#\n" ++
  "# Base version assigned to freshly constructed (non-overlay) states.\n" ++
  "initial_base_version = \"v0.0\"\n" ++
  "\n" ++
  "# Initial buffer size in bytes for the base64 text of binary values.\n" ++
  "# Binary payloads are usually large; raise this for bulk binary workloads.\n" ++
  "binary_buffer_capacity = 32768\n"

/-! ## What can go wrong -/

/-- What can go wrong with a configuration. -/
inductive Fault where
  | blankBaseVersion
  | zeroCapacity
  /-- The text is not TOML, or a setting has the wrong type. -/
  | unreadable
  /-- The settings cannot be written as TOML. -/
  | unwritable
  /-- The file at this path cannot be read. -/
  | readFile (path reason : String)
  /-- The file at this path cannot be given the default text. -/
  | writeDefault (path reason : String)
  /-- The file at this path cannot be written. -/
  | writeFile (path reason : String)
  /-- The text of the file at this path is faulty. -/
  | inFile (path : String) (fault : Fault)
deriving DecidableEq

/-- The words for a fault, after what all of them begin with. -/
def Fault.detail : Fault → String
  | blankBaseVersion => "initial_base_version must not be empty"
  | zeroCapacity => "binary_buffer_capacity must be greater than 0"
  | unreadable => "Failed to parse config"
  | unwritable => "Failed to serialize config"
  | readFile path reason => "Failed to read config file '" ++ path ++ "': " ++ reason
  | writeDefault path reason => "Failed to write default config file '" ++ path ++ "': " ++ reason
  | writeFile path reason => "Failed to write config file '" ++ path ++ "': " ++ reason
  | inFile path fault =>
    "Invalid config file '" ++ path ++ "': configuration error: " ++ fault.detail

/-- The words for a fault. -/
def Fault.message (f : Fault) : String := "configuration error: " ++ f.detail

/-! ## Validation -/

/-- The configuration, if it may be used. -/
def check (c : Config) : Except Fault Config :=
  if Blank.isBlankText c.baseVersion then .error .blankBaseVersion
  else if c.capacity = 0 then .error .zeroCapacity
  else .ok c

theorem check_eq_ok_iff {c d : Config} :
    c.check = .ok d ↔ c = d ∧ Blank.isBlankText c.baseVersion = false ∧ c.capacity ≠ 0 := by
  unfold check
  split
  · simp_all
  · split <;> simp_all

end Config
end ContentOverlay
