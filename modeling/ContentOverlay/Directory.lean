/-!
# A directory of files

The files of one directory, by name, with their bytes.  There are no directories below it.

A path names a file relative to the directory.  Empty parts and single dots in it do not count; two
dots, or a slash at its beginning, lead out of the directory to where nothing is known to be.  What
a path leads to is its `Place`, which decides whether the file can be read or written.
-/

set_option autoImplicit false

namespace ContentOverlay

/-- A directory of files. -/
structure Directory where
  /-- What the directory is called in messages. -/
  label : String
  /-- The files, each name once. -/
  files : List (String × List UInt8)

namespace Directory

/-- Why a file cannot be read or written. -/
inductive Fault where
  | missing
  | isDirectory
  | notDirectory
  | nameTooLong
  | zeroByte
  /-- The file was to be read as a text, which it is not. -/
  | notText
deriving DecidableEq

/-- The words for a fault. -/
def Fault.message : Fault → String
  | missing => "No such file or directory (os error 2)"
  | isDirectory => "Is a directory (os error 21)"
  | notDirectory => "Not a directory (os error 20)"
  | nameTooLong => "File name too long (os error 36)"
  | zeroByte => "file name contained an unexpected NUL byte"
  | notText => "stream did not contain valid UTF-8"

/-- What a path leads to. -/
inductive Place where
  | directory
  /-- The file of this name, whether or not it is there.  A slash after the name asks for something
  that no file is. -/
  | file (name : String) (slash : Bool)
  /-- Nothing, for this reason. -/
  | nowhere (why : Fault)
deriving DecidableEq

/-- The length that a name may have, in bytes. -/
def nameBound : Nat := 255

/-- The length that a path may have with that of the directory in front, in bytes. -/
def pathBound : Nat := 4095

/-- What the parts of a path lead to from outside the directory. -/
def outside : List String → Place
  | [] => .directory
  | part :: parts =>
    if part = "" ∨ part = "." ∨ part = ".." then outside parts
    else if nameBound < part.utf8ByteSize then .nowhere .nameTooLong
    else .nowhere .missing

/-- What the parts of a path lead to from the directory. -/
def inside (d : Directory) : List String → Place
  | [] => .directory
  | part :: parts =>
    if part = "" ∨ part = "." then d.inside parts
    else if part = ".." then outside parts
    else if parts.all (· = "") then .file part !parts.isEmpty
    else if nameBound < part.utf8ByteSize then .nowhere .nameTooLong
    else if (d.files.lookup part).isSome then .nowhere .notDirectory
    else .nowhere .missing

/-- The parts of a path. -/
def parts (path : List Char) : List String := go [] path
where
  /-- The part so far has its last character first. -/
  go (acc : List Char) : List Char → List String
    | [] => [String.ofList acc.reverse]
    | c :: cs => if c = '/' then String.ofList acc.reverse :: go [] cs else go (c :: acc) cs

/-- Whether a path does not begin at the directory. -/
def isAbsolute (path : String) : Bool := path.toList.head? = some '/'

/-- A path with that of the directory in front, as messages show it. -/
def shown (d : Directory) (path : String) : String :=
  if isAbsolute path then path else d.label ++ "/" ++ path

/-- What a path leads to. -/
def place (d : Directory) (path : String) : Place :=
  if path.toList.contains '\x00' then .nowhere .zeroByte
  else if pathBound < (d.shown path).utf8ByteSize then .nowhere .nameTooLong
  else if isAbsolute path then outside (parts path.toList)
  else d.inside (parts path.toList)

/-- Whether there is something at a path. -/
def has (d : Directory) (path : String) : Bool :=
  match d.place path with
  | .directory => true
  | .file name slash => !slash && (d.files.lookup name).isSome
  | .nowhere _ => false

/-- The bytes of a file. -/
def read (d : Directory) (path : String) : Except Fault (List UInt8) :=
  match d.place path with
  | .directory => .error .isDirectory
  | .file name slash =>
    if nameBound < name.utf8ByteSize then .error .nameTooLong
    else
      match d.files.lookup name with
      | none => .error .missing
      | some bytes => if slash then .error .notDirectory else .ok bytes
  | .nowhere why => .error why

/-- Gives a file these bytes. -/
def put (d : Directory) (name : String) (bytes : List UInt8) : Directory :=
  { d with files := (name, bytes) :: d.files.filter (·.1 ≠ name) }

/-- Writes a file, which need not have been there. -/
def write (d : Directory) (path : String) (bytes : List UInt8) : Except Fault Directory :=
  match d.place path with
  | .directory => .error .isDirectory
  | .file name slash =>
    if slash then .error .isDirectory
    else if nameBound < name.utf8ByteSize then .error .nameTooLong
    else .ok (d.put name bytes)
  | .nowhere why => .error why

end Directory
end ContentOverlay
