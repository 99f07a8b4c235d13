/-!
# Kinds of values

The values of a property all have one kind, and the property knows it by a code.  The kind
*undefined*, of code 0, has no values.
-/

set_option autoImplicit false

namespace ContentOverlay

/-- The kind of a value. -/
inductive Kind where
  | undefined
  | string
  | binary
  | long
  | double
  | date
  | boolean
  | name
  | path
  | reference
deriving DecidableEq

namespace Kind

/-- All kinds, in the order of their codes. -/
def all : List Kind :=
  [undefined, string, binary, long, double, date, boolean, name, path, reference]

/-- The code of a kind. -/
def code : Kind → Int
  | undefined => 0
  | string => 1
  | binary => 2
  | long => 3
  | double => 4
  | date => 5
  | boolean => 6
  | name => 7
  | path => 8
  | reference => 9

/-- The kind of a code. -/
def ofCode? (code : Int) : Option Kind := all.find? (·.code == code)

/-- What a kind is called. -/
def label : Kind → String
  | undefined => "Undefined"
  | string => "String"
  | binary => "Binary"
  | long => "Long"
  | double => "Double"
  | date => "Date"
  | boolean => "Boolean"
  | name => "Name"
  | path => "Path"
  | reference => "Reference"

/-- The kind of nothing in particular. -/
def default : Kind := undefined

theorem ofCode?_code (k : Kind) : ofCode? k.code = some k := by cases k <;> rfl

theorem code_injective {k l : Kind} (h : k.code = l.code) : k = l := by
  have hk := ofCode?_code k
  rw [h, ofCode?_code] at hk
  exact (Option.some.inj hk).symm

end Kind
end ContentOverlay
