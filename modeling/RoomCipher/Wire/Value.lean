/-! Structured values as the transport carries them: the data model of JSON. A
record is written as an object with its fields by name, and read from such an
object, whose other fields do not matter; a choice is written as its label. -/

namespace RoomCipher

namespace Wire

inductive Value where
  | null
  | bool (value : Bool)
  | natural (value : Nat)
  /-- A number that is negative or has a fractional part. -/
  | otherNumber
  | text (value : String)
  | list (items : List Value)
  | object (fields : List (String × Value))
  deriving Inhabited

namespace Value

/-- The largest natural numbers a field may hold: one byte, or eight. -/
def maxByte : Nat := (1 <<< 8) - 1

def maxWord : Nat := (1 <<< 64) - 1

def text? : Value → Option String
  | text value => some value
  | _ => none

/-- A natural number up to a bound. -/
def natural? (bound : Nat) : Value → Option Nat
  | natural value => if value ≤ bound then some value else none
  | _ => none

/-- A field of an object. -/
def field? (name : String) : Value → Option Value
  | object fields => fields.lookup name
  | _ => none

/-- The fields of a record in the given order: by name from an object, or all of them in that
order from a list. -/
def record? (names : List String) : Value → Option (List Value)
  | object fields => names.mapM fun name => fields.lookup name
  | list items => if items.length = names.length then some items else none
  | _ => none

/-- The label of a choice: a text, or an object with nothing under that one name. -/
def label? : Value → Option String
  | text label => some label
  | object [(label, null)] => some label
  | _ => none

/-- The choice whose label this is. -/
def choice? {α : Type} (all : List α) (label : α → String) (value : Value) : Option α := do
  let text ← value.label?
  all.find? (label · == text)

end Value

end Wire

end RoomCipher
