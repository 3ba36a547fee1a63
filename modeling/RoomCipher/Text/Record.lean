/-! One-line renderings of structured values, for logs and inspection. -/

namespace RoomCipher

namespace Text

/-- The opening and closing brace of a record; a text cannot hold them bare. -/
def openBrace : String := "\x7b"

def closeBrace : String := "\x7d"

/-- A named record. A record that keeps some of its fields to itself ends in two dots. -/
def record (name : String) (fields : List (String × String)) (hidden : Bool) : String :=
  let shown := fields.map fun (label, text) => label ++ ": " ++ text
  let parts := if hidden then shown ++ [".."] else shown
  name ++ " " ++ openBrace ++ " " ++ ", ".intercalate parts ++ " " ++ closeBrace

/-- A sequence in square brackets. -/
def sequence (items : List String) : String :=
  "[" ++ ", ".intercalate items ++ "]"

/-- A value that may be missing. -/
def optional (value : Option String) : String :=
  match value with
  | some text => "Some(" ++ text ++ ")"
  | none => "None"

end Text

end RoomCipher
