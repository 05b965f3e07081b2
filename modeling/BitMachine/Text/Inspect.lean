/-!
# Inspection texts

The notation for looking into a value: a record is its name and its fields, a tagged value is
its tag and its contents, a list and a map stand in brackets.
-/

namespace BitMachine.Text

/-- A record, such as `Exit { code: 0 }`. A record without fields is its bare name. -/
def inspectRecord (name : String) (fields : List (String × String)) : String :=
  if fields.isEmpty then name
  else name ++ " \x7b " ++ ", ".intercalate (fields.map fun (key, value) => key ++ ": " ++ value)
    ++ " \x7d"

/-- A tagged value, such as `Halted(0)`. -/
def inspectTagged (tag content : String) : String :=
  tag ++ "(" ++ content ++ ")"

/-- A list, such as `[2, 3]`. -/
def inspectList (items : List String) : String :=
  "[" ++ ", ".intercalate items ++ "]"

/-- A map, its keys and values separated by colons. -/
def inspectMap (entries : List (String × String)) : String :=
  "\x7b" ++ ", ".intercalate (entries.map fun (key, value) => key ++ ": " ++ value) ++ "\x7d"

/-- A value that may be missing. -/
def inspectOption : Option String → String
  | some content => inspectTagged "Some" content
  | none => "None"

end BitMachine.Text
