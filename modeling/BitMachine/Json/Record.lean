import BitMachine.Json.Reader

/-!
# Records in JSON

A record with named fields is written as an object, or as the array of its fields in order.
Fields may not be repeated. In an object the fields may stand in any order, and one may be
missing; what that means is for the reader of the field to say.

* `Json.record?` — the fields of a record that ignores members it does not know.
* `Json.settings?` — the fields of a record that refuses members it does not know, and whose
  array form may be cut short.
-/

namespace BitMachine.Json

/-- Whether no key occurs twice. -/
def distinctKeys : List (String × Json) → Bool
  | [] => true
  | (key, _) :: rest => (rest.lookup key).isNone && distinctKeys rest

/-- The values of the named fields in the order of the names. -/
def pickFields? (names : List String) (members : List (String × Json)) :
    Option (List (Option Json)) :=
  if distinctKeys members then some (names.map fun name => members.lookup name) else none

/-- The fields of a record that ignores members it does not know. -/
def record? (names : List String) : Json → Option (List (Option Json))
  | .array items => if items.length = names.length then some (items.map some) else none
  | j => do pickFields? names ((← j.members?).filter fun (key, _) => names.contains key)

/-- The fields of a record that refuses members it does not know. -/
def settings? (names : List String) : Json → Option (List (Option Json))
  | .array items =>
    if items.length ≤ names.length then
      some (items.map some ++ List.replicate (names.length - items.length) none)
    else none
  | j => do
    let members ← j.members?
    if members.all fun (key, _) => names.contains key then pickFields? names members else none

/-- The name and the content of a tagged value, an object with one member. -/
def tagged? : Json → Option (String × Json)
  | .object [(key, value)] => (unescape? key).map fun key => (String.ofList key, value)
  | _ => none

end BitMachine.Json
