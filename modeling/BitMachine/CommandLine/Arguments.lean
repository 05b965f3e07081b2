import BitMachine.Text.Decimal

/-!
# Arguments

The grammar of command line arguments. An option has a long name and may have a letter; its
value follows after `=`, directly after the letter, or as the next argument. Letters may be
joined. Two dashes end the options. An argument that starts with a dash and is not a single dash
is never a value of its own.

Arguments are read from left to right, and the first flaw counts. A request for help or for the
version ends the reading where it stands: what comes before it has to be right, what follows is
not looked at. A value that is an argument of its own is looked at when the next option or operand
is read, or at the end.

* `Reading` — what has been read so far.
* `Reading.step` — the effect of an argument.
* `readAll` — the reading of arguments to their end.
* `readLeading` — the reading up to the first argument that is neither an option nor a value.
-/

namespace BitMachine.Arguments

/-- What an option is for. -/
inductive OptionKind where
  /-- It is given or not. -/
  | flag
  /-- It has a number. -/
  | count
  /-- It has a path. -/
  | path
  /-- It asks how the program is used. -/
  | help
  /-- It asks for the version. -/
  | version
deriving DecidableEq

/-- Whether options of this kind have a value. -/
def OptionKind.takesValue : OptionKind → Bool
  | .count | .path => true
  | .flag | .help | .version => false

/-- An option. -/
structure OptionSpec where
  /-- The name after two dashes. -/
  long : String
  /-- The letter after one dash. -/
  short : Option Char := none
  /-- What the option is for. -/
  kind : OptionKind

/-- What can be read. -/
structure Grammar where
  /-- The options. -/
  options : List OptionSpec
  /-- The name of the path that has to be given beside the options. -/
  operand : Option String := none

/-- What an option was given as. -/
inductive OptionValue where
  /-- An option without a value. -/
  | given
  /-- An option with a number. -/
  | count (n : UInt64)
  /-- An option with a path. -/
  | path (text : String)
deriving DecidableEq

/-- What can be wrong with arguments. -/
inductive UsageError where
  | unknownOption (text : String)
  | missingValue (name : String)
  | unexpectedValue (name : String)
  | repeatedOption (name : String)
  | invalidValue (name : String) (value : String)
  | unknownCommand (name : String)
  | missingArgument (name : String)
  | unexpectedArgument (text : String)
deriving DecidableEq

/-- The message for a usage error. -/
def UsageError.message : UsageError → String
  | .unknownOption text => s!"error: unexpected option '{text}'"
  | .missingValue name => s!"error: a value is required for '{name}'"
  | .unexpectedValue name => s!"error: no value is allowed for '{name}'"
  | .repeatedOption name => s!"error: '{name}' cannot be used multiple times"
  | .invalidValue name value => s!"error: invalid value '{value}' for '{name}'"
  | .unknownCommand name => s!"error: unrecognized subcommand '{name}'"
  | .missingArgument name => s!"error: the argument '{name}' is required"
  | .unexpectedArgument text => s!"error: unexpected argument '{text}'"

/-- Why a reading does not go on. -/
inductive Interruption where
  /-- Something is wrong. -/
  | usage (error : UsageError)
  /-- The question how the program is used. -/
  | help
  /-- The question for the version. -/
  | version
deriving DecidableEq

/-- The number that a text stands for. A plus sign may stand in front. -/
def readCount? (text : String) : Option UInt64 :=
  match text.toList with
  | '+' :: digits => Text.readUInt64? digits
  | digits => Text.readUInt64? digits

/-- The path that a text stands for, which is not empty. -/
def readPath? (text : String) : Option String :=
  if text.isEmpty then none else some text

/-- What an option is given as with a value. -/
def OptionSpec.readValue? (spec : OptionSpec) (text : String) : Option OptionValue :=
  match spec.kind with
  | .count => (readCount? text).map .count
  | .path => (readPath? text).map .path
  | .flag | .help | .version => none

/-- What has been read so far. -/
structure Reading where
  /-- The options that were given, the last one first. -/
  options : List (String × OptionValue) := []
  /-- The path beside the options. -/
  operand : Option String := none
  /-- An option whose value has to follow, or is a following argument that was not looked at. -/
  pending : Option (OptionSpec × Option String) := none
  /-- Whether two dashes have ended the options. -/
  ended : Bool := false

namespace Reading

/-- Adds an option, which must not have been given before. -/
def add (r : Reading) (spec : OptionSpec) (value : OptionValue) : Except Interruption Reading :=
  if (r.options.lookup spec.long).isSome then .error (.usage (.repeatedOption spec.long))
  else .ok { r with options := (spec.long, value) :: r.options }

/-- Adds an option with the text of its value. -/
def addValue (r : Reading) (spec : OptionSpec) (text : String) : Except Interruption Reading :=
  match spec.readValue? text with
  | some value => r.add spec value
  | none => .error (.usage (.invalidValue spec.long text))

/-- Looks at the pending value. -/
def settle (r : Reading) : Except Interruption Reading :=
  match r.pending with
  | none => .ok r
  | some (spec, none) => .error (.usage (.missingValue spec.long))
  | some (spec, some text) => { r with pending := none }.addValue spec text

/-- The effect of an option that has no value. -/
def mark (r : Reading) (spec : OptionSpec) : Except Interruption Reading := do
  let r ← r.settle
  match spec.kind with
  | .help => throw .help
  | .version => throw .version
  | .flag | .count | .path => r.add spec .given

/-- The effect of an option that has a value, which follows if it is not there. -/
def expect (r : Reading) (spec : OptionSpec) (text : Option String) :
    Except Interruption Reading := do
  let r ← r.settle
  match text with
  | some text => r.addValue spec text
  | none => return { r with pending := some (spec, none) }

/-- The effect of an option that is written with its long name. -/
def long (r : Reading) (specs : List OptionSpec) (name : String) (text : Option String) :
    Except Interruption Reading :=
  match specs.find? (·.long == name) with
  | none => .error (.usage (.unknownOption name))
  | some spec =>
    if spec.kind.takesValue then r.expect spec text
    else if text.isSome then .error (.usage (.unexpectedValue name))
    else r.mark spec

/-- The effect of joined letters. What follows the letter of an option with a value is the value,
    less an equals sign in front. -/
def letters (specs : List OptionSpec) : Reading → List Char → Except Interruption Reading
  | r, [] => .ok r
  | r, c :: cs =>
    match specs.find? (·.short == some c) with
    | none => .error (.usage (.unknownOption (String.ofList [c])))
    | some spec =>
      if spec.kind.takesValue then
        match cs with
        | [] => r.expect spec none
        | '=' :: text => r.expect spec (some (String.ofList text))
        | text => r.expect spec (some (String.ofList text))
      else do letters specs (← r.mark spec) cs

/-- The effect of an argument that is no option and no value. -/
def addOperand (r : Reading) (grammar : Grammar) (arg : String) :
    Except Interruption Reading := do
  let r ← r.settle
  match grammar.operand, r.operand with
  | some name, none =>
    match readPath? arg with
    | some path => return { r with operand := some path }
    | none => throw (.usage (.invalidValue name arg))
  | _, _ => throw (.usage (.unexpectedArgument arg))

/-- Whether an argument is written like an option, or ends the options. -/
def looksLikeOption (arg : String) : Bool :=
  match arg.toList with
  | '-' :: _ :: _ => true
  | _ => false

/-- Whether the next argument is a value unless it looks like an option. -/
def awaitsValue (r : Reading) : Bool :=
  match r.pending with
  | some (_, none) => true
  | _ => false

/-- Whether an argument is neither an option nor a value. -/
def isOperand (r : Reading) (arg : String) : Bool :=
  r.ended || !(looksLikeOption arg || r.awaitsValue)

/-- The effect of an argument. -/
def step (r : Reading) (grammar : Grammar) (arg : String) : Except Interruption Reading :=
  if r.isOperand arg then r.addOperand grammar arg
  else match arg.toList with
    | ['-', '-'] => .ok { r with ended := true }
    | '-' :: '-' :: body =>
      let name := String.ofList (body.takeWhile (· != '='))
      match body.dropWhile (· != '=') with
      | [] => r.long grammar.options name none
      | _ :: text => r.long grammar.options name (some (String.ofList text))
    | '-' :: c :: cs => letters grammar.options r (c :: cs)
    | _ => .ok { r with pending := r.pending.map fun (spec, _) => (spec, some arg) }

/-- The number that an option was given. -/
def count? (r : Reading) (name : String) : Option UInt64 :=
  match r.options.lookup name with
  | some (.count n) => some n
  | _ => none

/-- The path that an option was given. -/
def path? (r : Reading) (name : String) : Option String :=
  match r.options.lookup name with
  | some (.path text) => some text
  | _ => none

/-- Whether an option was given. -/
def isGiven (r : Reading) (name : String) : Bool :=
  (r.options.lookup name).isSome

end Reading

/-- Reads arguments to their end. -/
def readAll (grammar : Grammar) (args : List String) : Except Interruption Reading := do
  let r ← args.foldlM (fun r arg => r.step grammar arg) ({} : Reading)
  let r ← r.settle
  match grammar.operand, r.operand with
  | some name, none => throw (.usage (.missingArgument name))
  | _, _ => return r

/-- Reads arguments up to the first that is neither an option nor a value; it and what follows
    are left over. The last value may still be pending. -/
def readLeading (grammar : Grammar) :
    Reading → List String → Except Interruption (Reading × List String)
  | r, [] => .ok (r, [])
  | r, arg :: rest =>
    if r.isOperand arg then .ok (r, arg :: rest)
    else do readLeading grammar (← r.step grammar arg) rest

end BitMachine.Arguments
