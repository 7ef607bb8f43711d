import CollectiveLabeling.Text.Digit
import CollectiveLabeling.Text.Quoted

/-!
Reading a command line.

A switch is spelled out, or shortened to any beginning that no other switch shares, and its value
follows it or is attached with an equals sign. What begins with a dash and is no switch is an unknown
one, unless it reads as a negative number or holds a blank; after a lone pair of dashes everything is
an operand. There is no use for operands here, so all of them are refused, together, at the end. A
pair of dashes that is attached to a switch is no value: the setting is left blank.
-/

namespace CollectiveLabeling.CommandLine

-- What a switch does to the settings `α`.
inductive Effect (α : Type) where
  | help
  | flag (apply : α → α)
  | value (kind : String) (apply : String → α → Option α) (blank : α → α)

structure Switch (α : Type) where
  spellings : List String
  effect : Effect α

inductive UsageError where
  | ambiguous (given : String) (candidates : List String)
  | expectedValue (switch : String)
  | ignoredValue (switch given : String)
  | badValue (switch kind given : String)
  | unrecognized (given : List String)
deriving DecidableEq

namespace UsageError

def ofSwitch (switch text : String) : String :=
  "argument " ++ switch ++ ": " ++ text

def message : UsageError → String
  | ambiguous given candidates =>
    "ambiguous option: " ++ given ++ " could match " ++ ", ".intercalate candidates
  | expectedValue switch => ofSwitch switch "expected one argument"
  | ignoredValue switch given => ofSwitch switch ("ignored explicit argument " ++ Text.quote given)
  | badValue switch kind given =>
    ofSwitch switch ("invalid " ++ kind ++ " value: " ++ Text.quote given)
  | unrecognized given => "unrecognized arguments: " ++ " ".intercalate given

end UsageError

-- Why a command line leads to no settings.
inductive Exit where
  | help
  | usage (e : UsageError)
deriving DecidableEq

namespace Exit

def code : Exit → Nat
  | help => 0
  | usage _ => 2

def message? : Exit → Option String
  | help => none
  | usage e => some e.message

end Exit

-- A value is attached to a switch by an equals sign, or run together with a short one.
inductive Token (α : Type) where
  | operand (text : String)
  | unknown (text : String)
  | switch (s : Switch α) (spelling : String) (attached : Option String)
  -- The pair of dashes after which all is an operand.
  | divider

def dashes : String := "--"

variable {α : Type}

def Switch.name (s : Switch α) : String :=
  "/".intercalate s.spellings

-- The switch as it is listed among all switches.
def Switch.summary (s : Switch α) : String :=
  match s.effect with
  | .value kind _ _ => s.name ++ " " ++ kind
  | _ => s.name

def spelled (switches : List (Switch α)) : List (String × Switch α) :=
  switches.flatMap fun s => s.spellings.map (·, s)

def dropDigits : List Char → List Char :=
  List.dropWhile fun c => (Text.digit? c).isSome

-- A line feed may end the number.
def atEnd (s : List Char) : Bool :=
  s = [] || s = ['\n']

-- A dash, then digits, possibly with a point that has a digit after it.
def isNegativeNumber : List Char → Bool
  | '-' :: rest =>
    let whole := dropDigits rest
    (atEnd whole && whole.length < rest.length) ||
      match whole with
      | '.' :: fraction => atEnd (dropDigits fraction) && (dropDigits fraction).length < fraction.length
      | _ => false
  | _ => false

-- The part before the first equals sign and the part after it, if there is one.
def splitValue (text : String) : String × Option String :=
  let before := text.toList.takeWhile (· ≠ '=')
  match text.toList.dropWhile (· ≠ '=') with
  | [] => (text, none)
  | _ :: after => (String.ofList before, some (String.ofList after))

-- The switches that a text may stand for, with the spelling meant and what is attached.
def candidates (switches : List (Switch α)) (text : String) :
    List (Switch α × String × Option String) :=
  if text.startsWith dashes then
    let (start, value) := splitValue text
    ((spelled switches).filter fun (spelling, _) => spelling.startsWith start).map
      fun (spelling, s) => (s, spelling, value)
  else
    let short := String.ofList (text.toList.take 2)
    let rest := String.ofList (text.toList.drop 2)
    (spelled switches).filterMap fun (spelling, s) =>
      if spelling = short then some (s, spelling, some rest)
      else if spelling.startsWith text then some (s, spelling, none)
      else none

def tokenOf (switches : List (Switch α)) (text : String) : Except UsageError (Token α) :=
  if !text.startsWith "-" then .ok (.operand text)
  else match (spelled switches).lookup text with
    | some s => .ok (.switch s text none)
    | none =>
      if text.length = 1 then .ok (.operand text)
      else
        let (start, value) := splitValue text
        match (spelled switches).lookup start, value with
        | some s, some v => .ok (.switch s start (some v))
        | _, _ =>
          match candidates switches text with
          | [(s, spelling, value)] => .ok (.switch s spelling value)
          | [] =>
            if isNegativeNumber text.toList || text.contains ' ' then .ok (.operand text)
            else .ok (.unknown text)
          | several => .error (.ambiguous text (several.map fun (_, spelling, _) => spelling))

def tokens (switches : List (Switch α)) : List String → Except UsageError (List (Token α))
  | [] => .ok []
  | text :: rest =>
    if text = dashes then .ok (.divider :: rest.map .operand)
    else do
      let token ← tokenOf switches text
      let later ← tokens switches rest
      return token :: later

-- What follows a short switch without a value: more short switches, run together. The help switch
-- is the only one there is.
def runTogether (switch : String) : List Char → Exit
  | [] => .help
  | 'h' :: more => runTogether switch more
  | more => .usage (.ignoredValue switch (String.ofList more))

def helpExit (s : Switch α) (spelling : String) : Option String → Exit
  | none => .help
  | some v =>
    if v = "" || spelling.startsWith dashes then .usage (.ignoredValue s.name v)
    else runTogether s.name v.toList

-- Gives a switch its value.
def assign (s : Switch α) (kind : String) (apply : String → α → Option α) (blank : α → α)
    (text : String) (settings : α) : Except UsageError α :=
  if text = dashes then .ok (blank settings)
  else match apply text settings with
    | some settings => .ok settings
    | none => .error (.badValue s.name kind text)

-- Applies the tokens to the settings; what is left over comes back in order.
def consume (settings : α) : List (Token α) → Except Exit (α × List String)
  | [] => .ok (settings, [])
  | .operand text :: rest | .unknown text :: rest => do
    let (settings, left) ← consume settings rest
    return (settings, text :: left)
  | .divider :: rest => do
    let (settings, left) ← consume settings rest
    return (settings, dashes :: left)
  | .switch s spelling attached :: rest =>
    match s.effect, attached with
    | .help, attached => .error (helpExit s spelling attached)
    | .flag apply, none => consume (apply settings) rest
    | .flag _, some v => .error (.usage (.ignoredValue s.name v))
    | .value kind apply blank, some v => do
      let settings ← (assign s kind apply blank v settings).mapError .usage
      consume settings rest
    | .value kind apply blank, none =>
      match rest with
      | .operand v :: rest => do
        let settings ← (assign s kind apply blank v settings).mapError .usage
        consume settings rest
      | _ => .error (.usage (.expectedValue s.name))

def parse (switches : List (Switch α)) (settings : α) (arguments : List String) : Except Exit α := do
  let read ← (tokens switches arguments).mapError .usage
  let (settings, left) ← consume settings read
  if left.isEmpty then return settings else throw (.usage (.unrecognized left))

end CollectiveLabeling.CommandLine
