import StackCode.Number.Duration
import StackCode.Value

/-!
# Flags

A command line mixes flags with other arguments. A flag is given by its name after two hyphens or by
its letter after one; its value follows an equals sign or is the next argument. Letters may stand
together after one hyphen. All that follows a lone `--` is no flag.
-/

namespace StackCode

open Text

namespace Command

inductive FlagKind where
  /-- True when it is given without a value. -/
  | switch
  /-- How often it is given. -/
  | count
  | int
  | duration
  | text
  deriving DecidableEq, Repr

structure Flag where
  name : Text
  kind : FlagKind
  letter : Option UInt8 := none
  deriving DecidableEq, Repr

inductive FlagValue where
  | bool (b : Bool)
  | int (n : Int64)
  /-- A time in nanoseconds. -/
  | duration (n : Int)
  | text (t : Text)
  deriving DecidableEq, Repr

/-- The flags that were given, the latest one first. -/
abbrev Settings := List (Text × FlagValue)

inductive FlagError where
  | badSyntax (argument : Text)
  | unknown (name : Text)
  | unknownLetter (letter : UInt8) (group : Text)
  | needsValue (name : Text)
  | letterNeedsValue (letter : UInt8) (group : Text)
  | badValue (flag : Flag) (value reason : Text)
  deriving DecidableEq, Repr

def quoteLetter (b : UInt8) : Text :=
  if b = byte '\'' then "'\\''"
  else if b = byte '"' then "'\"'"
  else "'" ++ escapeRune (.scalar (Char.ofNat b.toNat)) ++ "'"

/-- A flag as the messages name it. -/
def Flag.title (f : Flag) : Text :=
  match f.letter with
  | some b => "-" ++ [b] ++ ", --" ++ f.name
  | none => "--" ++ f.name

def FlagError.message : FlagError → Text
  | badSyntax argument => "bad flag syntax: " ++ argument
  | unknown name => "unknown flag: --" ++ name
  | unknownLetter letter group =>
    "unknown shorthand flag: " ++ quoteLetter letter ++ " in -" ++ group
  | needsValue name => "flag needs an argument: --" ++ name
  | letterNeedsValue letter group =>
    "flag needs an argument: " ++ quoteLetter letter ++ " in -" ++ group
  | badValue flag value reason =>
    "invalid argument " ++ quote value ++ " for " ++ quote flag.title ++ " flag: " ++ reason

/-- The value of a flag that is given without one. -/
def FlagKind.implied? : FlagKind → Option Text
  | switch => some "true"
  | count => some "+1"
  | _ => none

/-- The reason why a text is not of the type that a reading function gives. -/
def refusal (reader t problem : Text) : Text :=
  "strconv." ++ reader ++ ": parsing " ++ quote t ++ ": " ++ problem

def readInt (t : Text) : Except Text Int64 :=
  match Number.intLiteral? t with
  | some n => .ok n
  | none =>
    let (_, size) := Number.splitSign t
    if Number.overflows size || (Number.natLiteral? size).isSome then
      .error (refusal "ParseInt" t "value out of range")
    else .error (refusal "ParseInt" t "invalid syntax")

/-- What a flag is set to by a text, or the reason why it cannot be. -/
def FlagKind.read (s : Settings) (name : Text) : FlagKind → Text → Except Text FlagValue
  | switch, t =>
    match Value.readBool? t with
    | some b => .ok (.bool b)
    | none => .error (refusal "ParseBool" t "invalid syntax")
  | count, t =>
    if t = "+1" then
      match s.lookup name with
      | some (.int n) => .ok (.int (n + 1))
      | _ => .ok (.int 1)
    else (readInt t).map .int
  | int, t => (readInt t).map .int
  | duration, t =>
    match Duration.read t with
    | .ok n => .ok (.duration n)
    | .error e => .error e.message
  | text, t => .ok (.text t)

namespace Settings

def set (s : Settings) (f : Flag) (value : Text) : Except FlagError Settings :=
  match f.kind.read s f.name value with
  | .ok v => .ok ((f.name, v) :: s)
  | .error reason => .error (.badValue f value reason)

def isOn (s : Settings) (name : Text) : Bool := s.lookup name == some (.bool true)

def text? (s : Settings) (name : Text) : Option Text :=
  match s.lookup name with
  | some (.text t) => some t
  | _ => none

def int? (s : Settings) (name : Text) : Option Int :=
  match s.lookup name with
  | some (.int n) => some n.toInt
  | _ => none

def duration? (s : Settings) (name : Text) : Option Int :=
  match s.lookup name with
  | some (.duration n) => some n
  | _ => none

end Settings

/-- Flags and other arguments of a command line, as far as it was read. -/
structure Parsed where
  settings : Settings := []
  arguments : List Text := []

/-- Reads a flag by its name, given the part of the argument after the hyphens. -/
def readLong (flags : List Flag) (s : Settings) (body : Text) (rest : List Text) :
    Except FlagError (Settings × List Text) :=
  let startsBadly : Bool := match body with
    | [] => true
    | b :: _ => b = byte '-' || b = byte '='
  if startsBadly then .error (.badSyntax ("--" ++ body))
  else
    let (name, value?) := match cut (byte '=') body with
      | some (name, value) => (name, some value)
      | none => (body, none)
    match flags.find? fun f => f.name = name with
    | none => .error (.unknown name)
    | some f =>
      match value? <|> f.kind.implied?, rest with
      | some value, rest => (s.set f value).map fun s => (s, rest)
      | none, value :: rest => (s.set f value).map fun s => (s, rest)
      | none, [] => .error (.needsValue name)

def readLetters (flags : List Flag) (s : Settings) (rest : List Text) :
    Text → Except FlagError (Settings × List Text)
  | [] => .ok (s, rest)
  | b :: group =>
    match flags.find? fun f => f.letter = some b with
    | none => .error (.unknownLetter b (b :: group))
    | some f =>
      match group, f.kind.implied?, rest with
      | e :: v :: value, implied, _ =>
        if e = byte '=' then (s.set f (v :: value)).map fun s => (s, rest)
        else
          match implied with
          | some value => (s.set f value).bind fun s => readLetters flags s rest group
          | none => (s.set f group).map fun s => (s, rest)
      | _, some value, _ => (s.set f value).bind fun s => readLetters flags s rest group
      | _ :: _, none, _ => (s.set f group).map fun s => (s, rest)
      | [], none, value :: rest => (s.set f value).map fun s => (s, rest)
      | [], none, [] => .error (.letterNeedsValue b [b])

def readArguments (flags : List Flag) : (fuel : Nat) → Parsed → List Text → Except FlagError Parsed
  | _, p, [] => .ok p
  | 0, p, _ :: _ => .ok p
  | fuel + 1, p, a :: rest =>
    let continue_ (r : Except FlagError (Settings × List Text)) : Except FlagError Parsed :=
      match r with
      | .error e => .error e
      | .ok (settings, rest) => readArguments flags fuel { p with settings } rest
    match a with
    | h :: b :: body =>
      if h ≠ byte '-' then
        readArguments flags fuel { p with arguments := p.arguments ++ [a] } rest
      else if b ≠ byte '-' then continue_ (readLetters flags p.settings rest (b :: body))
      else if body = [] then .ok { p with arguments := p.arguments ++ rest }
      else continue_ (readLong flags p.settings body rest)
    | _ => readArguments flags fuel { p with arguments := p.arguments ++ [a] } rest

def parse (flags : List Flag) (line : List Text) : Except FlagError Parsed :=
  readArguments flags line.length {} line

end Command

end StackCode
