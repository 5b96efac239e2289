import StackCode.Command.Flag

/-!
# Command lines

The commands with their flags and arguments, and how a command line chooses one of them: its words
lead down the tree of commands, flags may stand anywhere between them.
-/

namespace StackCode

open Text

namespace Command

inductive Arity where
  | any
  | none
  | exactly (n : Nat)
  | atLeast (n : Nat)
  deriving DecidableEq, Repr

inductive Task where
  | build
  | disasm
  | resolve
  | run
  | serve
  | cacheStats
  | cachePurge
  | version
  /-- Only shows what the tool can be asked for. -/
  | help
  deriving DecidableEq, Repr

structure Spec where
  words : List Text
  task : Task
  arity : Arity := .any
  /-- The flags, with those of the commands above it. -/
  flags : List Flag

def tool : Text := "velac"

def Spec.title (c : Spec) : Text := Text.join " " (tool :: c.words)

def commonFlags : List Flag :=
  [{ name := "verbose", kind := .count, letter := some (byte 'v') },
    { name := "color", kind := .text },
    { name := "dir", kind := .text, letter := some (byte 'C') }]

def cacheFlags : List Flag :=
  [{ name := "no-cache", kind := .switch }, { name := "cache", kind := .text }]

def compileFlags : List Flag :=
  { name := "optimize", kind := .switch, letter := some (byte 'O') } :: cacheFlags

/-- The tool itself, without a command. -/
def root : Spec := { words := [], task := .help, flags := commonFlags }

def commands : List Spec :=
  let cache : List Flag := [{ name := "cache", kind := .text }]
  let spec (words : List Text) (task : Task) (arity : Arity) (flags : List Flag) : Spec :=
    { words, task, arity, flags := commonFlags ++ flags }
  [spec ["build"] .build .any (compileFlags ++
      [{ name := "output", kind := .text, letter := some (byte 'o') },
        { name := "format", kind := .text, letter := some (byte 'f') },
        { name := "jobs", kind := .int, letter := some (byte 'j') }]),
    spec ["disasm"] .disasm (.exactly 1) (compileFlags ++ [{ name := "function", kind := .text }]),
    spec ["resolve"] .resolve (.atLeast 1)
      [{ name := "load", kind := .switch }, { name := "remote", kind := .text }],
    spec ["run"] .run (.atLeast 1) (compileFlags ++
      [{ name := "entry", kind := .text, letter := some (byte 'e') },
        { name := "trace", kind := .switch }, { name := "timeout", kind := .duration },
        { name := "max-frames", kind := .int }]),
    spec ["serve"] .serve .none (cacheFlags ++
      [{ name := "addr", kind := .text }, { name := "run-timeout", kind := .duration }]),
    spec ["cache"] .help .any cache,
    spec ["cache", "stats"] .cacheStats .none cache,
    spec ["cache", "purge"] .cachePurge .none cache,
    spec ["version"] .version .none
      [{ name := "format", kind := .text }, { name := "full", kind := .switch }],
    spec ["help"] .help .any [],
    spec ["completion"] .help .any []]

/-- Whether an argument is a flag that has its value in the next argument. Flags that are not known
are taken for such. -/
def takesNext (flags : List Flag) (a : Text) : Bool :=
  let separate (f? : Option Flag) : Bool := f?.all fun f => f.kind.implied?.isNone
  match a with
  | h :: b :: name =>
    h = byte '-' && !a.contains (byte '=') &&
      (if b = byte '-' then separate (flags.find? fun f => f.name = name)
      else name = [] && separate (flags.find? fun f => f.letter = some b))
  | _ => false

def isFlag (a : Text) : Bool := a.head? == some (byte '-')

/-- The arguments that are neither flags nor values of flags. -/
def wordsOf (flags : List Flag) : List Text → List Text
  | [] => []
  | a :: rest =>
    if a = "--" then []
    else if takesNext flags a then
      match rest with
      | [] => []
      | _ :: rest => wordsOf flags rest
    else if a.isEmpty || isFlag a then wordsOf flags rest
    else a :: wordsOf flags rest

/-- The arguments without the first one that is the given word. -/
def dropWord (flags : List Flag) (word : Text) : List Text → List Text
  | [] => []
  | a :: rest =>
    if a = "--" then a :: rest
    else if takesNext flags a then
      match rest with
      | [] => [a]
      | v :: rest => a :: v :: dropWord flags word rest
    else if a = word then rest
    else a :: dropWord flags word rest

/-- The command that the words of a line lead to from `c`, and the line without those words. -/
def chooseFrom (c : Spec) : (fuel : Nat) → List Text → Spec × List Text
  | 0, line => (c, line)
  | fuel + 1, line =>
    match wordsOf c.flags line with
    | [] => (c, line)
    | word :: _ =>
      match commands.find? fun d => d.words = c.words ++ [word] with
      | some d => chooseFrom d fuel (dropWord c.flags word line)
      | none => (c, line)

/-- How many letters have to be changed, added or removed to make one text of the other. -/
def distance (s t : Text) : Nat :=
  let row (previous : List Nat) (a : UInt8) : List Nat :=
    let cells := (t.zip (previous.zip (previous.drop 1))).foldl
      (fun (cells : List Nat) (b, diagonal, above) =>
        let left := cells.headD 0
        let cell := if a = b then diagonal else min diagonal (min above left) + 1
        cell :: cells) [previous.headD 0 + 1]
    cells.reverse
  (s.foldl row (List.range (t.length + 1))).getLastD 0

/-- The commands that a mistyped word may stand for. -/
def suggestions (word : Text) : List Text :=
  let word := toLower word
  (commands.filterMap fun c => match c.words with
    | [name] => if name = "help" then none else some name
    | _ => none).filter fun name => distance word name ≤ 2 || word.isPrefixOf name

inductive LineError where
  | unknownCommand (word title : Text) (suggested : List Text)
  | flag (e : FlagError)
  | tooFew (least given : Nat)
  | wrongCount (wanted given : Nat)
  deriving DecidableEq, Repr

def LineError.message : LineError → Text
  | unknownCommand word title suggested =>
    let lines (s : Text) : Text := "\t" ++ s ++ "\n"
    let hint : Text := "\n\nDid you mean this?\n" ++ suggested.flatMap lines
    "unknown command " ++ quote word ++ " for " ++ quote title ++
      (if suggested.isEmpty then [] else hint)
  | flag e => e.message
  | tooFew least given =>
    "requires at least " ++ Text.ofNat least ++ " arg(s), only received " ++ Text.ofNat given
  | wrongCount wanted given =>
    "accepts " ++ Text.ofNat wanted ++ " arg(s), received " ++ Text.ofNat given

def Spec.checkArguments (c : Spec) (arguments : List Text) : Except LineError Unit :=
  let given := arguments.length
  match c.arity, arguments with
  | .none, word :: _ => .error (.unknownCommand word c.title [])
  | .exactly n, _ => if given = n then .ok () else .error (.wrongCount n given)
  | .atLeast n, _ => if n ≤ given then .ok () else .error (.tooFew n given)
  | _, _ => .ok ()

inductive Request where
  | help
  /-- The version of the tool in one line. -/
  | toolVersion
  | perform (task : Task) (settings : Settings) (arguments : List Text)

def helpFlag : Flag := { name := "help", kind := .switch, letter := some (byte 'h') }

/-- The flag that asks for the version, which only the tool itself has. -/
def versionFlag : Flag := { name := "version", kind := .switch }

def read (line : List Text) : Except LineError Request := do
  let (c, line) := chooseFrom root line.length line
  if c.words = [] then
    match wordsOf c.flags line with
    | word :: _ => throw (.unknownCommand word c.title (suggestions word))
    | [] => pure ()
  let flags := helpFlag :: (if c.words = [] then versionFlag :: c.flags else c.flags)
  let p ← (parse flags line).mapError .flag
  if p.settings.isOn "help" then return .help
  if p.settings.isOn "version" then return .toolVersion
  if c.task = .help then return .help
  c.checkArguments p.arguments
  return .perform c.task p.settings p.arguments

end Command

end StackCode
