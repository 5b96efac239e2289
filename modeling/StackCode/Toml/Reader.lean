import StackCode.Toml.Scalar

/-!
# Reading configuration documents

A document is read line by line. Keys and scalars stand on one line; arrays and inline tables may
hold line breaks and comments between their elements.
-/

namespace StackCode

open Text

namespace Toml

/-- The text without a byte order mark at its start. -/
def dropMark (t : Text) : Text :=
  match afterPrefix? [0xEF, 0xBB, 0xBF] t with
  | some t => t
  | none => ((afterPrefix? [0xFF, 0xFE] t).or (afterPrefix? [0xFE, 0xFF] t)).getD t

/-- Whether a document has no control characters but tabs and line breaks; a carriage return is one
only with a line feed after it. -/
def isPlain : Text → Bool
  | [] => true
  | b :: t =>
    (if b = byte '\r' then t.head? == some (byte '\n')
      else b == byte '\t' || b == byte '\n' || (0x20 ≤ b && b != 0x7F)) && isPlain t

def dropBlanks (t : Text) : Text := t.dropWhile isBlank

/-- What follows blanks, line breaks and comments. -/
def dropTrivia : (inComment : Bool) → Text → Text
  | _, [] => []
  | true, b :: t => dropTrivia (b != byte '\n') t
  | false, b :: t =>
    if isBlank b || isNewline b then dropTrivia false t
    else if b = byte '#' then dropTrivia true t
    else b :: t

def isKeyByte (b : UInt8) : Bool :=
  isDigitByte b || (byte 'a' ≤ b && b ≤ byte 'z') || (byte 'A' ≤ b && b ≤ byte 'Z') ||
    b == byte '_' || b == byte '-'

def keyPart? (t : Text) : Option (Text × Text) :=
  match t with
  | [] => none
  | b :: rest =>
    if b = byte '"' then basic? (rest.length + 1) [] rest
    else if b = byte '\'' then literal? rest
    else if isKeyByte b then some (spanBytes isKeyByte t)
    else none

/-- A key: parts divided by periods, with blanks around them. The bound is the length of the text.
-/
def key? : (bound : Nat) → Text → Option (Key × Text)
  | 0, _ => none
  | bound + 1, t => do
    let (part, t) ← keyPart? (dropBlanks t)
    match dropBlanks t with
    | b :: rest =>
      if b = byte '.' then
        let (parts, t) ← key? bound rest
        return (part :: parts, t)
      else return ([part], b :: rest)
    | [] => return ([part], [])

mutual

/-- A value. The bound is twice the length of the text, or more. -/
def value? : (bound : Nat) → Text → Option (Term × Text)
  | 0, _ => none
  | bound + 1, t =>
    match dropBlanks t with
    | [] => none
    | b :: rest =>
      if b = byte '[' then elems? bound [] rest
      else if b = byte '\x7b' then pairs? bound [] rest
      else scalar? (b :: rest)

/-- The elements of an array up to its closing bracket, after those in `done`, the latest one
first. -/
def elems? : (bound : Nat) → (done : List Term) → Text → Option (Term × Text)
  | 0, _, _ => none
  | bound + 1, done, t =>
    match dropTrivia false t with
    | [] => none
    | b :: rest =>
      if b = byte ']' then some (.array done.reverse, rest)
      else
        match value? bound (b :: rest) with
        | none => none
        | some (v, t) =>
          match dropTrivia false t with
          | c :: rest =>
            if c = byte ',' then elems? bound (v :: done) rest
            else if c = byte ']' then some (.array (v :: done).reverse, rest)
            else none
          | [] => none

/-- The pairs of an inline table up to its closing brace, after those in `done`, the latest one
first. -/
def pairs? : (bound : Nat) → (done : List (Key × Term)) → Text → Option (Term × Text)
  | 0, _, _ => none
  | bound + 1, done, t =>
    match dropTrivia false t with
    | [] => none
    | b :: rest =>
      if b = byte '\x7d' then some (.inline done.reverse, rest)
      else
        match pair? bound (b :: rest) with
        | none => none
        | some (p, t) =>
          match dropTrivia false t with
          | c :: rest =>
            if c = byte ',' then pairs? bound (p :: done) rest
            else if c = byte '\x7d' then some (.inline (p :: done).reverse, rest)
            else none
          | [] => none

def pair? : (bound : Nat) → Text → Option ((Key × Term) × Text)
  | 0, _ => none
  | bound + 1, t =>
    match key? (t.length + 1) t with
    | some (k, b :: t) =>
      if b = byte '=' then (value? bound t).map fun (v, t) => ((k, v), t) else none
    | _ => none

end

/-- What follows the end of a line: blanks and a comment may come before it. -/
def lineEnd? (t : Text) : Option Text :=
  match dropBlanks t with
  | [] => some []
  | b :: t => if isNewline b ∨ b = byte '#' then some (b :: t) else none

/-- A line that opens a table, after its first bracket. -/
def header? (t : Text) : Option (Line × Text) :=
  match t with
  | [] => none
  | b :: rest =>
    if b = byte '[' then
      match key? (rest.length + 1) rest with
      | some (k, c :: d :: t) => if c = byte ']' ∧ d = byte ']' then some (.element k, t) else none
      | _ => none
    else
      match key? (t.length + 1) t with
      | some (k, c :: t) => if c = byte ']' then some (.table k, t) else none
      | _ => none

def line? (t : Text) : Option (Line × Text) := do
  let (line, t) ← match t with
    | b :: rest =>
      if b = byte '[' then header? rest
      else (pair? (2 * t.length + 3) t).map fun ((k, v), t) => (.assign k v, t)
    | [] => none
  let t ← lineEnd? t
  return (line, t)

/-- The lines of a document, after those in `done`, the latest one first. The bound is the length of
the text. -/
def lines? : (bound : Nat) → (done : List Line) → Text → Option (List Line)
  | 0, _, _ => none
  | bound + 1, done, t =>
    match dropTrivia false t with
    | [] => some done.reverse
    | b :: t =>
      match line? (b :: t) with
      | some (line, t) => lines? bound (line :: done) t
      | none => none

def readLines (t : Text) : Option (List Line) :=
  let t := dropMark t
  if t.isUtf8 && isPlain t then lines? (t.length + 1) [] t else none

end Toml

end StackCode
