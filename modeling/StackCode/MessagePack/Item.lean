import StackCode.Text.Reader

/-!
# MessagePack data items

Reading accepts every item and leaves what follows it alone. Writing uses the shortest headers for
strings, arrays and maps, and numbers of a fixed width.
-/

namespace StackCode

open Text

namespace MessagePack

inductive Item where
  | nil
  | bool (b : Bool)
  | int (n : Int)
  | float
  /-- A text or byte string; the two are not told apart. -/
  | str (t : Text)
  | array (items : List Item)
  | map (entries : List (Item × Item))
  | ext
  deriving Inhabited

/-- What the first byte of an item announces. -/
inductive Lead where
  | item (i : Item)
  /-- An integer of so many bytes. -/
  | number (width : Nat) (isSigned : Bool)
  /-- A string whose length has so many bytes, or is given. -/
  | strOf (width : Nat)
  | strFixed (n : Nat)
  | arrayOf (width : Nat)
  | arrayFixed (n : Nat)
  | mapOf (width : Nat)
  | mapFixed (n : Nat)
  | floatOf (width : Nat)
  /-- An extension whose length has so many bytes, or is given. -/
  | extOf (width : Nat)
  | extFixed (n : Nat)

/-- The number of `width` bytes whose sign is that of its highest bit. -/
def signed (width : Nat) (n : Nat) : Int :=
  if n < Nat.pow 256 width / 2 then n else (n : Int) - Nat.pow 256 width

/-- What a first byte announces; one byte has no meaning. -/
def Lead.ofByte? (b : UInt8) : Option Lead :=
  let n := b.toNat
  if n < 0x80 then some (.item (.int n))
  else if n < 0x90 then some (.mapFixed (n - 0x80))
  else if n < 0xA0 then some (.arrayFixed (n - 0x90))
  else if n < 0xC0 then some (.strFixed (n - 0xA0))
  else if 0xE0 ≤ n then some (.item (.int (signed 1 n)))
  else match n with
    | 0xC0 => some (.item .nil)
    | 0xC2 => some (.item (.bool false))
    | 0xC3 => some (.item (.bool true))
    | 0xC4 | 0xD9 => some (.strOf 1)
    | 0xC5 | 0xDA => some (.strOf 2)
    | 0xC6 | 0xDB => some (.strOf 4)
    | 0xC7 => some (.extOf 1)
    | 0xC8 => some (.extOf 2)
    | 0xC9 => some (.extOf 4)
    | 0xCA => some (.floatOf 4)
    | 0xCB => some (.floatOf 8)
    | 0xCC => some (.number 1 false)
    | 0xCD => some (.number 2 false)
    | 0xCE => some (.number 4 false)
    | 0xCF => some (.number 8 false)
    | 0xD0 => some (.number 1 true)
    | 0xD1 => some (.number 2 true)
    | 0xD2 => some (.number 4 true)
    | 0xD3 => some (.number 8 true)
    | 0xD4 => some (.extFixed 1)
    | 0xD5 => some (.extFixed 2)
    | 0xD6 => some (.extFixed 4)
    | 0xD7 => some (.extFixed 8)
    | 0xD8 => some (.extFixed 16)
    | 0xDC => some (.arrayOf 2)
    | 0xDD => some (.arrayOf 4)
    | 0xDE => some (.mapOf 2)
    | 0xDF => some (.mapOf 4)
    | _ => none

def takeNumber (width : Nat) (t : Text) : Option (Nat × Text) :=
  (takeExact? width t).map fun (front, t) => (bigEndian front, t)

def takeStr (n : Nat) (t : Text) : Option (Item × Text) :=
  (takeExact? n t).map fun (s, t) => (.str s, t)

/-- An extension: a byte for its type, then `n` bytes. -/
def takeExt (n : Nat) (t : Text) : Option (Item × Text) :=
  (takeExact? (n + 1) t).map fun (_, t) => (.ext, t)

def takeEntry (step : Text → Option (Item × Text)) (t : Text) : Option ((Item × Item) × Text) :=
  match step t with
  | none => none
  | some (k, t) =>
    match step t with
    | none => none
    | some (v, t) => some ((k, v), t)

/-- The item at the start of a text, and what follows it. Each level of nesting takes a byte, so the
length of the text is fuel enough. -/
def takeItem : (fuel : Nat) → Text → Option (Item × Text)
  | _, [] => none
  | 0, _ :: _ => none
  | fuel + 1, b :: t =>
    let elements (n : Nat) (t : Text) : Option (Item × Text) :=
      (takeMany (takeItem fuel) n [] t).map fun (is, t) => (.array is, t)
    let entries (n : Nat) (t : Text) : Option (Item × Text) :=
      (takeMany (takeEntry (takeItem fuel)) n [] t).map fun (es, t) => (.map es, t)
    match Lead.ofByte? b with
    | none => none
    | some (.item i) => some (i, t)
    | some (.number width isSigned) =>
      (takeNumber width t).map fun (n, t) =>
        (.int (if isSigned then signed width n else n), t)
    | some (.strOf width) => (takeNumber width t).bind fun (n, t) => takeStr n t
    | some (.strFixed n) => takeStr n t
    | some (.arrayOf width) => (takeNumber width t).bind fun (n, t) => elements n t
    | some (.arrayFixed n) => elements n t
    | some (.mapOf width) => (takeNumber width t).bind fun (n, t) => entries n t
    | some (.mapFixed n) => entries n t
    | some (.floatOf width) => (takeExact? width t).map fun (_, t) => (.float, t)
    | some (.extOf width) => (takeNumber width t).bind fun (n, t) => takeExt n t
    | some (.extFixed n) => takeExt n t

def read (t : Text) : Option Item := (takeItem t.length t).map Prod.fst

def nil : Text := [0xC0]

def ofBool (b : Bool) : Text := [if b then 0xC3 else 0xC2]

def ofUInt8 (n : UInt8) : Text := [0xCC, n]

def ofUInt16 (n : UInt16) : Text := 0xCD :: bigEndianBytes 2 n.toNat

def ofUInt64 (n : UInt64) : Text := 0xCF :: bigEndianBytes 8 n.toNat

def ofInt64 (n : Int64) : Text := 0xD3 :: bigEndianBytes 8 n.toUInt64.toNat

/-- The text string `t` after its shortest header. -/
def ofText (t : Text) : Text :=
  let n := t.length
  (if n < 32 then [(0xA0 + n).toUInt8]
  else if n < 256 then 0xD9 :: bigEndianBytes 1 n
  else if n < 65536 then 0xDA :: bigEndianBytes 2 n
  else 0xDB :: bigEndianBytes 4 n) ++ t

def ofBytes (t : Text) : Text :=
  let n := t.length
  (if n < 256 then 0xC4 :: bigEndianBytes 1 n
  else if n < 65536 then 0xC5 :: bigEndianBytes 2 n
  else 0xC6 :: bigEndianBytes 4 n) ++ t

def ofList (items : List Text) : Text :=
  let n := items.length
  (if n < 16 then [(0x90 + n).toUInt8]
  else if n < 65536 then 0xDC :: bigEndianBytes 2 n
  else 0xDD :: bigEndianBytes 4 n) ++ items.flatten

/-- A map of fewer than 16 entries with text keys. -/
def ofFields (fields : List (Text × Text)) : Text :=
  (0x80 + fields.length).toUInt8 :: fields.flatMap fun (k, v) => ofText k ++ v

end MessagePack

end StackCode
