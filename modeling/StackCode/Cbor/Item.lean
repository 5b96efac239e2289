import StackCode.Text.Reader
import StackCode.Text.Rune

/-!
# CBOR data items

Reading accepts every well-formed item: definite and indefinite lengths, heads of any width, tags
and simple values. Nesting and the number of elements are limited. Writing uses the shortest heads.
-/

namespace StackCode

open Text

namespace Cbor

inductive Item where
  | uint (n : Nat)
  /-- The number `-1 - n`. -/
  | nint (n : Nat)
  | bytes (t : Text)
  /-- A text string in the pieces it was sent in; a definite one has a single piece. -/
  | text (pieces : List Text)
  | array (items : List Item)
  | map (entries : List (Item × Item))
  | tag (number : Nat) (content : Item)
  /-- Simple values: 20 and 21 are false and true, 22 and 23 null and undefined. -/
  | simple (n : Nat)
  | float
  deriving Inhabited

/-- The limits of reading: levels of nesting, and elements of an array or map. -/
def maxLevels : Nat := 32
def maxElements : Nat := 131072

/-- The head of an item: its major type, its argument, and whether its length is indefinite. -/
structure Head where
  major : Nat
  info : Nat
  argument : Nat

def Head.take : Text → Option (Head × Text)
  | [] => none
  | b :: t =>
    let major := b.toNat / 32
    let info := b.toNat % 32
    let wide (n : Nat) : Option (Head × Text) :=
      (takeExact? n t).map fun (front, t) => (⟨major, info, bigEndian front⟩, t)
    if info < 24 then some (⟨major, info, info⟩, t)
    else match info with
      | 24 => (wide 1).bind fun (h, t) => if major = 7 ∧ h.argument < 32 then none else some (h, t)
      | 25 => wide 2
      | 26 => wide 4
      | 27 => wide 8
      | 31 => if 2 ≤ major ∧ major ≤ 5 then some (⟨major, info, 0⟩, t) else none
      | _ => none

/-- Whether an item of this head has no length of its own and ends with a break. -/
def Head.isIndefinite (h : Head) : Bool := h.info = 31

def takeTags : (fuel : Nat) → (acc : List Nat) → Text → Option (List Nat × Text)
  | _, _, [] => none
  | fuel, acc, b :: t =>
    if b.toNat / 32 = 6 then
      match fuel with
      | 0 => none
      | fuel + 1 =>
        match Head.take (b :: t) with
        | some (h, t) => takeTags fuel (h.argument :: acc) t
        | none => none
    else some (acc.reverse, b :: t)

/-- What `step` reads up to the break, in reverse before `acc`, in at most `fuel` steps. -/
def takeUntilBreak {α : Type} (step : Text → Option (α × Text)) :
    (fuel : Nat) → (acc : List α) → Text → Option (List α × Text)
  | _, _, [] => none
  | fuel, acc, b :: t =>
    if b = 0xFF then some (acc.reverse, t)
    else match fuel with
      | 0 => none
      | fuel + 1 =>
        match step (b :: t) with
        | none => none
        | some (a, t) => takeUntilBreak step fuel (a :: acc) t

def takePiece (major : Nat) (t : Text) : Option (Text × Text) :=
  match Head.take t with
  | some (h, t) => if h.major = major ∧ !h.isIndefinite then takeExact? h.argument t else none
  | none => none

def pairUp : List Item → List (Item × Item)
  | k :: v :: rest => (k, v) :: pairUp rest
  | _ => []

/-- The items of an array or map: `count` of them, or up to the break. -/
def takeElements (step : Text → Option (Item × Text)) (h : Head) (count : Nat) (t : Text) :
    Option (List Item × Text) :=
  if h.isIndefinite then takeUntilBreak step t.length [] t else takeMany step count [] t

/-- The item at the start of a text, and what follows it. `levels` limits the nesting that is left;
nested tags use it up as well. -/
def takeItem : (fuel : Nat) → (levels : Nat) → Text → Option (Item × Text)
  | 0, _, _ => none
  | fuel + 1, levels, t =>
    match takeTags t.length [] t with
    | none => none
    | some (tags, t) =>
      -- the first tag of an item is not a level of its own
      if levels < tags.length - 1 then none
      else
        let levels := levels - (tags.length - 1)
        let wrap (i : Item) : Item := tags.foldr Item.tag i
        match Head.take t with
        | none => none
        | some (h, t) =>
          match h.major with
          | 0 => some (wrap (.uint h.argument), t)
          | 1 => some (wrap (.nint h.argument), t)
          | 2 | 3 =>
            let pieces :=
              if h.isIndefinite then takeUntilBreak (takePiece h.major) t.length [] t
              else (takeExact? h.argument t).map fun (p, t) => ([p], t)
            pieces.map fun (ps, t) =>
              (wrap (if h.major = 2 then .bytes ps.flatten else .text ps), t)
          | 4 =>
            if levels = 0 ∨ maxElements < h.argument then none
            else
              match takeElements (takeItem fuel (levels - 1)) h h.argument t with
              | some (is, t) =>
                if maxElements < is.length then none else some (wrap (.array is), t)
              | none => none
          | 5 =>
            if levels = 0 ∨ maxElements < h.argument then none
            else
              match takeElements (takeItem fuel (levels - 1)) h (2 * h.argument) t with
              | some (is, t) =>
                -- a break may leave a key without a value
                if is.length % 2 = 1 ∨ 2 * maxElements < is.length then none
                else some (wrap (.map (pairUp is)), t)
              | none => none
          | 7 => some (wrap (if 25 ≤ h.info then .float else .simple h.argument), t)
          | _ => none

def read (t : Text) : Option Item :=
  match takeItem (maxLevels + 1) maxLevels t with
  | some (i, []) => some i
  | _ => none

def head (major : Nat) (n : Nat) : Text :=
  let lead (info : Nat) : UInt8 := (major * 32 + info).toUInt8
  if n < 24 then [lead n]
  else if n < 256 then lead 24 :: bigEndianBytes 1 n
  else if n < 65536 then lead 25 :: bigEndianBytes 2 n
  else if n < 4294967296 then lead 26 :: bigEndianBytes 4 n
  else lead 27 :: bigEndianBytes 8 n

def ofNat (n : Nat) : Text := head 0 n

def ofInt64 (n : Int64) : Text :=
  if n.toInt < 0 then head 1 (-1 - n.toInt).toNat else head 0 n.toInt.toNat

def ofBytes (t : Text) : Text := head 2 t.length ++ t

def ofText (t : Text) : Text := head 3 t.length ++ t

def ofBool (b : Bool) : Text := [if b then 0xF5 else 0xF4]

def null : Text := [0xF6]

def ofList (items : List Text) : Text := head 4 items.length ++ items.flatten

def ofFields (fields : List (Text × Text)) : Text :=
  head 5 fields.length ++ fields.flatMap fun (k, v) => ofText k ++ v

def ofNumbered (fields : List (Nat × Text)) : Text :=
  head 5 fields.length ++ fields.flatMap fun (k, v) => ofNat k ++ v

end Cbor

end StackCode
