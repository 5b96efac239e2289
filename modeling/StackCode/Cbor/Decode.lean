import StackCode.Cbor.Item

/-!
# Records in CBOR

A record is a map. Its fields are found by name, exactly or else without regard to ASCII case, or by
number; the first entry for a field counts and entries for no field are passed over. Null stands for
the empty value of every type, and tags are passed over.
-/

namespace StackCode

open Text

namespace Cbor

/-- Whether a tag may stand before the content: dates are texts, times are numbers, large integers
are byte strings. -/
def tagFits (number : Nat) (content : Item) : Bool :=
  match number, content with
  | 0, .text _ => true
  | 0, _ => false
  | 1, .uint _ | 1, .nint _ | 1, .float => true
  | 1, _ => false
  | 2, .bytes _ | 3, .bytes _ => true
  | 2, _ | 3, _ => false
  | _, _ => true

/-- An item without its tags; only the tag of a large integer stays. None if a tag does not fit. -/
def untag : Item → Option Item
  | .tag n c =>
    if !tagFits n c then none
    else if n = 2 ∨ n = 3 then some (.tag n c)
    else untag c
  | c => some c

def isNull : Item → Bool
  | .simple n => n = 22 || n = 23
  | _ => false

/-- A number below `limit`. Simple values without a meaning count as numbers. -/
def toNat? (limit : Nat) (i : Item) : Option Nat :=
  match untag i with
  | some (.uint n) => if n < limit then some n else none
  | some (.tag 2 (.bytes b)) => if bigEndian b < limit then some (bigEndian b) else none
  | some (.simple n) =>
    if n = 22 ∨ n = 23 then some 0
    else if n = 20 ∨ n = 21 then none
    else if n < limit then some n else none
  | _ => none

def toInt64? (i : Item) : Option Int64 :=
  match untag i with
  | some (.nint n) => if n < Nat.pow 2 63 then some (Int64.ofInt (-1 - n)) else none
  | some (.tag 3 (.bytes b)) =>
    if bigEndian b < Nat.pow 2 63 then some (Int64.ofInt (-1 - bigEndian b)) else none
  | _ => (toNat? (Nat.pow 2 63) i).map Int64.ofNat

def toBool? (i : Item) : Option Bool :=
  match untag i with
  | some (.simple n) =>
    if n = 20 ∨ n = 22 ∨ n = 23 then some false
    else if n = 21 then some true
    else none
  | _ => none

/-- A text; every piece has to be UTF-8. -/
def toText? (i : Item) : Option Text :=
  match untag i with
  | some (.text pieces) => if pieces.all isUtf8 then some pieces.flatten else none
  | some c => if isNull c then some [] else none
  | none => none

/-- The elements of an array, none of them for null. -/
def toList? {α : Type} (f : Item → Option α) (i : Item) : Option (List α) :=
  match untag i with
  | some (.array is) => is.mapM f
  | some c => if isNull c then some [] else none
  | none => none

/-- A byte string, or an array of numbers below 256. Null is no byte string at all. -/
def toBytes? (i : Item) : Option (Option Text) :=
  match untag i with
  | some (.bytes b) => some (some b)
  | some (.tag _ (.bytes b)) => some (some b)
  | some (.array is) => (is.mapM (toNat? 256)).map fun ns => some (ns.map Nat.toUInt8)
  | some c => if isNull c then some none else none
  | none => none

/-- The name of a field: a text, and a number if the record numbers its fields. -/
inductive Key where
  | name (t : Text)
  | number (n : Nat)
  deriving DecidableEq

/-- What the key of an entry says: a name, a number, or neither. -/
def entryKey? : Item → Option (Option Key)
  | .text pieces => if pieces.all isUtf8 then some (some (.name pieces.flatten)) else none
  | .uint n => some (some (.number n))
  | .nint n => if n < Nat.pow 2 63 then some none else none
  | _ => none

def Key.text : Key → Text
  | name t => t
  | number n => Text.ofNat n

/-- The field that a key stands for: the one of exactly this name or number, or else one whose name
differs in case only. -/
def matchField (fields : List Key) (key : Key) : Option Key :=
  match key with
  | .name t =>
    (fields.find? fun f => f.text = t).or
      (fields.find? fun f => f.text.length = t.length && toLower f.text = toLower t)
  | .number _ => fields.find? fun f => f = key

/-- The fields found so far, in reverse, after one more entry. None if a key cannot name a field. -/
def collectEntry (fields : List Key) (found : List (Key × Item)) (entry : Item × Item) :
    Option (List (Key × Item)) :=
  match entryKey? entry.1 with
  | none => none
  | some none => some found
  | some (some key) =>
    match matchField fields key with
    | none => some found
    | some f =>
      if found.any (fun (g, _) => g = f) then some found else some ((f, entry.2) :: found)

/-- The first entry for each of the fields. -/
def collect (fields : List Key) (entries : List (Item × Item)) : Option (List (Key × Item)) :=
  (entries.foldlM (collectEntry fields) []).map List.reverse

/-- The entries of a record. Null is a record without entries. -/
def toRecord? (fields : List Key) (i : Item) : Option (List (Key × Item)) :=
  match untag i with
  | some (.map entries) => collect fields entries
  | some c => if isNull c then some [] else none
  | none => none

def field? {α : Type} (record : List (Key × Item)) (key : Key) (empty : α) (f : Item → Option α) :
    Option α :=
  match record.find? fun (k, _) => k = key with
  | some (_, i) => f i
  | none => some empty

end Cbor

end StackCode
