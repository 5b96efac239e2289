import Std.Data.HashMap
import StackCode.Value

/-!
# Constant pool

The constants of a program, each once, in the order of their first use.
-/

namespace StackCode

open Text

/-- Constants, and the index of each by what tells it apart. -/
structure Pool where
  values : Array Value := #[]
  index : Std.HashMap Value.Key UInt16 := {}

namespace Pool

/-- The largest number of constants: an index has two bytes. -/
def capacity : Nat := 65536

def overflowMessage : Text := "constant pool overflow: more than 65536 entries"

/-- The index of a value and the pool that holds it. A full pool that lacks the value gives no index
and stays as it is. -/
def intern (p : Pool) (v : Value) : Option UInt16 × Pool :=
  let ⟨values, index⟩ := p
  let key := v.key
  match index[key]? with
  | some i => (some i, ⟨values, index⟩)
  | none =>
    if capacity ≤ values.size then (none, ⟨values, index⟩)
    else
      let i := UInt16.ofNat values.size
      (some i, ⟨values.push v, index.insert key i⟩)

def get? (p : Pool) (i : UInt16) : Option Value := p.values[i.toNat]?

end Pool

end StackCode
