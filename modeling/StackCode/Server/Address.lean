import StackCode.Number.Integer

/-!
# Listening addresses

A server listens at a host and a port with a colon between them. A host that has colons itself
stands in brackets.
-/

namespace StackCode

open Text

namespace Server

inductive AddressError where
  | malformed (address problem : Text)
  | unknownPort (port : Text)
  deriving DecidableEq, Repr

def AddressError.message : AddressError → Text
  | malformed address problem =>
    if address.isEmpty then "listen tcp: " ++ problem
    else "listen tcp: address " ++ address ++ ": " ++ problem
  | unknownPort port => "listen tcp: lookup tcp/" ++ port ++ ": unknown port"

def splitAddress (a : Text) : Except AddressError (Text × Text) :=
  let bad (problem : Text) : Except AddressError (Text × Text) := .error (.malformed a problem)
  let checked (host port : Text) (before after : Text) : Except AddressError (Text × Text) :=
    if before.contains (byte '[') then bad "unexpected '[' in address"
    else if after.contains (byte ']') then bad "unexpected ']' in address"
    else .ok (host, port)
  match cutLast (byte ':') a with
  | none => bad "missing port in address"
  | some (host, port) =>
    if a.head? == some (byte '[') then
      match cut (byte ']') a with
      | none => bad "missing ']' in address"
      | some (inside, rest) =>
        match rest with
        | [] => bad "missing port in address"
        | b :: tail =>
          if b ≠ byte ':' then bad "missing port in address"
          else if tail.contains (byte ':') then bad "too many colons in address"
          else checked (inside.drop 1) port (a.drop 1) rest
    else if host.contains (byte ':') then bad "too many colons in address"
    else checked host port a a

/-- The number of a port. An empty one is zero. -/
def portNumber (port : Text) : Except AddressError Nat :=
  let (negative, digits) := Number.splitSign port
  match Number.ofDigits? 10 digits with
  | none => .error (.unknownPort port)
  | some n =>
    if (negative ∧ n ≠ 0) ∨ 65535 < n then .error (.malformed port "invalid port") else .ok n

def readAddress (a : Text) : Except AddressError (Text × Nat) := do
  let (host, port) ← splitAddress a
  return (host, ← portNumber port)

end Server

end StackCode
