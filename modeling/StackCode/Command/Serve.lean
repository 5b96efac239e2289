import StackCode.Command.Project
import StackCode.Server.Address

/-!
# Names, servers and caches

The commands that say where modules are, start a server, and look after the build cache.
-/

namespace StackCode

open Text

namespace Command

def foundLine (name path : Text) : Text := name ++ "\t" ++ path ++ "\n"

def loadedLine (name path format : Text) (exports : List Text) : Text :=
  name ++ "\t" ++ path ++ "\t" ++ format ++ "\t" ++ Text.join "," exports ++ "\n"

def resolveProcedure : Text := "/velac.v1.ResolveService/Resolve"

def reach (url : Text) : Action Server := do
  let trimmed := (url.reverse.dropWhile (· = byte '/')).reverse
  match (← get).servers.lookup trimmed with
  | some s => return s
  | none =>
    let reason : Text :=
      if hasPart "://" url then "no server at " ++ url
      else "URL " ++ quote (trimmed ++ resolveProcedure) ++
        " missing scheme: use http:// or https:// (unlike grpc-go)"
    throw (Server.Refusal.message ⟨.unavailable, reason⟩)

/-- Asks a server where modules are. The first one that it refuses ends the command. -/
def resolveRemote (url : Text) (load : Bool) (names : List Text) : Action Unit :=
  for name in names do
    let about (message : Text) : Text := name ++ ": " ++ message
    let server ← tryCatch (reach url) fun e => throw (about e)
    let (response, server) := server.callResolve (← disk) { name, load }
    let key := (url.reverse.dropWhile (· = byte '/')).reverse
    modify fun s => { s with servers := (key, server) :: s.servers }
    let r ← orFail (fun e => about (Server.Refusal.message e)) response
    print (if load then loadedLine name r.path r.format r.exports else foundLine name r.path)

def resolveName (load : Bool) (d : Disk) (l : Loader) (name : Text) : Except Text Text × Loader :=
  match Server.find d { name, load } l with
  | (.error e, l) => (.error e.message, l)
  | (.ok r, l) =>
    (.ok (if load then loadedLine name r.path r.format r.exports else foundLine name r.path), l)

def resolve (o : Options) (names : List Text) : Action Unit := do
  let load := o.settings.isOn "load"
  match (o.settings.text? "remote").getD [] with
  | b :: url => resolveRemote (b :: url) load names
  | [] =>
    let p ← Project.load o
    let mut loader : Loader := { resolver := ← p.resolver }
    let d ← disk
    let mut failed := 0
    for name in names do
      let (line, l) := resolveName load d loader name
      loader := l
      match line with
      | .ok line => print line
      | .error problem =>
        report o.colours name [problem]
        failed := failed + 1
    if failed ≠ 0 then
      throw (Text.ofNat failed ++ " of " ++ Text.ofNat names.length ++ " names did not resolve")

def serve (o : Options) : Action Unit := do
  let p ← Project.load o
  let _ ← p.resolver
  let _ ← p.openCache o
  let address := (o.settings.text? "addr").getD "localhost:7420"
  let _ ← orFail Server.AddressError.message (Server.readAddress address)

def withCache (o : Options) (f : Cache → Action Unit) : Action Unit := do
  let p ← Project.load o
  match ← p.openCache o with
  | none => throw (Text.ofString "no build cache configured (set [build] cache or pass --cache)")
  | some c => f c

def cacheStats (o : Options) : Action Unit :=
  withCache o fun c => do
    let n ← orFail Cache.Error.message c.size
    print (c.path ++ ": " ++ Text.ofNat n ++ " programs\n")

def cachePurge (o : Options) : Action Unit :=
  withCache o fun c => do
    let (n, c) ← orFail Cache.Error.message c.purge
    Project.saveCache (some c)
    print (paint o.colours .yellow "purged" ++ " " ++ Text.ofNat n ++ " programs from " ++ c.path ++
      "\n")

end Command

end StackCode
