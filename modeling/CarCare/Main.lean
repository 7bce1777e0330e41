import CarCare.CommandLine.Loader
import CarCare.CommandLine.Resolver
import CarCare.Json.Reader
import CarCare.Snapshot

/-!
The program: "resolve" runs the resolver and "load" the loader on a snapshot of the database, which
is read from standard input together with the day. The loader writes the snapshot that it leaves.
-/
namespace CarCare.Program

def usualConfig : String := "config.yaml"

/-- Reads a configuration file; one that does not exist leaves every key at its default. -/
def readConfig (file : Option String) : IO (Except ConfigError Config) := do
  let path : String := file.getD usualConfig
  try
    return Config.ofText (← IO.FS.readFile path)
  catch _ => return .ok {}

/-- What the program is run on: the day and the database. -/
def readInput (input : IO.FS.Stream) : IO (Option (Date × Database)) := do
  let mut text := ""
  repeat
    let line ← input.getLine
    if line.isEmpty then break
    text := text ++ line
  let snapshot := (Json.read? text).getD .null
  let today := (Members.date? (snapshot.members?.getD []) "today").getD ⟨1⟩
  match Database.ofSnapshot (.after today 0) snapshot with
  | .ok db => return some (today, db)
  | .error e =>
    IO.eprintln e.message
    return none

def readEnvironment : IO Environment := do
  match ← IO.getEnv "DATABASE_URL" with
  | some url => return [("DATABASE_URL", url)]
  | none => return []

def finish : Except CommandLine.Failure CommandLine.Exit → IO UInt32
  | .ok exit => do
    IO.print exit.output
    return exit.status.toUInt32
  | .error failure => do
    IO.eprintln failure.message
    return 1

/-- Ids for new rows, counted from a random one. -/
def newIds : IO IdSupply := do
  let bytes ← IO.getRandomBytes 16
  let first := bytes.foldl (fun n b => n * 256 + b.toNat) 0
  return fun n => ⟨BitVec.ofNat 128 (first + n)⟩

def resolve (args : List String) : IO UInt32 := do
  match CommandLine.Resolver.parse args with
  | .error usage => finish (.ok usage.exit)
  | .ok (file, _) =>
    let config ← readConfig file
    match ← readInput (← IO.getStdin) with
    | none => return 1
    | some (today, db) =>
      let v : CommandLine.Surroundings := ⟨today, ← readEnvironment⟩
      finish (CommandLine.Resolver.run v (fun _ => config) args db {}).1

def load (args : List String) : IO UInt32 := do
  match CommandLine.Loader.parse args with
  | .error usage => finish (.ok usage.exit)
  | .ok (file, _) =>
    let config ← readConfig file
    match ← readInput (← IO.getStdin) with
    | none => return 1
    | some (today, db) =>
      let v : CommandLine.Surroundings := ⟨today, ← readEnvironment⟩
      let (result, db, _) :=
        CommandLine.Loader.run v (fun _ => config) args (.after today 0) (← newIds) db {}
      if result matches .ok _ then IO.println (Json.indented db.toSnapshot)
      finish result

end CarCare.Program

open CarCare in
def main (args : List String) : IO UInt32 :=
  match args with
  | "resolve" :: rest => Program.resolve rest
  | "load" :: rest => Program.load rest
  | _ => return 2
