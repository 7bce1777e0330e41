import CarCare.CommandLine.Exit
import CarCare.Samples.Instructions

/-!
The loader: a command line that puts the sample hierarchy into the database and, if asked for, the
sample instructions. Everything is loaded in one session; a failure leaves the database as it was.
-/
namespace CarCare.CommandLine.Loader

def samplesOption : OptionForm := { names := ["--with-samples"] }

def verboseOption : OptionForm := { names := ["--verbose", "-v"] }

def parse (args : List String) : Except Usage (Option String × Bool) := do
  let a ← Arguments.parse [samplesOption, configOption, verboseOption] 0 args
  pure (a.configFile?, a.has samplesOption.name)

/-- Loads with a configuration: connects the shared provider, creates the tables that are missing,
loads, and closes the provider whatever happens. -/
def runLoad (v : Surroundings) (config : Config) (withSamples : Bool) (now : Timestamp)
    (ids : IdSupply) (db : Database) (shared : SharedProvider) :
    Except Failure Exit × Database × SharedProvider :=
  let (provider, shared) := shared.connect (.ofConfig v.environment config.database) (some db)
  let stored := provider.createTables.database.getD {}
  match stored.transact (Samples.load withSamples v.today now ids) with
  | (.ok _, db) => (.ok { status := 0 }, db, shared.close)
  | (.error e, db) => (.error (.request e), db, shared.close)

def run (v : Surroundings) (source : ConfigSource) (args : List String) (now : Timestamp)
    (ids : IdSupply) (db : Database) (shared : SharedProvider) :
    Except Failure Exit × Database × SharedProvider :=
  match parse args with
  | .error usage => (.ok usage.exit, db, shared)
  | .ok (file, withSamples) =>
    match configure source file with
    | .error failure => (.error failure, db, shared)
    | .ok config => runLoad v config withSamples now ids db shared

end CarCare.CommandLine.Loader
