import CarCare.Hierarchy.Rows
import CarCare.Settings
import CarCare.Store

/-!
The provider of sessions that a process shares. The first request makes it, with the settings of
that request; it connects when it is first told to or first needed, and is handed out until it is
closed. The database behind it has no tables before they are created.
-/
namespace CarCare

/-- Why a provider cannot serve a request. -/
inductive ProviderError where
  | notConnected
  | noTable (name : String)
  | constraint (broken : Constraint)
deriving DecidableEq, Repr

namespace ProviderError

def message : ProviderError → String
  | notConnected => "DatabaseSessionProvider.init() has not been called"
  | noTable name => "no such table: " ++ name
  | constraint broken => broken.message

end ProviderError

structure Provider where
  /-- Providers are numbered in the order in which they are made. -/
  number : Nat
  settings : Settings
  /-- Whether there is an engine, which reaches the database. -/
  hasEngine : Bool := false
  /-- Whether sessions can be opened on the engine. -/
  hasSessions : Bool := false
  /-- Whether connecting has come to its end. -/
  isConnected : Bool := false
  /-- The database behind the address, if it has tables. -/
  database : Option Database := none

/-- A request to the shared provider. Settings count only where it is made, and may be left out. -/
inductive ProviderRequest where
  | get (settings : Option Settings)
  | connect (settings : Option Settings) (echo : Option Bool := none)
  | close
  | dialect
  | sessions
  | createTables
  | countCustomers
  | addCustomer (row : Customer)

/-- What a request answers. -/
inductive ProviderReply where
  | provider (p : Provider)
  | closed
  | dialect (name : String)
  | sessions
  | tablesCreated
  | count (n : Nat)
  | added

/-- The settings that a request brings, or the usual ones if it brings none. -/
def ProviderRequest.settings (usual : Settings) : ProviderRequest → Settings
  | get settings | connect settings _ => settings.getD usual
  | _ => usual

/-- The settings with the echo that is asked for, if one is. -/
def Settings.withEcho (s : Settings) : Option Bool → Settings
  | some echo => { s with echo := .bool echo }
  | none => s

namespace Provider

/-- Connects: makes the engine and the sessions on it. Once that is done nothing is done again, and
no echo is taken any more. -/
def connect (p : Provider) (echo : Option Bool := none) : Provider :=
  if p.isConnected then p
  else { p with
    settings := p.settings.withEcho echo
    hasEngine := true
    hasSessions := true
    isConnected := true }

/-- Creates the tables that are missing, and connects first if there is no engine. -/
def createTables (p : Provider) : Provider :=
  let p := if p.hasEngine then p else p.connect
  { p with database := some (p.database.getD {}) }

/-- Makes sure that sessions can be opened, and connects if they cannot. -/
def forSessions (p : Provider) : Provider := if p.hasSessions then p else p.connect

def requireEngine (p : Provider) : Except ProviderError Unit :=
  if p.hasEngine then .ok () else .error .notConnected

def requireSessions (p : Provider) : Except ProviderError Unit :=
  if p.hasSessions then .ok () else .error .notConnected

/-- The kind of database that the address names: what stands in front of the driver and the
target. -/
def dialect (p : Provider) : String :=
  String.ofList (p.settings.address.display.toList.takeWhile fun c => c != ':' && c != '+')

def tables (p : Provider) : Except ProviderError Database :=
  match p.database with
  | some db => .ok db
  | none => .error (.noTable Table.customers.storedName)

def addCustomer (p : Provider) (c : Customer) : Except ProviderError Provider :=
  match p.tables with
  | .error e => .error e
  | .ok db =>
    match db.leases.addCustomer c with
    | .ok leases => .ok { p with database := some { db with leases } }
    | .error broken => .error (.constraint broken)

/-- Answers a request, and goes on in the state that it leads to. Connecting succeeds, as it does
for a database in memory. A provider is closed by whoever shares it. -/
def respond (p : Provider) : ProviderRequest → Except ProviderError ProviderReply × Provider
  | .get _ => (.ok (.provider p), p)
  | .connect _ echo => (.ok (.provider (p.connect echo)), p.connect echo)
  | .close => (.ok .closed, p)
  | .dialect => (p.requireEngine.map fun _ => .dialect p.dialect, p)
  | .sessions => (p.requireSessions.map fun _ => .sessions, p)
  | .createTables => (.ok .tablesCreated, p.createTables)
  | .countCustomers =>
    (p.forSessions.tables.map fun db => .count db.leases.customers.length, p.forSessions)
  | .addCustomer row =>
    match p.forSessions.addCustomer row with
    | .ok p => (.ok .added, p)
    -- The provider stays connected for a request that fails.
    | .error e => (.error e, p.forSessions)

end Provider

/-- The provider that is shared, if there is one, and how many have been made. -/
structure SharedProvider where
  made : Nat := 0
  current : Option Provider := none

namespace SharedProvider

/-- The shared provider, which is made with the given settings if there is none; `found` is the
database behind their address. -/
def get (settings : Settings) (found : Option Database) (s : SharedProvider) :
    Provider × SharedProvider :=
  match s.current with
  | some p => (p, s)
  | none =>
    let p : Provider := { number := s.made, settings, database := found }
    (p, ⟨s.made + 1, some p⟩)

/-- The registry with the provider in a new state. -/
def keep (p : Provider) (s : SharedProvider) : SharedProvider := { s with current := some p }

def connect (settings : Settings) (found : Option Database) (s : SharedProvider) :
    Provider × SharedProvider :=
  let (p, s) := s.get settings found
  (p.connect, s.keep p.connect)

/-- Closes the shared provider, so that the next request makes another one. -/
def close (s : SharedProvider) : SharedProvider := { s with current := none }

/-- Serves a request over databases in memory, where every new provider has an empty one of its own.
All requests but one to close go to the shared provider, which is made if there is none: with the
settings of the request, or with the usual ones. -/
def serve (s : SharedProvider) (request : ProviderRequest) (usual : Settings := {}) :
    Except ProviderError ProviderReply × SharedProvider :=
  match request with
  | .close => (.ok .closed, s.close)
  | request =>
    let (p, s) := s.get (request.settings usual) none
    let (answer, p) := p.respond request
    (answer, s.keep p)

end SharedProvider

end CarCare
