import CarCare.Provider
import Mathlib.Data.List.DropRight

/-!
The life of the shared provider. Requests are logged with what they were answered; the part of the
log since the last close is the life of the provider that is shared at the moment, and tells all
that can be seen of it.

What is proved:
  1. `Provider.Lived.respond`: a request keeps a provider to what its life tells. That the marks for
     the engine, the sessions and the end of connecting agree is part of it.
  2. `SharedProvider.follows_serveAll`: hence the shared provider is told by the log of every run,
     by induction on the requests.
  3. `SharedProvider.number_serveAll`: a provider keeps its number until it is closed, and no
     later one has it.
  4. `shared_provider_life_cycle`: hence what every request is answered after every run, and what it
     leaves behind.
-/
namespace CarCare

namespace ProviderRequest

def isClose : ProviderRequest → Bool
  | close => true
  | _ => false

/-- Whether a request makes the provider connect: because it asks for that, or because it needs the
database. -/
def connects : ProviderRequest → Bool
  | connect .. | createTables | countCustomers | addCustomer _ => true
  | get _ | close | dialect | sessions => false

def createsTables : ProviderRequest → Bool
  | createTables => true
  | _ => false

def echo? : ProviderRequest → Option Bool
  | connect _ echo => echo
  | _ => none

theorem isClose_iff {request : ProviderRequest} : request.isClose ↔ request = .close := by
  cases request <;> simp [isClose]

end ProviderRequest

/-- A request and what it was answered. -/
structure ProviderEvent where
  request : ProviderRequest
  answer : Except ProviderError ProviderReply

/-- The customer that an event has added. -/
def ProviderEvent.added? (e : ProviderEvent) : Option Customer :=
  match e.request, e.answer with
  | .addCustomer row, .ok .added => some row
  | _, _ => none

/-- What one provider was asked, from the request that made it on. -/
abbrev ProviderLife := List ProviderEvent

namespace ProviderLife

/-- The life of the provider that is shared after a log: what came since the last close. -/
def sinceClose (log : List ProviderEvent) : ProviderLife := log.rtakeWhile (!·.request.isClose)

/-- Whether connecting was attempted. -/
def connected (life : ProviderLife) : Bool := life.any (·.request.connects)

def hasTables (life : ProviderLife) : Bool := life.any (·.request.createsTables)

/-- The customers that were added with success, in their order. -/
def added (life : ProviderLife) : List Customer := life.filterMap ProviderEvent.added?

/-- The echo that was asked for when the provider connected. -/
def echo? (life : ProviderLife) : Option Bool :=
  (life.find? (·.request.connects)).bind (·.request.echo?)

/-- The settings of the request that made the provider. Nothing later changes them, but for the echo
that connecting may ask for. -/
def settings (usual : Settings) (life : ProviderLife) : Settings :=
  ((life.head?.map (·.request.settings usual)).getD usual).withEcho life.echo?

variable {life : ProviderLife} {log : List ProviderEvent} {e : ProviderEvent}

theorem sinceClose_open (h : e.request.isClose = false) :
    sinceClose (log ++ [e]) = sinceClose log ++ [e] :=
  List.rtakeWhile_concat_pos _ _ _ (by simp [h])

theorem sinceClose_close (h : e.request.isClose) : sinceClose (log ++ [e]) = [] :=
  List.rtakeWhile_concat_neg _ _ _ (by simp [h])

theorem connected_append : (life ++ [e]).connected = (life.connected || e.request.connects) := by
  simp [connected]

theorem hasTables_append :
    (life ++ [e]).hasTables = (life.hasTables || e.request.createsTables) := by
  simp [hasTables]

theorem added_append : (life ++ [e]).added = life.added ++ e.added?.toList := by
  unfold added
  rw [List.filterMap_append]
  cases h : e.added? <;> simp [h]

/-- Once a provider has connected, no echo is taken any more. -/
theorem echo?_append : (life ++ [e]).echo? = if life.connected then life.echo?
    else if e.request.connects then e.request.echo? else none := by
  unfold echo? connected
  rw [List.find?_append]
  split
  · obtain ⟨first, hfirst, hconnects⟩ := List.any_eq_true.mp ‹_›
    have hsome : (life.find? (·.request.connects)).isSome :=
      List.find?_isSome.mpr ⟨first, hfirst, hconnects⟩
    obtain ⟨found, hfound⟩ := Option.isSome_iff_exists.mp hsome
    rw [hfound]
    rfl
  · have hnone : life.find? (·.request.connects) = none := by simp_all
    rw [hnone]
    split <;> simp_all

theorem echo?_of_unconnected (h : life.connected = false) : life.echo? = none := by
  unfold echo? connected at *
  have hnone : life.find? (·.request.connects) = none := by simp_all
  rw [hnone]
  rfl

theorem connected_of_hasTables (h : life.hasTables) : life.connected := by
  obtain ⟨e, he, hcreates⟩ := List.any_eq_true.mp h
  refine List.any_eq_true.mpr ⟨e, he, ?_⟩
  cases hrequest : e.request <;>
    simp_all [ProviderRequest.connects, ProviderRequest.createsTables]

end ProviderLife

/-! ## One provider -/

namespace Provider

/-- A provider with the settings it was made with and the life it has had. -/
structure Lived (made : Settings) (life : ProviderLife) (p : Provider) : Prop where
  settings : p.settings = made.withEcho life.echo?
  engine : p.hasEngine = life.connected
  sessions : p.hasSessions = life.connected
  connected : p.isConnected = life.connected
  tables : p.database.isSome = life.hasTables
  customers : (p.database.getD {}).leases.customers = life.added

variable {p : Provider} {made : Settings} {life : ProviderLife} {e : ProviderEvent} {row : Customer}
  {request : ProviderRequest}

theorem Lived.new (number : Nat) (made : Settings) :
    Lived made [] { number, settings := made } where
  settings := rfl
  engine := rfl
  sessions := rfl
  connected := rfl
  tables := rfl
  customers := rfl

@[simp] theorem connect_number (p : Provider) (echo : Option Bool) :
    (p.connect echo).number = p.number := by
  unfold connect
  split <;> rfl

@[simp] theorem connect_database (p : Provider) (echo : Option Bool) :
    (p.connect echo).database = p.database := by
  unfold connect
  split <;> rfl

theorem Lived.connect_again (h : p.Lived made life) (connected : life.connected)
    (echo : Option Bool) : p.connect echo = p :=
  if_pos (h.connected.trans connected)

/-- The engine and the sessions are there together, so that it does not matter which of them a
request looks for. -/
theorem Lived.forSessions_eq (h : p.Lived made life) : p.forSessions = p.connect := by
  cases hconnected : life.connected with
  | true =>
    rw [h.connect_again hconnected]
    exact if_pos (h.sessions.trans hconnected)
  | false => exact if_neg (by simp [h.sessions, hconnected])

theorem Lived.createTables_eq (h : p.Lived made life) :
    p.createTables = { p.connect with database := some (p.database.getD {}) } := by
  have hconnect : (if p.hasEngine then p else p.connect) = p.connect := by
    rw [h.engine, ← h.sessions]
    exact h.forSessions_eq
  unfold createTables
  rw [hconnect]
  show { p.connect with database := some (p.connect.database.getD {}) } = _
  rw [connect_database]

theorem Lived.createTables_again (h : p.Lived made life) (tables : life.hasTables) :
    p.createTables = p := by
  rw [h.createTables_eq, h.connect_again (ProviderLife.connected_of_hasTables tables)]
  obtain ⟨db, hdb⟩ := Option.isSome_iff_exists.mp (h.tables.trans tables)
  rw [hdb, Option.getD_some, ← hdb]

theorem Lived.look (h : p.Lived made life) (quiet : e.request.connects = false) :
    p.Lived made (life ++ [e]) := by
  have htables : e.request.createsTables = false := by
    cases hrequest : e.request <;>
      simp_all [ProviderRequest.connects, ProviderRequest.createsTables]
  have hadded : e.added? = none := by
    cases hrequest : e.request <;> simp_all [ProviderRequest.connects, ProviderEvent.added?]
  have hecho : (life ++ [e]).echo? = life.echo? := by
    rw [ProviderLife.echo?_append]
    split
    · rfl
    · simp_all [ProviderLife.echo?_of_unconnected]
  exact
    { settings := by rw [hecho, h.settings]
      engine := by simp [ProviderLife.connected_append, quiet, h.engine]
      sessions := by simp [ProviderLife.connected_append, quiet, h.sessions]
      connected := by simp [ProviderLife.connected_append, quiet, h.connected]
      tables := by simp [ProviderLife.hasTables_append, htables, h.tables]
      customers := by simp [ProviderLife.added_append, hadded, h.customers] }

theorem Lived.connect {database : Option Database} (h : p.Lived made life)
    (connects : e.request.connects)
    (tables : database.isSome = (life.hasTables || e.request.createsTables))
    (customers : (database.getD {}).leases.customers = life.added ++ e.added?.toList) :
    Lived made (life ++ [e]) { p.connect e.request.echo? with database } := by
  have hconnected : (life ++ [e]).connected = true := by
    simp [ProviderLife.connected_append, connects]
  -- The first request that connects is this one, unless the provider had connected before.
  cases hbefore : life.connected with
  | true =>
    rw [h.connect_again hbefore]
    exact
      { settings := by simp [ProviderLife.echo?_append, hbefore, h.settings]
        engine := by rw [hconnected, ← hbefore, ← h.engine]
        sessions := by rw [hconnected, ← hbefore, ← h.sessions]
        connected := by rw [hconnected, ← hbefore, ← h.connected]
        tables := by rw [ProviderLife.hasTables_append, ← tables]
        customers := by rw [ProviderLife.added_append, ← customers] }
  | false =>
    have hfresh : p.connect e.request.echo? = { p with
        settings := p.settings.withEcho e.request.echo?
        hasEngine := true
        hasSessions := true
        isConnected := true } :=
      if_neg (by simp [h.connected, hbefore])
    have hmade : p.settings = made := by
      rw [h.settings, ProviderLife.echo?_of_unconnected hbefore]
      rfl
    rw [hfresh]
    exact
      { settings := by simp [ProviderLife.echo?_append, hbefore, connects, hmade]
        engine := hconnected.symm
        sessions := hconnected.symm
        connected := hconnected.symm
        tables := by rw [ProviderLife.hasTables_append, ← tables]
        customers := by rw [ProviderLife.added_append, ← customers] }

theorem Lived.use (h : p.Lived made life) (connects : e.request.connects)
    (still : e.request.createsTables = false) (adds : e.added? = none) :
    (p.connect e.request.echo?).Lived made (life ++ [e]) := by
  have hsame : p.connect e.request.echo?
      = { p.connect e.request.echo? with database := p.database } := by
    rw [← connect_database p e.request.echo?]
  rw [hsame]
  exact h.connect connects (by simp [h.tables, still]) (by simp [h.customers, adds])

/-- What adding a customer comes to: it needs tables, and an id and a code that no customer has. -/
theorem addCustomer_cases (p : Provider) (row : Customer) :
    p.database = none ∧ p.addCustomer row = .error (.noTable Table.customers.storedName)
      ∨ ∃ db, p.database = some db
        ∧ ((∀ c ∈ db.leases.customers, c.id ≠ row.id ∧ c.code ≠ row.code)
          ∧ p.addCustomer row = .ok { p with database := some { db with leases :=
              { db.leases with customers := db.leases.customers ++ [row] } } }
        ∨ ¬ (∀ c ∈ db.leases.customers, c.id ≠ row.id ∧ c.code ≠ row.code)
          ∧ ∃ broken, p.addCustomer row = .error (.constraint broken)) := by
  unfold addCustomer tables
  cases p.database with
  | none => exact .inl ⟨rfl, rfl⟩
  | some db =>
    refine .inr ⟨db, rfl, ?_⟩
    simp only [LeaseTables.addCustomer]
    by_cases hid : db.leases.customers.any (·.id == row.id)
    · obtain ⟨c, hc, hsame⟩ := List.any_eq_true.mp hid
      rw [if_pos hid]
      exact .inr ⟨fun hfree => (hfree c hc).1 (by simpa using hsame), _, rfl⟩
    · by_cases hcode : db.leases.customers.any (·.code == row.code)
      · obtain ⟨c, hc, hsame⟩ := List.any_eq_true.mp hcode
        rw [if_neg hid, if_pos hcode]
        exact .inr ⟨fun hfree => (hfree c hc).2 (by simpa using hsame), _, rfl⟩
      · rw [if_neg hid, if_neg hcode]
        refine .inl ⟨fun c hc => ⟨?_, ?_⟩, rfl⟩
        · simp_all
        · simp_all

/-- A provider that has answered a request is told by its life up to that answer. -/
theorem Lived.respond (h : p.Lived made life) (opens : request.isClose = false) :
    (p.respond request).2.Lived made (life ++ [⟨request, (p.respond request).1⟩]) := by
  cases request with
  | close => cases opens
  | get _ | dialect | sessions => exact h.look rfl
  | connect settings echo => exact h.use (e := ⟨.connect settings echo, _⟩) rfl rfl rfl
  | createTables =>
    show Lived _ _ p.createTables
    rw [h.createTables_eq]
    exact h.connect (e := ⟨.createTables, _⟩) rfl (by simp [ProviderRequest.createsTables])
      (by simp [h.customers, ProviderEvent.added?])
  | countCustomers =>
    show Lived _ _ p.forSessions
    rw [h.forSessions_eq]
    exact h.use (e := ⟨.countCustomers, _⟩) rfl rfl rfl
  | addCustomer row =>
    rw [Provider.respond, h.forSessions_eq]
    rcases addCustomer_cases p.connect row with
      ⟨-, hanswer⟩ | ⟨db, hdb, ⟨-, hanswer⟩ | ⟨-, broken, hanswer⟩⟩
    · rw [hanswer]
      exact h.use (e := ⟨.addCustomer row, _⟩) rfl rfl rfl
    · rw [hanswer]
      rw [connect_database] at hdb
      have htables := h.tables
      have hcustomers := h.customers
      rw [hdb] at htables hcustomers
      exact h.connect (e := ⟨.addCustomer row, .ok .added⟩) rfl (by simp [← htables])
        (by simp [← hcustomers, ProviderEvent.added?])
    · rw [hanswer]
      exact h.use (e := ⟨.addCustomer row, _⟩) rfl rfl rfl

@[simp] theorem respond_number (p : Provider) (request : ProviderRequest) :
    (p.respond request).2.number = p.number := by
  have hsessions : p.forSessions.number = p.number := by
    unfold forSessions
    split <;> simp
  cases request with
  | get _ | close | dialect | sessions => rfl
  | connect _ echo => exact connect_number p echo
  | createTables =>
    show (if p.hasEngine then p else p.connect).number = p.number
    split <;> simp
  | countCustomers => exact hsessions
  | addCustomer row =>
    rw [respond]
    rcases addCustomer_cases p.forSessions row with
      ⟨-, hanswer⟩ | ⟨db, -, ⟨-, hanswer⟩ | ⟨-, broken, hanswer⟩⟩ <;>
      rw [hanswer] <;> exact hsessions

/-! ### Answers -/

theorem Lived.dialect_answer (h : p.Lived made life) : ∃ name, (p.respond .dialect).1
    = if life.connected then .ok (.dialect name) else .error .notConnected := by
  refine ⟨p.dialect, ?_⟩
  rw [Provider.respond, requireEngine, h.engine]
  split <;> rfl

theorem Lived.sessions_answer (h : p.Lived made life) : (p.respond .sessions).1
    = if life.connected then .ok .sessions else .error .notConnected := by
  rw [Provider.respond, requireSessions, h.sessions]
  split <;> rfl

theorem Lived.count_answer (h : p.Lived made life) : (p.respond .countCustomers).1
    = if life.hasTables then .ok (.count life.added.length)
      else .error (.noTable Table.customers.storedName) := by
  rw [Provider.respond, h.forSessions_eq, Provider.tables, connect_database, ← h.tables,
    ← h.customers]
  cases p.database <;> rfl

theorem Lived.add_answer (h : p.Lived made life) (row : Customer) :
    (life.hasTables = false →
        (p.respond (.addCustomer row)).1 = .error (.noTable Table.customers.storedName))
      ∧ (life.hasTables → (∀ c ∈ life.added, c.id ≠ row.id ∧ c.code ≠ row.code) →
        (p.respond (.addCustomer row)).1 = .ok .added)
      ∧ (life.hasTables → ¬ (∀ c ∈ life.added, c.id ≠ row.id ∧ c.code ≠ row.code) →
        ∃ broken, (p.respond (.addCustomer row)).1 = .error (.constraint broken)) := by
  rw [Provider.respond, h.forSessions_eq, ← h.tables, ← h.customers]
  rcases addCustomer_cases p.connect row with
    ⟨hdb, hanswer⟩ | ⟨db, hdb, ⟨hfree, hanswer⟩ | ⟨htaken, broken, hanswer⟩⟩ <;>
    rw [connect_database] at hdb <;> rw [hanswer, hdb]
  · exact ⟨fun _ => rfl, nofun, nofun⟩
  · exact ⟨nofun, fun _ _ => rfl, fun _ hnot => absurd hfree hnot⟩
  · exact ⟨nofun, fun _ hall => absurd hall htaken, fun _ _ => ⟨broken, rfl⟩⟩

end Provider

/-! ## The provider that is shared -/

namespace SharedProvider

/-- Serves requests in turn: the log of what they were answered, and the state after all. -/
def serveAll (usual : Settings) :
    List ProviderRequest → SharedProvider → List ProviderEvent × SharedProvider
  | [], s => ([], s)
  | request :: rest, s =>
    let served := s.serve request usual
    let later := serveAll usual rest served.2
    (⟨request, served.1⟩ :: later.1, later.2)

/-- What a life tells of the provider that is shared: without one there is no provider yet. -/
def Follows (usual : Settings) (life : ProviderLife) (s : SharedProvider) : Prop :=
  match life with
  | [] => s.current = none
  | first :: _ => ∃ p, s.current = some p ∧ p.Lived (first.request.settings usual) life

variable {s : SharedProvider} {p q : Provider} {usual : Settings} {life : ProviderLife}
  {request : ProviderRequest} {requests : List ProviderRequest} {log : List ProviderEvent}

theorem serve_eq (s : SharedProvider) (usual : Settings) (opens : request.isClose = false) :
    s.serve request usual
      = (((s.get (request.settings usual) none).1.respond request).1,
        (s.get (request.settings usual) none).2.keep
          ((s.get (request.settings usual) none).1.respond request).2) := by
  cases request with
  | close => cases opens
  | _ => rfl

theorem get_current (h : s.current = some p) (settings : Settings) (found : Option Database) :
    s.get settings found = (p, s) := by
  rw [get, h]

theorem keep_current (h : s.current = some p) : s.keep p = s := by
  unfold keep
  rw [← h]

theorem serve_current (h : s.current = some p) (opens : request.isClose = false) :
    s.serve request usual = ((p.respond request).1, s.keep (p.respond request).2) := by
  rw [serve_eq s usual opens, get_current h]

theorem serve_unchanged (h : s.current = some p) (opens : request.isClose = false)
    (same : (p.respond request).2 = p) : (s.serve request usual).2 = s := by
  rw [serve_current h opens, same]
  exact keep_current h

theorem Follows.asked (h : s.Follows usual life) (request : ProviderRequest) :
    (s.get (request.settings usual) none).1.Lived
      (((life.head?.map (·.request)).getD request).settings usual) life := by
  cases life with
  | nil =>
    have hnone : s.current = none := h
    rw [get, hnone]
    exact .new s.made (request.settings usual)
  | cons first rest =>
    obtain ⟨p, hp, hlived⟩ := h
    rw [get_current hp]
    exact hlived

theorem Follows.served (h : s.Follows usual life) (request : ProviderRequest)
    (opens : request.isClose = false) :
    ∃ (p : Provider) (made : Settings), p.Lived made life
      ∧ (s.serve request usual).1 = (p.respond request).1
      ∧ (s.serve request usual).2.current = some (p.respond request).2 := by
  rw [serve_eq s usual opens]
  exact ⟨_, _, h.asked request, rfl, rfl⟩

theorem follows_serve (h : s.Follows usual (.sinceClose log)) (request : ProviderRequest) :
    (s.serve request usual).2.Follows usual
      (.sinceClose (log ++ [⟨request, (s.serve request usual).1⟩])) := by
  cases hclose : request.isClose with
  | true =>
    rw [ProviderLife.sinceClose_close hclose]
    obtain rfl := ProviderRequest.isClose_iff.mp hclose
    rfl
  | false =>
    rw [ProviderLife.sinceClose_open hclose]
    have hasked := (h.asked request).respond hclose
    rw [serve_eq s usual hclose]
    cases hlife : ProviderLife.sinceClose log with
    | nil =>
      rw [hlife] at hasked
      exact ⟨_, rfl, hasked⟩
    | cons first rest =>
      rw [hlife] at hasked
      exact ⟨_, rfl, hasked⟩

/-- The log of a run tells of the shared provider that it ends with. -/
theorem follows_serveAll (h : s.Follows usual (.sinceClose log)) (requests : List ProviderRequest) :
    (serveAll usual requests s).2.Follows usual
      (.sinceClose (log ++ (serveAll usual requests s).1)) := by
  -- The log grows at its end, so the induction is for every log so far.
  induction requests generalizing s log with
  | nil => simpa [serveAll] using h
  | cons request rest ih =>
    have hstep := ih (follows_serve h request)
    rw [List.append_assoc] at hstep
    exact hstep

theorem follows_run (usual : Settings) (requests : List ProviderRequest) :
    (serveAll usual requests {}).2.Follows usual (.sinceClose (serveAll usual requests {}).1) := by
  have hstart : Follows usual (.sinceClose []) {} := by
    simp [Follows, ProviderLife.sinceClose]
  exact follows_serveAll hstart requests

theorem Follows.current_eq_none (h : s.Follows usual life) : s.current = none ↔ life = [] := by
  cases life with
  | nil => exact iff_of_true h rfl
  | cons first rest =>
    obtain ⟨p, hp, -⟩ := h
    exact iff_of_false (by simp [hp]) nofun

theorem Follows.lived (h : s.Follows usual life) (hp : s.current = some p) :
    p.settings = life.settings usual ∧ ∃ made, p.Lived made life := by
  cases life with
  | nil => cases hp.symm.trans h
  | cons first rest =>
    obtain ⟨p', hp', hlived⟩ := h
    obtain rfl := Option.some.inj (hp.symm.trans hp')
    exact ⟨hlived.settings, _, hlived⟩

theorem Follows.exists_of_connected (h : s.Follows usual life) (connected : life.connected) :
    ∃ p made, s.current = some p ∧ p.Lived made life := by
  cases life with
  | nil => cases connected
  | cons first rest =>
    obtain ⟨p, hp, hlived⟩ := h
    exact ⟨p, _, hp, hlived⟩

/-! ### Numbers -/

/-- The provider after a request: the one before, or a new one with the next number. -/
theorem serve_number (s : SharedProvider) (usual : Settings) (opens : request.isClose = false) :
    ∃ q, (s.serve request usual).2.current = some q
      ∧ ((∃ p, s.current = some p ∧ q.number = p.number ∧ (s.serve request usual).2.made = s.made)
        ∨ s.current = none ∧ q.number = s.made ∧ (s.serve request usual).2.made = s.made + 1) := by
  rw [serve_eq s usual opens]
  refine ⟨_, rfl, ?_⟩
  rw [Provider.respond_number]
  cases hcurrent : s.current with
  | some p =>
    rw [get_current hcurrent]
    exact .inl ⟨p, rfl, rfl, rfl⟩
  | none =>
    rw [get, hcurrent]
    exact .inr ⟨rfl, rfl, rfl⟩

/-- A state in which all providers, that of the moment and those to come, have higher numbers. -/
structure Above (n : Nat) (s : SharedProvider) : Prop where
  made : n < s.made
  current : ∀ p, s.current = some p → n < p.number

theorem Above.serve {n : Nat} (h : s.Above n) (request : ProviderRequest) :
    (s.serve request usual).2.Above n := by
  cases hclose : request.isClose with
  | true =>
    obtain rfl := ProviderRequest.isClose_iff.mp hclose
    exact ⟨h.made, nofun⟩
  | false =>
    obtain ⟨q, hq, ⟨p, hp, hnumber, hmade⟩ | ⟨-, hnumber, hmade⟩⟩ := s.serve_number usual hclose
    · refine ⟨hmade ▸ h.made, fun q' hq' => ?_⟩
      obtain rfl := Option.some.inj (hq.symm.trans hq')
      exact hnumber ▸ h.current p hp
    · refine ⟨hmade ▸ Nat.lt_succ_of_lt h.made, fun q' hq' => ?_⟩
      obtain rfl := Option.some.inj (hq.symm.trans hq')
      exact hnumber ▸ h.made

theorem Above.serveAll {n : Nat} (h : s.Above n) (requests : List ProviderRequest) :
    (SharedProvider.serveAll usual requests s).2.Above n := by
  induction requests generalizing s with
  | nil => exact h
  | cons request rest ih => exact ih (h.serve request)

/-- The shared provider got its number before the next one is made. -/
def Numbered (s : SharedProvider) : Prop := ∀ p, s.current = some p → p.number < s.made

theorem Numbered.serve (h : s.Numbered) (request : ProviderRequest) :
    (s.serve request usual).2.Numbered := by
  intro q' hq'
  cases hclose : request.isClose with
  | true =>
    obtain rfl := ProviderRequest.isClose_iff.mp hclose
    cases hq'
  | false =>
    obtain ⟨q, hq, ⟨p, hp, hnumber, hmade⟩ | ⟨-, hnumber, hmade⟩⟩ := s.serve_number usual hclose
    · obtain rfl := Option.some.inj (hq.symm.trans hq')
      rw [hnumber, hmade]
      exact h p hp
    · obtain rfl := Option.some.inj (hq.symm.trans hq')
      rw [hnumber, hmade]
      exact Nat.lt_succ_self s.made

theorem Numbered.serveAll (h : s.Numbered) (requests : List ProviderRequest) :
    (SharedProvider.serveAll usual requests s).2.Numbered := by
  induction requests generalizing s with
  | nil => exact h
  | cons request rest ih => exact ih (h.serve request)

/-- A provider keeps its number until it is closed, and later ones have higher numbers. -/
theorem number_serveAll (numbered : s.Numbered) (hp : s.current = some p)
    (requests : List ProviderRequest) :
    ((∀ r ∈ requests, r.isClose = false) ∧
        ∃ q, (serveAll usual requests s).2.current = some q ∧ q.number = p.number)
      ∨ (∃ r ∈ requests, r.isClose) ∧ (serveAll usual requests s).2.Above p.number := by
  -- Up to the first close the provider is the same; from there on only new ones are made.
  induction requests generalizing s p with
  | nil => exact .inl ⟨nofun, p, hp, rfl⟩
  | cons request rest ih =>
    cases hclose : request.isClose with
    | true =>
      have habove : (s.serve request usual).2.Above p.number := by
        obtain rfl := ProviderRequest.isClose_iff.mp hclose
        exact ⟨numbered p hp, nofun⟩
      exact .inr ⟨⟨request, List.mem_cons_self, hclose⟩, habove.serveAll rest⟩
    | false =>
      obtain ⟨p', hp', hnumber⟩ : ∃ p', (s.serve request usual).2.current = some p'
          ∧ p'.number = p.number := by
        rw [serve_current hp hclose]
        exact ⟨_, rfl, p.respond_number request⟩
      rcases ih (numbered.serve request) hp' with ⟨hopen, q, hq, hsame⟩ | ⟨⟨r, hr, hcloses⟩, habove⟩
      · exact .inl ⟨List.forall_mem_cons.mpr ⟨hclose, hopen⟩, q, hq, hsame.trans hnumber⟩
      · exact .inr ⟨⟨r, List.mem_cons_of_mem _ hr, hcloses⟩, hnumber ▸ habove⟩

end SharedProvider

/-- The life cycle of the shared provider, over databases in memory: what the log of any run of
requests tells of the next one. Between two closes there is one provider. It has the settings of the
request that made it, and settings that are brought later count for nothing; only connecting may ask
for an echo. No provider after a close is the same as one before. The engine and the sessions are
refused exactly as long as nothing that connects was asked of the provider. Without tables customers
are neither counted nor added; with tables as many are counted as were added with success, which
takes an id and a code that none of them has. Closing without a provider does nothing, nor does
closing, connecting or creating tables again. -/
theorem shared_provider_life_cycle (usual : Settings) (requests : List ProviderRequest) :
    let run := SharedProvider.serveAll usual requests {}
    let s := run.2
    let life := ProviderLife.sinceClose run.1
    let answer (request : ProviderRequest) := (s.serve request usual).1
    let after (request : ProviderRequest) := (s.serve request usual).2
    (s.current = none ↔ life = [])
      ∧ (∀ p, s.current = some p →
        p.settings = life.settings usual
          ∧ (∀ settings, after (.get settings) = s)
          ∧ ∀ more q, (SharedProvider.serveAll usual more s).2.current = some q →
            (q.number = p.number ↔ ∀ r ∈ more, r.isClose = false))
      ∧ (∀ settings, ∃ p, answer (.get settings) = .ok (.provider p)
        ∧ (after (.get settings)).current = some p)
      ∧ (∀ settings echo, ∃ p, answer (.connect settings echo) = .ok (.provider p)
        ∧ (after (.connect settings echo)).current = some p)
      ∧ (∃ name, answer .dialect
        = if life.connected then .ok (.dialect name) else .error .notConnected)
      ∧ answer .sessions = (if life.connected then .ok .sessions else .error .notConnected)
      ∧ answer .countCustomers = (if life.hasTables then .ok (.count life.added.length)
        else .error (.noTable "customers"))
      ∧ (∀ row, (life.hasTables = false → answer (.addCustomer row) = .error (.noTable "customers"))
        ∧ (life.hasTables → (∀ c ∈ life.added, c.id ≠ row.id ∧ c.code ≠ row.code) →
          answer (.addCustomer row) = .ok .added)
        ∧ (life.hasTables → ¬ (∀ c ∈ life.added, c.id ≠ row.id ∧ c.code ≠ row.code) →
          ∃ broken, answer (.addCustomer row) = .error (.constraint broken)))
      ∧ (s.current = none → after .close = s)
      ∧ ((after .close).serve .close usual).2 = after .close
      ∧ (life.connected → ∀ settings echo, after (.connect settings echo) = s)
      ∧ (life.hasTables → after .createTables = s) := by
  intro run s life answer after
  have hfollows : s.Follows usual life := SharedProvider.follows_run usual requests
  have hnumbered : s.Numbered := SharedProvider.Numbered.serveAll (s := {}) (fun _ h => nomatch h) _
  refine ⟨hfollows.current_eq_none, fun p hp => ⟨(hfollows.lived hp).1, fun settings => ?_, ?_⟩,
    fun settings => ?_, fun settings echo => ?_, ?_, ?_, ?_, fun row => ?_, fun hnone => ?_, rfl,
    fun hconnected settings echo => ?_, fun htables => ?_⟩
  · exact SharedProvider.serve_unchanged hp rfl rfl
  · intro more q hq
    rcases SharedProvider.number_serveAll hnumbered hp more with
      ⟨hopen, q', hq', hsame⟩ | ⟨⟨r, hr, hcloses⟩, habove⟩
    · obtain rfl := Option.some.inj (hq.symm.trans hq')
      exact iff_of_true hsame hopen
    · refine iff_of_false (habove.current q hq).ne' fun hopen => ?_
      cases hcloses.symm.trans (hopen r hr)
  · obtain ⟨p, -, -, hanswer, hcurrent⟩ := hfollows.served (.get settings) rfl
    exact ⟨p, hanswer, hcurrent⟩
  · obtain ⟨p, -, -, hanswer, hcurrent⟩ := hfollows.served (.connect settings echo) rfl
    exact ⟨p.connect echo, hanswer, hcurrent⟩
  · obtain ⟨p, made, hlived, hanswer, -⟩ := hfollows.served .dialect rfl
    obtain ⟨name, hname⟩ := hlived.dialect_answer
    exact ⟨name, hanswer.trans hname⟩
  · obtain ⟨p, made, hlived, hanswer, -⟩ := hfollows.served .sessions rfl
    exact hanswer.trans hlived.sessions_answer
  · obtain ⟨p, made, hlived, hanswer, -⟩ := hfollows.served .countCustomers rfl
    exact hanswer.trans hlived.count_answer
  · obtain ⟨p, made, hlived, hanswer, -⟩ := hfollows.served (.addCustomer row) rfl
    simp only [answer, hanswer]
    exact hlived.add_answer row
  · show s.close = s
    rw [SharedProvider.close, ← hnone]
  · obtain ⟨p, made, hp, hlived⟩ := hfollows.exists_of_connected hconnected
    exact SharedProvider.serve_unchanged hp rfl (hlived.connect_again hconnected echo)
  · have hconnected := ProviderLife.connected_of_hasTables htables
    obtain ⟨p, made, hp, hlived⟩ := hfollows.exists_of_connected hconnected
    exact SharedProvider.serve_unchanged hp rfl (hlived.createTables_again htables)

def memorySettings : Settings := { url := .text "sqlite://" }

/-- A provider is made by a look at it, connects with an echo, is asked for customers before it has
tables, and gets three of them, two of which have one code. -/
def busyRequests : List ProviderRequest :=
  [.dialect, .connect (some {}) (some true), .countCustomers, .createTables,
    .addCustomer ⟨⟨1⟩, "A", "Ada", true⟩, .addCustomer ⟨⟨2⟩, "A", "Abe", true⟩,
    .addCustomer ⟨⟨3⟩, "B", "Bo", false⟩, .createTables]

/-- The busy provider has the settings of the look that made it, and the echo that was asked for. It
counts two customers, and connecting again with other settings changes nothing. The provider after a
close is another one, with the settings that it is asked for with, and has not connected. -/
theorem shared_provider_life_cycle_reopened :
    let s := (SharedProvider.serveAll memorySettings busyRequests {}).2
    let t := (SharedProvider.serveAll memorySettings [.close, .get (some {})] s).2
    ∃ p q, s.current = some p ∧ t.current = some q
      ∧ p.settings = { memorySettings with echo := .bool true } ∧ q.settings = {}
      ∧ q.number ≠ p.number
      ∧ (s.serve .sessions memorySettings).1 = .ok .sessions
      ∧ (s.serve .countCustomers memorySettings).1 = .ok (.count 2)
      ∧ (s.serve (.connect (some {}) (some false)) memorySettings).2 = s
      ∧ (t.serve .sessions memorySettings).1 = .error .notConnected
      ∧ (t.serve .countCustomers memorySettings).1 = .error (.noTable "customers") := by
  intro s t
  obtain ⟨-, hprovider, -, -, -, hsessions, hcount, -, -, -, hagain, -⟩ :=
    shared_provider_life_cycle memorySettings busyRequests
  obtain ⟨hsettings, -, hnumber⟩ := hprovider _ rfl
  obtain ⟨-, hreopened, -, -, -, hsessions', hcount', -⟩ :=
    shared_provider_life_cycle memorySettings (busyRequests ++ [.close, .get (some {})])
  refine ⟨_, _, rfl, rfl, hsettings, (hreopened _ rfl).1, ?_, hsessions, hcount, hagain rfl _ _,
    hsessions', hcount'⟩
  exact (hnumber [.close, .get (some {})] _ rfl).not.mpr (by decide)

end CarCare
