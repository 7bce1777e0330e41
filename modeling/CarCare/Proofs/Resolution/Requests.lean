import CarCare.Proofs.Hierarchy.Placement
import CarCare.Proofs.Resolution.Layers
import CarCare.Proofs.Store.Write

/-!
Requests for effective instructions: what the service answers for a scope and for a car.

What is proved:
  1. `Service.resolveScope_eq_ok`: a scope resolves if its path reaches a customer, and then to the
     merge of the layers of the path.
  2. `car_resolves_as_its_seat`: a car resolves as the scope that it sits on does.
-/
namespace CarCare

theorem Level.parse_name (l : Level) : Level.parse (.text l.name) = .ok l := by
  have hname : Level.ofValue? (.text l.name) = some l := ofName?_name l
  rw [parse, hname]

namespace Service
variable {v : Service} {db : Database} {level : Level} {id : Uuid} {path : Path}

theorem resolveScope_name (v : Service) (db : Database) (level : Level) (id : Uuid) :
    v.resolveScope db (.text level.name) id =
      resolveForScope (m := Id) (v.directory db) (reader db) level id := by
  rw [resolveScope, Level.parse_name]
  rfl

theorem resolveScope_of_path (h : (v.directory db).pathForScope level id = .ok path)
    (rooted : path.customer.id.isSome) :
    v.resolveScope db (.text level.name) id = .ok (.merge path (path.layers (reader db))) := by
  rw [resolveScope_name, resolveForScope, h]
  exact resolve_id (reader db) path rooted

theorem resolveScope_eq_ok {e : Effective} : v.resolveScope db (.text level.name) id = .ok e ↔
    ∃ path, (v.directory db).pathForScope level id = .ok path ∧ path.customer.id.isSome ∧
      e = .merge path (path.layers (reader db)) := by
  constructor
  · intro h
    rw [resolveScope_name, resolveForScope] at h
    cases hpath : (v.directory db).pathForScope level id with
    | error _ => rw [hpath] at h; cases h
    | ok path =>
      cases hcustomer : path.customer.id with
      | none =>
        rw [hpath] at h
        simp only [resolve, hcustomer] at h
        cases h
      | some c =>
        have rooted : path.customer.id.isSome := Option.isSome_iff_exists.mpr ⟨c, hcustomer⟩
        rw [hpath] at h
        have hresolve := resolve_id (reader db) path rooted
        exact ⟨path, rfl, rooted, Except.ok.inj (h.symm.trans hresolve)⟩
  · rintro ⟨path, hpath, rooted, rfl⟩
    exact resolveScope_of_path hpath rooted

theorem resolveCar_of_path {car : String} {asOf : Option Date}
    (h : (v.directory db).carPath? car asOf = some path) :
    v.resolveCar db car asOf = .ok (.merge path (path.layers (reader db))) := by
  have hplaced : (v.directory db).carPath? car (some (asOf.getD v.today)) = some path := h
  rw [resolveCar, resolveForCar, hplaced]
  exact resolve_id (reader db) path (LeaseTables.carPath?_rooted h)

end Service

/-- A car that has a path resolves, and to the same in all its parts as the deepest scope on that
path: the amendment of its rider that is in force, or the rider if there is none. -/
theorem car_resolves_as_its_seat (v : Service) (db : Database) (keyed : db.leases.Keyed)
    (car : String) (asOf : Option Date) (path : Path)
    (placed : (v.directory db).carPath? car asOf = some path) :
    ∃ rider level id e, path.rider.id = some rider ∧
      db.leases.seat rider (asOf.getD v.today) = (level, id) ∧
      path.present.getLast? = some (level, id) ∧
      v.resolveCar db car asOf = .ok e ∧ e.path = path ∧
      v.resolveScope db (.text level.name) id = .ok e := by
  obtain ⟨rider, hrider, hlast, hpath⟩ := keyed.carPath?_seat placed v.today
  exact ⟨rider, _, _, _, hrider, rfl, hlast, Service.resolveCar_of_path placed, rfl,
    Service.resolveScope_of_path hpath (LeaseTables.carPath?_rooted placed)⟩

theorem car_resolves_as_its_seat_dangling :
    let v : Service := { today := ⟨5⟩ }
    let declared := Database.run { leases := danglingTables } [acmeCreate ⟨50⟩ 0]
    let db : Database := { leases := danglingTables, instructions := declared.instructions }
    (∃ e, v.resolveCar db "TILX 7" none = .ok e ∧
      v.resolveScope db (.text "amendment") ⟨30⟩ = .ok e ∧
      e.path.lease = ⟨some ⟨10⟩, some "L10"⟩ ∧ e.path.amendment = ⟨some ⟨30⟩, some "A30"⟩) ∧
    ∃ e, v.resolveCar db "TILX 7" (some ⟨4⟩) = .ok e ∧
      v.resolveScope db (.text "rider") ⟨20⟩ = .ok e ∧ e.path.amendment = {} := by
  intro v declared db
  have keyed : db.leases.Keyed := danglingTables_keyed
  have hlater := car_resolves_as_its_seat v db keyed "TILX 7" none _ rfl
  have hearlier := car_resolves_as_its_seat v db keyed "TILX 7" (some ⟨4⟩) _ rfl
  refine ⟨?_, ?_⟩
  · obtain ⟨rider, level, id, e, hrider, hseat, _, hcar, hpath, hscope⟩ := hlater
    obtain rfl := Option.some.inj hrider
    obtain ⟨rfl, rfl⟩ := Prod.mk.inj hseat
    exact ⟨e, hcar, hscope, hpath ▸ rfl, hpath ▸ rfl⟩
  · obtain ⟨rider, level, id, e, hrider, hseat, _, hcar, hpath, hscope⟩ := hearlier
    obtain rfl := Option.some.inj hrider
    obtain ⟨rfl, rfl⟩ := Prod.mk.inj hseat
    exact ⟨e, hcar, hscope, hpath ▸ rfl⟩

end CarCare
