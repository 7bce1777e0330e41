import CarCare.Config

/-!
The configuration that a process shares: it is loaded by the first request and handed out until it
is dropped. A load that fails leaves nothing behind.
-/
namespace CarCare

/-- A loaded configuration with its number, in the order of loading. -/
structure LoadedConfig where
  number : Nat
  config : Config

structure ConfigRegistry where
  loaded : Nat := 0
  current : Option LoadedConfig := none

namespace ConfigRegistry

/-- Answers the shared configuration, and loads it first if there is none. -/
def get (load : Except ConfigError Config) (r : ConfigRegistry) :
    Except ConfigError LoadedConfig × ConfigRegistry :=
  match r.current with
  | some config => (.ok config, r)
  | none =>
    match load with
    | .ok config =>
      let new : LoadedConfig := ⟨r.loaded, config⟩
      (.ok new, ⟨r.loaded + 1, some new⟩)
    | .error e => (.error e, r)

def reset (r : ConfigRegistry) : ConfigRegistry := { r with current := none }

end ConfigRegistry

end CarCare
