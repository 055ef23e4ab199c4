import ShardMerge.Config
import ShardMerge.Service

/-!
# Assembling a sorter

Puts a sorter together from a configuration: the whitelist and the admission strategy that it
describes and the clock of the system, unless others are given. What this clock reads and what a
random strategy draws is left open.
-/

namespace ShardMerge

/-- A configuration, and what is given in place of what it describes. -/
structure Assembly where
  config : Config
  /-- In place of the configured whitelist. -/
  policy : Option SkipPolicy := none
  /-- In place of the configured admission strategy. -/
  strategy : Option Strategy := none
  /-- In place of the clock of the system. -/
  clock : Option Clock := none

namespace Assembly

/-- The assembly of a configuration with nothing given in place of what it describes. -/
def ofConfig (config : Config) : Assembly :=
  { config }

instance : Inhabited Assembly :=
  ⟨ofConfig default⟩

/-- The admission strategy that a configuration describes, given what a random one will draw. Random
discards are reported with the share as it was configured. -/
def configuredStrategy (config : Config) (draws : Nat → Fin 100) : Strategy × List Event :=
  if config.discardCommits then
    (.random (.ofPercent config.discardPercent draws), [.discardEnabled config.discardPercent])
  else (.all, [])

/-- Puts the sorter together, whether or not the configuration is in range, given what a random
strategy will draw and the clock of the system. -/
def build (a : Assembly) (draws : Nat → Fin 100) (clock : Clock) :
    Sorter Strategy × List Event :=
  let (strategy, events) :=
    match a.strategy with
    | some strategy => (strategy, [])
    | none => configuredStrategy a.config draws
  ({ limits := a.config.limits
     policy := a.policy.getD (.listed (.ofList a.config.whitelist))
     strategy
     clock := a.clock.getD clock },
    events)

/-- Puts the sorter together if the configuration is in range. -/
def buildIfValid (a : Assembly) (draws : Nat → Fin 100) (clock : Clock) :
    Except SortError (Sorter Strategy × List Event) :=
  match a.config.validate with
  | .error refusal => .error refusal
  | .ok () => .ok (a.build draws clock)

end Assembly

/-- Takes up the service for a sorter built from a configuration alone. -/
def Service.ofConfig (config : Config) (draws : Nat → Fin 100) (clock : Clock) :
    Except SortError (Service Strategy × List Event) :=
  match (Assembly.ofConfig config).buildIfValid draws clock with
  | .error refusal => .error refusal
  | .ok (sorter, events) =>
    let (service, started) := Service.start sorter
    .ok (service, events ++ started)

end ShardMerge
