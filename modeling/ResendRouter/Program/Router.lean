import ResendRouter.Program.Config

/-! # Route matching

Destinations are normalized once, when the matcher is built; an event is then
matched against every destination in configuration order.
-/

namespace ResendRouter.Program
open Foundation

structure ResendEventForRouting where
  eventId : Option String
  eventType : Option String
  fromDomain : Option String
  toDomains : List String
  deriving DecidableEq

def normalizeDomain (domain : String) : Option String :=
  let domain := toAsciiLowercase (trimEndMatches '.' (trimStartMatches '@' (trim domain)))
  if isBlank domain then none else some domain

def normalizeDestination (d : DestinationConfig) : DestinationConfig :=
  { d with
    fromDomains := d.fromDomains.filterMap normalizeDomain
    toDomains := d.toDomains.filterMap normalizeDomain }

def destinationMatches (d : DestinationConfig) (event : ResendEventForRouting) : Bool :=
  d.catchAll ||
    ((d.eventTypes.isEmpty || event.eventType.any (d.eventTypes.contains ·)) &&
    (d.fromDomains.isEmpty || event.fromDomain.any (d.fromDomains.contains ·)) &&
    (d.toDomains.isEmpty || event.toDomains.any (d.toDomains.contains ·)))

structure RouteMatcher where
  destinations : List DestinationConfig

def RouteMatcher.new (destinations : List DestinationConfig) : RouteMatcher :=
  ⟨destinations.map normalizeDestination⟩

def RouteMatcher.matchDestinations (m : RouteMatcher) (event : ResendEventForRouting) :
    List DestinationConfig :=
  m.destinations.filter (destinationMatches · event)

theorem matchDestinations_names (ds : List DestinationConfig) (event : ResendEventForRouting) :
    (((RouteMatcher.new ds).matchDestinations event).map (·.name)).Sublist (ds.map (·.name)) := by
  have h : (ds.map normalizeDestination).map (·.name) = ds.map (·.name) := by
    simp [normalizeDestination]
  rw [← h]
  exact List.filter_sublist.map _

end ResendRouter.Program
