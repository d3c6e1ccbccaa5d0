import GtfsStream.Api.RoutePerformance
import GtfsStream.Frontend.MapLogic

/-!
# The page of the map

`refresh` of `map.ts` with what it calls, and the commands of the route filter. A response is taken
in without interruption once it has arrived, so the page is a state machine over the responses, the
failed requests and the commands. The banner of the filter and the age of the data are left out; the
statistics are kept as what their texts show.
-/

namespace GtfsStream.Frontend

/-! ## The latest entries -/

/-- A delay with the instant of its actual time. -/
structure TimedDelay extends DelayEntry where
  actualAt : ℤ

/-- The entry of the map that is kept for a vehicle. -/
def keepLatest (existing : Option TimedDelay) (d : TimedDelay) : Option TimedDelay :=
  match existing with
  | some e => if e.actualAt < d.actualAt then some d else some e
  | none => some d

def latestByVehicle (delays : List TimedDelay) : List (String × Option TimedDelay) :=
  Grouping.group none (fun d ↦ d.vehicleId) keepLatest delays

/-- The latest entry of each vehicle, and where these vehicles are. -/
def buildVehiclePositions (delays : List TimedDelay) :
    List TimedDelay × (String → Option LatLon) :=
  let latest := latestByVehicle delays
  (latest.filterMap Prod.snd,
    fun vehicleId ↦ (latest.lookup vehicleId).join.bind fun d ↦ delayPosition d.toDelayEntry)

/-! ## The route filter -/

/-- Each marker of a board gets the style that its entry has for it. -/
def Board.restyle {σ : Type} (b : Board σ) (drawn : σ → List ℕ)
    (style : Entry σ → Marker → Style) : Board σ :=
  { b with
    leaflet := b.cache.foldl
      (fun l cached ↦ (drawn cached.2.markers).foldl
        (fun l marker ↦ l.modify marker fun m ↦ m.setStyle (style cached.2 m)) l) b.leaflet }

/-- The style of a delay marker that matches the filter, or does not. -/
def delayStyle (shown : Bool) : Style :=
  if shown then { fillOpacity := some 0.85, opacity := some 1 }
  else { fillOpacity := some filterDimOpacity, opacity := some filterDimStroke }

/-- The style of a bunching marker, which has no fill if it is a line. -/
def bunchingStyle (shown : Bool) (m : Marker) : Style :=
  match m.shape with
  | .line _ _ => { opacity := some (if shown then 0.7 else filterDimStroke) }
  | .circle _ =>
    { fillOpacity := some (if shown then 0.9 else filterDimOpacity)
      opacity := some (if shown then 1 else filterDimStroke) }

/-- What the panel with the statistics shows: the number of vehicles, that of the bunching events
and the time of the update, or an error, with the age of the data if there are any. -/
inductive Stats
  | live (vehicles bunchingCount : ℕ) (updated : ℤ)
  | connectionError (withAge : Bool)
  deriving DecidableEq

structure Page where
  delays : Board ℕ := {}
  bunching : Board (Option ℕ × Option ℕ × Option ℕ) := {}
  activeRouteFilter : Option String := none
  lastRefreshTime : Option ℤ := none
  stats : Option Stats := none

/-- `if (!activeRouteFilter)`, or the route. -/
def activeRoute (activeRouteFilter : Option String) : Option String :=
  activeRouteFilter.filter fun route ↦ route ≠ ""

namespace Page

variable (page : Page)

def applyRouteFilter : Page :=
  match activeRoute page.activeRouteFilter with
  | none => page
  | some route =>
    { page with
      delays := page.delays.restyle (fun marker ↦ [marker]) fun entry _ ↦
        delayStyle (entry.routeId = some route)
      bunching := page.bunching.restyle slots fun entry ↦
        bunchingStyle (entry.routeId = some route) }

def filterByRoute (routeId : Option String) : Page :=
  { page with activeRouteFilter := routeId }.applyRouteFilter

def clearRouteFilter : Page :=
  { page with
    activeRouteFilter := none
    delays := page.delays.restyle (fun marker ↦ [marker]) fun _ _ ↦ delayStyle true
    bunching := page.bunching.restyle slots fun _ ↦ bunchingStyle true }

def updateStats (uniqueDelays : List TimedDelay) (bunchingCount : ℕ) (now : ℤ) : Page :=
  { page with
    lastRefreshTime := some now
    stats := some (.live uniqueDelays.length bunchingCount now) }

def handleRefreshError : Page :=
  { page with stats := some (.connectionError page.lastRefreshTime.isSome) }

end Page

/-! ## Events -/

/-- What the response to a refresh has. -/
structure LiveData where
  delays : List TimedDelay
  bunching : List BunchingEntry
  bunchingCount : ℕ

inductive PageEvent
  | refresh (data : LiveData) (now : ℤ)
  | refreshError
  | filterByRoute (route : String)
  | clearRouteFilter

/-- A refresh whose response has arrived. -/
def Page.refresh (page : Page) (data : LiveData) (now : ℤ) : Page :=
  let vehicles := buildVehiclePositions data.delays
  let updated : Page :=
    { page with
      delays := updateDelayMarkers page.activeRouteFilter
        (vehicles.1.map TimedDelay.toDelayEntry) page.delays
      bunching := updateBunchingMarkers page.activeRouteFilter data.bunching vehicles.2
        page.bunching }
  updated.applyRouteFilter.updateStats vehicles.1 data.bunchingCount now

def Page.handle (page : Page) : PageEvent → Page
  | .refresh data now => page.refresh data now
  | .refreshError => page.handleRefreshError
  | .filterByRoute route => page.filterByRoute (some route)
  | .clearRouteFilter => page.clearRouteFilter

/-- The page after some events. -/
def pageAfter (events : List PageEvent) : Page := events.foldl Page.handle {}

/-- A route is filtered by from the panel of its performance, so its id is one that is looked up. -/
def PageEvent.Possible : PageEvent → Prop
  | .filterByRoute route => Api.validRouteId route = true
  | _ => True

end GtfsStream.Frontend
