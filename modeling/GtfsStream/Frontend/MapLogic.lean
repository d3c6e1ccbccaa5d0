import GtfsStream.Library.Grouping
import Mathlib.Data.Rat.Defs

/-!
# The markers of the live map

The delay markers and the bunching events of the map, with their caches. A marker is an object of
its own, known by its number, and a layer group lists the markers that are drawn on it. Both kinds
are refreshed in the same way: what the response has is created or updated, and what it lacks is
dimmed, or evicted after `GRACE_REFRESHES` refreshes without it.

A popup is kept as the entry that its text shows. The caches keep the order of their insertions.
-/

namespace GtfsStream.Frontend

def graceRefreshes : ℕ := 2

def staleOpacity : ℚ := 0.35

def bunchingColor : String := "#9b59b6"

def filterDimOpacity : ℚ := 0.12

def filterDimStroke : ℚ := 0.2

/-- A latitude and a longitude. -/
abbrev LatLon := ℚ × ℚ

/-! ## The entries of the response -/

inductive Kind
  | arrival
  | departure

/-- A point in GeoJSON order, if it has coordinates. -/
structure GeoJsonPoint where
  coordinates : Option (ℚ × ℚ)

structure DelayEntry where
  vehicleId : String
  tripId : String
  routeId : Option String
  routeLongName : Option String
  kind : Kind
  deviationSeconds : ℚ
  location : Option GeoJsonPoint

structure BunchingEntry where
  routeId : String
  vehicleA : String
  vehicleB : String
  startTime : String
  endTime : String
  minDistanceMeters : ℚ

def deviationColor (seconds : ℚ) : String :=
  if seconds < -120 then "#3498db"
  else if seconds ≤ 120 then "#2ecc71"
  else if seconds ≤ 300 then "#f1c40f"
  else if seconds ≤ 600 then "#e67e22"
  else "#e74c3c"

def delayMarkerKey (entry : DelayEntry) : String := entry.vehicleId

def bunchingKey (entry : BunchingEntry) : String :=
  entry.routeId ++ ":" ++ entry.vehicleA ++ ":" ++ entry.vehicleB

/-! ## Leaflet -/

inductive Shape
  | circle (position : LatLon)
  | line (positionA positionB : LatLon)

/-- The options of a style that are given. -/
structure Style where
  fillColor : Option String := none
  fillOpacity : Option ℚ := none
  opacity : Option ℚ := none

inductive Popup
  | delay (entry : DelayEntry)
  | bunching (entry : BunchingEntry)

structure Marker where
  shape : Shape
  style : Style
  popup : Popup

namespace Marker

variable (m : Marker)

def setStyle (style : Style) : Marker :=
  { m with style :=
    { fillColor := style.fillColor <|> m.style.fillColor
      fillOpacity := style.fillOpacity <|> m.style.fillOpacity
      opacity := style.opacity <|> m.style.opacity } }

/-- `setLatLng` of a circle, `setLatLngs` of a line. -/
def setShape (shape : Shape) : Marker := { m with shape := shape }

def setPopupContent (popup : Popup) : Marker := { m with popup := popup }

end Marker

/-- The markers that were created, and those on the layer group, by their numbers: one item for
each time that a marker was added. -/
structure Leaflet where
  objects : List Marker := []
  layer : List ℕ := []

namespace Leaflet

variable (l : Leaflet)

/-- Creates a marker and adds it to the layer. -/
def addTo (m : Marker) : ℕ × Leaflet :=
  (l.objects.length, { objects := l.objects ++ [m], layer := l.layer ++ [l.objects.length] })

/-- Changes a marker. -/
def modify (marker : ℕ) (f : Marker → Marker) : Leaflet :=
  { l with objects := l.objects.modify marker f }

def removeLayer (marker : ℕ) : Leaflet := { l with layer := l.layer.erase marker }

end Leaflet

/-! ## The caches -/

/-- A cached entry: the markers, how many refreshes in a row lacked it, and its route. -/
structure Entry (σ : Type) where
  markers : σ
  misses : ℕ
  routeId : Option String

abbrev DelayMarkerEntry := Entry ℕ

/-- Circles for both vehicles and a line between them, as far as their positions were known. -/
abbrev BunchingMarkerEntry := Entry (Option ℕ × Option ℕ × Option ℕ)

/-- A cache with its layer. -/
structure Board (σ : Type) where
  leaflet : Leaflet := {}
  cache : List (String × Entry σ) := []

/-- What the two kinds of markers do differently. -/
structure MarkerKind (ι π σ : Type) where
  /-- Where an entry of the response is drawn; none if it is left out. -/
  place : ι → Option π
  key : ι → String
  create : ι → π → Leaflet → Entry σ × Leaflet
  update : ι → π → Entry σ → Leaflet → Entry σ × Leaflet
  /-- Shows that markers are going stale. -/
  dim : σ → Leaflet → Leaflet
  /-- The markers that there are. -/
  drawn : σ → List ℕ

namespace MarkerKind

variable {ι π σ : Type} (K : MarkerKind ι π σ)

/-- The cached entry of a key is updated, or a new one is created. -/
def refreshEntry (b : Board σ) (item : ι) : Board σ :=
  match K.place item with
  | none => b
  | some place =>
    let entry := match b.cache.lookup (K.key item) with
      | some cached => K.update item place cached b.leaflet
      | none => K.create item place b.leaflet
    { leaflet := entry.2
      cache := Grouping.modify entry.1 (K.key item) (fun _ ↦ entry.1) b.cache }

/-- The keys of the entries that are drawn. -/
def seen (items : List ι) : List String :=
  (items.filter fun item ↦ (K.place item).isSome).map K.key

/-- The body of the loop over the cache. -/
def evictEntry (seen : List String) (b : Board σ) (cached : String × Entry σ) : Board σ :=
  if cached.1 ∈ seen then b
  else
    let misses := cached.2.misses + 1
    if graceRefreshes ≤ misses then
      { leaflet := (K.drawn cached.2.markers).foldl Leaflet.removeLayer b.leaflet
        cache := b.cache.filter fun other ↦ other.1 ≠ cached.1 }
    else
      { leaflet := K.dim cached.2.markers b.leaflet
        cache := Grouping.modify cached.2 cached.1 (fun e ↦ { e with misses := misses }) b.cache }

def evictStale (seen : List String) (b : Board σ) : Board σ := b.cache.foldl (K.evictEntry seen) b

def updateMarkers (items : List ι) (b : Board σ) : Board σ :=
  K.evictStale (K.seen items) (items.foldl K.refreshEntry b)

end MarkerKind

/-- Whether the route filter dims a route. -/
def dimmed (activeRouteFilter routeId : Option String) : Bool :=
  match activeRouteFilter with
  | none => false
  | some route => route ≠ "" ∧ routeId ≠ some route

/-- `routeId || null` -/
def orNull (routeId : Option String) : Option String :=
  match routeId with
  | some route => if route = "" then none else some route
  | none => none

/-! ## Delay markers -/

section

variable (activeRouteFilter : Option String)

def createDelayMarker (delay : DelayEntry) (position : LatLon) (color : String) (popup : Popup)
    (delayLayer : Leaflet) : DelayMarkerEntry × Leaflet :=
  let marker := delayLayer.addTo
    { shape := .circle position
      style := { fillColor := some color, fillOpacity := some 0.85 }
      popup := popup }
  ({ markers := marker.1, misses := 0, routeId := orNull delay.routeId }, marker.2)

def updateDelayMarker (cacheEntry : DelayMarkerEntry) (position : LatLon) (color : String)
    (popup : Popup) (routeId : Option (Option String)) (delayLayer : Leaflet) :
    DelayMarkerEntry × Leaflet :=
  let routeId := routeId.getD cacheEntry.routeId
  let dim := dimmed activeRouteFilter routeId
  ({ cacheEntry with routeId := routeId, misses := 0 },
    delayLayer.modify cacheEntry.markers fun m ↦
      (((m.setShape (.circle position)).setStyle { fillColor := some color }).setPopupContent
        popup).setStyle
          { fillOpacity := some (if dim then filterDimOpacity else 0.85)
            opacity := some (if dim then filterDimStroke else 1) })

/-- Where a delay is drawn. -/
def delayPosition (d : DelayEntry) : Option LatLon :=
  d.location.bind fun location ↦ location.coordinates.map fun c ↦ (c.2, c.1)

def delayMarkers : MarkerKind DelayEntry LatLon ℕ where
  place := delayPosition
  key := delayMarkerKey
  create d position := createDelayMarker d position (deviationColor d.deviationSeconds) (.delay d)
  update d position cached := updateDelayMarker activeRouteFilter cached position
    (deviationColor d.deviationSeconds) (.delay d) (some d.routeId)
  dim marker l := l.modify marker fun m ↦
    m.setStyle { fillOpacity := some staleOpacity, opacity := some 0.4 }
  drawn marker := [marker]

def evictStaleDelays (seenIds : List String) (b : Board ℕ) : Board ℕ :=
  (delayMarkers none).evictStale seenIds b

def updateDelayMarkers (delays : List DelayEntry) (b : Board ℕ) : Board ℕ :=
  let kind := delayMarkers activeRouteFilter
  evictStaleDelays (kind.seen delays) (delays.foldl kind.refreshEntry b)

end

/-! ## Bunching markers -/

section

variable (activeRouteFilter : Option String)

/-- Creates a marker if there is one to create. -/
def addIfAny (m : Option Marker) (l : Leaflet) : Option ℕ × Leaflet :=
  match m with
  | some m => (some (l.addTo m).1, (l.addTo m).2)
  | none => (none, l)

def createBunchingEvent (bunching : BunchingEntry) (positionA positionB : Option LatLon)
    (popup : Popup) (bunchingLayer : Leaflet) : BunchingMarkerEntry × Leaflet :=
  let circle (position : LatLon) : Marker :=
    { shape := .circle position
      style := { fillColor := some bunchingColor, fillOpacity := some 0.9 }
      popup := popup }
  let circleA := addIfAny (positionA.map circle) bunchingLayer
  let circleB := addIfAny (positionB.map circle) circleA.2
  let line := addIfAny
    (positionA.bind fun a ↦ positionB.map fun b ↦
      { shape := .line a b, style := { opacity := some 0.7 }, popup := popup }) circleB.2
  ({ markers := (circleA.1, circleB.1, line.1), misses := 0, routeId := orNull bunching.routeId },
    line.2)

/-- Changes a marker if it is there. -/
def modifyIfAny (marker : Option ℕ) (change : Option (Marker → Marker)) (l : Leaflet) : Leaflet :=
  match marker, change with
  | some marker, some f => l.modify marker f
  | _, _ => l

def updateBunchingEvent (entry : BunchingMarkerEntry) (positionA positionB : Option LatLon)
    (popup : Popup) (routeId : Option (Option String)) (bunchingLayer : Leaflet) :
    BunchingMarkerEntry × Leaflet :=
  let routeId := routeId.getD entry.routeId
  let dim := dimmed activeRouteFilter routeId
  let circle (position : LatLon) (m : Marker) : Marker :=
    ((m.setShape (.circle position)).setPopupContent popup).setStyle
      { fillOpacity := some (if dim then filterDimOpacity else 0.9)
        opacity := some (if dim then filterDimStroke else 1) }
  let line (a b : LatLon) (m : Marker) : Marker :=
    ((m.setShape (.line a b)).setPopupContent popup).setStyle
      { opacity := some (if dim then filterDimStroke else 0.7) }
  let withA := modifyIfAny entry.markers.1 (positionA.map circle) bunchingLayer
  let withB := modifyIfAny entry.markers.2.1 (positionB.map circle) withA
  ({ entry with routeId := routeId, misses := 0 },
    modifyIfAny entry.markers.2.2 (positionA.bind fun a ↦ positionB.map (line a)) withB)

/-- The slots of an event that are taken. -/
def slots (markers : Option ℕ × Option ℕ × Option ℕ) : List ℕ :=
  markers.1.toList ++ markers.2.1.toList ++ markers.2.2.toList

/-- A line has no fill to dim. -/
def dimBunching (m : Marker) : Marker :=
  match m.shape with
  | .line _ _ => m.setStyle { opacity := some 0.25 }
  | .circle _ => m.setStyle { fillOpacity := some staleOpacity, opacity := some 0.4 }

def bunchingMarkers (vehiclePositions : String → Option LatLon) :
    MarkerKind BunchingEntry (Option LatLon × Option LatLon)
      (Option ℕ × Option ℕ × Option ℕ) where
  place b := some (vehiclePositions b.vehicleA, vehiclePositions b.vehicleB)
  key := bunchingKey
  create b positions := createBunchingEvent b positions.1 positions.2 (.bunching b)
  update b positions cached := updateBunchingEvent activeRouteFilter cached positions.1 positions.2
    (.bunching b) (some (some b.routeId))
  dim markers l := (slots markers).foldl (fun l marker ↦ l.modify marker dimBunching) l
  drawn := slots

def evictStaleBunching (seenKeys : List String)
    (b : Board (Option ℕ × Option ℕ × Option ℕ)) : Board (Option ℕ × Option ℕ × Option ℕ) :=
  (bunchingMarkers none fun _ ↦ none).evictStale seenKeys b

def updateBunchingMarkers (bunchingEvents : List BunchingEntry)
    (vehiclePositions : String → Option LatLon)
    (b : Board (Option ℕ × Option ℕ × Option ℕ)) : Board (Option ℕ × Option ℕ × Option ℕ) :=
  let kind := bunchingMarkers activeRouteFilter vehiclePositions
  evictStaleBunching (kind.seen bunchingEvents) (bunchingEvents.foldl kind.refreshEntry b)

end

end GtfsStream.Frontend
