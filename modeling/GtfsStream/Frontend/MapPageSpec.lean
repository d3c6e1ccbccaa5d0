import GtfsStream.Frontend.MapMarkers
import GtfsStream.Frontend.MapPage

/-!
# What the map shows

Over every run of responses, failed requests and commands of the route filter: each cached vehicle
is drawn where its latest entry was in the last response that located it, and the styles of the
markers on the map are those of the filter.

## Styles apart from positions

A change of the filter restyles markers and moves none, and a refresh sets the style of what it
touches. So what is on the layer and how it looks are two invariants. The first is that of the
caches. For the second, each kind of marker says what a marker of an entry looks like without a
filter and under one, and every operation either keeps these looks or sets them for all entries.
Under a filter the entries that just appeared are restyled at the end of the refresh.
-/

namespace GtfsStream.Frontend

open Grouping

/-! ## The latest entries -/

/-- The first of the latest entries of its vehicle. -/
def IsLatest (delays : List TimedDelay) (d : TimedDelay) : Prop :=
  ∃ before after, delays = before ++ d :: after ∧
    (∀ e ∈ before, e.vehicleId = d.vehicleId → e.actualAt < d.actualAt) ∧
    ∀ e ∈ after, e.vehicleId = d.vehicleId → e.actualAt ≤ d.actualAt

variable {delays : List TimedDelay} {d : TimedDelay} {k : String}

theorem foldl_keepLatest (entries : List TimedDelay) :
    match entries.foldl keepLatest none with
    | some d => ∃ before after, entries = before ++ d :: after ∧
        (∀ e ∈ before, e.actualAt < d.actualAt) ∧ ∀ e ∈ after, e.actualAt ≤ d.actualAt
    | none => entries = [] := by
  induction entries using List.reverseRecOn with
  | nil => rfl
  | append_singleton entries last ih =>
    rw [List.foldl_append, List.foldl_cons, List.foldl_nil]
    cases hkept : entries.foldl keepLatest none with
    | none =>
      rw [hkept] at ih
      rw [ih]
      exact ⟨[], [], rfl, nofun, nofun⟩
    | some d =>
      rw [hkept] at ih
      obtain ⟨before, after, rfl, hbefore, hafter⟩ := ih
      rw [keepLatest]
      by_cases hlater : d.actualAt < last.actualAt
      · rw [if_pos hlater]
        refine ⟨before ++ d :: after, [], rfl, fun e he ↦ ?_, nofun⟩
        rcases List.mem_append.mp he with he | he
        · exact (hbefore e he).trans hlater
        · rcases List.mem_cons.mp he with rfl | he
          · exact hlater
          · exact (hafter e he).trans_lt hlater
      · rw [if_neg hlater]
        refine ⟨before, after ++ [last], List.append_assoc _ _ _, hbefore, ?_⟩
        rw [List.forall_mem_append, List.forall_mem_singleton]
        exact ⟨hafter, not_lt.mp hlater⟩

theorem exists_of_filter_eq {p : TimedDelay → Bool} {before after : List TimedDelay}
    (h : delays.filter p = before ++ d :: after) : ∃ before' after',
      delays = before' ++ d :: after' ∧ before'.filter p = before ∧ after'.filter p = after := by
  obtain ⟨start, rest, rfl, hstart, hrest⟩ := List.filter_eq_append_iff.mp h
  obtain ⟨skipped, after', rfl, hskipped, -, hafter⟩ := List.filter_eq_cons_iff.mp hrest
  refine ⟨start ++ skipped, after', (List.append_assoc _ _ _).symm, ?_, hafter⟩
  have hnone : skipped.filter p = [] :=
    List.filter_eq_nil_iff.mpr fun e he ↦ by simpa using hskipped e he
  rw [List.filter_append, hstart, hnone, List.append_nil]

theorem mem_latestByVehicle (h : (k, some d) ∈ latestByVehicle delays) :
    d.vehicleId = k ∧ IsLatest delays d := by
  obtain ⟨-, hkept⟩ := mem_group.mp h
  have hspec := foldl_keepLatest (delays.filter fun e ↦ e.vehicleId = k)
  rw [← hkept] at hspec
  obtain ⟨before, after, hsplit, hbefore, hafter⟩ := hspec
  have hmem : d ∈ delays.filter fun e ↦ e.vehicleId = k := by
    rw [hsplit]
    exact List.mem_append_right _ List.mem_cons_self
  have hvehicle : d.vehicleId = k := of_decide_eq_true (List.mem_filter.mp hmem).2
  obtain ⟨before', after', rfl, rfl, rfl⟩ := exists_of_filter_eq hsplit
  refine ⟨hvehicle, before', after', rfl, fun e he hsame ↦ ?_, fun e he hsame ↦ ?_⟩
  · exact hbefore e (List.mem_filter.mpr ⟨he, decide_eq_true (hsame.trans hvehicle)⟩)
  · exact hafter e (List.mem_filter.mpr ⟨he, decide_eq_true (hsame.trans hvehicle)⟩)

theorem IsLatest.eq {d' : TimedDelay} (h : IsLatest delays d) (h' : IsLatest delays d')
    (hsame : d.vehicleId = d'.vehicleId) : d = d' := by
  obtain ⟨before, after, hsplit, hbefore, hafter⟩ := h
  obtain ⟨before', after', hsplit', hbefore', hafter'⟩ := h'
  -- one of them comes first, and the other would have to be later and not later
  rcases List.append_eq_append_iff.mp (hsplit.symm.trans hsplit') with
    ⟨between, hbetween, hrest⟩ | ⟨between, hbetween, hrest⟩
  · cases between with
    | nil => exact (List.cons.inj hrest).1
    | cons first between =>
      obtain ⟨rfl, rfl⟩ := List.cons.inj hrest
      have hlt := hbefore' d (hbetween ▸ List.mem_append_right _ List.mem_cons_self) hsame
      have hle := hafter d' (List.mem_append_right _ List.mem_cons_self) hsame.symm
      exact absurd hlt hle.not_gt
  · cases between with
    | nil => exact (List.cons.inj hrest).1.symm
    | cons first between =>
      obtain ⟨rfl, rfl⟩ := List.cons.inj hrest
      have hlt := hbefore d' (hbetween ▸ List.mem_append_right _ List.mem_cons_self) hsame.symm
      have hle := hafter' d (List.mem_append_right _ List.mem_cons_self) hsame
      exact absurd hlt hle.not_gt

theorem mem_uniqueDelays : d ∈ (buildVehiclePositions delays).1 ↔
    (d.vehicleId, some d) ∈ latestByVehicle delays := by
  rw [buildVehiclePositions, List.mem_filterMap]
  constructor
  · rintro ⟨⟨k, v⟩, hmem, rfl⟩
    rwa [(mem_latestByVehicle hmem).1]
  · intro h
    exact ⟨_, h, rfl⟩

theorem map_uniqueDelays (delays : List TimedDelay) :
    (buildVehiclePositions delays).1.map (·.vehicleId) =
      (latestByVehicle delays).map Prod.fst := by
  have hall : ∀ entry ∈ latestByVehicle delays, ∃ d, entry.2 = some d ∧ d.vehicleId = entry.1 := by
    rintro ⟨k, v⟩ hmem
    obtain ⟨⟨e, he, hvehicle⟩, hkept⟩ := mem_group.mp hmem
    have hspec := foldl_keepLatest (delays.filter fun e ↦ e.vehicleId = k)
    rw [← hkept] at hspec
    cases v with
    | none =>
      have hmem : e ∈ delays.filter fun e ↦ e.vehicleId = k :=
        List.mem_filter.mpr ⟨he, decide_eq_true hvehicle⟩
      exact absurd hmem (hspec ▸ List.not_mem_nil)
    | some d => exact ⟨d, rfl, (mem_latestByVehicle hmem).1⟩
  rw [buildVehiclePositions]
  dsimp only
  generalize latestByVehicle delays = latest at hall
  induction latest with
  | nil => rfl
  | cons entry latest ih =>
    rw [List.forall_mem_cons] at hall
    obtain ⟨⟨d, hd, hvehicle⟩, hrest⟩ := hall
    rw [List.filterMap_cons, hd, List.map_cons, List.map_cons, ih hrest, hvehicle]

theorem mem_uniqueDelays_iff : d ∈ (buildVehiclePositions delays).1 ↔ IsLatest delays d := by
  constructor
  · exact fun h ↦ (mem_latestByVehicle (mem_uniqueDelays.mp h)).2
  · intro h
    have hmem : d.vehicleId ∈ (buildVehiclePositions delays).1.map (·.vehicleId) := by
      obtain ⟨before, after, rfl, -, -⟩ := h
      rw [map_uniqueDelays, latestByVehicle, mem_keys_group]
      exact ⟨d, List.mem_append_right _ List.mem_cons_self, rfl⟩
    obtain ⟨d', hd', hsame⟩ := List.mem_map.mp hmem
    rw [h.eq (mem_latestByVehicle (mem_uniqueDelays.mp hd')).2 hsame.symm]
    exact hd'

theorem nodup_uniqueDelays (delays : List TimedDelay) :
    ((buildVehiclePositions delays).1.map (·.vehicleId)).Nodup := by
  rw [map_uniqueDelays]
  exact nodup_group

theorem length_uniqueDelays (delays : List TimedDelay) :
    (buildVehiclePositions delays).1.length = (delays.map (·.vehicleId)).toFinset.card := by
  have hkeys : ((latestByVehicle delays).map Prod.fst).toFinset =
      (delays.map (·.vehicleId)).toFinset := by
    ext k
    rw [List.mem_toFinset, List.mem_toFinset, latestByVehicle, mem_keys_group, List.mem_map]
  rw [← hkeys, ← map_uniqueDelays, List.toFinset_card_of_nodup (nodup_uniqueDelays delays),
    List.length_map]

/-! ## Changing the markers -/

section

variable {l : Leaflet} {n : ℕ} {f : Marker → Marker} {changes : List (ℕ × (Marker → Marker))}

theorem objects_modify (l : Leaflet) (n : ℕ) (f : Marker → Marker) (n' : ℕ) :
    (l.modify n f).objects[n']? = if n = n' then l.objects[n']?.map f else l.objects[n']? := by
  change (l.objects.modify n f)[n']? = _
  rw [List.getElem?_modify]
  split_ifs with hsame
  · rfl
  · cases l.objects[n']? <;> rfl

theorem objects_foldl_of_not_mem (h : n ∉ changes.map Prod.fst) :
    (changes.foldl (fun l c ↦ l.modify c.1 c.2) l).objects[n]? = l.objects[n]? := by
  induction changes generalizing l with
  | nil => rfl
  | cons change changes ih =>
    rw [List.map_cons, List.mem_cons, not_or] at h
    rw [List.foldl_cons, ih h.2, objects_modify, if_neg (Ne.symm h.1)]

theorem objects_foldl_of_mem (hnodup : (changes.map Prod.fst).Nodup) (h : (n, f) ∈ changes) :
    (changes.foldl (fun l c ↦ l.modify c.1 c.2) l).objects[n]? = l.objects[n]?.map f := by
  induction changes generalizing l with
  | nil => exact absurd h List.not_mem_nil
  | cons change changes ih =>
    rw [List.map_cons, List.nodup_cons] at hnodup
    rw [List.foldl_cons]
    rcases List.mem_cons.mp h with rfl | h
    · rw [objects_foldl_of_not_mem hnodup.1, objects_modify, if_pos rfl]
    · have hne : change.1 ≠ n := fun heq ↦ hnodup.1 (heq ▸ List.mem_map_of_mem h)
      rw [ih hnodup.2 h, objects_modify, if_neg hne]

end

section

variable {σ : Type} {b : Board σ} {drawn : σ → List ℕ} {style : Entry σ → Marker → Style}

/-- What `restyle` changes, marker by marker. -/
def restyleChanges (drawn : σ → List ℕ) (style : Entry σ → Marker → Style)
    (cache : List (String × Entry σ)) : List (ℕ × (Marker → Marker)) :=
  cache.flatMap fun cached ↦ (drawn cached.2.markers).map fun marker ↦
    (marker, fun m ↦ m.setStyle (style cached.2 m))

theorem restyle_leaflet : (b.restyle drawn style).leaflet =
    (restyleChanges drawn style b.cache).foldl (fun l c ↦ l.modify c.1 c.2) b.leaflet := by
  rw [restyleChanges, List.foldl_flatMap, Board.restyle]
  dsimp only
  congr 1
  funext l cached
  rw [List.foldl_map]

theorem adds_foldl (changes : List (ℕ × (Marker → Marker))) (l : Leaflet) :
    Adds l (changes.foldl (fun l c ↦ l.modify c.1 c.2) l) [] := by
  induction changes generalizing l with
  | nil => exact adds_nil l
  | cons change changes ih => exact (adds_modify l change.1 change.2).trans (ih _)

theorem Shows.restyle (h : Shows drawn b) (style : Entry σ → Marker → Style) :
    Shows drawn (b.restyle drawn style) := by
  have hadds := adds_foldl (restyleChanges drawn style b.cache) b.leaflet
  rw [← restyle_leaflet] at hadds
  have hlayer : (b.restyle drawn style).leaflet.layer = b.leaflet.layer := by
    rw [hadds.layer, List.append_nil]
  refine ⟨h.keys, ?_, ?_, ?_⟩
  · rw [hlayer]
    exact h.layer
  · rw [hlayer]
    exact h.nodup
  · rw [hlayer]
    exact fun m hm ↦ (h.created m hm).trans_le hadds.length_le

/-- The options of a style that are given are those of the marker. -/
def Marker.Has (m : Marker) (s : Style) : Prop :=
  (∀ color, s.fillColor = some color → m.style.fillColor = some color) ∧
    (∀ x, s.fillOpacity = some x → m.style.fillOpacity = some x) ∧
    ∀ x, s.opacity = some x → m.style.opacity = some x

theorem has_setStyle (m : Marker) (s : Style) : (m.setStyle s).Has s := by
  rw [Marker.setStyle, Marker.Has]
  dsimp only
  refine ⟨fun color h ↦ ?_, fun x h ↦ ?_, fun x h ↦ ?_⟩ <;> rw [h] <;> rfl

/-- The markers of a board have the styles of their entries. -/
def Board.Styled (b : Board σ) (drawn : σ → List ℕ) (style : Entry σ → Marker → Style) : Prop :=
  ∀ cached ∈ b.cache, ∀ n ∈ drawn cached.2.markers,
    ∃ m, b.leaflet.objects[n]? = some m ∧ m.Has (style cached.2 m)

/-- **Every marker of a board gets the style of its entry**, which depends on its shape only. -/
theorem Shows.styled_restyle (h : Shows drawn b)
    (hshape : ∀ e m s, style e (m.setStyle s) = style e m) :
    (b.restyle drawn style).Styled drawn style := by
  have hmarkers : (restyleChanges drawn style b.cache).map Prod.fst =
      cachedMarkers drawn b.cache := by
    rw [restyleChanges, List.map_flatMap, cachedMarkers]
    simp only [List.map_map]
    exact List.flatMap_congr fun cached _ ↦ List.map_id _
  have hnodup : ((restyleChanges drawn style b.cache).map Prod.fst).Nodup := by
    rw [hmarkers]
    exact h.layer.nodup h.nodup
  intro cached hcached n hn
  have hlayer : n ∈ b.leaflet.layer :=
    h.layer.mem_iff.mpr (List.mem_flatMap.mpr ⟨cached, hcached, hn⟩)
  have hchange : (n, fun m : Marker ↦ m.setStyle (style cached.2 m)) ∈
      restyleChanges drawn style b.cache :=
    List.mem_flatMap.mpr ⟨cached, hcached, List.mem_map.mpr ⟨n, hn, rfl⟩⟩
  have hobject := objects_foldl_of_mem (l := b.leaflet) hnodup hchange
  rw [← restyle_leaflet, List.getElem?_eq_getElem (h.created n hlayer)] at hobject
  refine ⟨_, hobject, ?_⟩
  rw [hshape]
  exact has_setStyle _ _

end

/-! ## Without a filter -/

section

variable {P : Marker → Prop} {l : Leaflet}

/-- What is on the layer has the property. -/
def OnLayer (P : Marker → Prop) (l : Leaflet) : Prop :=
  ∀ n ∈ l.layer, ∀ m, l.objects[n]? = some m → P m

theorem OnLayer.addTo (h : OnLayer P l) {m : Marker} (hm : P m) : OnLayer P (l.addTo m).2 := by
  intro n hn m' hm'
  change (l.objects ++ [m])[n]? = some m' at hm'
  rcases lt_or_ge n l.objects.length with hlt | hge
  · rw [List.getElem?_append_left hlt] at hm'
    rcases List.mem_append.mp hn with hn | hn
    · exact h n hn m' hm'
    · exact absurd (List.mem_singleton.mp hn) hlt.ne
  · rw [List.getElem?_append_right hge] at hm'
    rw [List.mem_singleton.mp (List.mem_of_getElem? hm')]
    exact hm

theorem OnLayer.modify (h : OnLayer P l) {f : Marker → Marker} (hf : ∀ m, P m → P (f m)) (n : ℕ) :
    OnLayer P (l.modify n f) := by
  intro n' hn' m hm
  rw [objects_modify] at hm
  split_ifs at hm with hsame
  · obtain ⟨old, hold, rfl⟩ := Option.map_eq_some_iff.mp hm
    exact hf old (h n' hn' old hold)
  · exact h n' hn' m hm

theorem OnLayer.removeLayer (h : OnLayer P l) (n : ℕ) : OnLayer P (l.removeLayer n) :=
  fun n' hn' ↦ h n' (List.mem_of_mem_erase hn')

theorem OnLayer.foldl {α : Type} {g : Leaflet → α → Leaflet} (h : OnLayer P l)
    (hg : ∀ l a, OnLayer P l → OnLayer P (g l a)) (as : List α) : OnLayer P (as.foldl g l) := by
  induction as generalizing l with
  | nil => exact h
  | cons a as ih => exact ih (hg l a h)

/-- What a kind of markers does keeps the property of those on the layer. -/
structure MarkerKind.Keeps {ι π σ : Type} (K : MarkerKind ι π σ) (P : Marker → Prop) : Prop where
  create : ∀ item place l, OnLayer P l → OnLayer P (K.create item place l).2
  update : ∀ item place cached l, OnLayer P l → OnLayer P (K.update item place cached l).2
  dim : ∀ markers l, OnLayer P l → OnLayer P (K.dim markers l)

theorem MarkerKind.Keeps.updateMarkers {ι π σ : Type} {K : MarkerKind ι π σ} (hK : K.Keeps P)
    {b : Board σ} (h : OnLayer P b.leaflet) (items : List ι) :
    OnLayer P (K.updateMarkers items b).leaflet := by
  have hrefresh (items : List ι) {b : Board σ} (h : OnLayer P b.leaflet) :
      OnLayer P (items.foldl K.refreshEntry b).leaflet := by
    induction items generalizing b with
    | nil => exact h
    | cons item items ih =>
      refine ih ?_
      rw [MarkerKind.refreshEntry]
      cases K.place item with
      | none => exact h
      | some place =>
        dsimp only
        cases b.cache.lookup (K.key item) with
        | none => exact hK.create item place b.leaflet h
        | some cached => exact hK.update item place cached b.leaflet h
  have hevict (seen : List String) (left : List (String × Entry σ)) {b : Board σ}
      (h : OnLayer P b.leaflet) : OnLayer P (left.foldl (K.evictEntry seen) b).leaflet := by
    induction left generalizing b with
    | nil => exact h
    | cons cached left ih =>
      refine ih ?_
      rw [MarkerKind.evictEntry]
      dsimp only
      split_ifs
      · exact h
      · exact h.foldl (fun l n hl ↦ hl.removeLayer n) _
      · exact hK.dim cached.2.markers b.leaflet h
  exact hevict _ _ (hrefresh items h)

end

/-- At full strength or going stale: no marker that the filter has dimmed. -/
def PlainDelay (m : Marker) : Prop :=
  m.style.fillOpacity = some 0.85 ∧ (m.style.opacity = none ∨ m.style.opacity = some 1) ∨
    m.style.fillOpacity = some staleOpacity ∧ m.style.opacity = some 0.4

def PlainBunching (m : Marker) : Prop :=
  match m.shape with
  | .circle _ =>
    m.style.fillOpacity = some 0.9 ∧ (m.style.opacity = none ∨ m.style.opacity = some 1) ∨
      m.style.fillOpacity = some staleOpacity ∧ m.style.opacity = some 0.4
  | .line _ _ => m.style.opacity = some 0.7 ∨ m.style.opacity = some 0.25

theorem dimmed_of_activeRoute {activeRouteFilter routeId : Option String}
    (h : activeRoute activeRouteFilter = none) : dimmed activeRouteFilter routeId = false := by
  cases activeRouteFilter with
  | none => rfl
  | some route =>
    have hempty : route = "" := by
      by_contra hne
      rw [activeRoute, Option.filter_some, if_pos (decide_eq_true hne)] at h
      cases h
    rw [dimmed, hempty]
    simp

theorem delayMarkers_keeps {activeRouteFilter : Option String}
    (h : activeRoute activeRouteFilter = none) :
    (delayMarkers activeRouteFilter).Keeps PlainDelay where
  create d position l hl := hl.addTo (Or.inl ⟨rfl, Or.inl rfl⟩)
  update d position cached l hl := by
    refine hl.modify (fun m _ ↦ ?_) _
    rw [dimmed_of_activeRoute h]
    exact Or.inl ⟨rfl, Or.inr rfl⟩
  dim marker l hl := hl.modify (fun m _ ↦ Or.inr ⟨rfl, rfl⟩) _

theorem OnLayer.addIfAny {P : Marker → Prop} {l : Leaflet} (h : OnLayer P l) {m : Option Marker}
    (hm : ∀ m', m = some m' → P m') : OnLayer P (addIfAny m l).2 := by
  cases m with
  | none => exact h
  | some m => exact h.addTo (hm m rfl)

theorem OnLayer.modifyIfAny {P : Marker → Prop} {l : Leaflet} (h : OnLayer P l)
    {change : Option (Marker → Marker)} (hchange : ∀ f, change = some f → ∀ m, P m → P (f m))
    (marker : Option ℕ) : OnLayer P (modifyIfAny marker change l) := by
  cases marker with
  | none => exact h
  | some marker =>
    cases change with
    | none => exact h
    | some f => exact h.modify (hchange f rfl) marker

theorem bunchingMarkers_keeps {activeRouteFilter : Option String}
    (h : activeRoute activeRouteFilter = none) (vehiclePositions : String → Option LatLon) :
    (bunchingMarkers activeRouteFilter vehiclePositions).Keeps PlainBunching where
  create bunching positions l hl := by
    have hcircle (position : Option LatLon) : ∀ m', position.map (fun p ↦
        ({ shape := .circle p
           style := { fillColor := some bunchingColor, fillOpacity := some 0.9 }
           popup := .bunching bunching } : Marker)) = some m' → PlainBunching m' := by
      intro m' hm'
      obtain ⟨p, -, rfl⟩ := Option.map_eq_some_iff.mp hm'
      exact Or.inl ⟨rfl, Or.inl rfl⟩
    refine ((hl.addIfAny (hcircle positions.1)).addIfAny (hcircle positions.2)).addIfAny
      fun m' hm' ↦ ?_
    obtain ⟨p, -, hm'⟩ := Option.bind_eq_some_iff.mp hm'
    obtain ⟨q, -, rfl⟩ := Option.map_eq_some_iff.mp hm'
    exact Or.inl rfl
  update bunching positions cached l hl := by
    have hcircle (position : Option LatLon) : ∀ f, position.map (fun p (m : Marker) ↦
        ((m.setShape (.circle p)).setPopupContent (.bunching bunching)).setStyle
          { fillOpacity := some 0.9, opacity := some 1 }) = some f →
        ∀ m, PlainBunching m → PlainBunching (f m) := by
      intro f hf m _
      obtain ⟨p, -, rfl⟩ := Option.map_eq_some_iff.mp hf
      exact Or.inl ⟨rfl, Or.inr rfl⟩
    change OnLayer PlainBunching (updateBunchingEvent _ _ _ _ _ _ _).2
    rw [updateBunchingEvent]
    simp only [dimmed_of_activeRoute h]
    have hcircles := (hl.modifyIfAny (hcircle positions.1) cached.markers.1).modifyIfAny
      (hcircle positions.2) cached.markers.2.1
    refine hcircles.modifyIfAny (fun f hf m _ ↦ ?_) _
    obtain ⟨p, -, hf⟩ := Option.bind_eq_some_iff.mp hf
    obtain ⟨q, -, rfl⟩ := Option.map_eq_some_iff.mp hf
    exact Or.inl rfl
  dim markers l hl := by
    refine hl.foldl (fun l n hl ↦ hl.modify (fun m _ ↦ ?_) n) _
    rw [dimBunching]
    cases hshape : m.shape with
    | circle p =>
      have hshape' : (m.setStyle { fillOpacity := some staleOpacity, opacity := some 0.4 }).shape =
          .circle p := hshape
      rw [PlainBunching]
      dsimp only
      rw [hshape']
      exact Or.inr ⟨rfl, rfl⟩
    | line p q =>
      have hshape' : (m.setStyle { opacity := some 0.25 }).shape = .line p q := hshape
      rw [PlainBunching]
      dsimp only
      rw [hshape']
      exact Or.inr rfl

/-! ## Under a filter -/

theorem Shows.onLayer {σ : Type} {b : Board σ} {drawn : σ → List ℕ}
    {style : Entry σ → Marker → Style} {P : Marker → Prop} (h : Shows drawn b)
    (hstyled : b.Styled drawn style) (hP : ∀ e m, m.Has (style e m) → P m) :
    OnLayer P b.leaflet := by
  intro n hn m hm
  obtain ⟨cached, hcached, hn⟩ := List.mem_flatMap.mp (h.layer.mem_iff.mp hn)
  obtain ⟨m', hm', hhas⟩ := hstyled cached hcached n hn
  obtain rfl : m = m' := Option.some.inj (hm.symm.trans hm')
  exact hP _ _ hhas

theorem plainDelay_of_has {m : Marker} (h : m.Has (delayStyle true)) : PlainDelay m :=
  Or.inl ⟨h.2.1 _ rfl, Or.inr (h.2.2 _ rfl)⟩

theorem plainBunching_of_has {m : Marker} (h : m.Has (bunchingStyle true m)) :
    PlainBunching m := by
  rw [bunchingStyle] at h
  rw [PlainBunching]
  cases hshape : m.shape with
  | circle p =>
    rw [hshape] at h
    exact Or.inl ⟨h.2.1 _ rfl, Or.inr (h.2.2 _ rfl)⟩
  | line p q =>
    rw [hshape] at h
    exact Or.inl (h.2.2 _ rfl)

/-- The style of a delay marker under a filter, by its entry. -/
def filteredDelay (route : String) (e : DelayMarkerEntry) (_ : Marker) : Style :=
  delayStyle (e.routeId = some route)

def filteredBunching (route : String) (e : BunchingMarkerEntry) (m : Marker) : Style :=
  bunchingStyle (e.routeId = some route) m

/-- The markers that are drawn, each once, and their styles. -/
structure ShowsFilter (page : Page) : Prop where
  delays : Shows (fun marker ↦ [marker]) page.delays
  bunching : Shows slots page.bunching
  filtered : ∀ route, activeRoute page.activeRouteFilter = some route →
    page.delays.Styled (fun marker ↦ [marker]) (filteredDelay route) ∧
      page.bunching.Styled slots (filteredBunching route)
  plain : activeRoute page.activeRouteFilter = none →
    OnLayer PlainDelay page.delays.leaflet ∧ OnLayer PlainBunching page.bunching.leaflet

variable {page : Page}

theorem showsFilter_apply (page : Page) (hdelays : Shows (fun marker ↦ [marker]) page.delays)
    (hbunching : Shows slots page.bunching)
    (hplain : activeRoute page.activeRouteFilter = none →
      OnLayer PlainDelay page.delays.leaflet ∧ OnLayer PlainBunching page.bunching.leaflet) :
    ShowsFilter page.applyRouteFilter := by
  rw [Page.applyRouteFilter]
  cases hroute : activeRoute page.activeRouteFilter with
  | none =>
    refine ⟨hdelays, hbunching, fun route h ↦ ?_, hplain⟩
    rw [hroute] at h
    cases h
  | some route =>
    have hdelays' := hdelays.restyle (filteredDelay route)
    have hbunching' := hbunching.restyle (filteredBunching route)
    have hstyled : (page.delays.restyle (fun marker ↦ [marker]) (filteredDelay route)).Styled _
        (filteredDelay route) := hdelays.styled_restyle fun _ _ _ ↦ rfl
    have hstyled' : (page.bunching.restyle slots (filteredBunching route)).Styled _
        (filteredBunching route) := hbunching.styled_restyle fun _ _ _ ↦ rfl
    refine ⟨hdelays', hbunching', fun route' h ↦ ?_, fun h ↦ ?_⟩
    · obtain rfl : route = route' := Option.some.inj (hroute.symm.trans h)
      exact ⟨hstyled, hstyled'⟩
    · exact absurd (hroute.symm.trans h) (by simp)

theorem ShowsFilter.refresh (h : ShowsFilter page) (data : LiveData) (now : ℤ) :
    ShowsFilter (page.refresh data now) := by
  have hdelays := (updateMarkers_spec (delayMarkers_lawful page.activeRouteFilter) h.delays
    ((buildVehiclePositions data.delays).1.map TimedDelay.toDelayEntry)).1
  have hbunching := (updateMarkers_spec (bunchingMarkers_lawful page.activeRouteFilter
    (buildVehiclePositions data.delays).2) h.bunching data.bunching).1
  obtain ⟨hdelays, hbunching, hfiltered, hplain⟩ := showsFilter_apply
    { page with
      delays := updateDelayMarkers page.activeRouteFilter
        ((buildVehiclePositions data.delays).1.map TimedDelay.toDelayEntry) page.delays
      bunching := updateBunchingMarkers page.activeRouteFilter data.bunching
        (buildVehiclePositions data.delays).2 page.bunching }
    hdelays hbunching fun hnone ↦
      ⟨(delayMarkers_keeps hnone).updateMarkers (h.plain hnone).1 _,
        (bunchingMarkers_keeps hnone _).updateMarkers (h.plain hnone).2 _⟩
  exact ⟨hdelays, hbunching, hfiltered, hplain⟩

theorem activeRoute_of_valid {route : String} (h : Api.validRouteId route = true) :
    activeRoute (some route) = some route := by
  have hne : route ≠ "" := (of_decide_eq_true h).1
  rw [activeRoute, Option.filter_some, if_pos (decide_eq_true hne)]

theorem ShowsFilter.handle (h : ShowsFilter page) {e : PageEvent} (he : e.Possible) :
    ShowsFilter (page.handle e) := by
  cases e with
  | refresh data now => exact h.refresh data now
  | refreshError => exact ⟨h.delays, h.bunching, h.filtered, h.plain⟩
  | filterByRoute route =>
    refine showsFilter_apply _ h.delays h.bunching fun hnone ↦ ?_
    exact absurd ((activeRoute_of_valid he).symm.trans hnone) (by simp)
  | clearRouteFilter =>
    have hdelays := h.delays.restyle fun _ _ ↦ delayStyle true
    have hbunching := h.bunching.restyle fun _ ↦ bunchingStyle true
    have hplain : OnLayer PlainDelay
        (page.delays.restyle (fun marker ↦ [marker]) fun _ _ ↦ delayStyle true).leaflet :=
      hdelays.onLayer (h.delays.styled_restyle fun _ _ _ ↦ rfl) fun _ _ hm ↦ plainDelay_of_has hm
    have hplain' : OnLayer PlainBunching
        (page.bunching.restyle slots fun _ ↦ bunchingStyle true).leaflet :=
      hbunching.onLayer (h.bunching.styled_restyle fun _ _ _ ↦ rfl) fun _ _ hm ↦
        plainBunching_of_has hm
    exact ⟨hdelays, hbunching, nofun, fun _ ↦ ⟨hplain, hplain'⟩⟩

/-- **The map shows the filter.** After every run, what is drawn are the markers of the cached
entries, each once. Under a filter those of the route are at full strength and all others are
dimmed, also the ones that have just come or are going stale, and without one none is dimmed by an
earlier filter. -/
theorem filter_run (events : List PageEvent) (hpossible : ∀ e ∈ events, e.Possible) :
    ShowsFilter (pageAfter events) := by
  induction events using List.reverseRecOn with
  | nil =>
    refine ⟨shows_empty _, shows_empty _, fun route h ↦ ?_, fun _ ↦ ⟨?_, ?_⟩⟩
    · cases h
    · exact fun n hn ↦ absurd hn List.not_mem_nil
    · exact fun n hn ↦ absurd hn List.not_mem_nil
  | append_singleton events e ih =>
    rw [List.forall_mem_append, List.forall_mem_singleton] at hpossible
    rw [pageAfter, List.foldl_append]
    exact (ih hpossible.1).handle hpossible.2

/-- Two buses, one of them of route 28, which is then filtered by. -/
def twoBuses : List PageEvent :=
  let bus (vehicleId routeId : String) : TimedDelay :=
    { vehicleId := vehicleId, tripId := "t", routeId := some routeId, routeLongName := none
      kind := .arrival, deviationSeconds := 60, location := some ⟨some (-71, 42)⟩, actualAt := 0 }
  [.refresh ⟨[bus "y1" "28", bus "y2" "39"], [], 0⟩ 0, .filterByRoute "28"]

/-- The other one is dimmed. -/
theorem filter_twoBuses : ∃ m, (pageAfter twoBuses).delays.leaflet.objects[1]? = some m ∧
    m.style.fillOpacity = some filterDimOpacity := by
  have hpossible : ∀ e ∈ twoBuses, e.Possible := by
    rw [twoBuses, List.forall_mem_cons, List.forall_mem_singleton]
    exact ⟨trivial, by rw [PageEvent.Possible]; decide⟩
  have hcache : ("y2", Entry.mk 1 0 (some "39")) ∈ (pageAfter twoBuses).delays.cache :=
    List.mem_of_getElem? (show _[1]? = _ from rfl)
  obtain ⟨m, hm, -, hopacity, -⟩ :=
    ((filter_run twoBuses hpossible).filtered "28" rfl).1 _ hcache 1 (List.mem_singleton_self 1)
  exact ⟨m, hm, hopacity _ rfl⟩

end GtfsStream.Frontend
