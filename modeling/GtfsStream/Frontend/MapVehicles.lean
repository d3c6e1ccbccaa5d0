import GtfsStream.Frontend.MapPageSpec

/-!
# Where the vehicles are drawn

Over every run of the page: a cached vehicle is drawn where the latest of its entries was in the
last response that located it, with the colour and the text of that entry, and the vehicles of the
last response are all cached.

## The content of a marker

What a marker says is its position, its colour and its text; the filter changes none of them. Along
a run each cached entry remembers by its count which response it was last in. A refresh sets the
content of what the response has and counts the others one up, and an entry that was missed twice is
evicted. So the content of an entry is that of the response which its count points back to.
-/

namespace GtfsStream.Frontend

open Grouping

/-! ## What a marker says -/

/-- What a marker says of its vehicle, apart from how strongly it is drawn. -/
def Marker.content (m : Marker) : Shape × Option String × Popup :=
  (m.shape, m.style.fillColor, m.popup)

/-- What the marker of a delay at a position says. -/
def contentOf (d : DelayEntry) (position : LatLon) : Shape × Option String × Popup :=
  (.circle position, some (deviationColor d.deviationSeconds), .delay d)

def Leaflet.content (l : Leaflet) (n : ℕ) : Option (Shape × Option String × Popup) :=
  l.objects[n]?.map Marker.content

variable {l : Leaflet} {b : Board ℕ} {k : String} {e : Entry ℕ}
  {activeRouteFilter : Option String}

/-- Without a colour, a style does not change what the marker says. -/
theorem content_setStyle (m : Marker) {s : Style} (h : s.fillColor = none) :
    (m.setStyle s).content = m.content := by
  rw [Marker.content, Marker.content, Marker.setStyle]
  dsimp only
  rw [h]
  rfl

theorem content_modify {f : Marker → Marker} (hf : ∀ m, (f m).content = m.content) (n n' : ℕ) :
    (l.modify n f).content n' = l.content n' := by
  rw [Leaflet.content, objects_modify, Leaflet.content]
  split_ifs with hsame
  · rw [Option.map_map]
    congr 1
    funext m
    exact hf m
  · rfl

theorem content_modify_of_ne {f : Marker → Marker} {n n' : ℕ} (h : n ≠ n') :
    (l.modify n f).content n' = l.content n' := by
  rw [Leaflet.content, objects_modify, if_neg h, Leaflet.content]

theorem content_foldl {α : Type} {g : Leaflet → α → Leaflet}
    (hg : ∀ l a n, (g l a).content n = l.content n) (as : List α) (n : ℕ) :
    (as.foldl g l).content n = l.content n := by
  induction as generalizing l with
  | nil => rfl
  | cons a as ih => rw [List.foldl_cons, ih, hg]

theorem content_restyle {σ : Type} {b : Board σ} {drawn : σ → List ℕ}
    {style : Entry σ → Marker → Style} (hstyle : ∀ e m, (style e m).fillColor = none) (n : ℕ) :
    (b.restyle drawn style).leaflet.content n = b.leaflet.content n :=
  content_foldl (fun _ cached n ↦ content_foldl (fun _ _ n ↦
    content_modify (fun m ↦ content_setStyle m (hstyle cached.2 m)) _ n) _ n) _ n

/-- The eviction dims and removes markers, but changes nothing that they say. -/
theorem content_evictStale (seen : List String) (n : ℕ) :
    ((delayMarkers activeRouteFilter).evictStale seen b).leaflet.content n =
      b.leaflet.content n := by
  have hevict (left : List (String × Entry ℕ)) (b : Board ℕ) :
      (left.foldl ((delayMarkers activeRouteFilter).evictEntry seen) b).leaflet.content n =
        b.leaflet.content n := by
    induction left generalizing b with
    | nil => rfl
    | cons cached left ih =>
      rw [List.foldl_cons, ih, MarkerKind.evictEntry]
      dsimp only
      split_ifs
      · rfl
      · rfl
      · exact content_modify (fun m ↦ content_setStyle m rfl) _ _
  exact hevict _ _

/-! ## A refresh -/

theorem mem_of_lookup (hk : b.cache.lookup k = some e) : (k, e) ∈ b.cache := by
  obtain ⟨before, after, hsplit, -⟩ := List.lookup_eq_some_iff.mp hk
  rw [hsplit]
  exact List.mem_append_right _ List.mem_cons_self

theorem markers_ne (h : Shows (fun marker ↦ [marker]) b) {k' : String} {e' : Entry ℕ}
    (hk : b.cache.lookup k = some e) (hk' : b.cache.lookup k' = some e') (hne : k' ≠ k) :
    e.markers ≠ e'.markers := by
  have hnodup : (cachedMarkers (fun marker : ℕ ↦ [marker]) b.cache).Nodup :=
    h.layer.nodup h.nodup
  have hperm := (perm_cons_filter_ne h.keys hk).flatMap_right
    fun cached : String × Entry ℕ ↦ [cached.2.markers]
  have hrest : (k', e') ∈ b.cache.filter fun other ↦ other.1 ≠ k :=
    List.mem_filter.mpr ⟨mem_of_lookup hk', decide_eq_true hne⟩
  have hcons := hperm.nodup hnodup
  rw [List.flatMap_cons, List.singleton_append, List.nodup_cons] at hcons
  intro heq
  exact hcons.1 (List.mem_flatMap.mpr ⟨_, hrest, by rw [heq]; exact List.mem_singleton_self _⟩)

theorem lt_of_lookup (h : Shows (fun marker ↦ [marker]) b) (hk : b.cache.lookup k = some e) :
    e.markers < b.leaflet.objects.length := by
  refine h.created _ (h.layer.mem_iff.mpr (List.mem_flatMap.mpr ⟨(k, e), ?_, ?_⟩))
  · exact mem_of_lookup hk
  · exact List.mem_singleton_self _

/-- An entry that is located is drawn there, and the markers of the other vehicles stay. -/
theorem refreshEntry_located (h : Shows (fun marker ↦ [marker]) b) {d : DelayEntry}
    {position : LatLon} (hposition : delayPosition d = some position) :
    let b' := (delayMarkers activeRouteFilter).refreshEntry b d
    (∃ e, b'.cache.lookup d.vehicleId = some e ∧
      b'.leaflet.content e.markers = some (contentOf d position)) ∧
    ∀ k e, k ≠ d.vehicleId → b.cache.lookup k = some e →
      b'.cache.lookup k = some e ∧ b'.leaflet.content e.markers = b.leaflet.content e.markers := by
  have hplace : (delayMarkers activeRouteFilter).place d = some position := hposition
  have hkey : (delayMarkers activeRouteFilter).key d = d.vehicleId := rfl
  rw [MarkerKind.refreshEntry, hplace, hkey]
  dsimp only
  have hother {entry : Entry ℕ} {k : String} {e : Entry ℕ} (hne : k ≠ d.vehicleId)
      (hk : b.cache.lookup k = some e) :
      (modify entry d.vehicleId (fun _ ↦ entry) b.cache).lookup k = some e := by
    rw [lookup_modify, if_neg hne, hk]
  cases hcached : b.cache.lookup d.vehicleId with
  | none =>
    refine ⟨⟨_, by rw [lookup_modify, if_pos rfl], ?_⟩, fun k e hne hk ↦ ⟨hother hne hk, ?_⟩⟩
    · exact congrArg (Option.map Marker.content) List.getElem?_concat_length
    · exact congrArg (Option.map Marker.content)
        (List.getElem?_append_left (lt_of_lookup h hk))
  | some cached =>
    refine ⟨⟨_, by rw [lookup_modify, if_pos rfl], ?_⟩, fun k e hne hk ↦ ⟨hother hne hk, ?_⟩⟩
    · change Option.map Marker.content (Leaflet.objects (Leaflet.modify _ _ _))[cached.markers]? = _
      rw [objects_modify, if_pos rfl, List.getElem?_eq_getElem (lt_of_lookup h hcached)]
      rfl
    · exact content_modify_of_ne (markers_ne h hcached hk hne)

theorem refreshEntry_unlocated {d : DelayEntry} (hposition : delayPosition d = none) :
    (delayMarkers activeRouteFilter).refreshEntry b d = b := by
  have hplace : (delayMarkers activeRouteFilter).place d = none := hposition
  rw [MarkerKind.refreshEntry, hplace]

/-- What the entries of a response, one for each vehicle, do to the markers. -/
theorem refreshEntries (activeRouteFilter : Option String)
    (h : Shows (fun marker ↦ [marker]) b) (delays : List DelayEntry)
    (hnodup : (delays.map (·.vehicleId)).Nodup) :
    let b' := delays.foldl (delayMarkers activeRouteFilter).refreshEntry b
    (∀ d ∈ delays, ∀ position, delayPosition d = some position → ∃ e,
      b'.cache.lookup d.vehicleId = some e ∧
        b'.leaflet.content e.markers = some (contentOf d position)) ∧
    ∀ k e, k ∉ (delayMarkers activeRouteFilter).seen delays → b.cache.lookup k = some e →
      b'.leaflet.content e.markers = b.leaflet.content e.markers := by
  induction delays using List.reverseRecOn with
  | nil => exact ⟨fun d hd ↦ absurd hd List.not_mem_nil, fun k e _ _ ↦ rfl⟩
  | append_singleton delays last ih =>
    rw [List.map_append, List.nodup_append] at hnodup
    obtain ⟨hlocated, hothers⟩ := ih hnodup.1
    have hne : ∀ d ∈ delays, d.vehicleId ≠ last.vehicleId := fun d hd ↦
      hnodup.2.2 _ (List.mem_map_of_mem hd) _ (List.mem_map_of_mem (List.mem_singleton_self _))
    have hseen (k : String) : k ∉ (delayMarkers activeRouteFilter).seen (delays ++ [last]) →
        k ∉ (delayMarkers activeRouteFilter).seen delays ∧
          ((delayPosition last).isSome → k ≠ last.vehicleId) := by
      intro hk
      rw [MarkerKind.seen, List.filter_append, List.map_append, List.mem_append, not_or] at hk
      refine ⟨hk.1, fun hsome heq ↦ hk.2 (List.mem_map.mpr ⟨last, ?_, heq.symm⟩)⟩
      exact List.mem_filter.mpr ⟨List.mem_singleton_self _, hsome⟩
    have hrefreshed := refreshed_items (delayMarkers_lawful activeRouteFilter) h delays
    rw [List.foldl_append, List.foldl_cons, List.foldl_nil]
    cases hposition : delayPosition last with
    | none =>
      rw [refreshEntry_unlocated hposition]
      refine ⟨fun d hd position hd' ↦ ?_, fun k e hk ↦ hothers k e (hseen k hk).1⟩
      rcases List.mem_append.mp hd with hd | hd
      · exact hlocated d hd position hd'
      · rw [List.mem_singleton.mp hd, hposition] at hd'
        cases hd'
    | some place =>
      obtain ⟨hown, hkeeps⟩ := refreshEntry_located hrefreshed.shows' hposition
      refine ⟨fun d hd position hd' ↦ ?_, fun k e hk hcached ↦ ?_⟩
      · rcases List.mem_append.mp hd with hd | hd
        · obtain ⟨e, he, hcontent⟩ := hlocated d hd position hd'
          obtain ⟨he', hsame⟩ := hkeeps d.vehicleId e (hne d hd) he
          exact ⟨e, he', hsame.trans hcontent⟩
        · rw [List.mem_singleton.mp hd] at hd' ⊢
          rw [← Option.some.inj (hposition.symm.trans hd')]
          exact hown
      · obtain ⟨hk, hk'⟩ := hseen k hk
        have hstill := (hrefreshed.others k hk).trans hcached
        rw [hposition] at hk'
        rw [(hkeeps k e (hk' rfl) hstill).2]
        exact hothers k e hk hcached

/-! ## Over runs -/

/-- The responses of the refreshes, in order. -/
def responsesOf (events : List PageEvent) : List LiveData :=
  events.filterMap fun e ↦ match e with
    | .refresh data _ => some data
    | _ => none

/-- The vehicle is drawn where its latest entry of the response was. -/
def DrawnAs (b : Board ℕ) (k : String) (e : Entry ℕ) (data : LiveData) : Prop :=
  ∃ d position, IsLatest data.delays d ∧ d.vehicleId = k ∧
    delayPosition d.toDelayEntry = some position ∧
      b.leaflet.content e.markers = some (contentOf d.toDelayEntry position)

/-- What the map has of the vehicles after some responses. -/
structure ShowsVehicles (responses : List LiveData) (page : Page) : Prop where
  shows' : Shows (fun marker ↦ [marker]) page.delays
  /-- A cached vehicle is drawn by the last response that located it, one of the last two. -/
  drawn : ∀ k e, page.delays.cache.lookup k = some e → e.misses < graceRefreshes ∧
    ∃ data, responses.reverse[e.misses]? = some data ∧ DrawnAs page.delays k e data
  /-- The vehicles that the last response located are cached. -/
  located : ∀ data, responses.getLast? = some data → ∀ d position, IsLatest data.delays d →
    delayPosition d.toDelayEntry = some position →
      ∃ e, page.delays.cache.lookup d.vehicleId = some e ∧ e.misses = 0

variable {responses : List LiveData} {page : Page}

/-- What is drawn stays as long as the cache and what the markers say stay. -/
theorem ShowsVehicles.of_content (h : ShowsVehicles responses page) (page' : Page)
    (hshows : Shows (fun marker ↦ [marker]) page'.delays)
    (hcache : page'.delays.cache = page.delays.cache)
    (hcontent : ∀ n, page'.delays.leaflet.content n = page.delays.leaflet.content n) :
    ShowsVehicles responses page' where
  shows' := hshows
  drawn k e hk := by
    rw [hcache] at hk
    obtain ⟨hmisses, data, hdata, d, position, hlatest, hvehicle, hposition, hdrawn⟩ :=
      h.drawn k e hk
    exact ⟨hmisses, data, hdata, d, position, hlatest, hvehicle, hposition,
      (hcontent _).trans hdrawn⟩
  located data hdata d position hlatest hposition := by
    rw [hcache]
    exact h.located data hdata d position hlatest hposition

theorem ShowsVehicles.applyRouteFilter (h : ShowsVehicles responses page) :
    ShowsVehicles responses page.applyRouteFilter := by
  rw [Page.applyRouteFilter]
  cases activeRoute page.activeRouteFilter with
  | none => exact h
  | some route =>
    refine h.of_content _ (h.shows'.restyle (filteredDelay route)) rfl fun n ↦ ?_
    exact content_restyle (fun e m ↦ by rw [delayStyle]; split_ifs <;> rfl) n

theorem ShowsVehicles.update (h : ShowsVehicles responses page) (data : LiveData) :
    ShowsVehicles (responses ++ [data])
      { page with
        delays := updateDelayMarkers page.activeRouteFilter
          ((buildVehiclePositions data.delays).1.map TimedDelay.toDelayEntry) page.delays } := by
  set entries := (buildVehiclePositions data.delays).1.map TimedDelay.toDelayEntry with hentries
  set kind := delayMarkers page.activeRouteFilter
  have hlawful := delayMarkers_lawful page.activeRouteFilter
  have hnodup : (entries.map (·.vehicleId)).Nodup := by
    rw [hentries, List.map_map]
    exact nodup_uniqueDelays data.delays
  have hrefreshed := refreshed_items hlawful h.shows' entries
  obtain ⟨hlocated, hothers⟩ := refreshEntries page.activeRouteFilter h.shows' entries hnodup
  obtain ⟨hshows, hlookup⟩ := evictStale_spec (kind.seen entries) hlawful hrefreshed.shows'
  have hcontent := @content_evictStale (entries.foldl kind.refreshEntry page.delays)
    page.activeRouteFilter (kind.seen entries)
  -- a key that is seen belongs to the latest entry of a vehicle that is located
  have hseen {k : String} (hk : k ∈ kind.seen entries) : ∃ d position,
      IsLatest data.delays d ∧ d.vehicleId = k ∧
        delayPosition d.toDelayEntry = some position ∧ d.toDelayEntry ∈ entries := by
    obtain ⟨entry, hentry, rfl⟩ := List.mem_map.mp hk
    obtain ⟨hmem, hsome⟩ := List.mem_filter.mp hentry
    obtain ⟨d, hd, rfl⟩ := List.mem_map.mp hmem
    obtain ⟨position, hposition⟩ := Option.isSome_iff_exists.mp hsome
    exact ⟨d, position, mem_uniqueDelays_iff.mp hd, rfl, hposition, hmem⟩
  refine ⟨hshows, fun k e hk ↦ ?_, fun data' hdata' d position hlatest hposition ↦ ?_⟩
  · change ((kind.evictStale (kind.seen entries)
      (entries.foldl kind.refreshEntry page.delays)).cache.lookup k) = some e at hk
    rw [hlookup] at hk
    rw [List.reverse_append, List.reverse_singleton, List.singleton_append]
    split_ifs at hk with hmem
    · obtain ⟨d, position, hlatest, rfl, hposition, hentry⟩ := hseen hmem
      obtain ⟨e', he', hdrawn⟩ := hlocated _ hentry position hposition
      obtain rfl : e' = e := Option.some.inj (he'.symm.trans hk)
      obtain ⟨e'', he'', hmisses⟩ := hrefreshed.reset _ hmem
      obtain rfl : e' = e'' := Option.some.inj (hk.symm.trans he'')
      rw [hmisses]
      exact ⟨by decide, data, rfl, d, position, hlatest, rfl, hposition,
        (hcontent _).trans hdrawn⟩
    · rw [hrefreshed.others k hmem] at hk
      obtain ⟨old, hold, hage⟩ := Option.bind_eq_some_iff.mp hk
      obtain ⟨-, data', hdata', d, position, hlatest, hvehicle, hposition, hdrawn⟩ :=
        h.drawn k old hold
      have hsame := hothers k old hmem hold
      rw [age] at hage
      split_ifs at hage with hgrace
      obtain rfl : { old with misses := old.misses + 1 } = e := Option.some.inj hage
      exact ⟨hgrace, data', hdata', d, position, hlatest, hvehicle, hposition,
        (hcontent _).trans (hsame.trans hdrawn)⟩
  · rw [List.getLast?_concat] at hdata'
    obtain rfl : data = data' := Option.some.inj hdata'
    have hmem : d.vehicleId ∈ kind.seen entries := by
      refine List.mem_map.mpr ⟨d.toDelayEntry, List.mem_filter.mpr ⟨?_, ?_⟩, rfl⟩
      · exact List.mem_map_of_mem (mem_uniqueDelays_iff.mpr hlatest)
      · exact Option.isSome_iff_exists.mpr ⟨position, hposition⟩
    obtain ⟨e, he, hmisses⟩ := hrefreshed.reset _ hmem
    refine ⟨e, ?_, hmisses⟩
    change ((kind.evictStale (kind.seen entries)
      (entries.foldl kind.refreshEntry page.delays)).cache.lookup d.vehicleId) = some e
    rw [hlookup, if_pos hmem]
    exact he

theorem ShowsVehicles.handle (h : ShowsVehicles responses page) (e : PageEvent) :
    ShowsVehicles (responses ++ responsesOf [e]) (page.handle e) := by
  cases e with
  | refresh data now =>
    have hdelays := h.update data
    have hupdated := hdelays.of_content
      { page with
        delays := updateDelayMarkers page.activeRouteFilter
          ((buildVehiclePositions data.delays).1.map TimedDelay.toDelayEntry) page.delays
        bunching := updateBunchingMarkers page.activeRouteFilter data.bunching
          (buildVehiclePositions data.delays).2 page.bunching } hdelays.shows' rfl fun _ ↦ rfl
    have hfiltered := hupdated.applyRouteFilter
    exact hfiltered.of_content _ hfiltered.shows' rfl fun _ ↦ rfl
  | refreshError =>
    rw [show responsesOf [PageEvent.refreshError] = [] from rfl, List.append_nil]
    exact h.of_content _ h.shows' rfl fun _ ↦ rfl
  | filterByRoute route =>
    rw [show responsesOf [PageEvent.filterByRoute route] = [] from rfl, List.append_nil]
    exact (h.of_content { page with activeRouteFilter := some route } h.shows' rfl
      fun _ ↦ rfl).applyRouteFilter
  | clearRouteFilter =>
    rw [show responsesOf [PageEvent.clearRouteFilter] = [] from rfl, List.append_nil]
    exact h.of_content _ (h.shows'.restyle fun _ _ ↦ delayStyle true) rfl fun n ↦
      content_restyle (fun _ _ ↦ rfl) n

/-- **The map shows where the vehicles are.** After every run of responses, failed requests and
commands, a cached vehicle is drawn at the latest of its entries in the last response that located
it, which is one of the last two, and whatever the last response locates is drawn by it. After a
response the panel counts its vehicles. -/
theorem vehicles_run (events : List PageEvent) :
    ShowsVehicles (responsesOf events) (pageAfter events) ∧
      ∀ data now, events.getLast? = some (.refresh data now) → (pageAfter events).stats =
        some (.live (data.delays.map (·.vehicleId)).toFinset.card data.bunchingCount now) := by
  induction events using List.reverseRecOn with
  | nil => exact ⟨⟨shows_empty _, nofun, nofun⟩, nofun⟩
  | append_singleton events e ih =>
    have hstep : pageAfter (events ++ [e]) = (pageAfter events).handle e := by
      rw [pageAfter, List.foldl_append]
      rfl
    rw [hstep, responsesOf, List.filterMap_append, List.getLast?_concat]
    refine ⟨ih.1.handle e, fun data now he ↦ ?_⟩
    rw [Option.some.inj he, ← length_uniqueDelays]
    rfl

end GtfsStream.Frontend
