import GtfsStream.Frontend.MapLogic
import GtfsStream.Library.Absence
import Mathlib.Data.List.Perm.Basic

/-!
# The markers follow the caches

On the layer are the markers of the cached entries and no others, each once. An entry counts the
refreshes that lacked its key, so the cached keys are those of the last two refreshes. A marker
stays with its entry for as long as the entry is cached.

Both kinds of markers are covered by what they have in common (`Lawful`): a new entry adds markers
that did not exist before, and updating or dimming an entry adds none.

## Refresh after refresh

A refresh goes through the response and then through the cache. The first loop creates or updates
what the response has and counts it as seen; the second dims what was not seen, or evicts it when
its count has reached the limit. After each loop the layer lists the markers of the cache, and the
markers that do not exist yet have larger numbers than all of these, so that no marker is drawn
twice.
-/

namespace GtfsStream.Frontend

open Absence Grouping

/-! ## Runs -/

/-- A refresh of the delays, under the route filter at that time. -/
structure DelayRefresh where
  delays : List DelayEntry
  activeRouteFilter : Option String

/-- A refresh of the bunching events, with the positions of the vehicles. -/
structure BunchingRefresh where
  bunchingEvents : List BunchingEntry
  vehiclePositions : String → Option LatLon
  activeRouteFilter : Option String

def runDelays (rs : List DelayRefresh) : Board ℕ :=
  rs.foldl (fun b r ↦ updateDelayMarkers r.activeRouteFilter r.delays b) {}

def runBunching (rs : List BunchingRefresh) : Board (Option ℕ × Option ℕ × Option ℕ) :=
  rs.foldl
    (fun b r ↦ updateBunchingMarkers r.activeRouteFilter r.bunchingEvents r.vehiclePositions b) {}

/-- The vehicles with a usable location. -/
def DelayRefresh.keys (r : DelayRefresh) : List String :=
  (r.delays.filter fun d ↦ (delayPosition d).isSome).map delayMarkerKey

def BunchingRefresh.keys (r : BunchingRefresh) : List String := r.bunchingEvents.map bunchingKey

/-- After every run the layer shows the cache, and the cache has the last two refreshes. -/
structure FollowsCache {ρ σ : Type} (drawn : σ → List ℕ) (keys : ρ → List String)
    (run : List ρ → Board σ) : Prop where
  /-- On the layer are the markers of the cached entries. -/
  layer : ∀ rs, (run rs).leaflet.layer.Perm
    ((run rs).cache.flatMap fun cached ↦ drawn cached.2.markers)
  /-- Each is there once. -/
  once : ∀ rs, (run rs).leaflet.layer.Nodup
  /-- A key has one entry. -/
  single : ∀ rs, ((run rs).cache.map Prod.fst).Nodup
  cached : ∀ rs k, k ∈ (run rs).cache.map Prod.fst ↔
    ∃ r ∈ rs.reverse.take graceRefreshes, k ∈ keys r
  /-- An entry that stays keeps its markers. -/
  keeps : ∀ rs r k e e', (k, e) ∈ (run rs).cache → (k, e') ∈ (run (rs ++ [r])).cache →
    e'.markers = e.markers

/-! ## Drawing -/

/-- The layer is extended by markers that did not exist before. -/
structure Adds (l l' : Leaflet) (markers : List ℕ) : Prop where
  layer : l'.layer = l.layer ++ markers
  nodup : markers.Nodup
  fresh : ∀ m ∈ markers, l.objects.length ≤ m ∧ m < l'.objects.length
  length_le : l.objects.length ≤ l'.objects.length

section

variable {l l' l'' : Leaflet} {ms ms' : List ℕ}

theorem adds_nil (l : Leaflet) : Adds l l [] :=
  ⟨(List.append_nil _).symm, List.nodup_nil, fun _ h ↦ absurd h List.not_mem_nil, le_rfl⟩

theorem Adds.trans (h : Adds l l' ms) (h' : Adds l' l'' ms') : Adds l l'' (ms ++ ms') where
  layer := by rw [h'.layer, h.layer, List.append_assoc]
  nodup := by
    refine List.nodup_append.mpr ⟨h.nodup, h'.nodup, fun a ha b hb hab ↦ ?_⟩
    have hlt := (h.fresh a ha).2
    have hle := (h'.fresh b hb).1
    omega
  fresh m hm := by
    rcases List.mem_append.mp hm with hm | hm
    · exact ⟨(h.fresh m hm).1, (h.fresh m hm).2.trans_le h'.length_le⟩
    · exact ⟨h.length_le.trans (h'.fresh m hm).1, (h'.fresh m hm).2⟩
  length_le := h.length_le.trans h'.length_le

theorem adds_addTo (l : Leaflet) (m : Marker) : Adds l (l.addTo m).2 [(l.addTo m).1] := by
  have hlength : (l.addTo m).2.objects.length = l.objects.length + 1 := List.length_append
  refine ⟨rfl, List.nodup_singleton _, fun n hn ↦ ?_, hlength ▸ Nat.le_succ _⟩
  rw [List.mem_singleton.mp hn, hlength]
  exact ⟨le_rfl, Nat.lt_succ_self _⟩

theorem adds_modify (l : Leaflet) (n : ℕ) (f : Marker → Marker) : Adds l (l.modify n f) [] where
  layer := (List.append_nil _).symm
  nodup := List.nodup_nil
  fresh _ h := absurd h List.not_mem_nil
  length_le := (List.length_modify ..).ge

end

/-- What the kinds of markers have in common. -/
structure MarkerKind.Lawful {ι π σ : Type} (K : MarkerKind ι π σ) : Prop where
  create : ∀ item place l,
    Adds l (K.create item place l).2 (K.drawn (K.create item place l).1.markers)
  create_misses : ∀ item place l, (K.create item place l).1.misses = 0
  update : ∀ item place cached l, Adds l (K.update item place cached l).2 []
  update_markers : ∀ item place cached l, (K.update item place cached l).1.markers = cached.markers
  update_misses : ∀ item place cached l, (K.update item place cached l).1.misses = 0
  dim : ∀ markers l, Adds l (K.dim markers l) []

theorem delayMarkers_lawful (activeRouteFilter : Option String) :
    (delayMarkers activeRouteFilter).Lawful where
  create _ _ l := adds_addTo l _
  create_misses _ _ _ := rfl
  update _ _ _ l := adds_modify l _ _
  update_markers _ _ _ _ := rfl
  update_misses _ _ _ _ := rfl
  dim _ l := adds_modify l _ _

theorem adds_addIfAny (m : Option Marker) (l : Leaflet) :
    Adds l (addIfAny m l).2 (addIfAny m l).1.toList := by
  cases m with
  | none => exact adds_nil l
  | some m => exact adds_addTo l m

theorem adds_modifyIfAny (marker : Option ℕ) (change : Option (Marker → Marker)) (l : Leaflet) :
    Adds l (modifyIfAny marker change l) [] := by
  cases marker with
  | none => exact adds_nil l
  | some marker =>
    cases change with
    | none => exact adds_nil l
    | some f => exact adds_modify l marker f

theorem adds_foldl_modify (ms : List ℕ) (f : Marker → Marker) (l : Leaflet) :
    Adds l (ms.foldl (fun l marker ↦ l.modify marker f) l) [] := by
  induction ms generalizing l with
  | nil => exact adds_nil l
  | cons m ms ih => exact (adds_modify l m f).trans (ih _)

theorem bunchingMarkers_lawful (activeRouteFilter : Option String)
    (vehiclePositions : String → Option LatLon) :
    (bunchingMarkers activeRouteFilter vehiclePositions).Lawful where
  create _ _ l := ((adds_addIfAny _ l).trans (adds_addIfAny _ _)).trans (adds_addIfAny _ _)
  create_misses _ _ _ := rfl
  update _ _ _ l :=
    ((adds_modifyIfAny _ _ l).trans (adds_modifyIfAny _ _ _)).trans (adds_modifyIfAny _ _ _)
  update_markers _ _ _ _ := rfl
  update_misses _ _ _ _ := rfl
  dim markers l := adds_foldl_modify (slots markers) dimBunching l

/-! ## The layer and the cache -/

section

variable {ι π σ : Type}

/-- The markers of the cached entries. -/
def cachedMarkers (drawn : σ → List ℕ) (cache : List (String × Entry σ)) : List ℕ :=
  cache.flatMap fun cached ↦ drawn cached.2.markers

/-- The layer shows the cache, and every key is cached once. -/
structure Shows (drawn : σ → List ℕ) (b : Board σ) : Prop where
  keys : (b.cache.map Prod.fst).Nodup
  layer : b.leaflet.layer.Perm (cachedMarkers drawn b.cache)
  nodup : b.leaflet.layer.Nodup
  created : ∀ m ∈ b.leaflet.layer, m < b.leaflet.objects.length

variable {K : MarkerKind ι π σ} {b : Board σ} {l : Leaflet} {k : String} {e e' : Entry σ}

theorem shows_empty (drawn : σ → List ℕ) : Shows drawn ({} : Board σ) :=
  ⟨List.nodup_nil, List.Perm.nil, List.nodup_nil, fun _ h ↦ absurd h List.not_mem_nil⟩

theorem Shows.create {drawn : σ → List ℕ} (h : Shows drawn b) (hk : b.cache.lookup k = none)
    (hadds : Adds b.leaflet l (drawn e.markers)) :
    Shows drawn { leaflet := l, cache := modify e k (fun _ ↦ e) b.cache } where
  keys := nodup_modify h.keys
  layer := by
    rw [modify_of_lookup_eq_none hk, hadds.layer, cachedMarkers, List.flatMap_append,
      List.flatMap_singleton]
    exact h.layer.append_right _
  nodup := by
    rw [hadds.layer]
    refine List.nodup_append.mpr ⟨h.nodup, hadds.nodup, fun m hm n hn hmn ↦ ?_⟩
    have hlt := h.created m hm
    have hle := (hadds.fresh n hn).1
    omega
  created m hm := by
    rw [hadds.layer] at hm
    rcases List.mem_append.mp hm with hm | hm
    · exact (h.created m hm).trans_le hadds.length_le
    · exact (hadds.fresh m hm).2

theorem Shows.update {drawn : σ → List ℕ} {f : Entry σ → Entry σ} {default : Entry σ}
    (h : Shows drawn b) (hk : b.cache.lookup k = some e) (he : (f e).markers = e.markers)
    (hadds : Adds b.leaflet l []) :
    Shows drawn { leaflet := l, cache := modify default k f b.cache } := by
  have hlayer : l.layer = b.leaflet.layer := by rw [hadds.layer, List.append_nil]
  have hcache : cachedMarkers drawn (modify default k f b.cache) = cachedMarkers drawn b.cache :=
    flatMap_modify (g := fun e : Entry σ ↦ drawn e.markers) hk (congrArg drawn he)
  refine ⟨nodup_modify h.keys, ?_, ?_, ?_⟩
  · rw [hlayer, hcache]
    exact h.layer
  · rw [hlayer]
    exact h.nodup
  · rw [hlayer]
    exact fun m hm ↦ (h.created m hm).trans_le hadds.length_le

theorem layer_foldl_removeLayer (ms : List ℕ) (l : Leaflet) :
    ms.foldl Leaflet.removeLayer l = { l with layer := l.layer.diff ms } := by
  induction ms generalizing l with
  | nil => rfl
  | cons m ms ih =>
    rw [List.foldl_cons, ih, List.diff_cons]
    rfl

theorem append_diff_left (ms rest : List ℕ) : (ms ++ rest).diff ms = rest := by
  induction ms with
  | nil => rfl
  | cons m ms ih => rw [List.cons_append, List.diff_cons, List.erase_cons_head, ih]

theorem Shows.evict {drawn : σ → List ℕ} (h : Shows drawn b) (hk : b.cache.lookup k = some e) :
    Shows drawn
      { leaflet := (drawn e.markers).foldl Leaflet.removeLayer b.leaflet
        cache := b.cache.filter fun other ↦ other.1 ≠ k } := by
  have hperm : b.leaflet.layer.Perm (drawn e.markers ++
      cachedMarkers drawn (b.cache.filter fun other ↦ other.1 ≠ k)) :=
    h.layer.trans ((perm_cons_filter_ne h.keys hk).flatMap_right _)
  have hdiff : (b.leaflet.layer.diff (drawn e.markers)).Perm
      (cachedMarkers drawn (b.cache.filter fun other ↦ other.1 ≠ k)) :=
    (hperm.diff_right _).trans (List.Perm.of_eq (append_diff_left _ _))
  have hsub : (b.leaflet.layer.diff (drawn e.markers)).Sublist b.leaflet.layer :=
    List.diff_sublist _ _
  rw [layer_foldl_removeLayer]
  refine ⟨?_, hdiff, hsub.nodup h.nodup, fun m hm ↦ h.created m (hsub.subset hm)⟩
  exact (List.filter_sublist.map Prod.fst).nodup h.keys

/-! ## A refresh -/

/-- What the entries of a response do to the caches before the eviction. -/
structure Refreshed (K : MarkerKind ι π σ) (seen : List String) (b b' : Board σ) : Prop where
  shows' : Shows K.drawn b'
  others : ∀ k ∉ seen, b'.cache.lookup k = b.cache.lookup k
  reset : ∀ k ∈ seen, ∃ e, b'.cache.lookup k = some e ∧ e.misses = 0
  keeps : ∀ k e, b.cache.lookup k = some e →
    ∃ e', b'.cache.lookup k = some e' ∧ e'.markers = e.markers

theorem refreshed_nil (h : Shows K.drawn b) : Refreshed K [] b b :=
  ⟨h, fun _ _ ↦ rfl, fun _ h ↦ absurd h List.not_mem_nil, fun _ e he ↦ ⟨e, he, rfl⟩⟩

theorem Refreshed.trans {seen seen' : List String} {b' b'' : Board σ} (h : Refreshed K seen b b')
    (h' : Refreshed K seen' b' b'') : Refreshed K (seen ++ seen') b b'' where
  shows' := h'.shows'
  others k hk := by
    rw [List.mem_append, not_or] at hk
    rw [h'.others k hk.2, h.others k hk.1]
  reset k hk := by
    by_cases hk' : k ∈ seen'
    · exact h'.reset k hk'
    · rw [h'.others k hk']
      exact h.reset k ((List.mem_append.mp hk).resolve_right hk')
  keeps k e he := by
    obtain ⟨e', he', hmarkers⟩ := h.keeps k e he
    obtain ⟨e'', he'', hmarkers'⟩ := h'.keeps k e' he'
    exact ⟨e'', he'', hmarkers'.trans hmarkers⟩

theorem refreshed_entry (hK : K.Lawful) (h : Shows K.drawn b) (item : ι) :
    Refreshed K (K.seen [item]) b (K.refreshEntry b item) := by
  rw [MarkerKind.seen, MarkerKind.refreshEntry, List.filter_singleton]
  rcases hplace : K.place item with _ | place
  · exact refreshed_nil h
  have hkeys : (bif (some place).isSome then [item] else []).map K.key = [K.key item] := rfl
  rw [hkeys]
  dsimp only
  -- the new entry has the markers of the old one, if there was one
  have hset {e : Entry σ} {l : Leaflet}
      (hshows : Shows K.drawn
        { leaflet := l, cache := modify e (K.key item) (fun _ ↦ e) b.cache })
      (hmisses : e.misses = 0)
      (hmarkers : ∀ old, b.cache.lookup (K.key item) = some old → e.markers = old.markers) :
      Refreshed K [K.key item] b
        { leaflet := l, cache := modify e (K.key item) (fun _ ↦ e) b.cache } := by
    refine ⟨hshows, fun k hk ↦ ?_, fun k hk ↦ ?_, fun k old hold ↦ ?_⟩
    · dsimp only
      rw [lookup_modify, if_neg (fun heq ↦ hk (List.mem_singleton.mpr heq))]
    · dsimp only
      rw [lookup_modify, if_pos (List.mem_singleton.mp hk)]
      exact ⟨e, rfl, hmisses⟩
    · dsimp only
      rw [lookup_modify]
      split_ifs with heq
      · subst heq
        exact ⟨e, rfl, hmarkers old hold⟩
      · exact ⟨old, hold, rfl⟩
  rcases hcached : b.cache.lookup (K.key item) with _ | cached
  · refine hset (h.create hcached (hK.create ..)) (hK.create_misses ..) fun old hold ↦ ?_
    rw [hcached] at hold
    cases hold
  · refine hset (h.update hcached (hK.update_markers ..) (hK.update ..)) (hK.update_misses ..)
      fun old hold ↦ ?_
    rw [hcached] at hold
    rw [hK.update_markers, Option.some_inj.mp hold]

theorem refreshed_items (hK : K.Lawful) (h : Shows K.drawn b) (items : List ι) :
    Refreshed K (K.seen items) b (items.foldl K.refreshEntry b) := by
  induction items generalizing b with
  | nil => exact refreshed_nil h
  | cons item items ih =>
    have hseen : K.seen (item :: items) = K.seen [item] ++ K.seen items := by
      rw [MarkerKind.seen, MarkerKind.seen, MarkerKind.seen, ← List.map_append,
        ← List.filter_append, List.singleton_append]
    have hfirst := refreshed_entry hK h item
    rw [hseen, List.foldl_cons]
    exact hfirst.trans (ih hfirst.shows')

/-! ## The eviction -/

/-- An entry that the refresh lacked. -/
def age (e : Entry σ) : Option (Entry σ) :=
  if e.misses + 1 < graceRefreshes then some { e with misses := e.misses + 1 } else none

variable (seen : List String)

theorem evictEntry_spec (hK : K.Lawful) (h : Shows K.drawn b) (hk : b.cache.lookup k = some e) :
    Shows K.drawn (K.evictEntry seen b (k, e)) ∧ ∀ k',
      (K.evictEntry seen b (k, e)).cache.lookup k' =
        if k' = k ∧ k ∉ seen then age e else b.cache.lookup k' := by
  rw [MarkerKind.evictEntry, age]
  dsimp only
  by_cases hseen : k ∈ seen
  · rw [if_pos hseen]
    exact ⟨h, fun k' ↦ (if_neg fun hk' ↦ hk'.2 hseen).symm⟩
  rw [if_neg hseen]
  simp only [hseen, not_false_eq_true, and_true]
  by_cases hgrace : graceRefreshes ≤ e.misses + 1
  · rw [if_pos hgrace, if_neg (not_lt.mpr hgrace)]
    exact ⟨h.evict hk, fun k' ↦ lookup_filter_ne⟩
  · rw [if_neg hgrace, if_pos (not_le.mp hgrace)]
    refine ⟨h.update hk rfl (hK.dim ..), fun k' ↦ ?_⟩
    dsimp only
    rw [lookup_modify, hk, Option.getD_some]

theorem evictEntries_spec (hK : K.Lawful) (h : Shows K.drawn b) {left : List (String × Entry σ)}
    (hnodup : (left.map Prod.fst).Nodup)
    (hleft : ∀ cached ∈ left, b.cache.lookup cached.1 = some cached.2) :
    Shows K.drawn (left.foldl (K.evictEntry seen) b) ∧ ∀ k',
      (left.foldl (K.evictEntry seen) b).cache.lookup k' =
        if k' ∈ left.map Prod.fst ∧ k' ∉ seen then (b.cache.lookup k').bind age
        else b.cache.lookup k' := by
  induction left generalizing b with
  | nil => exact ⟨h, fun k' ↦ (if_neg fun hk' ↦ List.not_mem_nil hk'.1).symm⟩
  | cons cached left ih =>
    obtain ⟨k, e⟩ := cached
    rw [List.map_cons, List.nodup_cons] at hnodup
    obtain ⟨hk, hleft⟩ := List.forall_mem_cons.mp hleft
    obtain ⟨hshows, hlookup⟩ := evictEntry_spec seen hK h hk
    -- the loop visits every key once, so what it does to one entry leaves those ahead alone
    have hne {k' : String} (hk' : k' ∈ left.map Prod.fst) : k' ≠ k := fun heq ↦
      hnodup.1 (heq ▸ hk')
    obtain ⟨hshows', hlookup'⟩ := ih hshows hnodup.2 fun cached hcached ↦ by
      rw [hlookup, if_neg fun hk' ↦ hne (List.mem_map_of_mem hcached) hk'.1]
      exact hleft cached hcached
    refine ⟨hshows', fun k' ↦ ?_⟩
    rw [List.foldl_cons, hlookup', hlookup]
    simp only [List.map_cons, List.mem_cons]
    by_cases heq : k' = k
    · subst heq
      have hnot : ¬(k' ∈ left.map Prod.fst ∧ k' ∉ seen) := fun hmem ↦ hnodup.1 hmem.1
      rw [if_neg hnot, hk, Option.bind_some]
      simp only [true_and, true_or]
    · simp only [heq, false_and, if_false, false_or]

theorem evictStale_spec (hK : K.Lawful) (h : Shows K.drawn b) :
    Shows K.drawn (K.evictStale seen b) ∧ ∀ k', (K.evictStale seen b).cache.lookup k' =
      if k' ∈ seen then b.cache.lookup k' else (b.cache.lookup k').bind age := by
  obtain ⟨hshows, hlookup⟩ := evictEntries_spec seen hK h h.keys fun cached hcached ↦
    lookup_of_mem h.keys hcached
  refine ⟨hshows, fun k' ↦ ?_⟩
  rw [MarkerKind.evictStale, hlookup]
  by_cases hseen : k' ∈ seen
  · rw [if_neg fun hk' ↦ hk'.2 hseen, if_pos hseen]
  · rw [if_neg hseen]
    split_ifs with hmem
    · rfl
    · have hnone : b.cache.lookup k' = none :=
        lookup_eq_none_iff_keys.mpr fun hkeys ↦ hmem ⟨hkeys, hseen⟩
      rw [hnone]
      rfl

/-! ## Refresh after refresh -/

/-- How many refreshes in a row lacked a cached key. -/
def missesOf (b : Board σ) (k : String) : Option ℕ := (b.cache.lookup k).map Entry.misses

theorem updateMarkers_spec (hK : K.Lawful) (h : Shows K.drawn b) (items : List ι) :
    Shows K.drawn (K.updateMarkers items b) ∧
    (∀ k, missesOf (K.updateMarkers items b) k = if k ∈ K.seen items then some 0 else
      (missesOf b k).bind fun m ↦ if m + 1 < graceRefreshes then some (m + 1) else none) ∧
    ∀ k e e', b.cache.lookup k = some e → (K.updateMarkers items b).cache.lookup k = some e' →
      e'.markers = e.markers := by
  have hitems := refreshed_items hK h items
  obtain ⟨hshows, hlookup⟩ := evictStale_spec (K.seen items) hK hitems.shows'
  -- ageing dims or evicts, and never puts another marker in the place of one
  have hage {e e' : Entry σ} (he : age e = some e') : e'.markers = e.markers := by
    rw [age] at he
    split_ifs at he
    rw [← Option.some_inj.mp he]
  refine ⟨hshows, fun k ↦ ?_, fun k e e' he he' ↦ ?_⟩
  · rw [missesOf, MarkerKind.updateMarkers, hlookup]
    split_ifs with hseen
    · obtain ⟨e, he, hmisses⟩ := hitems.reset k hseen
      rw [he, Option.map_some, hmisses]
    · rw [hitems.others k hseen, missesOf]
      cases b.cache.lookup k with
      | none => rfl
      | some e =>
        rw [Option.bind_some, Option.map_some, Option.bind_some, age]
        split_ifs <;> rfl
  · obtain ⟨old, hold, hmarkers⟩ := hitems.keeps k e he
    rw [MarkerKind.updateMarkers, hlookup, hold, Option.bind_some] at he'
    split_ifs at he'
    · rw [← Option.some_inj.mp he', hmarkers]
    · rw [hage he', hmarkers]

/-! ## All refreshes -/

variable {ρ : Type} {kind : ρ → MarkerKind ι π σ} {drawn : σ → List ℕ}

/-- A run of refreshes of one kind. -/
def runOf (kind : ρ → MarkerKind ι π σ) (items : ρ → List ι) (rs : List ρ) : Board σ :=
  rs.foldl (fun b r ↦ (kind r).updateMarkers (items r) b) {}

variable (items : ρ → List ι)

theorem runOf_concat (rs : List ρ) (r : ρ) : runOf kind items (rs ++ [r]) =
    (kind r).updateMarkers (items r) (runOf kind items rs) := List.foldl_append

variable (hkind : ∀ r, (kind r).Lawful) (hdrawn : ∀ r, (kind r).drawn = drawn)
include hkind hdrawn

theorem shows_runOf (rs : List ρ) : Shows drawn (runOf kind items rs) := by
  induction rs using List.reverseRecOn with
  | nil => exact shows_empty drawn
  | append_singleton rs r ih =>
    rw [runOf_concat, ← hdrawn r]
    exact (updateMarkers_spec (hkind r) ((hdrawn r).symm ▸ ih) (items r)).1

/-- **The counters of the cached entries** are those of the refreshes that lacked their keys. -/
theorem missesOf_runOf (rs : List ρ) (k : String) : missesOf (runOf kind items rs) k =
    counters graceRefreshes (rs.map fun r ↦ (kind r).seen (items r)).reverse k := by
  induction rs using List.reverseRecOn with
  | nil => rfl
  | append_singleton rs r ih =>
    have hshows : Shows (kind r).drawn (runOf kind items rs) :=
      (hdrawn r).symm ▸ shows_runOf items hkind hdrawn rs
    rw [runOf_concat, (updateMarkers_spec (hkind r) hshows (items r)).2.1, ih, List.map_append,
      List.reverse_append, List.map_singleton, List.reverse_singleton, List.singleton_append,
      counters_cons (by decide)]

theorem followsCache_runOf : FollowsCache drawn (fun r ↦ (kind r).seen (items r))
    (runOf kind items) where
  layer rs := (shows_runOf items hkind hdrawn rs).layer
  once rs := (shows_runOf items hkind hdrawn rs).nodup
  single rs := (shows_runOf items hkind hdrawn rs).keys
  cached rs k := by
    rw [← isSome_lookup, ← Option.isSome_map, ← missesOf, missesOf_runOf items hkind hdrawn,
      isSome_counters, ← List.map_reverse, ← List.map_take]
    simp only [List.mem_map, exists_exists_and_eq_and]
  keeps rs r k e e' he he' := by
    have hshows := shows_runOf items hkind hdrawn rs
    have hshows' := shows_runOf items hkind hdrawn (rs ++ [r])
    have hlookup := lookup_of_mem hshows'.keys he'
    rw [runOf_concat] at hlookup
    exact (updateMarkers_spec (hkind r) ((hdrawn r).symm ▸ hshows) (items r)).2.2 k e e'
      (lookup_of_mem hshows.keys he) hlookup

end

/-- **The markers on the map follow the caches.** -/
theorem markersFollowCaches :
    FollowsCache (fun marker ↦ [marker]) DelayRefresh.keys runDelays ∧
      FollowsCache slots BunchingRefresh.keys runBunching := by
  constructor
  · exact followsCache_runOf DelayRefresh.delays
      (fun r ↦ delayMarkers_lawful r.activeRouteFilter) fun _ ↦ rfl
  · have hkeys : BunchingRefresh.keys = fun r ↦
        (bunchingMarkers r.activeRouteFilter r.vehiclePositions).seen r.bunchingEvents := by
      funext r
      exact congrArg (List.map bunchingKey) (List.filter_true _).symm
    rw [hkeys]
    exact followsCache_runOf BunchingRefresh.bunchingEvents
      (fun r ↦ bunchingMarkers_lawful r.activeRouteFilter r.vehiclePositions) fun _ ↦ rfl

end GtfsStream.Frontend
