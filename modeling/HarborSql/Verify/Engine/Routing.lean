import HarborSql.Theory.Routing
import HarborSql.Engine.Routing
import HarborSql.Text

/-! The object stores of a query: a call goes to the store recorded last for the longest recorded
path that covers its location. -/

namespace HarborSql

open Routing

/-! ## Paths -/

/-- The segments of a path. The empty path has none. -/
def segments (path : String) : List (List Char) :=
  if path = "" then [] else path.toList.splitOn '/'

/-- A path covers the paths that begin with its segments. -/
def Covers (pathPrefix path : String) : Prop := segments pathPrefix <+: segments path

theorem pathHasPrefix_iff_append {path pathPrefix : String} :
    pathHasPrefix path pathPrefix ↔
      pathPrefix = "" ∨ path = pathPrefix ∨
        ∃ rest, path.toList = pathPrefix.toList ++ '/' :: rest := by
  rw [pathHasPrefix, Bool.or_eq_true, Bool.or_eq_true, String.isEmpty_iff, beq_iff_eq, or_assoc]
  refine or_congr_right (or_congr_right ?_)
  rw [Option.any_eq_true]
  constructor
  · intro ⟨suffix, hsuffix, hhead⟩
    rw [beq_iff_eq, List.head?_eq_some_iff] at hhead
    obtain ⟨rest, rfl⟩ := hhead
    exact ⟨rest, isPrefixOf?_eq_some.mp hsuffix⟩
  · intro ⟨rest, h⟩
    exact ⟨'/' :: rest, isPrefixOf?_eq_some.mpr h, by simp⟩

/-- The test of the code compares whole segments. -/
theorem pathHasPrefix_iff {path pathPrefix : String} :
    pathHasPrefix path pathPrefix ↔ Covers pathPrefix path := by
  rw [pathHasPrefix_iff_append, Covers, segments, segments]
  by_cases hp : pathPrefix = ""
  · simp [hp]
  · by_cases hl : path = ""
    · have hne : pathPrefix.toList ≠ [] := by simpa using hp
      simp [hp, hl, Ne.symm hp, List.splitOn_ne_nil]
    · rw [if_neg hp, if_neg hl, splitOn_isPrefix_iff, String.toList_inj]
      simp [hp]

theorem Covers.isPrefix {p location : String} (h : Covers p location) :
    p.toList <+: location.toList := by
  rw [← pathHasPrefix_iff, pathHasPrefix_iff_append] at h
  rcases h with rfl | rfl | ⟨rest, h⟩
  · exact List.nil_prefix
  · exact List.prefix_rfl
  · exact ⟨'/' :: rest, h.symm⟩

theorem eq_of_isPrefix_of_size {p q : String} (h : p.toList <+: q.toList)
    (hsize : p.utf8ByteSize = q.utf8ByteSize) : p = q := by
  obtain ⟨rest, h⟩ := h
  have hq : q = p ++ String.ofList rest := by
    rw [← String.toList_inj, String.toList_append, String.toList_ofList, h]
  have hrest : (String.ofList rest).utf8ByteSize = 0 := by
    have := String.utf8ByteSize_append (s := p) (t := String.ofList rest)
    rw [← hq] at this
    omega
  rw [hq, String.utf8ByteSize_eq_zero_iff.mp hrest, String.append_empty]

/-- The paths that cover one location differ in length. -/
theorem Covers.eq_of_size {p q location : String} (hp : Covers p location)
    (hq : Covers q location) (h : p.utf8ByteSize = q.utf8ByteSize) : p = q := by
  rcases List.prefix_or_prefix_of_prefix hp.isPrefix hq.isPrefix with hpq | hqp
  · exact eq_of_isPrefix_of_size hpq h
  · exact (eq_of_isPrefix_of_size hqp h.symm).symm

/-! ## What is recorded -/

variable {U S : Type}

/-- A call of `record_store`. -/
structure RouteRecord (U S : Type) where
  url : U
  pathPrefix : String
  store : S

/-- The registry of a query after a sequence of records. -/
def recordAll (urlText : U → String) (records : List (RouteRecord U S)) :
    ObjectStoreRouteRegistry U S :=
  records.foldl (fun registry r => registry.recordStore urlText r.url r.pathPrefix r.store) ∅

/-- What was recorded for one bucket, in order. -/
def recordedFor (urlText : U → String) (records : List (RouteRecord U S)) (bucket : String) :
    List (String × S) :=
  (records.filter (urlText ·.url = bucket)).map fun r => (r.pathPrefix, r.store)

/-- The store recorded last for the longest recorded path that covers the location. -/
def Chooses (recorded : List (String × S)) (location : String) (store : S) : Prop :=
  ∃ p, lastRecorded recorded p = some store ∧ Covers p location ∧
    ∀ q, (lastRecorded recorded q).isSome → Covers q location → q.utf8ByteSize ≤ p.utf8ByteSize

/-- The routes are the last records. -/
def HoldsLast (recorded : List (String × S)) (routes : List (ObjectStoreRoute S)) : Prop :=
  ∀ route, route ∈ routes ↔ lastRecorded recorded route.pathPrefix = some route.store

theorem recordedFor_concat {urlText : U → String} {records : List (RouteRecord U S)}
    {r : RouteRecord U S} {bucket : String} :
    recordedFor urlText (records ++ [r]) bucket =
      recordedFor urlText records bucket ++
        if urlText r.url = bucket then [(r.pathPrefix, r.store)] else [] := by
  by_cases h : urlText r.url = bucket <;> simp [recordedFor, h]

theorem HoldsLast.record {recorded : List (String × S)} {routes : List (ObjectStoreRoute S)}
    {p : String} {s : S} (h : HoldsLast recorded routes) :
    HoldsLast (recorded ++ [(p, s)])
      (routes.filter (fun route => route.pathPrefix ≠ p) ++ [⟨p, s⟩]) := by
  intro route
  rw [lastRecorded_concat, List.mem_append, List.mem_filter, h route, List.mem_singleton]
  obtain ⟨q, t⟩ := route
  by_cases hq : p = q
  · simp [hq, eq_comm]
  · simp [hq, Ne.symm hq]

/-- The registry after the records: the entry of a bucket holds what was recorded last for its
paths. -/
structure RegistryInv (urlText : U → String) (records : List (RouteRecord U S))
    (registry : ObjectStoreRouteRegistry U S) : Prop where
  entry : ∀ bucket url routes, registry.lookup bucket = some (url, routes) →
    urlText url = bucket ∧ HoldsLast (recordedFor urlText records bucket) routes
  absent : ∀ bucket, registry.lookup bucket = none → recordedFor urlText records bucket = []

theorem RegistryInv.recordStore {urlText : U → String} {records : List (RouteRecord U S)}
    {registry : ObjectStoreRouteRegistry U S} (h : RegistryInv urlText records registry)
    (r : RouteRecord U S) :
    RegistryInv urlText (records ++ [r])
      (registry.recordStore urlText r.url r.pathPrefix r.store) := by
  -- the entry before the record: none stands for one without routes
  have hold : urlText ((registry.lookup (urlText r.url)).getD (r.url, [])).1 = urlText r.url ∧
      HoldsLast (recordedFor urlText records (urlText r.url))
        ((registry.lookup (urlText r.url)).getD (r.url, [])).2 := by
    cases hl : registry.lookup (urlText r.url) with
    | some entry => exact h.entry _ _ _ hl
    | none =>
      rw [h.absent _ hl]
      exact ⟨rfl, fun route => by simp⟩
  refine ⟨?_, ?_⟩
  · intro bucket url routes hl
    rw [ObjectStoreRouteRegistry.recordStore, HashMap.lookup_insert_eq_some] at hl
    rw [recordedFor_concat]
    rcases hl with ⟨rfl, heq⟩ | ⟨hne, hl⟩
    · obtain ⟨rfl, rfl⟩ := Prod.mk.inj heq
      rw [if_pos rfl]
      exact ⟨hold.1, hold.2.record⟩
    · rw [if_neg (Ne.symm hne), List.append_nil]
      exact h.entry bucket url routes hl
  · intro bucket hl
    rw [ObjectStoreRouteRegistry.recordStore] at hl
    have hne : bucket ≠ urlText r.url := by
      intro heq
      subst heq
      simp [AList.lookup_insert] at hl
    rw [AList.lookup_insert_ne hne] at hl
    rw [recordedFor_concat, if_neg (Ne.symm hne), List.append_nil]
    exact h.absent bucket hl

theorem registryInv (urlText : U → String) (records : List (RouteRecord U S)) :
    RegistryInv urlText records (recordAll urlText records) := by
  induction records using List.reverseRecOn with
  | nil => exact ⟨fun _ _ _ h => (nomatch h), fun _ _ => rfl⟩
  | append_singleton records r ih =>
    have hfold : recordAll urlText (records ++ [r]) =
        (recordAll urlText records).recordStore urlText r.url r.pathPrefix r.store := by
      simp [recordAll]
    rw [hfold]
    exact ih.recordStore r

/-! ## The choice of a store -/

variable {recorded : List (String × S)} {routes : List (ObjectStoreRoute S)} {location : String}
  {store : S}

theorem HoldsLast.chooses_iff (h : HoldsLast recorded routes) :
    Chooses recorded location store ↔ ∃ p, Largest routes
      (fun route => route.pathPrefix.utf8ByteSize)
      (fun route => pathHasPrefix location route.pathPrefix) ⟨p, store⟩ := by
  refine exists_congr fun p => ?_
  constructor
  · intro ⟨hp, hcovers, hlargest⟩
    refine ⟨(h _).mpr hp, pathHasPrefix_iff.mpr hcovers, ?_⟩
    intro route hroute hhas
    exact hlargest route.pathPrefix (by simp [(h route).mp hroute]) (pathHasPrefix_iff.mp hhas)
  · intro hl
    refine ⟨(h _).mp hl.mem, pathHasPrefix_iff.mp hl.holds, ?_⟩
    intro q hq hcovers
    obtain ⟨t, ht⟩ := Option.isSome_iff_exists.mp hq
    exact hl.largest ⟨q, t⟩ ((h _).mpr ht) (pathHasPrefix_iff.mpr hcovers)

theorem HoldsLast.unique (h : HoldsLast recorded routes) :
    ∀ x ∈ routes, ∀ y ∈ routes, pathHasPrefix location x.pathPrefix →
      pathHasPrefix location y.pathPrefix →
      x.pathPrefix.utf8ByteSize = y.pathPrefix.utf8ByteSize → x = y := by
  intro ⟨p, s⟩ hx ⟨q, t⟩ hy hp hq hsize
  obtain rfl := (pathHasPrefix_iff.mp hp).eq_of_size (pathHasPrefix_iff.mp hq) hsize
  have hst : some s = some t := ((h _).mp hx).symm.trans ((h _).mp hy)
  rw [Option.some.inj hst]

/-- The first matching route of the router holds the store that the records choose. -/
theorem HoldsLast.storeForLocation_iff (h : HoldsLast recorded routes) :
    (PrefixRoutingObjectStore.new routes).storeForLocation location = .ok store ↔
      Chooses recorded location store := by
  have hfind : ∀ x, (PrefixRoutingObjectStore.new routes).routes.find?
      (fun route => pathHasPrefix location route.pathPrefix) = some x ↔ _ :=
    fun x => find_descending_eq_some h.unique
  rw [h.chooses_iff, PrefixRoutingObjectStore.storeForLocation, routeStoreForLocation]
  constructor
  · intro hstore
    cases hroute : (PrefixRoutingObjectStore.new routes).routes.find?
        (fun route => pathHasPrefix location route.pathPrefix) with
    | none => rw [hroute] at hstore; cases hstore
    | some route =>
      rw [hroute] at hstore
      obtain rfl := Except.ok.inj hstore
      exact ⟨route.pathPrefix, (hfind route).mp hroute⟩
  · intro ⟨p, hp⟩
    rw [(hfind ⟨p, store⟩).mpr hp]

theorem HoldsLast.storeForLocation_error (h : HoldsLast recorded routes)
    (hnone : ∀ q, (lastRecorded recorded q).isSome → ¬Covers q location) :
    (PrefixRoutingObjectStore.new routes).storeForLocation location =
      .error (noRouteError location) := by
  have hfind : (PrefixRoutingObjectStore.new routes).routes.find?
      (fun route => pathHasPrefix location route.pathPrefix) = none := by
    refine find_descending_eq_none.mpr fun route hroute hhas => ?_
    exact hnone route.pathPrefix (by simp [(h route).mp hroute]) (pathHasPrefix_iff.mp hhas)
  rw [PrefixRoutingObjectStore.storeForLocation, routeStoreForLocation, hfind]

theorem HoldsLast.mem_new (h : HoldsLast recorded routes) {route : ObjectStoreRoute S}
    (hroute : route ∈ (PrefixRoutingObjectStore.new routes).routes) :
    lastRecorded recorded route.pathPrefix = some route.store :=
  (h route).mp (mem_descending.mp hroute)

/-- A list goes to a store whose path covers the listed one or lies under it. -/
theorem HoldsLast.storeForPrefix (h : HoldsLast recorded routes)
    (hstore : (PrefixRoutingObjectStore.new routes).storeForPrefix (some location) = .ok store) :
    ∃ q, lastRecorded recorded q = some store ∧ (Covers q location ∨ Covers location q) := by
  rw [PrefixRoutingObjectStore.storeForPrefix] at hstore
  cases hl : (PrefixRoutingObjectStore.new routes).storeForLocation location with
  | ok store' =>
    rw [hl] at hstore
    obtain rfl := Except.ok.inj hstore
    obtain ⟨q, hq, hcovers, -⟩ := h.storeForLocation_iff.mp hl
    exact ⟨q, hq, .inl hcovers⟩
  | error e =>
    rw [hl] at hstore
    cases hroute : (PrefixRoutingObjectStore.new routes).routes.find?
        (fun route => pathHasPrefix route.pathPrefix location) with
    | none => simp [hroute] at hstore
    | some route =>
      simp only [hroute, Except.ok.injEq] at hstore
      subst hstore
      have hhas : pathHasPrefix route.pathPrefix location := by
        simpa using List.find?_some hroute
      exact ⟨route.pathPrefix, h.mem_new (List.mem_of_find?_eq_some hroute),
        .inr (pathHasPrefix_iff.mp hhas)⟩

/-! ## Calls -/

/-- The location a call is addressed to. -/
def StoreCall.addressed {A : Type} : StoreCall A → Option String
  | .putOpts location _ | .putMultipartOpts location _ | .getOpts location _
  | .delete location => some location
  | _ => none

/-- The path a call lists under. -/
def StoreCall.listed {A : Type} : StoreCall A → Option String
  | .list objectPrefix | .listWithOffset objectPrefix _ | .listWithDelimiter objectPrefix =>
    objectPrefix
  | _ => none

theorem route_addressed {A : Type} [DecidableEq S] {router : PrefixRoutingObjectStore S}
    {call : StoreCall A} (h : call.addressed = some location) :
    router.route call = router.storeForLocation location := by
  cases call <;> cases h <;> rfl

theorem route_listed {A : Type} [DecidableEq S] {router : PrefixRoutingObjectStore S}
    {call : StoreCall A} (h : call.listed = some location) :
    router.route call = router.storeForPrefix (some location) := by
  cases call <;> cases h <;> rfl

/-- A router hands the calls on as the records say. -/
structure RoutesExactly [DecidableEq S] (recorded : List (String × S))
    (router : PrefixRoutingObjectStore S) : Prop where
  /-- A call with a location goes to the store that the records choose, .. -/
  addressed : ∀ (A : Type) (call : StoreCall A) location, call.addressed = some location →
    ∀ store, router.route call = .ok store ↔ Chooses recorded location store
  /-- .. and is denied where no recorded path covers the location. -/
  denied : ∀ (A : Type) (call : StoreCall A) location, call.addressed = some location →
    (∀ q, (lastRecorded recorded q).isSome → ¬Covers q location) →
    ∃ source, router.route call = .error (.permissionDenied location source)
  /-- A copy goes to a store when both of its locations do. -/
  copy : ∀ (A : Type) source target (args : A) store,
    router.route (.copyOpts source target args) = .ok store ↔
      Chooses recorded source store ∧ Chooses recorded target store
  listed : ∀ (A : Type) (call : StoreCall A) objectPrefix, call.listed = some objectPrefix →
    ∀ store, router.route call = .ok store →
      ∃ q, lastRecorded recorded q = some store ∧
        (Covers q objectPrefix ∨ Covers objectPrefix q)
  /-- Each location of a stream is deleted in the store that the records choose. -/
  deleted : ∀ (A : Type) (answer : S → StoreCall A → Except ObjectStoreError Unit) locations
    (i : Nat) location, locations[i]? = some (.ok location) →
    (∀ store, Chooses recorded location store →
      (router.deleteStream answer locations)[i]? =
        some ((answer store (.delete location)).map fun _ => location)) ∧
    ((∀ q, (lastRecorded recorded q).isSome → ¬Covers q location) →
      ∃ source, (router.deleteStream answer locations)[i]? =
        some (.error (.permissionDenied location source)))

theorem HoldsLast.copy [DecidableEq S] (h : HoldsLast recorded routes) {A : Type}
    {source target : String} {args : A} :
    (PrefixRoutingObjectStore.new routes).route (.copyOpts source target args) = .ok store ↔
      Chooses recorded source store ∧ Chooses recorded target store := by
  rw [← h.storeForLocation_iff, ← h.storeForLocation_iff, PrefixRoutingObjectStore.route]
  cases (PrefixRoutingObjectStore.new routes).storeForLocation source with
  | error e => simp [bind, Except.bind]
  | ok s =>
    cases (PrefixRoutingObjectStore.new routes).storeForLocation target with
    | error e => simp [bind, Except.bind]
    | ok t =>
      by_cases hst : s = t
      · simp [bind, Except.bind, pure, Except.pure, hst]
      · simp only [bind, Except.bind, ne_eq, hst, not_false_eq_true, if_true, throw,
          throwThe, MonadExceptOf.throw, reduceCtorEq, Except.ok.injEq, false_iff, not_and]
        intro hs ht
        exact hst (hs.trans ht.symm)

theorem HoldsLast.routesExactly [DecidableEq S] (h : HoldsLast recorded routes) :
    RoutesExactly recorded (PrefixRoutingObjectStore.new routes) where
  addressed A call location hloc store := by
    rw [route_addressed hloc, h.storeForLocation_iff]
  denied A call location hloc hnone := by
    rw [route_addressed hloc, h.storeForLocation_error hnone]
    exact ⟨_, rfl⟩
  copy A source target args store := h.copy
  listed A call objectPrefix hlisted store hstore := by
    rw [route_listed hlisted] at hstore
    exact h.storeForPrefix hstore
  deleted A answer locations i location hi := by
    have hroute : (PrefixRoutingObjectStore.new routes).route (StoreCall.delete (A := A) location) =
        (PrefixRoutingObjectStore.new routes).storeForLocation location := rfl
    constructor
    · intro store hstore
      rw [PrefixRoutingObjectStore.deleteStream, List.getElem?_map, hi]
      simp only [Option.map_some, bind, Except.bind, hroute, h.storeForLocation_iff.mpr hstore]
      cases answer store (.delete location) <;> rfl
    · intro hnone
      rw [PrefixRoutingObjectStore.deleteStream, List.getElem?_map, hi]
      simp only [Option.map_some, bind, Except.bind, hroute, h.storeForLocation_error hnone]
      exact ⟨_, rfl⟩

/-! ## The buckets of a query -/

variable {urlText : U → String} {records records' : List (RouteRecord U S)}

/-- A registered router is made of the last records of its bucket. -/
theorem mem_registerObjectStores {entry : U × PrefixRoutingObjectStore S}
    (h : entry ∈ registerObjectStores (recordAll urlText records)) :
    ∃ routes, entry.2 = .new routes ∧
      HoldsLast (recordedFor urlText records (urlText entry.1)) routes := by
  obtain ⟨⟨url, routes⟩, hmem, rfl⟩ := List.mem_map.mp h
  obtain ⟨⟨bucket, value⟩, hentry, heq⟩ := List.mem_map.mp hmem
  dsimp only at heq
  subst heq
  obtain ⟨rfl, hlast⟩ := (registryInv urlText records).entry _ _ _
    (HashMap.mem_entries.mp hentry)
  exact ⟨routes, rfl, hlast⟩

theorem exists_registerObjectStores {r : RouteRecord U S} (h : r ∈ records) :
    ∃ entry ∈ registerObjectStores (recordAll urlText records),
      urlText entry.1 = urlText r.url := by
  cases hl : (recordAll urlText records).lookup (urlText r.url) with
  | none =>
    have hnil := (registryInv urlText records).absent _ hl
    rw [recordedFor, List.map_eq_nil_iff, List.filter_eq_nil_iff] at hnil
    exact absurd (decide_eq_true rfl) (hnil r h)
  | some value =>
    obtain ⟨url, routes⟩ := value
    refine ⟨(url, .new routes), List.mem_map.mpr ⟨(url, routes), ?_, rfl⟩,
      ((registryInv urlText records).entry _ _ _ hl).1⟩
    exact List.mem_map.mpr ⟨⟨urlText r.url, url, routes⟩, HashMap.mem_entries.mpr hl, rfl⟩

theorem storeForLocation_eq_noRouteError {router : PrefixRoutingObjectStore S}
    {e : ObjectStoreError} (h : router.storeForLocation location = .error e) :
    e = noRouteError location := by
  rw [PrefixRoutingObjectStore.storeForLocation, routeStoreForLocation] at h
  cases hroute : router.routes.find? fun route => pathHasPrefix location route.pathPrefix with
  | none => rw [hroute] at h; exact (Except.error.inj h).symm
  | some route => rw [hroute] at h; cases h

/-- Two routers over the same last records choose alike. -/
theorem HoldsLast.storeForLocation_eq {routes' : List (ObjectStoreRoute S)}
    (h : HoldsLast recorded routes) (h' : HoldsLast recorded routes') :
    (PrefixRoutingObjectStore.new routes).storeForLocation location =
      (PrefixRoutingObjectStore.new routes').storeForLocation location := by
  cases hl : (PrefixRoutingObjectStore.new routes).storeForLocation location with
  | ok store => rw [h'.storeForLocation_iff.mpr (h.storeForLocation_iff.mp hl)]
  | error e =>
    cases hl' : (PrefixRoutingObjectStore.new routes').storeForLocation location with
    | ok store =>
      rw [h.storeForLocation_iff.mpr (h'.storeForLocation_iff.mp hl')] at hl
      cases hl
    | error e' =>
      rw [storeForLocation_eq_noRouteError hl, storeForLocation_eq_noRouteError hl']

/-- The order of the records of different paths does not matter. -/
theorem HoldsLast.reorder (h : HoldsLast recorded routes) {recorded' : List (String × S)}
    (horder : ∀ p, recorded.filter (·.1 = p) = recorded'.filter (·.1 = p)) :
    HoldsLast recorded' routes := by
  intro route
  rw [h route, lastRecorded, lastRecorded, horder]

/-- The routing of object stores is exact: whatever was recorded, the router of each bucket
chooses the store recorded last for the longest recorded path over a location, and only the order
of the records of one path decides which that is. -/
theorem objectStoreRouting [DecidableEq S] (urlText : U → String)
    (records : List (RouteRecord U S)) :
    (∀ entry ∈ registerObjectStores (recordAll urlText records),
      RoutesExactly (recordedFor urlText records (urlText entry.1)) entry.2) ∧
    (∀ r ∈ records, ∃ entry ∈ registerObjectStores (recordAll urlText records),
      urlText entry.1 = urlText r.url) ∧
    ∀ records' : List (RouteRecord U S),
      (∀ bucket p, (recordedFor urlText records bucket).filter (·.1 = p) =
        (recordedFor urlText records' bucket).filter (·.1 = p)) →
      ∀ entry ∈ registerObjectStores (recordAll urlText records),
        ∀ entry' ∈ registerObjectStores (recordAll urlText records'),
          urlText entry.1 = urlText entry'.1 →
          ∀ (A : Type) (call : StoreCall A) location, call.addressed = some location →
            entry.2.route call = entry'.2.route call := by
  refine ⟨?_, fun r hr => exists_registerObjectStores hr, ?_⟩
  · intro entry hentry
    obtain ⟨routes, heq, hlast⟩ := mem_registerObjectStores hentry
    rw [heq]
    exact hlast.routesExactly
  · intro records' horder entry hentry entry' hentry' hbucket A call location hcall
    obtain ⟨routes, heq, hlast⟩ := mem_registerObjectStores hentry
    obtain ⟨routes', heq', hlast'⟩ := mem_registerObjectStores hentry'
    rw [hbucket] at hlast
    rw [route_addressed hcall, route_addressed hcall, heq, heq']
    exact (hlast.reorder (horder _)).storeForLocation_eq hlast'

end HarborSql
