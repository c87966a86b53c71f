import Mathlib.Data.List.Sort
import HarborSql.Theory.HashMap

/-! The object stores of a query. Each table brings a store that holds the credentials of the
table, recorded under the bucket and the path of the table (`engine/catalog.rs`), and each bucket
is registered with a router over its stores (`engine.rs`). -/

namespace HarborSql

/-- An `object_store::Error` of the router. -/
inductive ObjectStoreError where
  | generic (store source : String)
  | permissionDenied (path source : String)
  | notSupported (source : String)
  | other (text : String)
  deriving DecidableEq

/-! ## The registry -/

/-- A store, for the objects under a path. Two stores are equal when they are one `Arc`. -/
structure ObjectStoreRoute (S : Type) where
  pathPrefix : String
  store : S
  deriving DecidableEq

/-- The routes of a query, by the text of the URL of their bucket. -/
abbrev ObjectStoreRouteRegistry (U S : Type) := HashMap String (U × List (ObjectStoreRoute S))

namespace ObjectStoreRouteRegistry

variable {U S : Type}

/-- `urlText` is the text of a URL (`Url::to_string`). -/
def recordStore (urlText : U → String) (registry : ObjectStoreRouteRegistry U S) (url : U)
    (pathPrefix : String) (store : S) : ObjectStoreRouteRegistry U S :=
  let (bucket, routes) := (registry.lookup (urlText url)).getD (url, [])
  let routes := routes.filter fun route => route.pathPrefix ≠ pathPrefix
  registry.insert (urlText url) (bucket, routes ++ [{ pathPrefix, store }])

def routes (registry : ObjectStoreRouteRegistry U S) : List (U × List (ObjectStoreRoute S)) :=
  registry.values

end ObjectStoreRouteRegistry

/-! ## The router -/

def pathHasPrefix (path pathPrefix : String) : Bool :=
  pathPrefix.isEmpty || path == pathPrefix ||
    (pathPrefix.toList.isPrefixOf? path.toList).any fun suffix => suffix.head? == some '/'

def noRouteError (location : String) : ObjectStoreError :=
  .permissionDenied location
    s!"no Unity table credential route matched object path {location}"

def routeStoreForLocation {S : Type} (routes : List (ObjectStoreRoute S)) (location : String) :
    Except ObjectStoreError S :=
  match routes.find? fun route => pathHasPrefix location route.pathPrefix with
  | some route => .ok route.store
  | none => .error (noRouteError location)

/-- A call of an object store. `A` stands for the payload and the options of a call, which the
router hands on as they are. -/
inductive StoreCall (A : Type) where
  | putOpts (location : String) (args : A)
  | putMultipartOpts (location : String) (args : A)
  | getOpts (location : String) (args : A)
  | delete (location : String)
  | list (objectPrefix : Option String)
  | listWithOffset (objectPrefix : Option String) (offset : String)
  | listWithDelimiter (objectPrefix : Option String)
  | copyOpts (source target : String) (args : A)

structure PrefixRoutingObjectStore (S : Type) where
  routes : List (ObjectStoreRoute S)

namespace PrefixRoutingObjectStore

variable {S A : Type}

def new (routes : List (ObjectStoreRoute S)) : PrefixRoutingObjectStore S where
  routes := routes.mergeSort fun x y => y.pathPrefix.utf8ByteSize ≤ x.pathPrefix.utf8ByteSize

def storeForLocation (router : PrefixRoutingObjectStore S) (location : String) :
    Except ObjectStoreError S :=
  routeStoreForLocation router.routes location

def firstStore (router : PrefixRoutingObjectStore S) (operation : String) :
    Except ObjectStoreError S :=
  match router.routes.head? with
  | some route => .ok route.store
  | none => .error (.generic "prefix-routing" s!"no object stores registered for {operation}")

def storeForPrefix (router : PrefixRoutingObjectStore S) (objectPrefix : Option String) :
    Except ObjectStoreError S :=
  match objectPrefix with
  | none => router.firstStore "root list"
  | some objectPrefix =>
    match router.storeForLocation objectPrefix with
    | .ok store => .ok store
    | .error _ =>
      match router.routes.find? fun route => pathHasPrefix route.pathPrefix objectPrefix with
      | some route => .ok route.store
      | none => .error (noRouteError objectPrefix)

/-- The store that a call of the router is handed to. A `delete` is what `delete_stream` does
with one location. -/
def route [DecidableEq S] (router : PrefixRoutingObjectStore S) :
    StoreCall A → Except ObjectStoreError S
  | .putOpts location _ => router.storeForLocation location
  | .putMultipartOpts location _ => router.storeForLocation location
  | .getOpts location _ => router.storeForLocation location
  | .delete location => router.storeForLocation location
  | .list objectPrefix => router.storeForPrefix objectPrefix
  | .listWithOffset objectPrefix _ => router.storeForPrefix objectPrefix
  | .listWithDelimiter objectPrefix => router.storeForPrefix objectPrefix
  | .copyOpts source target _ => do
    let fromStore ← router.storeForLocation source
    let toStore ← router.storeForLocation target
    if fromStore ≠ toStore then
      throw (.notSupported
        "cross-prefix copy is not supported by prefix routing object store")
    return fromStore

/-- `delete_stream`: the locations with an error stay as they are, and the others are deleted in
the store of their location. `answer` is the answer of a store to a call. -/
def deleteStream [DecidableEq S] (router : PrefixRoutingObjectStore S)
    (answer : S → StoreCall A → Except ObjectStoreError Unit)
    (locations : List (Except ObjectStoreError String)) : List (Except ObjectStoreError String) :=
  locations.map fun location => do
    let location ← location
    let call := StoreCall.delete location
    let store ← router.route call
    answer store call
    return location

end PrefixRoutingObjectStore

/-- What the session context of a query registers: a router for each bucket. -/
def registerObjectStores {U S : Type} (registry : ObjectStoreRouteRegistry U S) :
    List (U × PrefixRoutingObjectStore S) :=
  registry.routes.map fun (url, routes) => (url, .new routes)

end HarborSql
