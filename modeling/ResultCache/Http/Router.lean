import ResultCache.Cache.Read
import ResultCache.Cache.Removal
import ResultCache.Http.Body
import ResultCache.Http.MediaType
import ResultCache.Http.Message
import ResultCache.Stats
import ResultCache.Time.Rfc3339

/-!
# Answering HTTP requests

The path and the method of a request select an action on the cache.  A body has to be JSON by its media type, by its
syntax and by its shape, in this order; what follows the document in a body is not looked at.
-/

namespace ResultCache.Http

/-- What can be asked for. -/
inductive Action where
  | store
  | invalidatePattern
  | lookup
  | presence
  | invalidate
  | clear
  | stats
  | health
deriving DecidableEq

/-- The actions of the methods of a path. -/
abbrev Methods := List (String × Action)

/-- A path that can be read. -/
def readable (a : Action) : Methods :=
  [("GET", a), ("HEAD", a)]

/-- The paths with their methods. -/
def routes : List (String × Methods) :=
  [("/entries", [("PUT", .store), ("DELETE", .invalidatePattern)]),
   ("/entries/lookup", [("POST", .lookup)]),
   ("/entries/exists", [("POST", .presence)]),
   ("/entries/invalidate", [("POST", .invalidate)]),
   ("/entries/all", [("DELETE", .clear)]),
   ("/stats", readable .stats),
   ("/health", readable .health)]

def methodNames (methods : Methods) : String :=
  String.intercalate "," (methods.map (·.1))

def maxBodyLength : Nat :=
  2 * 1024 * 1024

/-- Reads the body of a request, or tells the status that refuses it. -/
def readBody {α : Type} (read : Bytes → Except Json.Fault (α × Bytes)) (q : HttpRequest) : Except Nat α :=
  if !q.contentType.any isJsonType then .error 415
  else if maxBodyLength < q.body.length then .error 413
  else
    match read q.body with
    | .error .malformed => .error 400
    | .error .mismatch => .error 422
    | .ok (body, _) => .ok body

/-- The response to a call that failed. -/
def Response.failure (f : Failure) : Response :=
  .document f.status f.body

/-- The response to a removal of entries. -/
def Response.removed (count : Nat) : Response :=
  .document 200 (.ofFields [("removed", .nat count)])

/-- The response to an action whose body is read first and then checked. -/
def withBody {α : Type} (read : Bytes → Except Json.Fault (α × Bytes)) (problem? : α → Option String)
    (answer : α → Cache → Response × Cache) (q : HttpRequest) (c : Cache) : Response × Cache :=
  match readBody read q with
  | .error status => (.bare status, c)
  | .ok body =>
    match problem? body with
    | some detail => (.failure (.invalidRequest detail), c)
    | none => answer body c

/-- Stores the value of a body. -/
def storeValue (now : Instant) (body : StoreBody) (c : Cache) : Response × Cache :=
  let key := c.keyFor body.request
  match c.set now body.request body.value body.options with
  | (.error f, c) => (.failure f, c)
  | (.ok _, c) =>
    (.document 200 (.ofFields [("key", .str key), ("message", .str ("Entry '" ++ key ++ "' stored"))]), c)

/-- Reads the result of a body's request. -/
def lookupValue (now : Instant) (body : LookupBody) (c : Cache) : Response × Cache :=
  let key := c.keyFor body.request
  match c.get now body.request with
  | (some v, c) => (.document 200 (.ofFields [("key", .str key), ("value", v)]), c)
  | (none, c) => (.failure (.notFound key), c)

/-- Tells whether there is a result for a body's request. -/
def tellPresence (now : Instant) (body : LookupBody) (c : Cache) : Response × Cache :=
  (.document 200 (.ofFields [("exists", .bool (c.has now body.request)), ("key", .str (c.keyFor body.request))]), c)

/-- Removes the result of a body's request. -/
def invalidateOne (body : LookupBody) (c : Cache) : Response × Cache :=
  let (removed, c) := c.invalidate body.request
  (.removed (if removed then 1 else 0), c)

/-- Removes the results in whose resources the pattern of a query occurs. -/
def invalidateByQuery (query : List Char) (c : Cache) : Response × Cache :=
  match onlyValue? "pattern" (queryPairs query) with
  | none => (.bare 400, c)
  | some pattern =>
    match patternProblem? pattern with
    | some detail => (.failure (.invalidRequest detail), c)
    | none =>
      let (count, c) := c.invalidatePattern pattern
      (.removed count, c)

/-- Tells that the server is there, and the time. -/
def healthReport (now : Instant) : Json :=
  .ofFields [("status", .str "healthy"), ("timestamp", .str (Time.instantText now))]

/-- Does an action for a request. -/
def Action.answer (a : Action) (now : Instant) (query : List Char) (q : HttpRequest) (c : Cache) : Response × Cache :=
  match a with
  | store => withBody StoreBody.read StoreBody.problem? (storeValue now) q c
  | invalidatePattern => invalidateByQuery query c
  | lookup => withBody LookupBody.read LookupBody.problem? (lookupValue now) q c
  | presence => withBody LookupBody.read LookupBody.problem? (tellPresence now) q c
  | invalidate => withBody LookupBody.read LookupBody.problem? invalidateOne q c
  | clear => (.removed c.table.size, c.clear)
  | stats => (.document 200 (c.stats now).toJson, c)
  | health => (.document 200 (healthReport now), c)

/-- Answers a request.  Any path may be asked for its options. -/
def answer (now : Instant) (q : HttpRequest) (c : Cache) : Response × Cache :=
  let target := Target.ofUri q.uri
  match routes.lookup target.path with
  | none => (.bare (if q.method == "OPTIONS" then 200 else 404), c)
  | some methods =>
    let allow := methodNames methods
    if q.method == "OPTIONS" then (⟨200, .none, some allow⟩, c)
    else
      match methods.lookup q.method with
      | none => (⟨405, .none, some allow⟩, c)
      | some action =>
        let (r, c) := action.answer now target.query q c
        (if q.method == "HEAD" then r.withheld else r, c)

end ResultCache.Http
