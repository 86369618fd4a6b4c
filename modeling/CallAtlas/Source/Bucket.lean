import CallAtlas.Source.Archive
import CallAtlas.Text.Sorted

/-!
# Buckets as sources

The class files among the objects of a bucket whose keys have a common start, with paths relative to
it. Archives among the objects are always opened.
-/

namespace CallAtlas.Source

open Program

/-- A store of objects under keys. -/
structure ObjectStore where
  /-- The keys of a bucket with a common start. -/
  list : (bucket start : String) → Except String (List String)
  /-- An object of at most so many bytes. The answer is `none` if the task was called off meanwhile. -/
  fetch : (bucket key : String) → (limit : Nat) → Option (Except FetchProblem (List UInt8))

/-- A store that holds given objects. -/
def ObjectStore.ofObjects (objects : List (String × List UInt8)) : ObjectStore where
  list _ start := .ok (Text.sortDistinct ((objects.map (·.1)).filter (·.startsWith start)))
  fetch _ key limit := some <|
    match objects.lookup key with
    | none => .error (.failed "no such object")
    | some data => if limit < data.length then .error .tooLarge else .ok data

/-- The bucket and the common start of its keys that a reference names. A start ends in a slash. -/
def parseReference (reference : String) : Except Problem (String × String) :=
  match Text.dropPrefix? "s3://".toList reference.toList with
  | none => .error (.badReference reference)
  | some rest =>
    let bucket := Text.beforeFirst '/' rest
    let start := (Text.fromFirst '/' rest).drop 1
    if bucket.isEmpty then .error (.noBucket reference)
    else
      .ok (String.ofList bucket, String.ofList
        (if start.isEmpty ∨ start.getLast? = some '/' then start else start ++ ['/']))

/-- The settings name an endpoint that can be connected to: one that is not blank and has no path. -/
def checkEndpoint (s : StoreSettings) : Except Problem Unit :=
  let endpoint := s.endpoint.trim.chars
  let path := Text.fromFirst '/' endpoint
  if endpoint.isEmpty then .error .noEndpoint
  else if path.isEmpty ∨ path = ['/'] then .ok ()
  else .error (.badEndpoint "Endpoint url cannot have fully qualified paths.")

/-- A listed part of a bucket. -/
structure Bucket where
  store : ObjectStore
  bucket : String
  start : String
  keys : List String

/-- How a part of a bucket is named. -/
def bucketName (bucket start : String) : String :=
  "s3://" ++ bucket ++ "/" ++ start

/-- Lists a part of a bucket. -/
def openBucket (store : ObjectStore) (bucket start : String) : Except Problem Bucket :=
  match store.list bucket start with
  | .error text => .error (.unreadable (bucketName bucket start) text)
  | .ok keys => .ok { store, bucket, start, keys }

/-- The class files that an object stands for. An object is fetched only if its path counts. -/
def objectClasses (cancelled : Bool) (filter : Filter) (o : Options) (b : Bucket) (key : String) :
    Except Problem (List ClassEntry) :=
  let path := String.ofList ((Text.dropPrefix? b.start.toList key.toList).getD key.toList)
  let isClass := filter.isClass path
  if isClass || (isArchiveName (Files.baseName path) && !filter.excludes path) then
    match b.store.fetch b.bucket key o.limit with
    | none => .error .cancelled
    | some (.error p) =>
      if cancelled then .error .cancelled else .ok [entryOf path (.error (.fetch key p))]
    | some (.ok data) =>
      if isClass then .ok [entryOf path (.ok data)]
      else
        match openArchive none path data with
        | .error p => .ok [entryOf path (.error p)]
        | .ok a => collect cancelled filter o.limit o.nested a (path ++ "!/" : String)
  else .ok []

/-- The class files of a part of a bucket, sorted. -/
def bucketClasses (cancelled : Bool) (filter : Filter) (o : Options) (b : Bucket) :
    Except Problem (List ClassEntry) := do
  let entries ← b.keys.mapM (objectClasses cancelled filter o b)
  return sortByPath entries.flatten

end CallAtlas.Source
