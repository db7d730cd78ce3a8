import GridWitness.Server.Staging

namespace GridWitness.Server

open Library

abbrev Bytes := List UInt8

structure StoredFile where
  storedName : String
  originalName : Option String
  bytes : Nat

/-- What the worker reports about one file; a pending file has no counters. -/
inductive FileReport
  | pending (file : String) (note : Option String)
  | parsed (file : String) (read kept dropped : Nat) (note : Option String)

/-- The `files` entry of a manifest: stored names at upload, reports after a drain. -/
inductive ManifestFiles
  | stored (files : List StoredFile)
  | reports (files : List FileReport)

structure SurveyDescription where
  nodeId : String
  contributorRef : String
  label : String
  deviceType : String
  notes : Option String
  locTier : LocTier
  region : Option String
  locRef : Option String
  uploadedUtc : String

structure Manifest where
  description : Option SurveyDescription := none
  status : Option String := none
  files : Option ManifestFiles := none
  processedUtc : Option String := none
  rowsStaged : Option Nat := none
  rowsDuplicate : Option Nat := none
  pendingFiles : Option (List String) := none

/-- The content of a file under `surveys/`. -/
inductive Content
  | raw (bytes : Bytes)
  | manifest (m : Manifest)
  | extracted (lines : List Line)

abbrev Folder := Table String Content

structure Surveys where
  inbox : Table String Folder := ∅
  archive : Table String Folder := ∅

/-- The data volume the ingest server and the survey worker share. -/
structure Site where
  db : Database := {}
  tree : StagingTree := ∅
  surveys : Surveys := {}

structure RateLimiter where
  capacity : ℚ
  refillPerSec : ℚ
  buckets : Table String (ℚ × ℚ) := ∅

namespace RateLimiter

def new (rowsPerMin : ℚ) : RateLimiter where
  capacity := rowsPerMin
  refillPerSec := rowsPerMin / 60

def allow (l : RateLimiter) (now : ℚ) (nodeId : String) (rows : Nat) : RateLimiter × Bool :=
  let (tokens, last) := (l.buckets.lookup nodeId).getD (l.capacity, now)
  let tokens := min l.capacity (tokens + (now - last) * l.refillPerSec)
  if tokens < rows then
    ({ l with buckets := l.buckets.replaceRow nodeId (tokens, now) }, false)
  else
    ({ l with buckets := l.buckets.replaceRow nodeId (tokens - rows, now) }, true)

end RateLimiter

/-- The ingest server: the shared volume and what its process holds in memory. -/
structure App extends Site where
  internalKey : Option String
  dedupe : Deduper := StagingWriter.freshDeduper
  limiter : RateLimiter

end GridWitness.Server
