import StandingQuery.Cache
import StandingQuery.Patch.Difference
import StandingQuery.Refresh.Computation
import StandingQuery.Settings.Basic

/-!
# Attempts

An attempt computes the result of a channel, compares it with what was announced last, and stores
and announces what is new. It changes nothing but the cache; its outcome says the rest.
-/

namespace StandingQuery

open Json (Value)

abbrev TaskId := Nat

/-- The input of an attempt: what to compute, and what the last one ended with. -/
structure Job where
  channel : Channel
  generation : Nat
  work : Work
  version : Option Digest
  footprintVersion : Option Digest
deriving Inhabited

/-- A footprint and its version. -/
structure VersionedFootprint where
  footprint : Footprint
  version : Digest
deriving DecidableEq, Inhabited

def Footprint.versioned (f : Footprint) : VersionedFootprint := ⟨f, f.version⟩

/-- What an attempt that came to its end reports. -/
structure Refreshed where
  version : Digest
  /-- The footprint, if its version is new. -/
  footprint : Option VersionedFootprint
  /-- The markers of a successful execution. -/
  markers : Option Markers
deriving Inhabited

inductive Outcome where
  | published (r : Refreshed)
  /-- The result is the one that was announced last. -/
  | unchanged (r : Refreshed)
  /-- The execution goes on without the attempt. -/
  | timedOut (execution : TaskId)
  /-- The result could not be stored or announced. -/
  | failed (e : CacheError)
deriving Inhabited

/-- A cache and what has been logged while it was used. -/
structure Logged (α : Type) where
  result : α
  cache : Cache
  log : List LogLine

namespace Attempt

def line (topic message : String) : LogLine := ⟨topic, message, false⟩

def detail (topic message : String) : LogLine := ⟨topic, message, true⟩

/-- Store the footprint if its version is new. -/
def keepFootprint (job : Job) (reads : Option (Footprint × Markers)) (cache : Cache) :
    Logged (Option VersionedFootprint) :=
  match reads with
  | none => ⟨none, cache, []⟩
  | some (f, _) =>
    let v := f.versioned
    if job.footprintVersion = some v.version then ⟨none, cache, []⟩
    else match cache.storeFootprint job.channel f with
      | .ok cache => ⟨some v, cache, []⟩
      | .error e => ⟨some v, cache,
          [line "cache" ("failed to store tree of " ++ job.channel.short ++ ": " ++ e.message)]⟩

/-- The result in the cache; none if it cannot be read. -/
def readPrevious (job : Job) (cache : Cache) : Option CachedResult × List LogLine :=
  match cache.entry job.channel with
  | .ok entry => (entry.result, [])
  | .error e =>
    (none, [line "cache" ("failed to read " ++ job.channel.short ++ ": " ++ e.message)])

/-- The patch from the previous result, if there is one. -/
def patchFrom (options : Patch.Options) (previous : Option CachedResult) (payload : Value) :
    Option PatchRecord :=
  previous.bind fun p =>
    (Patch.difference options p.payload payload).map fun patch => ⟨patch, p.version⟩

/-- Store a result and announce it. -/
def announce (options : Patch.Options) (job : Job) (previous : Option CachedResult)
    (payload : Value) (r : Refreshed) (cache : Cache) : Logged Outcome :=
  let result : CachedResult := ⟨payload, r.version, patchFrom options previous payload⟩
  match cache.storeResult job.channel result with
  | .error e => ⟨.failed e, cache,
      [line "cache" ("failed to store result of " ++ job.channel.short ++ ": " ++ e.message)]⟩
  | .ok cache =>
    let notice : Notice := ⟨job.channel, r.version, (previous.map (·.version)).or job.version⟩
    match cache.publish notice with
    | .error e => ⟨.failed e, cache,
        [line "cache" ("failed to publish " ++ job.channel.short ++ ": " ++ e.message)]⟩
    | .ok cache => ⟨.published r, cache,
        [detail "recompute" ("published " ++ job.channel.short ++ " at " ++ r.version.short)]⟩

/-- Bring a computed result to its end. -/
def finish (options : Patch.Options) (job : Job) (c : Computed) (cache : Cache) :
    Logged Outcome :=
  let kept := keepFootprint job c.reads cache
  let r : Refreshed := ⟨c.payload.digest, kept.result, c.reads.map (·.2)⟩
  if job.version = some r.version then
    ⟨.unchanged r, kept.cache,
      kept.log ++ [detail "recompute" ("unchanged " ++ job.channel.short)]⟩
  else
    let (previous, log) := readPrevious job kept.cache
    if previous.any (·.version == r.version) then
      ⟨.unchanged r, kept.cache, kept.log ++ log ++
        [detail "recompute" ("unchanged " ++ job.channel.short ++ " (cached)")]⟩
    else
      let end_ := announce options job previous c.payload r kept.cache
      { end_ with log := kept.log ++ log ++ end_.log }

/-- The line about an attempt that took long. -/
def slowLog (settings : RefreshSettings) (job : Job) (elapsed : Nat) : List LogLine :=
  if elapsed > settings.slowQuery then
    [line "recompute"
      ("slow recompute " ++ job.channel.short ++ " took " ++ durationText elapsed)]
  else []

/-- The line about an attempt that timed out. -/
def timeoutLine (settings : RefreshSettings) (job : Job) : LogLine :=
  line "recompute"
    ("timed out after " ++ durationText settings.timeout ++ ": " ++ job.channel.short)

end Attempt
end StandingQuery
