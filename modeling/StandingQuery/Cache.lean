import StandingQuery.Patch.Basic
import StandingQuery.Query.Footprint

/-!
# Result cache

The latest result of every channel, and a topic on which new versions are announced. The topic
keeps a bounded number of notices; older ones that nobody has read are only counted.
-/

namespace StandingQuery

open Json (Value)

/-- A patch and the version it starts from. -/
structure PatchRecord where
  patch : Patch
  source : Digest
deriving Inhabited

structure CachedResult where
  payload : Value
  version : Digest
  patch : Option PatchRecord
deriving Inhabited

structure CacheEntry where
  result : Option CachedResult := none
  footprint : Option Footprint := none
deriving Inhabited

/-- The announcement of a version. -/
structure Notice where
  channel : Channel
  version : Digest
  /-- The version before, to which the stored patch applies. -/
  previous : Option Digest
deriving DecidableEq, Inhabited

/-- The new version, then the one before. -/
def Notice.versions (n : Notice) : List Digest := n.version :: n.previous.toList

inductive CacheMethod where
  | entry
  | storeResult
  | storeFootprint
  | remove
  | publish
deriving DecidableEq, Repr

namespace CacheMethod

def name : CacheMethod → String
  | entry => "entry"
  | storeResult => "store_result"
  | storeFootprint => "store_tree"
  | remove => "remove"
  | publish => "publish"

def all : List CacheMethod := [entry, storeResult, storeFootprint, remove, publish]

def ofName? (s : String) : Option CacheMethod := all.find? (·.name == s)

end CacheMethod

/-- Why a cache call failed. -/
structure CacheError where
  text : String
deriving DecidableEq, Inhabited

def CacheError.message (e : CacheError) : String := "cache unavailable: " ++ e.text

structure Cache where
  entries : SortedMap Channel CacheEntry := ∅
  /-- Announcements that have not been read, oldest first. -/
  notices : List Notice := []
  /-- How many announcements were dropped before they were read. -/
  lagged : Nat := 0
  /-- Calls that fail. -/
  faults : List (CacheMethod × CacheError) := []
deriving Inhabited

namespace Cache

/-- The number of notices that the topic keeps. -/
def topicCapacity : Nat := 1024

def setFault (c : Cache) (m : CacheMethod) (fault : Option CacheError) : Cache :=
  { c with faults := fault.toList.map (m, ·) ++ c.faults.filter (·.1 != m) }

/-- Run a call unless it is made to fail. -/
def guarded (c : Cache) (m : CacheMethod) (result : α) : Except CacheError α :=
  match c.faults.lookup m with
  | some e => .error e
  | none => .ok result

def stored (c : Cache) (channel : Channel) : CacheEntry := c.entries.getD channel {}

def entry (c : Cache) (channel : Channel) : Except CacheError CacheEntry :=
  c.guarded .entry (c.stored channel)

def storeResult (c : Cache) (channel : Channel) (result : CachedResult) : Except CacheError Cache :=
  c.guarded .storeResult { c with
    entries := c.entries.set channel { c.stored channel with result := some result } }

def storeFootprint (c : Cache) (channel : Channel) (f : Footprint) : Except CacheError Cache :=
  c.guarded .storeFootprint { c with
    entries := c.entries.set channel { c.stored channel with footprint := some f } }

def remove (c : Cache) (channel : Channel) : Except CacheError Cache :=
  c.guarded .remove { c with entries := c.entries.erase channel }

/-- Put a notice on the topic. -/
def announce (c : Cache) (n : Notice) : Cache :=
  let notices := c.notices ++ [n]
  let excess := notices.length - topicCapacity
  { c with notices := notices.drop excess, lagged := c.lagged + excess }

def publish (c : Cache) (n : Notice) : Except CacheError Cache :=
  c.guarded .publish (c.announce n)

/-- Take the announcements that have not been read. -/
def takeNotices (c : Cache) : Nat × List Notice × Cache :=
  (c.lagged, c.notices, { c with notices := [], lagged := 0 })

end Cache
end StandingQuery
