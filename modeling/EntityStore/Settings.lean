import EntityStore.Json.Record
/-!
# Settings

Limits of queries, waiting times of locks and limits of the index, with their defaults; and reading them from
a JSON document and writing them as one.
-/
namespace EntityStore

structure QueryLimits where
  /-- The page size of a query that names none. -/
  defaultTop : Nat := 25
  topMax : Nat := 10000
  skipMax : Nat := 100000
  /-- The greatest page size of a query that expands. -/
  expandTopMax : Nat := 100
  expandMax : Nat := 2
  /-- The greatest number of related entities per expansion. -/
  expandPageSize : Nat := 100
  /-- The greatest length of the keywords in octets. -/
  keywordMax : Nat := 255
  deriving DecidableEq, Repr

/-- Times of locks in milliseconds. -/
structure LockTimes where
  /-- How long a caller waits for a lock. -/
  timeout : Nat := 10000
  /-- How long a lock is kept from other callers. -/
  lease : Nat := 60000
  deriving DecidableEq, Repr

structure IndexLimits where
  /-- The greatest length in characters of a string that exact, range and prefix conditions find. -/
  stringMax : Nat := 4096
  deriving DecidableEq, Repr

structure Settings where
  query : QueryLimits := {}
  lock : LockTimes := {}
  index : IndexLimits := {}
  deriving DecidableEq, Repr

inductive SettingsFault where
  | defaultTop (value max : Nat)
  | expandTopMax (value max : Nat)
  | noTimeout
  | shortLease
  deriving DecidableEq, Repr

def SettingsFault.message : SettingsFault → String
  | defaultTop value max =>
    "query.default_top (" ++ toString value ++ ") exceeds query.top_max (" ++ toString max ++ ")"
  | expandTopMax value max =>
    "query.expand_top_max (" ++ toString value ++ ") exceeds query.top_max (" ++ toString max ++ ")"
  | noTimeout => "lock.timeout_ms must be positive"
  | shortLease => "lock.lease_ms must not be shorter than lock.timeout_ms"

inductive SettingsError where
  | unreadable
  | invalid (fault : SettingsFault)
  deriving DecidableEq, Repr

def SettingsFault.report (fault : SettingsFault) : String := "invalid config: " ++ fault.message

namespace Settings

def fault? (s : Settings) : Option SettingsFault :=
  if s.query.topMax < s.query.defaultTop then some (.defaultTop s.query.defaultTop s.query.topMax)
  else if s.query.topMax < s.query.expandTopMax then some (.expandTopMax s.query.expandTopMax s.query.topMax)
  else if s.lock.timeout = 0 then some .noTimeout
  else if s.lock.lease < s.lock.timeout then some .shortLease
  else none

def word32Max : Nat := 4294967295

def word64Max : Nat := 18446744073709551615

/-- A field that may be left out. -/
def field? (standard max : Nat) : Option Json.Written → Option Nat
  | none => some standard
  | some value => value.nat? max

def queryLimits? : Option Json.Written → Option QueryLimits
  | none => some {}
  | some document => do
    let names := ["default_top", "top_max", "skip_max", "expand_top_max", "expand_property_max",
      "expand_page_size", "keyword_max_bytes"]
    let d : QueryLimits := {}
    match ← document.record? names with
    | [defaultTop, topMax, skipMax, expandTopMax, expandMax, expandPageSize, keywordMax] =>
      return {
        defaultTop := ← field? d.defaultTop word32Max defaultTop
        topMax := ← field? d.topMax word32Max topMax
        skipMax := ← field? d.skipMax word32Max skipMax
        expandTopMax := ← field? d.expandTopMax word32Max expandTopMax
        expandMax := ← field? d.expandMax word64Max expandMax
        expandPageSize := ← field? d.expandPageSize word32Max expandPageSize
        keywordMax := ← field? d.keywordMax word64Max keywordMax }
    | _ => none

def lockTimes? : Option Json.Written → Option LockTimes
  | none => some {}
  | some document => do
    let d : LockTimes := {}
    match ← document.record? ["timeout_ms", "lease_ms"] with
    | [timeout, lease] =>
      return {
        timeout := ← field? d.timeout word64Max timeout
        lease := ← field? d.lease word64Max lease }
    | _ => none

def indexLimits? : Option Json.Written → Option IndexLimits
  | none => some {}
  | some document => do
    let d : IndexLimits := {}
    match ← document.record? ["max_string_length"] with
    | [stringMax] => return { stringMax := ← field? d.stringMax word64Max stringMax }
    | _ => none

/-- The settings that a document describes; what it leaves out has its default. -/
def ofWritten? (document : Json.Written) : Option Settings := do
  match ← document.record? ["query", "lock", "index"] with
  | [query, lock, index] =>
    return {
      query := ← queryLimits? query
      lock := ← lockTimes? lock
      index := ← indexLimits? index }
  | _ => none

/-- The settings of a document, checked for contradictions. -/
def check (document : Option Json.Written) : Except SettingsError Settings :=
  match document.bind ofWritten? with
  | none => .error .unreadable
  | some settings =>
    match settings.fault? with
    | some fault => .error (.invalid fault)
    | none => .ok settings

def toJson (s : Settings) : Json :=
  let number (n : Nat) : Json := .ofInt n
  .object [
    ("index", .object [("max_string_length", number s.index.stringMax)]),
    ("lock", .object [("lease_ms", number s.lock.lease), ("timeout_ms", number s.lock.timeout)]),
    ("query", .object [
      ("default_top", number s.query.defaultTop),
      ("expand_page_size", number s.query.expandPageSize),
      ("expand_property_max", number s.query.expandMax),
      ("expand_top_max", number s.query.expandTopMax),
      ("keyword_max_bytes", number s.query.keywordMax),
      ("skip_max", number s.query.skipMax),
      ("top_max", number s.query.topMax)])]

def read (text : String) : Except SettingsError Settings := check (Json.Written.read? text)

end Settings

end EntityStore
