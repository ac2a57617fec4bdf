import LangHost.Cache.Basic
import LangHost.Json.Decode
/-!
# The server's configuration

What the client can tune of the server itself. Everything has a default, and sections that the
server does not know are left to the language services.
-/

namespace LangHost

/-- When documents are validated. -/
structure ValidationConfig where
  enabled : Bool := true
  /-- How long after the last edit a validation starts, in milliseconds. -/
  delayMs : Nat := 200
  deriving DecidableEq, Repr

/-- The bounds of the cache of parsed models. -/
structure CacheConfig where
  maxEntries : Nat := 10
  /-- In seconds; zero or less turns sweeps off. -/
  ttlSecs : Int := 60
  /-- In seconds; zero or less turns sweeps off. -/
  sweepIntervalSecs : Int := 60
  deriving DecidableEq, Repr

/-- The configuration of the server. -/
structure Config where
  validation : ValidationConfig := {}
  cache : CacheConfig := {}
  deriving DecidableEq, Repr

/-- Seconds as milliseconds; less than none is none. -/
def milliseconds (seconds : Int) : Nat := seconds.toNat * 1000

/-- The limits that the configuration sets for the cache. -/
def CacheConfig.limits (c : CacheConfig) : Cache.Limits where
  maxEntries := c.maxEntries
  ttl := milliseconds c.ttlSecs
  sweepInterval := milliseconds c.sweepIntervalSecs

/-- Reads the section about validation. -/
def ValidationConfig.decode : Decoder ValidationConfig
  | .obj fields => do
    let delayMs ← Decode.orDefault (Decode.natural64 "u64") 200 (fields.lookup "delay_ms")
    let enabled ← Decode.orDefault Decode.bool true (fields.lookup "enabled")
    pure { enabled, delayMs }
  | .arr items => do
    let enabled ← Decode.orDefault Decode.bool true items[0]?
    let delayMs ← Decode.orDefault (Decode.natural64 "u64") 200 items[1]?
    Decode.atMost 2 items
    pure { enabled, delayMs }
  | v => .error (.wrongType v.shape "struct ValidationConfig")

/-- Reads the section about the cache. -/
def CacheConfig.decode : Decoder CacheConfig
  | .obj fields => do
    let maxEntries ← Decode.orDefault (Decode.natural64 "usize") 10 (fields.lookup "max_entries")
    let sweepIntervalSecs ←
      Decode.orDefault (Decode.integer64 "i64") 60 (fields.lookup "sweep_interval_secs")
    let ttlSecs ← Decode.orDefault (Decode.integer64 "i64") 60 (fields.lookup "ttl_secs")
    pure { maxEntries, ttlSecs, sweepIntervalSecs }
  | .arr items => do
    let maxEntries ← Decode.orDefault (Decode.natural64 "usize") 10 items[0]?
    let ttlSecs ← Decode.orDefault (Decode.integer64 "i64") 60 items[1]?
    let sweepIntervalSecs ← Decode.orDefault (Decode.integer64 "i64") 60 items[2]?
    Decode.atMost 3 items
    pure { maxEntries, ttlSecs, sweepIntervalSecs }
  | v => .error (.wrongType v.shape "struct ModelCacheSettings")

/-- Reads a configuration. -/
def Config.decode : Decoder Config
  | .obj fields => do
    let cache ← Decode.orDefault CacheConfig.decode {} (fields.lookup "model_cache")
    let validation ← Decode.orDefault ValidationConfig.decode {} (fields.lookup "validation")
    pure { validation, cache }
  | .arr items => do
    let validation ← Decode.orDefault ValidationConfig.decode {} items[0]?
    let cache ← Decode.orDefault CacheConfig.decode {} items[1]?
    Decode.atMost 2 items
    pure { validation, cache }
  | v => .error (.wrongType v.shape "struct ServerConfig")

end LangHost
