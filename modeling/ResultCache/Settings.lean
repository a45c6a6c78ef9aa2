import ResultCache.Binary64.Numeral
import ResultCache.Request.Canonical
import ResultCache.Ttl
import ResultCache.Victims

/-!
# Settings

Everything about a cache that can be set, with its default, and the named variables that set it.  A variable that is
missing or cannot be read leaves the default in place.
-/

namespace ResultCache

/-- The settings of a cache. -/
structure Settings where
  ttlClasses : List (String × Span)
  defaultTtl : Span
  maxEntries : Nat
  maxMemory : Nat
  /-- Values with a longer text are compressed. -/
  compressionThreshold : Nat
  /-- Only smaller entries are written to the durable store. -/
  persistBelow : Nat
  passLimits : PassLimits
  weights : Weights
  volatileFields : List String
  sweepInterval : Span
  pressureInterval : Span
  /-- The part of the memory budget above which entries are removed. -/
  highWatermark : Float
  /-- The part of the memory budget down to which entries are then removed. -/
  lowWatermark : Float
  /-- What the keys of durable records begin with. -/
  durableNamespace : String

namespace Settings

def default : Settings where
  ttlClasses := [("/api/optimize", Span.ofSeconds 600), ("/api/parse", Span.ofSeconds 1800)]
  defaultTtl := Span.ofSeconds 300
  maxEntries := 1000
  maxMemory := 10 * 1024 * 1024
  compressionThreshold := 8 * 1024
  persistBelow := 64 * 1024
  passLimits := .default
  weights := .default
  volatileFields := Payload.defaultVolatile
  sweepInterval := Span.ofSeconds 60
  pressureInterval := Span.ofSeconds 30
  highWatermark := 0.8
  lowWatermark := 0.6
  durableNamespace := "memo"

def ttlPolicy (s : Settings) : TtlPolicy :=
  ⟨s.ttlClasses, s.defaultTtl⟩

/-- Equality as numbers: a NaN equals nothing. -/
def same (a b : Settings) : Bool :=
  a.ttlClasses == b.ttlClasses && a.defaultTtl == b.defaultTtl && a.maxEntries == b.maxEntries &&
    a.maxMemory == b.maxMemory && a.compressionThreshold == b.compressionThreshold &&
    a.persistBelow == b.persistBelow && a.passLimits.same b.passLimits && a.weights.same b.weights &&
    a.volatileFields == b.volatileFields && a.sweepInterval == b.sweepInterval &&
    a.pressureInterval == b.pressureInterval && a.highWatermark == b.highWatermark &&
    a.lowWatermark == b.lowWatermark && a.durableNamespace == b.durableNamespace

end Settings

/-- The settings of a server around a cache. -/
structure ServerSettings where
  cache : Settings
  port : Nat
  /-- The directory of the durable store; none for no such store. -/
  durableDirectory : Option String

namespace ServerSettings

def default : ServerSettings :=
  ⟨.default, 3000, none⟩

/-- Equality as numbers: a NaN equals nothing. -/
def same (a b : ServerSettings) : Bool :=
  a.cache.same b.cache && a.port == b.port && a.durableDirectory == b.durableDirectory

/-- The settings that some variables ask for. -/
def ofVariables (lookup : String → Option String) : ServerSettings :=
  let given := fun name => (lookup name).map fun v => Text.trimChars v.toList
  let count (name : String) (fallback : Nat) : Nat :=
    ((given name).bind (Text.readBounded? (2 ^ 64))).getD fallback
  let seconds (name : String) (fallback : Span) : Span :=
    match (given name).bind (Text.readBounded? (2 ^ 64)) with
    | some n => Span.ofSeconds n
    | none => fallback
  let number (name : String) (fallback : Float) : Float :=
    match (given name).bind Binary64.ofText? with
    | some x => x.toFloat
    | none => fallback
  let d := Settings.default
  { cache :=
      { d with
        ttlClasses :=
          match lookup "MEMO_TTL_TABLE" with
          | some raw => (TtlPolicy.readTable raw.toList).map fun (pattern, n) => (pattern, Span.ofSeconds n)
          | none => d.ttlClasses
        defaultTtl := seconds "MEMO_DEFAULT_TTL" d.defaultTtl
        maxEntries := count "MEMO_MAX_ENTRIES" d.maxEntries
        maxMemory := count "MEMO_MAX_MEMORY" d.maxMemory
        compressionThreshold := count "MEMO_COMPRESSION_THRESHOLD" d.compressionThreshold
        persistBelow := count "MEMO_PERSIST_MAX_BYTES" d.persistBelow
        passLimits :=
          { minCount := count "MEMO_EVICTION_MIN_BATCH" d.passLimits.minCount
            maxFraction := number "MEMO_EVICTION_MAX_FRACTION" d.passLimits.maxFraction }
        sweepInterval := seconds "MEMO_SWEEP_INTERVAL" d.sweepInterval
        pressureInterval := seconds "MEMO_PRESSURE_INTERVAL" d.pressureInterval
        highWatermark := number "MEMO_HIGH_WATERMARK" d.highWatermark
        lowWatermark := number "MEMO_LOW_WATERMARK" d.lowWatermark
        durableNamespace := (lookup "MEMO_DURABLE_NAMESPACE").getD d.durableNamespace }
    port := ((given "MEMO_PORT").bind (Text.readBounded? (2 ^ 16))).getD default.port
    durableDirectory := (lookup "MEMO_DURABLE_DIR").filter fun v => !(Text.trimChars v.toList).isEmpty }

end ServerSettings

end ResultCache
