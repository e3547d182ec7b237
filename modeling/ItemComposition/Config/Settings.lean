import ItemComposition.Cache.Options
import ItemComposition.DataFormat
import ItemComposition.Provider.Error
import ItemComposition.Provider.Retry

/-!
# Settings

The settings as they are written, their standard values, and the rules that they have to meet.
-/

namespace ItemComposition

/-- Settings of the template cache. -/
structure CacheSettings where
  name : String
  policy : EvictionPolicy
  ttlMillis : Nat
  capacity : Nat

/-- Settings of retries. -/
structure RetrySettings where
  maxAttempts : Nat
  initialBackoffMillis : Nat
  maxBackoffMillis : Nat
  multiplier : Float
  retryableCodes : List String

/-- All settings. -/
structure Settings where
  cache : CacheSettings
  templateDir : String
  retry : RetrySettings
  shutdownMillis : Nat

namespace CacheSettings

/-- The standard settings of the cache. -/
def standard : CacheSettings := ⟨"templates", .background, 30000, 0⟩

/-- The options of a cache with these settings. The capacity counts only where entries are
bounded. -/
def options (s : CacheSettings) : CacheOptions where
  name := s.name
  policy := s.policy
  ttl := s.ttlMillis * TimeUnit.millisecond.nanos
  capacity := match s.policy with
    | .lru => s.capacity
    | .background => 0

end CacheSettings

namespace RetrySettings

/-- The standard settings of retries. -/
def standard : RetrySettings :=
  ⟨3, 1000, 10000, 2, ["UNAVAILABLE", "DEADLINE_EXCEEDED", "RESOURCE_EXHAUSTED"]⟩

/-- The policy with these settings; names of no code are left out. -/
def policy (s : RetrySettings) : RetryPolicy where
  maxAttempts := s.maxAttempts
  initialBackoff := s.initialBackoffMillis * TimeUnit.millisecond.nanos
  maxBackoff := s.maxBackoffMillis * TimeUnit.millisecond.nanos
  multiplier := s.multiplier
  retryableCodes := s.retryableCodes.filterMap StatusCode.read?

end RetrySettings

/-- What is wrong with settings. -/
inductive ConfigError where
  /-- They cannot be read. -/
  | load
  | zeroTtl
  | zeroCapacity
  | zeroAttempts
  | multiplierTooSmall (multiplier : Float)
  | backoffOrder
  | unknownCode (name : String)

namespace ConfigError

/-- The setting that an error is about. -/
def setting : ConfigError → String
  | load => ""
  | zeroTtl => "cache.ttl_ms"
  | zeroCapacity => "cache.capacity"
  | zeroAttempts => "retry.max_attempts"
  | multiplierTooSmall _ => "retry.backoff_multiplier"
  | backoffOrder => "retry.initial_backoff_ms"
  | unknownCode _ => "retry.retryable_codes"

/-- What an error says about its setting. -/
def complaint : ConfigError → String
  | load => detail
  | zeroTtl => "must be greater than zero"
  | zeroCapacity => "must be greater than zero for the lru policy"
  | zeroAttempts => "must be at least 1"
  | multiplierTooSmall x => "must be at least 1.0, got " ++ Decimal.Style.plain.float x
  | backoffOrder => "must not exceed retry.max_backoff_ms"
  | unknownCode name => "unknown status code " ++ Text.quoted name

/-- The wording of an error. -/
def message : ConfigError → String
  | load => "failed to load configuration: " ++ detail
  | e => "invalid value for " ++ e.setting ++ ": " ++ e.complaint

end ConfigError

namespace Settings

/-- The standard settings. -/
def standard : Settings := ⟨.standard, "config/templates", .standard, 5000⟩

/-- The first name that is no code. -/
def unknownCode? (names : List String) : Option String :=
  names.find? fun name => (StatusCode.read? name).isNone

/-- Checks the rules in order. -/
def validate (s : Settings) : Except ConfigError Unit :=
  if s.cache.ttlMillis = 0 then .error .zeroTtl
  else if s.cache.policy = .lru && s.cache.capacity = 0 then .error .zeroCapacity
  else if s.retry.maxAttempts = 0 then .error .zeroAttempts
  -- written so that a multiplier which is not a number fails as well
  else if !(1 ≤ s.retry.multiplier) then .error (.multiplierTooSmall s.retry.multiplier)
  else if s.retry.maxBackoffMillis < s.retry.initialBackoffMillis then .error .backoffOrder
  else
    match unknownCode? s.retry.retryableCodes with
    | some name => .error (.unknownCode name)
    | none => .ok ()

end Settings

/-! ## Reading -/

variable {ν : Type}

/-- Reads the name of a policy. -/
def EvictionPolicy.read? : String → Option EvictionPolicy
  | "background" => some .background
  | "lru" => some .lru
  | _ => none

/-- Reads the settings of the cache; what is absent has its standard value. -/
def CacheSettings.read? (f : DataFormat ν) (v : ν) : Option CacheSettings := do
  let fields ← f.record? ["name", "policy", "ttl_ms", "capacity"] v
  let d := CacheSettings.standard
  let name ← DataFormat.field fields "name" f.text? d.name
  let policy ← DataFormat.field fields "policy"
    (fun v => (f.variant? v).bind EvictionPolicy.read?) d.policy
  let ttlMillis ← DataFormat.field fields "ttl_ms" (f.nat? (Word.size 64)) d.ttlMillis
  let capacity ← DataFormat.field fields "capacity" (f.nat? (Word.size 64)) d.capacity
  return { name, policy, ttlMillis, capacity }

/-- Reads the settings of retries; what is absent has its standard value. -/
def RetrySettings.read? (f : DataFormat ν) (v : ν) : Option RetrySettings := do
  let fields ← f.record? ["max_attempts", "initial_backoff_ms", "max_backoff_ms",
    "backoff_multiplier", "retryable_codes"] v
  let d := RetrySettings.standard
  let maxAttempts ← DataFormat.field fields "max_attempts" (f.nat? (Word.size 32)) d.maxAttempts
  let initialBackoffMillis ←
    DataFormat.field fields "initial_backoff_ms" (f.nat? (Word.size 64)) d.initialBackoffMillis
  let maxBackoffMillis ←
    DataFormat.field fields "max_backoff_ms" (f.nat? (Word.size 64)) d.maxBackoffMillis
  let multiplier ← DataFormat.field fields "backoff_multiplier" f.float? d.multiplier
  let retryableCodes ←
    DataFormat.field fields "retryable_codes" (f.listOf f.text?) d.retryableCodes
  return { maxAttempts, initialBackoffMillis, maxBackoffMillis, multiplier, retryableCodes }

/-- Reads all settings; what is absent has its standard value. -/
def Settings.read? (f : DataFormat ν) (v : ν) : Option Settings := do
  let fields ← f.record? ["cache", "storage", "retry", "shutdown"] v
  let d := Settings.standard
  let cache ← DataFormat.field fields "cache" (CacheSettings.read? f) d.cache
  let templateDir ← DataFormat.field fields "storage" (fun v => do
    let fields ← f.record? ["template_dir"] v
    DataFormat.field fields "template_dir" f.text? d.templateDir) d.templateDir
  let retry ← DataFormat.field fields "retry" (RetrySettings.read? f) d.retry
  let shutdownMillis ← DataFormat.field fields "shutdown" (fun v => do
    let fields ← f.record? ["timeout_ms"] v
    DataFormat.field fields "timeout_ms" (f.nat? (Word.size 64)) d.shutdownMillis) d.shutdownMillis
  return { cache, templateDir, retry, shutdownMillis }

end ItemComposition
