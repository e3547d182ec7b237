import ItemComposition.Time.Amount

/-!
# Errors of a cache
-/

namespace ItemComposition

/-- What can go wrong when a cache is made, started or closed. -/
inductive CacheError where
  /-- The first refresh failed. -/
  | refreshFailed (cache reason : String)
  /-- A refresh exceeded its time. -/
  | timeout (cache : String) (limit : Nat)
  /-- The loop did not end in time. -/
  | shutdownTimeout (cache : String) (limit : Nat)
  | invalidOptions (cache reason : String)
  | alreadyStarted (cache : String)
  deriving Repr, DecidableEq

/-- The text of an error. -/
def CacheError.message : CacheError → String
  | refreshFailed cache reason => "Cache " ++ cache ++ " refresh failed: " ++ reason
  | timeout cache limit => "Cache " ++ cache ++ " refresh timed out after " ++ durationText limit
  | shutdownTimeout cache limit =>
    "Cache " ++ cache ++ " did not shut down within " ++ durationText limit
  | invalidOptions cache reason => "Cache " ++ cache ++ " has invalid options: " ++ reason
  | alreadyStarted cache => "Cache " ++ cache ++ " is already started"

end ItemComposition
