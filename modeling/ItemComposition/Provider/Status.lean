import ItemComposition.Text.Blank

/-!
# Status codes of calls

The seventeen codes, each with a canonical upper-case name, as written in settings, and a name
in messages.
-/

namespace ItemComposition

/-- How a call ended. -/
inductive StatusCode where
  | ok
  | cancelled
  | unknown
  | invalidArgument
  | deadlineExceeded
  | notFound
  | alreadyExists
  | permissionDenied
  | resourceExhausted
  | failedPrecondition
  | aborted
  | outOfRange
  | unimplemented
  | internal
  | unavailable
  | dataLoss
  | unauthenticated
  deriving DecidableEq, Repr

namespace StatusCode

/-- All codes. -/
def all : List StatusCode :=
  [ok, cancelled, unknown, invalidArgument, deadlineExceeded, notFound, alreadyExists,
    permissionDenied, resourceExhausted, failedPrecondition, aborted, outOfRange, unimplemented,
    internal, unavailable, dataLoss, unauthenticated]

/-- The words of a code's name. -/
def words : StatusCode → List String
  | ok => ["Ok"]
  | cancelled => ["Cancelled"]
  | unknown => ["Unknown"]
  | invalidArgument => ["Invalid", "Argument"]
  | deadlineExceeded => ["Deadline", "Exceeded"]
  | notFound => ["Not", "Found"]
  | alreadyExists => ["Already", "Exists"]
  | permissionDenied => ["Permission", "Denied"]
  | resourceExhausted => ["Resource", "Exhausted"]
  | failedPrecondition => ["Failed", "Precondition"]
  | aborted => ["Aborted"]
  | outOfRange => ["Out", "Of", "Range"]
  | unimplemented => ["Unimplemented"]
  | internal => ["Internal"]
  | unavailable => ["Unavailable"]
  | dataLoss => ["Data", "Loss"]
  | unauthenticated => ["Unauthenticated"]

/-- The name in messages. -/
def name (c : StatusCode) : String := String.join c.words

/-- The name in settings. -/
def canonicalName (c : StatusCode) : String := ("_".intercalate c.words).toUpper

/-- Reads a canonical name; the case of letters and blanks around the name do not matter. -/
def read? (text : String) : Option StatusCode :=
  let wanted := (Text.trim text).toUpper
  all.find? fun c => c.canonicalName = wanted

end StatusCode

/-- The failure of a call. -/
structure Status where
  code : StatusCode
  message : String
  deriving DecidableEq, Repr

end ItemComposition
