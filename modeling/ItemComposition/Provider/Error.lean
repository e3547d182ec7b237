import ItemComposition.Expr.Error
import ItemComposition.Provider.Status
import ItemComposition.Time.Amount

/-!
# Errors of providers

One constructor a cause. The wording is in `message`, the code that an error stands for in
`statusCode?`.
-/

namespace ItemComposition

/-- Stands in messages for the detail that depends on how a format is read. -/
def detail : String := "*"

/-- Why a duration in a provider document is refused. -/
inductive TimeoutFault where
  | missing
  | malformed (cause : DurationError)
  | notPositive
  | tooLarge

/-- The wording of a fault. -/
def TimeoutFault.message : TimeoutFault → String
  | missing => "is required"
  | malformed cause => cause.message
  | notPositive => "must be positive"
  | tooLarge => "is too large"

/-- The two mappings of a method. -/
inductive MappingSection where
  | request
  | response
  deriving DecidableEq, Repr

/-- The name of a mapping. -/
def MappingSection.name : MappingSection → String
  | request => "request"
  | response => "response"

/-- Why a method in a provider document is refused. -/
inductive MethodFault where
  | missing (field : String)
  | unknownKind (kind : String)
  | timeout (fault : TimeoutFault)
  | filterCharacters
  | mappingMissing (side : MappingSection)
  | mappingKey (side : MappingSection)
  | mappingValue (side : MappingSection) (key value : String)

/-- The wording of a fault. -/
def MethodFault.message : MethodFault → String
  | missing field => field ++ " is required"
  | unknownKind kind =>
    "type must be one of Batch, DomainBatch, Item, got " ++ Text.quoted kind
  | timeout fault => "timeout " ++ fault.message
  | filterCharacters => "filter contains unsupported characters"
  | mappingMissing side => side.name ++ " mapping is required"
  | mappingKey side => side.name ++ " key must not be empty"
  | mappingValue side key value =>
    side.name ++ "." ++ key ++ " has invalid value " ++ Text.quoted value

/-- Why a provider document is refused. -/
inductive SpecFault where
  | missing (what : String)
  | wrongKind (kind : String)
  | timeout (fault : TimeoutFault)
  | noHeaders
  | headerKey
  | unsetVariable (header name : String)
  | noMethods
  | method (index : Nat) (fault : MethodFault)
  | twoSchemas
  | badFilter (method : String) (cause : ExprError)
  | badMapping (method field : String) (cause : ExprError)
  | headerName (key : String)
  | headerValue (key : String)

/-- The wording of a fault. -/
def SpecFault.message : SpecFault → String
  | missing what => what ++ " is required"
  | wrongKind kind => "kind must be ProviderGRPC, got " ++ Text.quoted kind
  | timeout fault => "transport timeout " ++ fault.message
  | noHeaders => "payload headers are required"
  | headerKey => "header key must not be empty"
  | unsetVariable header name =>
    "header " ++ header ++ " references unset environment variable " ++ name
  | noMethods => "at least one method is required"
  | method index fault => "method[" ++ Decimal.intText index ++ "]: " ++ fault.message
  | twoSchemas => "schema must set either proto or proto_file, not both"
  | badFilter name cause => "method " ++ name ++ ": invalid filter: " ++ cause.message
  | badMapping name field cause =>
    "method " ++ name ++ ": invalid request mapping " ++ field ++ ": " ++ cause.message
  | headerName key => "invalid header " ++ key ++ ": invalid gRPC metadata key name"
  | headerValue key => "invalid value for header " ++ key ++ ": failed to parse metadata value"

/-- Why a schema cannot be used. -/
inductive SchemaFault where
  /-- A source text or one of its imports is not in order. -/
  | compile (name : String)
  /-- A path that is no path of a source file. -/
  | includePath
  /-- A set of descriptors is not in order. -/
  | descriptorSet
  | unknownService (service : String)
  | unknownMethod (service method : String)
  | absent (provider : String)

/-- The wording of a fault. -/
def SchemaFault.message : SchemaFault → String
  | compile _ => "failed to compile " ++ detail
  | includePath => "invalid include path: " ++ detail
  | descriptorSet => "invalid descriptor set: " ++ detail
  | unknownService service => "service " ++ service ++ " not found"
  | unknownMethod service method => "method " ++ method ++ " not found in service " ++ service
  | absent provider => "no schema attached to provider " ++ provider

/-- Why a request cannot be built. -/
inductive EncodeFault where
  /-- The path of a mapped field fails. -/
  | field (name : String) (cause : ExprError)
  /-- The message cannot hold the value. -/
  | message (fullName : String)

/-- The wording of a fault. -/
def EncodeFault.text : EncodeFault → String
  | field name cause => "request field " ++ name ++ ": " ++ cause.message
  | message fullName => fullName ++ ": " ++ detail

/-- What can go wrong with a provider. -/
inductive ProviderError where
  | notFound (name : String)
  | methodNotFound (provider method : String)
  | document
  | invalidSpec (fault : SpecFault)
  | schema (fault : SchemaFault)
  | filter (method : String) (cause : ExprError)
  | encode (fault : EncodeFault)
  | decode (text : String)
  | call (status : Status)
  | retriesExhausted (attempts : Nat) (status : Status)
  | timeout (method : String) (nanos : Nat)
  | cancelled
  | transport (text : String)

namespace ProviderError

/-- The wording of an error. -/
def message : ProviderError → String
  | notFound name => "provider " ++ name ++ " not found"
  | methodNotFound provider method => "method " ++ method ++ " not found in provider " ++ provider
  | document => "failed to parse provider spec: " ++ detail
  | invalidSpec fault => "invalid provider spec: " ++ fault.message
  | schema fault => "schema error: " ++ fault.message
  | filter method cause =>
    "failed to evaluate filter for method " ++ method ++ ": " ++ cause.message
  | encode fault => "failed to build request: " ++ fault.text
  | decode text => "failed to decode response: " ++ text
  | call status => "call failed with status " ++ status.code.name ++ ": " ++ status.message
  | retriesExhausted attempts status =>
    "failed after " ++ Decimal.intText attempts ++ " attempts, last error: " ++ status.code.name
      ++ ": " ++ status.message
  | timeout method nanos => "method " ++ method ++ " timed out after " ++ durationText nanos
  | cancelled => "call cancelled"
  | transport text => "transport error: " ++ text

/-- The status code that an error stands for. -/
def statusCode? : ProviderError → Option StatusCode
  | call status => some status.code
  | retriesExhausted _ status => some status.code
  | timeout .. => some .deadlineExceeded
  | cancelled => some .cancelled
  | _ => none

/-- Whether an error lies in what is configured. -/
def isConfiguration : ProviderError → Bool
  | notFound _ | methodNotFound .. | document | invalidSpec _ | schema _ => true
  | _ => false

end ProviderError

end ItemComposition
