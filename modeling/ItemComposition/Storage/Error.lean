import ItemComposition.Cache.Error
import ItemComposition.Engine
import ItemComposition.Storage.FileTree

/-!
# Errors of template storages

An error has a text of its own and causes below it. The text with causes (`chain`) is what a
report shows that has nothing but text; the texts already quote the cause, so that it is told
twice.
-/

namespace ItemComposition

/-- What was done with a file or directory when it failed. -/
inductive FileAction where
  | readDirectory
  | inspect
  | readFile
  deriving DecidableEq, Repr

/-- The wording of an action. -/
def FileAction.text : FileAction → String
  | readDirectory => "read template dir"
  | inspect => "stat template file"
  | readFile => "read template file"

/-- What can go wrong in a template storage. -/
inductive StorageError where
  | file (action : FileAction) (path : String) (fault : FileFault)
  | parse (template : String) (cause : StreamError)
  | multiple (parts : List StorageError)
  | allBackendsFailed (parts : List StorageError)
  | noBackends
  | cache (cause : CacheError)

/-- The texts of an error and of its causes, from the outermost in. -/
def StreamError.texts : StreamError → List String
  | .provider (.filter method cause) =>
    let error := ProviderError.filter method cause
    [StreamError.message (.provider error), error.message, cause.message]
  | .provider cause => [StreamError.message (.provider cause), cause.message]
  | e => [e.message]

namespace StorageError

mutual

/-- The wording of an error. -/
def message : StorageError → String
  | file action path fault => action.text ++ " " ++ path ++ ": " ++ fault.message
  | parse template cause => "parse template " ++ template ++ ": " ++ cause.message
  | multiple parts => String.intercalate "; " (messages parts)
  | allBackendsFailed parts =>
    "all storage backends failed: " ++ String.intercalate "; " (messages parts)
  | noBackends => "no storage backends configured"
  | cache cause => "template cache: " ++ cause.message

/-- The wordings of several errors. -/
def messages : List StorageError → List String
  | [] => []
  | e :: rest => message e :: messages rest

end

/-- The texts of the causes of an error, from the outermost in. -/
def causes : StorageError → List String
  | file _ _ fault => [fault.message]
  | parse _ cause => cause.texts
  | cache cause => [cause.message]
  | _ => []

/-- The text of an error with those of its causes. -/
def chain (e : StorageError) : String := String.intercalate ": " (e.message :: e.causes)

/-- The outcome of several steps of which some failed: one error stands for itself. -/
def collect : List StorageError → Except StorageError Unit
  | [] => .ok ()
  | [e] => .error e
  | errors => .error (.multiple errors)

end StorageError

end ItemComposition
