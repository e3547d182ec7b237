import ItemComposition.Provider.Error
import ItemComposition.Provider.Spec

/-!
# Endpoints of remote services

Where a provider sends its calls, with the headers that go with each call. Headers are checked when
the endpoint is made; an address is only looked at when the first call is made.
-/

namespace ItemComposition

/-- The address of a service, the headers of calls to it, and how long a connection may take. -/
structure Endpoint where
  address : String
  headers : Dict String
  connectTimeout : Nat

namespace Endpoint

/-- Characters of the names of headers. -/
def isHeaderNameChar (c : Char) : Bool :=
  c.isAlphanum || "!#$%&'*+-.^_|~".toList.contains c || c.toNat = 96

/-- Whether a text is the name of a header with a text value; a name that ends in `-bin` is that of
a header with bytes. -/
def isHeaderName (name : String) : Bool :=
  name ≠ "" && name.toList.all isHeaderNameChar && !name.endsWith "-bin"

/-- Characters of the values of headers. -/
def isHeaderValueChar (c : Char) : Bool := (32 ≤ c.toNat && c.toNat < 127) || c = '\t'

/-- A header under its name in lower case. -/
def header (key value : String) : Except SpecFault (String × String) :=
  let name := key.toLower
  if !isHeaderName name then .error (.headerName key)
  else if !value.toList.all isHeaderValueChar then .error (.headerValue name)
  else .ok (name, value)

/-- The endpoint of a provider. -/
def ofSpec (p : ProviderSpec) : Except ProviderError Endpoint :=
  match p.headers.mapM fun h => header h.1 h.2 with
  | .ok headers => .ok ⟨p.address, Dict.ofList headers, p.timeout⟩
  | .error fault => .error (.invalidSpec fault)

/-! ## Addresses -/

/-- Characters that may stand in the authority of an address besides the percent sign. -/
def isAuthorityChar (c : Char) : Bool :=
  c.isAlphanum || "!$&'()*+,-.:;=@[]_~".toList.contains c

/-- Characters that may stand in the path and the query of an address. -/
def isPathChar (c : Char) : Bool :=
  let n := c.toNat
  (0x21 ≤ n && n ≤ 0x7e && n ≠ 0x23 && n ≠ 0x3c && n ≠ 0x3e && n ≠ 0x5c && n ≠ 0x5e && n ≠ 0x60)
    || 0x7f < n

/-- What has been seen of an authority. -/
structure Authority where
  colons : Nat
  opened : Bool
  closed : Bool
  percent : Bool
  /-- Whether the last character is an at sign. -/
  atEnd : Bool

/-- Takes in one more character of an authority. What stands before an at sign or inside brackets
does not count toward the port. -/
def Authority.step (a : Authority) (c : Char) : Option Authority :=
  let a := { a with atEnd := false }
  -- an address in brackets has seven colons, and one may stand before a port
  if c = ':' then if 8 ≤ a.colons then none else some { a with colons := a.colons + 1 }
  else if c = '[' then if a.percent || a.opened then none else some { a with opened := true }
  else if c = ']' then
    if !a.opened || a.closed then none
    else some { a with closed := true, colons := 0, percent := false }
  -- what stood before was a user's name
  else if c = '@' then some { a with colons := 0, percent := false, atEnd := true }
  else if c = '%' then some { a with percent := true }
  else if isAuthorityChar c then some a
  else none

/-- Whether characters are a host with an optional user and port. -/
def isAuthority (cs : List Char) : Bool :=
  match cs.foldlM Authority.step ⟨0, false, false, false, false⟩ with
  | some a => !cs.isEmpty && a.opened = a.closed && a.colons ≤ 1 && !a.percent && !a.atEnd
  | none => false

/-- Characters of the scheme of an address. -/
def isSchemeChar (c : Char) : Bool := c.isAlphanum || "+-.".toList.contains c

/-- A scheme and what follows it, if the text has one. -/
def splitScheme (cs : List Char) : Option (List Char × List Char) :=
  let scheme := cs.takeWhile (· ≠ ':')
  match cs.drop scheme.length with
  | ':' :: '/' :: '/' :: rest => some (scheme, rest)
  | _ => none

/-- Whether calls can be sent to an address; without a scheme it is one of plain HTTP. -/
def isUsable (address : String) : Bool :=
  let full := if 2 ≤ (address.splitOn "://").length then address else "http://" ++ address
  match splitScheme full.toList with
  | some (scheme, rest) =>
    let authority := rest.takeWhile fun c => c ≠ '/' && c ≠ '?' && c ≠ '#'
    let path := (rest.drop authority.length).takeWhile (· ≠ '#')
    !scheme.isEmpty && scheme.all isSchemeChar && isAuthority authority && path.all isPathChar
  | none => false

/-- The status of a call to an address that cannot be used. -/
def unusable : Status := ⟨.invalidArgument, "invalid address: invalid URI"⟩

end Endpoint

end ItemComposition
