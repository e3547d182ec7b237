import ItemComposition.Text.Bytes
import ItemComposition.Yaml.Lexer

/-!
# YAML: from tokens to documents

A document is a tree of nodes in which every alias has been replaced by the node it names. Such a
tree can be far larger than its text, so its depth and the number of aliases in it are bounded.

`Stream.documents` yields the documents of a stream up to the first that is not well formed.
-/

namespace ItemComposition.Yaml

/-- A node of a document. -/
inductive Node where
  | scalar (text : String) (plain : Bool) (tag : Option String)
  | sequence (tag : Option String) (items : List Node)
  | mapping (tag : Option String) (entries : List (Node × Node))
  deriving Inhabited

/-- The node where nothing is written. -/
def Node.blank : Node := .scalar "" true none

/-- A node with what it takes to copy it: how deep it is, and how many aliases it holds. -/
structure Sized where
  node : Node
  depth : Nat
  aliases : Nat

/-- What is left of a stream, and what has been seen of the document so far. -/
structure Stream where
  tokens : List Token
  /-- The nodes with names; none while a node is not complete. -/
  named : List (String × Option Sized)
  /-- What tag handles stand for. -/
  handles : List (String × String)
  /-- Starts and ends of nodes so far. -/
  events : Nat

namespace Stream

/-- The next token. -/
def peek (s : Stream) : Token := s.tokens.head?.getD .failure

/-- The stream after the next token. -/
def skip (s : Stream) : Stream := { s with tokens := s.tokens.tail }

/-- Counts starts and ends. -/
def count (s : Stream) (n : Nat) : Stream := { s with events := s.events + n }

/-- Gives a name to a node. -/
def bind (s : Stream) (name : Option String) (node : Option Sized) : Stream :=
  match name with
  | some name => { s with named := (name, node) :: s.named }
  | none => s

/-- The tag that a handle and a suffix stand for. -/
def resolveTag (s : Stream) (handle suffix : String) : Option String :=
  if handle = "" then some suffix
  else (s.handles.find? fun h => h.1 = handle).map fun h => h.2 ++ suffix

/-- What may stand before a node, in either order: a name and a tag. -/
structure Properties where
  anchor : Option String
  tag : Option String

/-- Reads names and tags before a node, at most one of each. -/
def properties : Nat → Properties → Stream → Option (Properties × Stream)
  | 0, p, s => some (p, s)
  | fuel + 1, p, s =>
    match s.peek with
    | .anchor name =>
      -- a second anchor, like a second tag below, is left where it stands
      if p.anchor.isNone then properties fuel { p with anchor := some name } s.skip else some (p, s)
    | .tag handle suffix =>
      if p.tag.isNone then
        match s.resolveTag handle suffix with
        | some t => properties fuel { p with tag := some t } s.skip
        | none => none
      else some (p, s)
    | _ => some (p, s)

/-- A scalar node. -/
def scalarNode (text : String) (plain : Bool) (tag : Option String) : Node :=
  -- a lone exclamation mark counts as no tag
  if tag = some "!" then .scalar text plain none else .scalar text plain tag

/-- The size of a collection. -/
def deepest (parts : List Sized) : Nat := parts.foldl (fun d p => max d p.depth) 0

/-- All aliases of the parts of a collection. -/
def allAliases (parts : List Sized) : Nat := parts.foldl (fun n p => n + p.aliases) 0

/-- A node where nothing is written. -/
def nothing (s : Stream) : Sized × Stream := (⟨.blank, 0, 0⟩, s.count 1)

/-- A sequence of parts. -/
def sequenceOf (tag : Option String) (items : List Sized) : Sized :=
  ⟨.sequence tag (items.map Sized.node), deepest items + 1, allAliases items⟩

/-- A mapping of parts. -/
def mappingOf (tag : Option String) (entries : List (Sized × Sized)) : Sized :=
  let parts := entries.flatMap fun e => [e.1, e.2]
  ⟨.mapping tag (entries.map fun e => (e.1.node, e.2.node)), deepest parts + 1, allAliases parts⟩

/-- Completes a collection. -/
def complete (anchor : Option String) (built : Sized) (s : Stream) : Sized × Stream :=
  (built, (s.count 2).bind anchor (some built))

mutual

/-- Reads a node. `inBlock` allows block collections, and `indentless` a sequence at the column of
the mapping around it. -/
def node (inBlock indentless : Bool) : Nat → Stream → Option (Sized × Stream)
  | 0, _ => none
  | fuel + 1, s =>
    match s.peek with
    | .alias name =>
      match (s.named.find? fun n => n.1 = name).bind Prod.snd with
      | some known => some ({ known with aliases := known.aliases + 1 }, s.skip.count 1)
      | none => none
    | _ =>
      match properties 2 ⟨none, none⟩ s with
      | none => none
      | some (p, s) =>
        -- the anchor stands for nothing until the node is complete, so no node holds itself
        let opened := s.bind p.anchor none
        match s.peek with
        | .scalar text plain =>
          let built : Sized := ⟨scalarNode text plain p.tag, 0, 0⟩
          some (built, (s.skip.count 1).bind p.anchor (some built))
        | .flowSequenceStart => do
          let (items, s) ← flowItems true fuel opened.skip
          return complete p.anchor (sequenceOf p.tag items) s
        | .flowMappingStart => do
          let (entries, s) ← flowEntries true fuel opened.skip
          return complete p.anchor (mappingOf p.tag entries) s
        | t =>
          if t = .blockEntry && indentless then do
            let (items, s) ← indentlessItems fuel opened
            return complete p.anchor (sequenceOf p.tag items) s
          else if t = .blockSequenceStart && inBlock then do
            let (items, s) ← blockItems fuel opened.skip
            return complete p.anchor (sequenceOf p.tag items) s
          else if t = .blockMappingStart && inBlock then do
            let (entries, s) ← blockEntries fuel opened.skip
            return complete p.anchor (mappingOf p.tag entries) s
          -- an anchor or a tag alone marks an empty scalar
          else if p.anchor.isSome || p.tag.isSome then
            let built : Sized := ⟨scalarNode "" true p.tag, 0, 0⟩
            some (built, (s.count 1).bind p.anchor (some built))
          else none

/-- The entries of a block sequence. -/
def blockItems : Nat → Stream → Option (List Sized × Stream)
  | 0, _ => none
  | fuel + 1, s =>
    match s.peek with
    | .blockEntry => do
      let s := s.skip
      -- a dash with nothing behind it is an item
      let (item, s) ← match s.peek with
        | .blockEntry | .blockEnd => some s.nothing
        | _ => node true false fuel s
      let (rest, s) ← blockItems fuel s
      return (item :: rest, s)
    | .blockEnd => some ([], s.skip)
    | _ => none

/-- The entries of a sequence at the column of the mapping around it. -/
def indentlessItems : Nat → Stream → Option (List Sized × Stream)
  | 0, _ => none
  | fuel + 1, s =>
    match s.peek with
    | .blockEntry => do
      let s := s.skip
      let (item, s) ← match s.peek with
        | .blockEntry | .key | .value | .blockEnd => some s.nothing
        | _ => node true false fuel s
      let (rest, s) ← indentlessItems fuel s
      return (item :: rest, s)
    | _ => some ([], s)

/-- A key or value of a block mapping, which may be missing. -/
def blockPart (fuel : Nat) (s : Stream) : Option (Sized × Stream) :=
  match fuel with
  | 0 => none
  | fuel + 1 =>
    match s.peek with
    | .key | .value | .blockEnd => some s.nothing
    | _ => node true true fuel s

/-- The entries of a block mapping. -/
def blockEntries : Nat → Stream → Option (List (Sized × Sized) × Stream)
  | 0, _ => none
  | fuel + 1, s =>
    match s.peek with
    | .blockEnd => some ([], s.skip)
    | .key => do
      let (k, s) ← blockPart fuel s.skip
      let (v, s) ← if s.peek = .value then blockPart fuel s.skip else some s.nothing
      let (rest, s) ← blockEntries fuel s
      return ((k, v) :: rest, s)
    -- a value without a key
    | .value => do
      let (k, s) := s.nothing
      let (v, s) ← blockPart fuel s.skip
      let (rest, s) ← blockEntries fuel s
      return ((k, v) :: rest, s)
    | _ => none

/-- The entries of a flow sequence. An entry with a key is a mapping of its own. -/
def flowItems (first : Bool) : Nat → Stream → Option (List Sized × Stream)
  | 0, _ => none
  | fuel + 1, s =>
    if s.peek = .flowSequenceEnd then some ([], s.skip)
    else do
      let s ← if first then some s else if s.peek = .flowEntry then some s.skip else none
      match s.peek with
      | .flowSequenceEnd => return ([], s.skip)
      -- a pair in a sequence is a mapping of its own
      | .key =>
        let (item, s) ← flowPair fuel s.skip
        let (rest, s) ← flowItems false fuel s
        return (item :: rest, s)
      | _ =>
        let (item, s) ← node false false fuel s
        let (rest, s) ← flowItems false fuel s
        return (item :: rest, s)

/-- A mapping with one entry inside a flow sequence, after its key indicator. -/
def flowPair : Nat → Stream → Option (Sized × Stream)
  | 0, _ => none
  | fuel + 1, s => do
    let (k, s) ← match s.peek with
      -- the token in place of a missing key is passed
      | .value | .flowEntry | .flowSequenceEnd => let (k, s) := s.nothing; some (k, s.skip)
      | _ => node false false fuel s
    let (v, s) ← if s.peek = .value then
        let s := s.skip
        match s.peek with
        | .flowEntry | .flowSequenceEnd => some s.nothing
        | _ => node false false fuel s
      else some s.nothing
    return complete none (mappingOf none [(k, v)]) s

/-- The entries of a flow mapping. -/
def flowEntries (first : Bool) : Nat → Stream → Option (List (Sized × Sized) × Stream)
  | 0, _ => none
  | fuel + 1, s =>
    if s.peek = .flowMappingEnd then some ([], s.skip)
    else do
      let s ← if first then some s else if s.peek = .flowEntry then some s.skip else none
      match s.peek with
      | .flowMappingEnd => return ([], s.skip)
      | .key =>
        let s := s.skip
        let (k, s) ← match s.peek with
          | .value | .flowEntry | .flowMappingEnd => some s.nothing
          | _ => node false false fuel s
        let (v, s) ← if s.peek = .value then
            let s := s.skip
            match s.peek with
            | .flowEntry | .flowMappingEnd => some s.nothing
            | _ => node false false fuel s
          else some s.nothing
        let (rest, s) ← flowEntries false fuel s
        return ((k, v) :: rest, s)
      -- a key without a value
      | _ =>
        let (k, s) ← node false false fuel s
        let (v, s) := s.nothing
        let (rest, s) ← flowEntries false fuel s
        return ((k, v) :: rest, s)

end

/-- The deepest document. -/
def maxDepth : Nat := 128

/-- How many aliases a document may hold for each start or end of a node in its text. -/
def aliasesPerEvent : Nat := 100

/-- The handles that every document knows. -/
def standardHandles : List (String × String) := [("!", "!"), ("!!", "tag:yaml.org,2002:")]

/-- Reads the directives before a document. -/
def directives : Nat → Bool → List (String × String) → Stream →
    Option (Bool × List (String × String) × Stream)
  | 0, versioned, handles, s => some (versioned, handles, s)
  | fuel + 1, versioned, handles, s =>
    match s.peek with
    | .versionDirective major minor =>
      -- at most one version, and only one that is known
      if versioned || major ≠ 1 || (minor ≠ 1 && minor ≠ 2) then none
      else directives fuel true handles s.skip
    | .tagDirective handle replacement =>
      if handles.any fun h => h.1 = handle then none
      else directives fuel versioned ((handle, replacement) :: handles) s.skip
    | _ => some (versioned, handles, s)

/-- What comes next in a stream. -/
inductive Next where
  | finished
  | failed
  | document (node : Node) (rest : Stream)

/-- Reads the content of a document, which may be missing, and the marker of its end. -/
def content (mayBeMissing : Bool) (s : Stream) : Next :=
  let missing := mayBeMissing && match s.peek with
    | .versionDirective .. | .tagDirective .. | .documentStart | .documentEnd | .streamEnd => true
    | _ => false
  let read := if missing then some s.nothing else node true false (4 * s.tokens.length + 4) s
  match read with
  | none => .failed
  | some (built, s) =>
    -- aliases repeat what they name, so their number is bounded by the length of the text
    if maxDepth < built.depth || aliasesPerEvent * s.events < built.aliases then .failed
    else .document built.node (if s.peek = .documentEnd then s.skip else s)

/-- Reads the next document. Only the first may do without a marker of its start. -/
def next (first : Bool) (s : Stream) : Next :=
  let tokens := if first then s.tokens else s.tokens.dropWhile (· = .documentEnd)
  let s : Stream := ⟨tokens, [], [], 0⟩
  match s.peek with
  | .streamEnd => .finished
  | t =>
    let explicit := match t with
      | .versionDirective .. | .tagDirective .. | .documentStart => true
      | _ => false
    -- only the first document may start without a mark
    if explicit || !first then
      match directives s.tokens.length false [] s with
      | some (_, handles, s) =>
        if s.peek = .documentStart then
          content true { s.skip with handles := handles ++ standardHandles }
        else .failed
      | none => .failed
    else content false { s with handles := standardHandles }

/-- The documents from here on; the list ends with none where the stream is not well formed. -/
def documentsFrom : Nat → Bool → Stream → List (Option Node)
  | 0, _, _ => []
  | fuel + 1, first, s =>
    match s.next first with
    | .finished => if first then [some .blank] else []
    | .failed => [none]
    | .document node rest => some node :: documentsFrom fuel false rest

/-- The documents of a stream. An empty stream has one, where nothing is written. -/
def documents (cs : List Char) : List (Option Node) :=
  let ts := Yaml.tokens cs
  documentsFrom (ts.length + 1) true ⟨ts, [], [], 0⟩

/-- The documents of a stream given by its bytes. Bytes that are no text have none. -/
def ofBytes (bytes : List UInt8) : List (Option Node) :=
  match Text.decode? bytes with
  | some text => documents text.toList
  | none => [none]

end Stream

end ItemComposition.Yaml
