import ItemComposition.Interpolation.Evaluation
import ItemComposition.Interpolation.Parser
import ItemComposition.Interpolation.Scope

/-!
# The text interpolation language: rendering

`interpolate?` is the entry point: a text without inserts stands for itself, all else is parsed,
freed of the blanks that its tags remove, and rendered over the variables `item` and `context`.
-/

namespace ItemComposition.Interpolation

/-! ## Blanks around tags -/

/-- Drops blanks from the end of a text at the end of a list of pieces. -/
def trimLast (nodes : List Node) : List Node :=
  match nodes.getLast? with
  | some (.text s) =>
    match Text.trimEnd s.toList with
    | [] => nodes.dropLast
    | kept => nodes.dropLast ++ [.text (String.ofList kept)]
  | _ => nodes

/-- Drops blanks from the end if a tag asks for it. -/
def trimLastIf (b : Bool) (nodes : List Node) : List Node := if b then trimLast nodes else nodes

/-- The blanks that a piece removes before and after itself. -/
def Node.trim : Node → Trim
  | .text _ | .unresolved => ⟨false, false⟩
  | .comment t | .print t _ | .assign t _ _ _ | .inclusion t _ | .leaveLoop t | .nextRound t => t
  | .raw start _ finish | .filtered start _ _ finish | .loop start _ _ _ _ _ finish
  | .block start _ _ finish | .define start _ _ _ finish => ⟨start.before, finish.after⟩
  | .choose branches _ finish =>
    ⟨match branches with
      | (t, _, _) :: _ => t.before
      | [] => false, finish.after⟩

/-- Joins pieces into a list: the blanks that the neighbours of a text remove are dropped, and so
is a text of which nothing is left. `after` says whether the tag before removes blanks. -/
def joinTrimmed (after : Bool) (done : List Node) : List Node → List Node
  | [] => done
  | .text s :: rest =>
    -- a text that is trimmed away is dropped, and its neighbours meet
    if after then
      match Text.trimStart s.toList with
      | [] => joinTrimmed false done rest
      | kept => joinTrimmed false (done ++ [.text (String.ofList kept)]) rest
    else joinTrimmed false (done ++ [.text s]) rest
  | node :: rest =>
    joinTrimmed node.trim.after (trimLastIf node.trim.before done ++ [node]) rest

/-- Whether the tag after a branch removes blanks: the next branch, or the alternative. -/
def trimsBranch (rest : List (Trim × Phrase × List Node)) (otherwise : Option (Trim × List Node))
    (finish : Trim) : Bool :=
  match rest, otherwise with
  | (t, _, _) :: _, _ => t.before
  | [], some (t, _) => t.before
  | [], none => finish.before

mutual

/-- The pieces inside a tag and its end, without the blanks that the tags remove. -/
def trimmed (before after : Bool) (nodes : List Node) : List Node :=
  trimLastIf after (joinTrimmed before [] (trimEach nodes))

/-- Removes blanks inside the pieces. -/
def trimEach : List Node → List Node
  | [] => []
  | node :: rest => trimInside node :: trimEach rest

/-- Removes blanks inside a piece. -/
def trimInside : Node → Node
  | .raw start s finish =>
    let cs := s.toList
    let cs := if start.after then Text.trimStart cs else cs
    let cs := if finish.before then Text.trimEnd cs else cs
    .raw start (String.ofList cs) finish
  | .filtered start f body finish =>
    .filtered start f (trimLastIf finish.before (joinTrimmed start.after [] (trimEach body))) finish
  | .loop start key item container body otherwise finish =>
    .loop start key item container
      (trimLastIf finish.before (joinTrimmed start.after [] (trimEach body))) otherwise finish
  | .block start name body finish =>
    .block start name (trimLastIf finish.before (joinTrimmed start.after [] (trimEach body))) finish
  | .define start name parameters body finish =>
    .define start name parameters
      (trimLastIf finish.before (joinTrimmed start.after [] (trimEach body))) finish
  | .choose branches otherwise finish =>
    .choose (trimBranches otherwise finish branches)
      (match otherwise with
        | some (t, body) =>
          some (t, trimLastIf finish.before (joinTrimmed t.after [] (trimEach body)))
        | none => none) finish
  | node => node

/-- Removes blanks inside the branches of a choice. -/
def trimBranches (otherwise : Option (Trim × List Node)) (finish : Trim) :
    List (Trim × Phrase × List Node) → List (Trim × Phrase × List Node)
  | [] => []
  | (t, condition, body) :: rest =>
    (t, condition, trimLastIf (trimsBranch rest otherwise finish)
      (joinTrimmed t.after [] (trimEach body))) :: trimBranches otherwise finish rest

end

/-! ## Rendering -/

/-- What follows a piece: the next piece, the next round of the loop, or the end of the loop. -/
inductive Flow where
  | next
  | round
  | done
  deriving DecidableEq

/-- The text rendered so far and the state after it. -/
structure State where
  scope : Scope
  flow : Flow
  text : String

/-- A step of rendering. -/
abbrev Step? := State → Option State

/-- What rendering asks for: macros and named blocks by their names, and the environment. -/
structure Library where
  expand : Dict Json → String → String → Dict Json → Option String
  block : String → Option Step?
  environment : Dict String

namespace State

/-- Adds text. -/
def write (s : State) (text : String) : State := { s with text := s.text ++ text }

end State

/-- The surroundings of phrases in a state. -/
def Library.surroundings (lib : Library) (s : State) : Surroundings :=
  ⟨s.scope.lookup, lib.expand s.scope.globals, lib.environment⟩

/-- What a loop runs over: an optional key and a value for each round. -/
def roundsOf? (keyed : Bool) : Json → Option (List (String × Json))
  | .arr items => if keyed then none else some (items.map fun v => ("", v))
  | .str s => if keyed then none else some (s.toList.map fun c => ("", .str (String.singleton c)))
  | .obj members => if keyed then some members else none
  | _ => none

/-- Whether a phrase may stand for what a loop runs over. -/
def isContainer (p : Phrase) : Bool :=
  match p.term with
  | .path _ | .call _ | .list _ => true
  | _ => false

/-- Runs a body once per round until one leaves the loop. -/
def runRounds (body : Step?) (round : Nat → String × Json → Round) :
    Nat → List (String × Json) → Step?
  | _, [], s => some s
  | index, entry :: rest, s => do
    let s' ← body { s with scope := s.scope.enter (round index entry), flow := .next }
    let outer := { s' with scope := s'.scope.leave, flow := .next }
    if s'.flow = .done then return outer
    else runRounds body round (index + 1) rest outer

variable (lib : Library)

mutual

/-- Renders pieces until one of them ends the round or the loop. -/
def renderNodes : List Node → Step?
  | [], s => some s
  | node :: rest, s => do
    let s ← renderNode node s
    if s.flow = .next then renderNodes rest s else return s

/-- Renders a piece. -/
def renderNode : Node → Step?
  | .text t, s => some (s.write t)
  | .comment _, s => some s
  | .print _ p, s => do
    let v ← p.value (lib.surroundings s)
    return s.write v.display
  | .assign _ everywhere name p, s => do
    let v ← p.value (lib.surroundings s)
    return { s with scope := if everywhere then s.scope.assignOutside name v
      else s.scope.assign name v }
  -- no file is there to be included, so the inclusion must be optional
  | .inclusion _ optional, s => if optional then some s else none
  | .leaveLoop _, s => if s.scope.inLoop then some { s with flow := .done } else none
  | .nextRound _, s => if s.scope.inLoop then some { s with flow := .round } else none
  | .raw _ t _, s => some (s.write t)
  | .filtered _ f body _, s => do
    let inner ← renderNodes body { s with text := "" }
    -- the body is rendered into a text of its own, which the filter gets as a whole
    let v ← pipeThrough (lib.surroundings inner) [f] (.str inner.text)
    return { inner with text := s.text ++ v.display }
  | .loop _ key item container body otherwise _, s => do
    if !isContainer container then none
    else
      let v ← container.value (lib.surroundings s)
      let rounds ← roundsOf? key.isSome v
      match rounds, otherwise with
      -- the alternative is for a container without entries
      | [], some nodes => renderNodes nodes s
      | rounds, _ =>
        let round (index : Nat) (entry : String × Json) : Round :=
          ⟨key.map fun name => (name, entry.1), item, entry.2, index, rounds.length⟩
        runRounds (renderNodes body) round 0 rounds s
  | .choose branches otherwise _, s => do
    let taken ← renderBranches branches s
    match taken, otherwise with
    | some s, _ => return s
    | none, some (_, nodes) => renderNodes nodes s
    | none, none => return s
  -- a block that was defined takes the place of the one that stands here
  | .block _ name body _, s =>
    match lib.block name with
    | some render => render s
    | none => renderNodes body s
  | .define .., s => some s
  | .unresolved, _ => none

/-- Renders the first branch whose condition holds, if one does. -/
def renderBranches : List (Trim × Phrase × List Node) → State → Option (Option State)
  | [], _ => some none
  | (_, condition, body) :: rest, s => do
    let holds ← condition.truth (lib.surroundings s)
    if holds then
      let s ← renderNodes body s
      return some s
    else renderBranches rest s

end

/-! ## Whole templates -/

/-- A macro. -/
structure Macro where
  parameters : List Parameter
  body : List Node

/-- The macros defined in a template; none if one name is defined twice. -/
def macrosOf? : List Node → Option (Dict Macro)
  | [] => some []
  | .define _ name parameters body _ :: rest => do
    let others ← macrosOf? rest
    if Dict.contains others name then none
    else return others.insert name ⟨parameters, body⟩
  | _ :: rest => macrosOf? rest

mutual

/-- The named blocks of a template, also those inside other blocks. -/
def blocksOf : List Node → List (String × List Node)
  | [] => []
  | node :: rest => blocksOfNode node ++ blocksOf rest

/-- The named blocks of a piece. -/
def blocksOfNode : Node → List (String × List Node)
  | .block _ name body _ => (name, body) :: blocksOf body
  | _ => []

end

/-- Whether a piece refers to another template. -/
def Node.isUnresolved : Node → Bool
  | .unresolved => true
  | _ => false

/-- The values of a macro's parameters. -/
def bindParameters (env : Surroundings) (given : Dict Json) : List Parameter → Option (Dict Json)
  | [] => some []
  | (name, preset) :: rest => do
    let v ← match given.get? name, preset with
      | some v, _ => some v
      | none, some p => p.value env
      | none, none => none
    let others ← bindParameters env given rest
    return others.insert name v

/-- The macros and blocks of a template, expanded at most `depth` times inside one another. -/
def libraryOf (environment : Dict String) (macros : Dict Macro)
    (blocks : List (String × List Node)) : Nat → Library
  -- expansion is only so deep, and so it ends
  | 0 => ⟨fun _ _ _ _ => none, fun _ => none, environment⟩
  | depth + 1 =>
    let inner := libraryOf environment macros blocks depth
    let expand (globals : Dict Json) (scope name : String) (given : Dict Json) : Option String := do
      -- macros of other files are not there
      if scope ≠ "self" then none
      else
        let found ← macros.get? name
        let outer : State := ⟨⟨[], globals⟩, .next, ""⟩
        let bound ← bindParameters (inner.surroundings outer) given found.parameters
        let s ← renderNodes inner found.body ⟨⟨[⟨bound, none⟩], globals⟩, .next, ""⟩
        return s.text
    let block (name : String) : Option Step? :=
      (blocks.find? fun b => b.1 = name).map fun b => renderNodes inner b.2
    ⟨expand, block, environment⟩

/-- How deep macros may call one another. -/
def maxExpansion : Nat := 200

/-- Renders a parsed template over variables. -/
def render? (environment : Dict String) (globals : Dict Json) (nodes : List Node) :
    Option String := do
  let nodes := trimmed false false nodes
  let macros ← macrosOf? nodes
  let blocks := blocksOf nodes
  -- two blocks of one name are refused, and so is what refers to a file
  if nodes.any Node.isUnresolved || !(blocks.map Prod.fst).Nodup then none
  else
    let lib := libraryOf environment macros blocks maxExpansion
    let s ← renderNodes lib nodes ⟨⟨[⟨[], none⟩], globals⟩, .next, ""⟩
    return s.text

/-- Whether a text has the start of an insert. -/
def hasInsert : List Char → Bool
  | [] => false
  | c :: rest => Parser.startsInsert (c :: rest) || hasInsert rest

end ItemComposition.Interpolation

namespace ItemComposition

/-- The values that expressions and text inserts may refer to. -/
structure Subject where
  item : Json
  context : Json
  environment : Dict String

open Interpolation in
/-- The text of a template for an item and a context. -/
def interpolate? (template : String) (subject : Subject) : Option String :=
  if hasInsert template.toList then do
    let nodes ← Parser.template? template
    render? subject.environment [("context", subject.context), ("item", subject.item)] nodes
  else some template

end ItemComposition
