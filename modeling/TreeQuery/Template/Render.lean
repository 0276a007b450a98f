import TreeQuery.Template.Helper
import TreeQuery.Template.Layout

/-!
# Writing templates

A template is written element by element, from left to right, into a text.  Every reference must
lead to a value.  Blocks write their contents in further scopes and leave them behind; an insertion
writes a piece of template in a scope of its own, inside of the scopes at its place.  The contents
of an insertion are written where the piece asks for them, but in the scopes of that insertion.

Pieces may insert pieces, and one may insert itself.  The nesting of contents and insertions is
bounded, far beyond what the length of a template and the depth of a value ask for.
-/

namespace TreeQuery.Template

/-- Elements that are written elsewhere than they stand, and what they see. -/
structure Passage where
  /-- The elements. -/
  elements : List Element
  /-- The scopes, the innermost first. -/
  scopes : List Scope
  /-- What stands before every line, if they are indented. -/
  indent : Option (List Char)
  /-- The contents of the insertion around them. -/
  contents : Option Passage

/-- What has been written, and what the next element sees. -/
structure Writing where
  /-- The text so far. -/
  out : String
  /-- The scopes, the innermost first. -/
  scopes : List Scope
  /-- What stands before every line of a piece, if it is indented. -/
  indent : Option (List Char)
  /-- The contents of the insertion around. -/
  contents : Option Passage
  /-- Whether what comes next begins a line, and is indented if the piece is. -/
  beginsLine : Bool
  /-- Whether the innermost insertion has written something. -/
  wrote : Bool

namespace Writing

/-- Nothing has been written. -/
def start : Writing := ⟨"", [Scope.outermost], none, none, false, false⟩

/-- A text whose lines, the first one excepted, begin with an indentation. -/
def indented (indent : List Char) : List Char → List Char
  | [] => []
  | '\n' :: c :: rest => '\n' :: indent ++ indented indent (c :: rest)
  | c :: rest => c :: indented indent rest

/-- Writes a text as it is. -/
def writePlain (w : Writing) (s : List Char) : Writing := { w with out := w.out ++ String.ofList s }

/-- Writes a text with the indentation of the piece. -/
def write (w : Writing) (s : List Char) : Writing :=
  match s with
  | [] => w
  | first :: _ =>
    let isEnd (c : Char) : Bool := c == '\n' || c == '\r'
    let text := match w.indent with
      | none => s
      | some indent =>
        (if w.beginsLine && !isEnd first then indent else []) ++ indented indent s
    { w.writePlain text with beginsLine := s.getLast?.any isEnd, wrote := true }

/-- What is inserted by the given name: the contents of the insertion around by the name
`@partial-block`, as they are, and else a piece of template, in the given scopes and with the given
indentation.  If there is no such thing, the contents of this insertion stand in. -/
def passage (w : Writing) (name : String) (scopes : List Scope) (indent : Option (List Char))
    (body : Option (List Element)) : Except Error Passage :=
  let own : Option Passage := body.map fun elements => ⟨elements, scopes, w.indent, w.contents⟩
  let piece (elements : List Element) : Passage := ⟨elements, scopes, indent, own.or w.contents⟩
  if name == "@partial-block" then
    match w.contents.or (body.map piece) with
    | some passage => .ok passage
    | none => .error .noContents
  else
    match (findPiece scopes name).or body with
    | some elements => .ok (piece elements)
    | none => .error (.unknownPiece name)

end Writing

/-- The scope that a block opens for an argument: the place of the argument, or its value. -/
def Scope.ofArgument (arg : Argument) : Scope :=
  match arg.found.way with
  | some way => .of way none
  | none => .of [] (some arg.value)

/-- What a block calls by its names: the value and, by a second name, the key or the index. -/
def blockNamed (names : List String) (arg : Argument) (v key : Json) : List (String × Named) :=
  let value : Named := if arg.found.way.isSome then .place else .value v
  match names with
  | [name] => [(name, value)]
  | [name, keyName] => [(keyName, .value key), (name, value)]
  | _ => []

/-- The scope of one round: of the member `name`, whose value is `v`. -/
def Scope.ofRound (arg : Argument) (names : List String) (name : String) (v key : Json)
    (loop : List (String × Json)) : Scope :=
  let place : Scope := match arg.found.way with
    | some way => .of (way ++ [name]) none
    | none => .of [] (some v)
  { place with named := blockNamed names arg v key, loop }

/-- The scopes of all rounds through a value. -/
def Scope.rounds (arg : Argument) (names : List String) : List Scope :=
  let loopOf (count i : Nat) : List (String × Json) :=
    [("first", .bool (i == 0)), ("last", .bool (i + 1 == count)), ("index", .int i)]
  match arg.value with
  | .arr items => items.mapIdx fun i v =>
      .ofRound arg names (toString i) v (.int i) (loopOf items.length i)
  | .obj members => members.mapIdx fun i member =>
      .ofRound arg names member.1 member.2 (.str member.1)
        (("key", .str member.1) :: loopOf members.length i)
  | _ => []

/-- The scope of `with`, which gives at most one name. -/
def Scope.ofWith (arg : Argument) (names : List String) : Scope :=
  let named := match names with
    | [_] => blockNamed names arg arg.value .null
    | _ => []
  { Scope.ofArgument arg with named }

/-- The members of a value; those of an array and of a text go by their indices. -/
def membersOf : Json → List (String × Json)
  | .obj members => members
  | .arr items => Bindings.ofPairs (items.mapIdx fun i v => (toString i, v))
  | .str s => Bindings.ofPairs (s.toList.mapIdx fun i c => (toString i, .str (String.singleton c)))
  | _ => []

/-- The scope of an insertion: that of its first argument, or else the one that it stands in.  Its
named arguments are further members of the value, and names that all scopes inside can see. -/
def Scope.ofInsertion (data : Json) (scopes : List Scope) (arguments : Arguments) :
    Except Error Scope := do
  let scope := match arguments.args with
    | arg :: _ => Scope.ofArgument arg
    | [] =>
      let current := scopes.headD outermost
      .of current.way current.value
  if arguments.named.isEmpty then return scope
  let current ← resolve data [scope] []
  let members := arguments.named.foldl
    (fun members (name, arg) => Bindings.insert name arg.value members)
    (membersOf (current.value.getD .null))
  let named := arguments.named.map fun (name, arg) => (name, Named.value arg.value)
  return { scope with value := some (.obj members), named }

/-- Whether a value has members to go through, though there may be none of them. -/
def hasMembers : Json → Bool
  | .arr _ => true
  | .obj _ => true
  | _ => false

/-- Gives a name to the contents of a directive, in the innermost scope.  There is only one
directive. -/
def direct (data : Json) (call : Call) (body : Option (List Element)) (scopes : List Scope) :
    Except Error (List Scope) := do
  let name ← headName data scopes call.head
  let arguments ← call.arguments data scopes
  if name != "inline" then throw (.unknownDirective name)
  match (← arguments.require "inline" 0).value, body with
  | .str piece, some body => return Scope.namePiece piece body scopes
  | .str _, none => throw .contentsRequired
  | _, _ => throw (.wrongType "String")

/-- Follows the directives among elements, and nothing else. -/
def directAll (data : Json) (elements : List Element) (scopes : List Scope) :
    Except Error (List Scope) :=
  elements.foldlM (fun scopes e => match e with
    | .directive call body => direct data call body scopes
    | _ => .ok scopes) scopes

/-- The next round of a block: the scope of the round takes the place of the one before it, and
keeps the pieces that were named there. -/
def Writing.nextRound (w : Writing) (scope : Scope) : Writing :=
  match w.scopes with
  | last :: outer => { w with scopes := { scope with pieces := last.pieces } :: outer }
  | [] => { w with scopes := [scope] }

mutual

/-- Writes elements in order. -/
def writeAll (data : Json) (depth : Nat) (elements : List Element) (w : Writing) :
    Except Error Writing :=
  match depth with
  | 0 => .error .nestedTooDeep
  | depth + 1 => elements.foldlM (fun w e => writeElement data depth e w) w

/-- Writes an element. -/
def writeElement (data : Json) (depth : Nat) (e : Element) (w : Writing) :
    Except Error Writing :=
  match depth with
  | 0 => .error .nestedTooDeep
  | depth + 1 => match e with
    | .text s => .ok (w.write s)
    | .comment => .ok w
    | .expression call => do
      let name ← headName data w.scopes call.head
      if call.isBare && !isHelper name then
        let arg ← evaluate data w.scopes call.head
        if arg.isMissing then throw (.missingVariable arg.raw)
        return w.write arg.value.display.toList
      else
        match ← apply name (← call.arguments data w.scopes) with
        | .truth b => return w.writePlain (Json.bool b).display.toList
        | outcome => return w.write (← outcome.worth).display.toList
    | .block call body otherwise => do
      let name ← headName data w.scopes call.head
      match ← apply name (← call.arguments data w.scopes) with
      | .value v => return w.write v.display.toList
      | .truth b => writeDecision data depth (.branch b) call.blockNames body otherwise w
      | .decision d => writeDecision data depth d call.blockNames body otherwise w
    | .directive call body => return { w with scopes := ← direct data call body w.scopes }
    | .insertion call indent alone body => do
      let name ← headName data w.scopes call.head
      let arguments ← call.arguments data w.scopes
      let scope ← Scope.ofInsertion data w.scopes arguments
      let scopes ← directAll data (body.getD []) (scope :: w.scopes)
      let indent := match w.indent, indent with
        | some outer, some inner => some (outer ++ inner)
        | outer, inner => outer.or inner
      let passage ← w.passage name scopes indent body
      let inside ← writeAll data depth passage.elements
        { w with
          scopes := passage.scopes
          indent := passage.indent
          contents := passage.contents
          beginsLine := w.beginsLine || (alone && indent.isSome)
          wrote := false }
      return { w with
        out := inside.out
        beginsLine := if inside.wrote then inside.beginsLine else w.beginsLine
        wrote := w.wrote || inside.wrote }

/-- Writes the contents of a block as a helper decides. -/
def writeDecision (data : Json) (depth : Nat) (d : Decision) (names : List String)
    (body : List Element) (otherwise : Option (List Element)) (w : Writing) :
    Except Error Writing :=
  match depth with
  | 0 => .error .nestedTooDeep
  | depth + 1 =>
    let leave (inside : Writing) : Writing := { inside with scopes := w.scopes }
    let instead (arg : Argument) : Except Error Writing := match otherwise with
      | some other => writeAll data depth other w
      | none => .error (.missingVariable arg.raw)
    match d with
    | .nothing => .ok w
    | .contents => writeAll data depth body w
    | .branch true => writeAll data depth body w
    | .branch false => writeAll data depth (otherwise.getD []) w
    | .within arg =>
      if arg.value.isTruthy false then
        (writeAll data depth body
          { w with scopes := Scope.ofWith arg names :: w.scopes }).map leave
      else instead arg
    | .rounds arg =>
      let scopes := Scope.rounds arg names
      if hasMembers arg.value && (!scopes.isEmpty || otherwise.isNone) then
        let first : Writing := { w with scopes := .outermost :: w.scopes }
        (scopes.foldlM (fun inside scope => writeAll data depth body (inside.nextRound scope))
          first).map leave
      else instead arg

end

/-- The text of a template for a value. -/
def render (template : String) (data : Json) : Except Error String :=
  match parse template.toList with
  | none => .error .malformed
  | some elements =>
    (writeAll data (4 * template.length + 1000) elements .start).map Writing.out

end TreeQuery.Template
