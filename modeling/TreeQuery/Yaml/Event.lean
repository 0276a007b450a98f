import TreeQuery.Yaml.Lexer

/-!
# Events of plan texts

The lexemes of a document become a sequence of events: scalars and aliases, and the beginnings and
ends of sequences and mappings.  Where a key, a value or an item is left out, an empty plain scalar
stands in.

What may follow at a point is a stack of places.  One step takes the topmost place, looks at the
next lexeme, and leaves the places that are still to be filled; so the depth of a document is that
of a list.
-/

namespace TreeQuery.Yaml

/-- A scalar. -/
structure Scalar where
  /-- Its text. -/
  text : List Char
  /-- How it is written. -/
  style : Style
  /-- Its type, if it is given one. -/
  tag : Option (List Char)
deriving Repr, DecidableEq

/-- An event of a document.  Nodes may have a name, which aliases repeat. -/
inductive Event where
  | alias (name : List Char)
  | scalar (s : Scalar) (anchor : Option (List Char))
  | sequenceStart (tag anchor : Option (List Char))
  | sequenceEnd
  | mappingStart (tag anchor : Option (List Char))
  | mappingEnd
deriving Repr, DecidableEq

/-- What stands in for a node that is left out. -/
def Event.empty : Event := .scalar ⟨[], .plain, none⟩ none

/-- What may follow at a point of a document. -/
inductive Place where
  /-- A node, which may be a block collection, or a block sequence that is not indented. -/
  | node (block unindented : Bool)
  /-- An item of a block sequence, or its end. -/
  | blockItem
  /-- An item of a block sequence that is not indented, or something else behind it. -/
  | unindentedItem
  /-- A key of a block mapping, or its end. -/
  | blockKey
  /-- The value of a block mapping's key. -/
  | blockValue
  /-- An item of a flow sequence, or its end; the first one has no comma before it. -/
  | flowItem (first : Bool)
  /-- The key of a mapping that is an item of a flow sequence. -/
  | pairKey
  /-- Its value. -/
  | pairValue
  /-- Its end. -/
  | pairEnd
  /-- A key of a flow mapping, or its end; the first one has no comma before it. -/
  | flowKey (first : Bool)
  /-- The value of a flow mapping's key. -/
  | flowValue
  /-- The value of a key that has none. -/
  | noValue
deriving Repr, DecidableEq

/-- What a step gives: an event, the places that are left, and the lexemes that are left. -/
abbrev Stepped := Event × List Place × List Token

/-- What the handles stand for unless a directive says otherwise. -/
def defaultHandles : List (List Char × List Char) :=
  [(['!'], ['!']), (['!', '!'], "tag:yaml.org,2002:".toList)]

/-- The type that a tag gives. -/
def expandTag (handles : List (List Char × List Char)) (handle suffix : List Char) :
    Option (List Char) :=
  if handle.isEmpty then some suffix else (handles.lookup handle).map (· ++ suffix)

/-- What may stand before a node, in either order: its name and its type. -/
structure Properties where
  /-- The name. -/
  anchor : Option (List Char)
  /-- The handle and the rest of the type. -/
  tag : Option (List Char × List Char)

/-- Reads the properties of a node. -/
def properties : List Token → Properties × List Token
  | .anchor name :: .tag handle suffix :: rest => (⟨some name, some (handle, suffix)⟩, rest)
  | .tag handle suffix :: .anchor name :: rest => (⟨some name, some (handle, suffix)⟩, rest)
  | .anchor name :: rest => (⟨some name, none⟩, rest)
  | .tag handle suffix :: rest => (⟨none, some (handle, suffix)⟩, rest)
  | rest => (⟨none, none⟩, rest)

/-- Reads a node. -/
def nodeStep (handles : List (List Char × List Char)) (block unindented : Bool)
    (outer : List Place) (tokens : List Token) : Option Stepped :=
  match tokens with
  | .alias name :: rest => some (.alias name, outer, rest)
  | _ =>
    let (given, rest) := properties tokens
    let tag? : Option (Option (List Char)) := match given.tag with
      | none => some none
      | some (handle, suffix) => (expandTag handles handle suffix).map some
    tag?.bind fun tag =>
      match rest with
      | .scalar text style :: rest =>
        some (.scalar ⟨text, style, tag⟩ given.anchor, outer, rest)
      | .flowSequence :: rest =>
        some (.sequenceStart tag given.anchor, .flowItem true :: outer, rest)
      | .flowMapping :: rest =>
        some (.mappingStart tag given.anchor, .flowKey true :: outer, rest)
      | _ =>
        let fallback : Option Stepped :=
          if given.anchor.isSome || tag.isSome then
            some (.scalar ⟨[], .plain, tag⟩ given.anchor, outer, rest)
          else none
        match rest with
        | .dash :: _ =>
          if unindented then
            some (.sequenceStart tag given.anchor, .unindentedItem :: outer, rest)
          else fallback
        | .blockSequence :: rest =>
          if block then some (.sequenceStart tag given.anchor, .blockItem :: outer, rest)
          else fallback
        | .blockMapping :: rest =>
          if block then some (.mappingStart tag given.anchor, .blockKey :: outer, rest)
          else fallback
        | _ => fallback

/-- A node, unless one of the given lexemes follows; then nothing stands in its place. -/
def nodeOrEmpty (handles : List (List Char × List Char)) (block unindented : Bool)
    (ends : List Token) (outer : List Place) (tokens : List Token) : Option Stepped :=
  if tokens.head?.any ends.contains then some (.empty, outer, tokens)
  else nodeStep handles block unindented outer tokens

/-- Passes the comma before an item, unless the item is the first one. -/
def itemComma (first : Bool) (tokens : List Token) : Option (List Token) :=
  if first then some tokens
  else match tokens with
    | .comma :: rest => some rest
    | _ => none

/-- Fills a place. -/
def placeStep (handles : List (List Char × List Char)) (place : Place) (outer : List Place)
    (tokens : List Token) : Option Stepped :=
  match place, tokens with
  | .node block unindented, _ => nodeStep handles block unindented outer tokens
  | .blockItem, .dash :: rest =>
    nodeOrEmpty handles true false [.dash, .blockEnd] (.blockItem :: outer) rest
  | .blockItem, .blockEnd :: rest => some (.sequenceEnd, outer, rest)
  | .blockItem, _ => none
  | .unindentedItem, .dash :: rest =>
    nodeOrEmpty handles true false [.dash, .key, .value, .blockEnd] (.unindentedItem :: outer) rest
  | .unindentedItem, _ => some (.sequenceEnd, outer, tokens)
  | .blockKey, .key :: rest =>
    nodeOrEmpty handles true true [.key, .value, .blockEnd] (.blockValue :: outer) rest
  | .blockKey, .blockEnd :: rest => some (.mappingEnd, outer, rest)
  | .blockKey, _ => none
  | .blockValue, .value :: rest =>
    nodeOrEmpty handles true true [.key, .value, .blockEnd] (.blockKey :: outer) rest
  | .blockValue, _ => some (.empty, .blockKey :: outer, tokens)
  | .flowItem _, .flowSequenceEnd :: rest => some (.sequenceEnd, outer, rest)
  | .flowItem first, _ =>
    (itemComma first tokens).bind fun tokens => match tokens with
      | .flowSequenceEnd :: rest => some (.sequenceEnd, outer, rest)
      | .key :: rest =>
        some (.mappingStart none none, .pairKey :: .flowItem false :: outer, rest)
      | _ => nodeStep handles false false (.flowItem false :: outer) tokens
  | .pairKey, _ =>
    if tokens.head?.any [Token.value, .comma, .flowSequenceEnd].contains then
      some (.empty, .pairValue :: outer, tokens.drop 1)
    else nodeStep handles false false (.pairValue :: outer) tokens
  | .pairValue, .value :: rest =>
    nodeOrEmpty handles false false [.comma, .flowSequenceEnd] (.pairEnd :: outer) rest
  | .pairValue, _ => some (.empty, .pairEnd :: outer, tokens)
  | .pairEnd, _ => some (.mappingEnd, outer, tokens)
  | .flowKey _, .flowMappingEnd :: rest => some (.mappingEnd, outer, rest)
  | .flowKey first, _ =>
    (itemComma first tokens).bind fun tokens => match tokens with
      | .flowMappingEnd :: rest => some (.mappingEnd, outer, rest)
      | .key :: rest =>
        nodeOrEmpty handles false false [.value, .comma, .flowMappingEnd]
          (.flowValue :: outer) rest
      | _ => nodeStep handles false false (.noValue :: outer) tokens
  | .flowValue, .value :: rest =>
    nodeOrEmpty handles false false [.comma, .flowMappingEnd] (.flowKey false :: outer) rest
  | .flowValue, _ => some (.empty, .flowKey false :: outer, tokens)
  | .noValue, _ => some (.empty, .flowKey false :: outer, tokens)

/-- Fills places until none is left; `done` holds the events in reverse. -/
def fillPlaces (steps : Nat) (handles : List (List Char × List Char)) (done : List Event)
    (places : List Place) (tokens : List Token) : Option (List Event × List Token) :=
  match steps, places with
  | _, [] => some (done.reverse, tokens)
  | 0, _ => none
  | steps + 1, place :: outer => match placeStep handles place outer tokens with
    | none => none
    | some (e, places, tokens) => fillPlaces steps handles (e :: done) places tokens

/-- The directives before a document: at most one version, of those that are known, and for each
handle at most one expansion. -/
def directives (versioned : Bool) (handles : List (List Char × List Char)) :
    List Token → Option (List (List Char × List Char) × List Token)
  | .version major minor :: rest =>
    if versioned || major != 1 || (minor != 1 && minor != 2) then none
    else directives true handles rest
  | .handle handle expansion :: rest =>
    if (handles.lookup handle).isSome then none
    else directives versioned ((handle, expansion) :: handles) rest
  | rest => some (handles, rest)

/-- Whether a lexeme cannot begin the contents of a document. -/
def Token.isOutside : Token → Bool
  | .version _ _ => true
  | .handle _ _ => true
  | .documentStart => true
  | .documentEnd => true
  | _ => false

/-- The events of a text that is one document.  Each lexeme leads to a few events at most. -/
def Event.ofTokens? (tokens : List Token) : Option (List Event) :=
  (directives false [] tokens).bind fun (handles, rest) =>
    let handles := handles ++ defaultHandles
    let contents := fillPlaces (8 * tokens.length + 16) handles [] [.node true false]
    let read : Option (List Event × List Token) := match rest with
      | .documentStart :: rest =>
        if rest.head?.all Token.isOutside then some ([.empty], rest) else contents rest
      | _ => if rest.length < tokens.length then none else contents rest
    read.bind fun (events, rest) => if rest.all (· == .documentEnd) then some events else none

end TreeQuery.Yaml
