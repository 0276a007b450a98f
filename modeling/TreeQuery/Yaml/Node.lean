import TreeQuery.Yaml.Event

/-!
# Nodes of plan texts

The events of a document make a tree of scalars, sequences and mappings, in which aliases stay
aliases: an anchored node may hold an alias of itself, and a tree of aliases may be much larger
than its text.

An alias refers to a slot.  The slot of an anchored node is the number of different names before
it, so a name that is given again may share its slot with the next new name; a slot belongs to the
last node that has it.
-/

namespace TreeQuery.Yaml

/-- A node. -/
inductive Node where
  | scalar (s : Scalar)
  | sequence (tag : Option (List Char)) (items : List Node)
  | mapping (tag : Option (List Char)) (entries : List (Node × Node))
  /-- The node of a slot once more. -/
  | alias (slot : Nat)

/-- A collection that is still open.  `anchored` is the number of the node among the anchored
ones, if it is one. -/
inductive OpenNode where
  /-- A sequence, with its items so far in reverse. -/
  | sequence (tag : Option (List Char)) (anchored : Option Nat) (items : List Node)
  /-- A mapping, with its entries so far in reverse, and a key that has no value yet. -/
  | mapping (tag : Option (List Char)) (anchored : Option Nat) (entries : List (Node × Node))
      (key : Option Node)

/-- A tree that has been built up to some point. -/
structure NodeBuilder where
  /-- The open collections, the innermost first. -/
  opened : List OpenNode
  /-- The root, once it is complete. -/
  root : Option Node
  /-- The slot that each name stands for now. -/
  names : List (List Char × Nat)
  /-- The slot and the number of every anchored node, the last one first. -/
  slots : List (Nat × Nat)
  /-- The anchored nodes that are complete, by their numbers. -/
  complete : List (Nat × Node)

namespace NodeBuilder

/-- Nothing has been built. -/
def start : NodeBuilder := ⟨[], none, [], [], []⟩

/-- Gives a node its name, and its number among the anchored nodes. -/
def register (b : NodeBuilder) : Option (List Char) → NodeBuilder × Option Nat
  | none => (b, none)
  | some name =>
    let slot := b.names.length
    let number := b.slots.length
    let others := b.names.filter fun known => known.1 != name
    ({ b with names := (name, slot) :: others, slots := (slot, number) :: b.slots }, some number)

/-- Adds a complete node to the innermost open collection, or as the root. -/
def attach (b : NodeBuilder) (anchored : Option Nat) (n : Node) : NodeBuilder :=
  let b := match anchored with
    | some number => { b with complete := (number, n) :: b.complete }
    | none => b
  match b.opened with
  | [] => { b with root := some n }
  | .sequence tag number items :: outer =>
    { b with opened := .sequence tag number (n :: items) :: outer }
  | .mapping tag number entries none :: outer =>
    { b with opened := .mapping tag number entries (some n) :: outer }
  | .mapping tag number entries (some key) :: outer =>
    { b with opened := .mapping tag number ((key, n) :: entries) none :: outer }

/-- Takes an event. -/
def take (b : NodeBuilder) : Event → Option NodeBuilder
  | .alias name => (b.names.lookup name).map fun slot => b.attach none (.alias slot)
  | .scalar s anchor =>
    let (b, number) := b.register anchor
    some (b.attach number (.scalar s))
  | .sequenceStart tag anchor =>
    let (b, number) := b.register anchor
    some { b with opened := .sequence tag number [] :: b.opened }
  | .mappingStart tag anchor =>
    let (b, number) := b.register anchor
    some { b with opened := .mapping tag number [] none :: b.opened }
  | .sequenceEnd => match b.opened with
    | .sequence tag number items :: outer =>
      some (attach { b with opened := outer } number (.sequence tag items.reverse))
    | _ => none
  | .mappingEnd => match b.opened with
    | .mapping tag number entries none :: outer =>
      some (attach { b with opened := outer } number (.mapping tag entries.reverse))
    | _ => none

end NodeBuilder

/-- A document. -/
structure Document where
  /-- Its root. -/
  root : Node
  /-- The slot and the number of every anchored node, the last one first. -/
  slots : List (Nat × Nat)
  /-- The anchored nodes, by their numbers. -/
  anchored : List (Nat × Node)
  /-- The number of events of the document. -/
  size : Nat

namespace Document

/-- The node of a slot. -/
def node? (d : Document) (slot : Nat) : Option Node :=
  (d.slots.lookup slot).bind fun number => d.anchored.lookup number

/-- The document that events make. -/
def ofEvents? (events : List Event) : Option Document := do
  let b ← events.foldlM NodeBuilder.take .start
  let root ← b.root
  return ⟨root, b.slots, b.complete, events.length⟩

/-- The document that a text writes. -/
def ofText? (s : List Char) : Option Document :=
  ((Token.ofText? s).bind Event.ofTokens?).bind ofEvents?

end Document

end TreeQuery.Yaml
