import TreeQuery.Markup.Reference

/-!
# Faults of markup

Why a text is no sequence of markup constructs.  A construct that is never finished, or that does
not begin as its kind requires, is named in the message.
-/

namespace TreeQuery.Markup

/-- The kinds of constructs that can be left unfinished. -/
inductive Construct where
  | element | instruction | comment | dataSection | doctype
  /-- A `<!` at the end of the text. -/
  | declaration
deriving Repr, DecidableEq

/-- The name of a kind of construct in messages. -/
def Construct.name : Construct → String
  | .element => "Element"
  | .instruction => "XmlDecl"
  | .comment => "Comment"
  | .dataSection => "CData"
  | .doctype => "DOCTYPE"
  | .declaration => "Bang"

/-- Why the reader stops. -/
inductive Fault where
  /-- A construct is not finished, or not begun as it must be. -/
  | unfinished (what : Construct)
  /-- A `<!` that no construct begins with; the byte behind it. -/
  | unknownDeclaration (byte : Nat)
  /-- A document type declaration that declares nothing. -/
  | emptyDoctype
  /-- An end tag that does not close the innermost open element. -/
  | mismatchedEnd (expected found : List Char)
  /-- A reference in a run of text. -/
  | reference (fault : ReferenceFault)
deriving Repr, DecidableEq

/-- The message of a fault. -/
def Fault.message : Fault → String
  | .unfinished what => "Unexpected EOF during reading " ++ what.name
  | .unknownDeclaration byte =>
    "Only Comment (`--`), CDATA (`[CDATA[`) and DOCTYPE (`DOCTYPE`) nodes can start with a '!', "
      ++ "but symbol `" ++ String.singleton (Char.ofNat byte) ++ "` found"
  | .emptyDoctype => "DOCTYPE declaration must not be empty"
  | .mismatchedEnd expected found =>
    "Expecting </" ++ String.ofList expected ++ "> found </" ++ String.ofList found ++ ">"
  | .reference fault => fault.message

end TreeQuery.Markup
