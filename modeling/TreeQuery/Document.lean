import TreeQuery.Tree.Builder

/-!
# Documents

A document is a text that reads as one element with nothing but blanks, comments, instructions and
declarations around it.  An option drops declaration lines beforehand: a line counts as one if it
begins with `<!` behind blanks, whatever it continues.
-/

namespace TreeQuery

namespace Document

/-- What happens to a text before it is read. -/
structure Options where
  /-- Whether declaration lines are dropped. -/
  stripDeclarations : Bool
deriving Repr, DecidableEq

/-- Nothing happens to the text. -/
def Options.plain : Options := ⟨false⟩

/-- Declaration lines are dropped. -/
def Options.stripping : Options := ⟨true⟩

/-- Whether a line begins with `<!` behind blanks. -/
def isDeclaration (line : List Char) : Bool := ['<', '!'].isPrefixOf (Text.trimStart line)

/-- The lines of a text that are no declarations, with a line feed between two of them. -/
def withoutDeclarations (s : List Char) : List Char :=
  Text.joinLines ((Text.lines s).filter fun line => !isDeclaration line)

/-- A text without its declaration lines. -/
def strip (text : String) : String := String.ofList (withoutDeclarations text.toList)

/-- The characters that are read of a text. -/
def source (text : String) (options : Options) : List Char :=
  if options.stripDeclarations then withoutDeclarations text.toList else text.toList

/-- The root element of the document that a text writes. -/
def parse (text : String) (options : Options) : Except Error Node :=
  build Builder.start (Markup.Reader.ofText (source text options))

end Document

end TreeQuery
