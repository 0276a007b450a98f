import TreeQuery.Plan.Yaml
import TreeQuery.Run.Failure

/-!
# Loading plans

A plan that is loaded from text or from a file must be valid.  The stages of a failure tell a file
that cannot be read from one that does not write a plan.
-/

namespace TreeQuery

namespace Plan

/-- The valid plan that a text writes. -/
def load (text : String) : Except Failure Plan :=
  match ofYaml? text with
  | none => .error ⟨[.planText], .unreadable⟩
  | some p => match p.violation? with
    | some v => .error (.ofCause (.invalid v))
    | none => .ok p

/-- The valid plan in a file of the given name, whose bytes are given if there is such a file. -/
def loadFile (name : String) (bytes : Option ByteArray) : Except Failure Plan :=
  match bytes with
  | none => .error ⟨[.file name], .noFile⟩
  | some bytes => match String.fromUTF8? bytes with
    | none => .error ⟨[.file name], .notText⟩
    | some text => match load text with
      | .error f => .error (f.during (.planFile name))
      | .ok p => .ok p

end Plan

end TreeQuery
