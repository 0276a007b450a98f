import TreeQuery.Json.Number

/-!
# Writing values

A value is written without blanks, the members of an object in their order.  The text is built from
left to right behind what was written before, so that long values cost no more than their length.
-/

namespace TreeQuery.Json

/-- One character of a quoted text. -/
def writeChar (done : String) (c : Char) : String :=
  if c == '"' then done ++ "\\\""
  else if c == '\\' then done ++ "\\\\"
  else if c == '\n' then done ++ "\\n"
  else if c == '\r' then done ++ "\\r"
  else if c == '\t' then done ++ "\\t"
  else if c.toNat < 0x20 then
    let digits := Nat.toDigits 16 c.toNat
    done ++ "\\u" ++ String.ofList (List.replicate (4 - digits.length) '0' ++ digits)
  else done.push c

/-- A text between quotes. -/
def writeText (done s : String) : String := (s.toList.foldl writeChar (done.push '"')).push '"'

mutual

/-- Writes a value behind `done`. -/
def write (done : String) : Json → String
  | .null => done ++ "null"
  | .bool b => done ++ (if b then "true" else "false")
  | .int n => done ++ toString n
  | .float x => done ++ floatText x
  | .str s => writeText done s
  | .arr items => (writeItems (done.push '[') true items).push ']'
  | .obj members => (writeMembers (done.push '\x7b') true members).push '\x7d'

/-- Writes items with commas between them; `first` says that none stands before. -/
def writeItems (done : String) (first : Bool) : List Json → String
  | [] => done
  | v :: rest => writeItems (write (if first then done else done.push ',') v) false rest

/-- Writes members with commas between them; `first` says that none stands before. -/
def writeMembers (done : String) (first : Bool) : List (String × Json) → String
  | [] => done
  | (name, v) :: rest =>
    let named := (writeText (if first then done else done.push ',') name).push ':'
    writeMembers (write named v) false rest

end

/-- The text of a value. -/
def text (v : Json) : String := write "" v

end TreeQuery.Json
