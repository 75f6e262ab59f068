import ChoiceTree.Survey

/-!
# The survey program

Reports on the survey page. The arguments are the bits set in the assignment to
decode; without them the first satisfying assignments are listed, five unless
`--limit` says otherwise.
-/

namespace ChoiceTree.Survey

/-- What the program is asked for. -/
structure Request where
  bits : List Nat
  limit : Nat

/-- A number written in decimal digits. -/
def readNumber (s : String) : Option Nat :=
  if s.toList.all Char.isDigit then s.toNat? else none

/-- Reads the arguments, or names the first that makes no sense. -/
def readRequest (request : Request) : List String → Except String Request
  | [] => .ok { request with bits := request.bits.reverse }
  | "--limit" :: n :: rest =>
    match readNumber n with
    | some limit => readRequest { request with limit := limit } rest
    | none => .error n
  | arg :: rest =>
    if arg.startsWith "--limit=" then
      match readNumber (arg.drop 8).toString with
      | some limit => readRequest { request with limit := limit } rest
      | none => .error arg
    else
      match readNumber arg with
      | some bit => readRequest { request with bits := bit :: request.bits } rest
      | none => .error arg

end ChoiceTree.Survey

/-- Prints the report. The exit code is 1 if it ends early and 2 if the
arguments make no sense. -/
def main (args : List String) : IO UInt32 := do
  match ChoiceTree.Survey.readRequest ⟨[], 5⟩ args with
  | .error arg =>
    IO.eprintln s!"error: invalid argument {arg}"
    return 2
  | .ok request =>
    let report := ChoiceTree.Survey.report request.bits request.limit
    for line in report.lines do
      IO.println line
    match report.failure with
    | none => return 0
    | some failure =>
      IO.eprintln s!"Error: {failure.message}"
      return 1
