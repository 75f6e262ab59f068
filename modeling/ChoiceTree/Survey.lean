import ChoiceTree.Builder
import ChoiceTree.Enumeration

/-!
# A survey page

A small model put to work: a page has a theme, perhaps a banner in some color,
and perhaps some widgets. The report lists the encoding and then decodes either
one given assignment or the first few that satisfy the model.
-/

namespace ChoiceTree

/-- The variables of a survey page and their model. -/
structure Survey where
  theme : Select String
  banner : Flag Bool
  bannerColor : Select String
  widgets : Select String
  model : Model

namespace Survey

/-- Why a report ends early. -/
inductive Failure where
  /-- The model has no such bit. -/
  | bitOutside (bit width : Nat)
  /-- A variable of the model is refused. -/
  | refusal (wording : String)
  | fault (cause : Fault)
  deriving DecidableEq

/-- The wording of the failure. -/
def Failure.message : Failure → String
  | .bitOutside bit width => s!"bit {bit} is outside the model's {width} bits"
  | .refusal wording => wording
  | .fault cause => cause.message

/-- The lines of a report, and why there are no more of them. -/
structure Report where
  lines : List String
  failure : Option Failure

/-- The variable that a session was asked for. -/
private def created {V α : Type} [ValueText V] (built : Except Fault (Built V α)) :
    Except Failure (α × Builder) :=
  match built with
  | .error fault => .error (.fault fault)
  | .ok ⟨.error refusal, _⟩ => .error (.refusal refusal.message)
  | .ok ⟨.ok result, b⟩ => .ok (result, b)

/-- Builds the model of a survey page. -/
def assemble : Except Failure Survey := do
  let b := Builder.new "survey"
  let (theme, b) ← created (b.nominal "theme" false .root ["light", "dark", "sepia"])
  let (banner, b) ← created (b.flag "banner" true .root)
  let (bannerColor, b) ← created (b.nominal "banner_color" false banner.handle ["red", "blue"])
  let (widgets, b) ← created (b.multiple "widgets" true .root ["clock", "weather", "news"])
  return ⟨theme, banner, bannerColor, widgets, b.build⟩

/-- At most as many pages as this can be told apart. -/
def outcomes (s : Survey) : Nat :=
  s.theme.outcomes * s.banner.outcomes * s.bannerColor.outcomes * s.widgets.outcomes

/-- The part of the report that describes the encoding. -/
def encodingLines (s : Survey) : List String :=
  ["bits = " ++ toString s.model.width]
    ++ s.model.layout.ranges.map (fun (id, span) =>
        "- " ++ id.text ++ " -> [" ++ toString span.start ++ ", " ++ toString span.stop ++ ")")
    ++ ["constraints:"]
    ++ s.model.constraints.map (fun c => "- " ++ c.text)
    ++ ["outcomes (upper bound) = " ++ toString s.outcomes]

/-- The text of a decoded variable. -/
def decodedText {V : Type} [ValueText V] : Option (Decoded V) → String
  | none => "None"
  | some .root => "Some(())"
  | some (.flag payload) => "Some(" ++ ValueText.text payload ++ ")"
  | some (.select (.one v)) => "Some(One(" ++ ValueText.text v ++ "))"
  | some (.select (.many vs)) =>
      "Some(Many([" ++ ", ".intercalate (vs.map ValueText.text) ++ "]))"

/-- The line that shows what a variable decodes to. -/
def valueLine {V : Type} [BEq V] [ValueText V] (s : Survey) (v : Variable V) (a : BitArray) :
    Except Fault String := do
  return v.name ++ " = " ++ decodedText (← s.model.valueOf v a)

/-- What is said about an assignment. -/
def assignmentLines (s : Survey) (a : BitArray) : Except Fault (List String) := do
  if ← s.model.isSatisfied a then
    return [← s.valueLine (.select s.theme) a, ← s.valueLine (.flag s.banner) a,
      ← s.valueLine (.select s.bannerColor) a, ← s.valueLine (.select s.widgets) a]
  else return ["instance violates the model constraints"]

/-- The lines about the given assignments, up to one that cannot be decoded. -/
def reportOn (s : Survey) : List BitArray → Report
  | [] => ⟨[], none⟩
  | a :: rest =>
    let head := ["----------------------------------",
      "instance = [" ++ ", ".intercalate (a.ones.map toString) ++ "]"]
    match s.assignmentLines a with
    | .error fault => ⟨head, some (.fault fault)⟩
    | .ok lines =>
      let later := s.reportOn rest
      ⟨head ++ lines ++ later.lines, later.failure⟩

/-- The assignments to report on: the one with the given bits or, without any,
the first `limit` that satisfy the model. -/
def assignments (s : Survey) (bits : List Nat) (limit : Nat) :
    Except Failure (List BitArray) :=
  match bits with
  | [] => (s.model.solutions.map (·.take limit)).mapError .fault
  | _ =>
    match bits.find? (s.model.width ≤ ·) with
    | some bit => .error (.bitOutside bit s.model.width)
    | none => ((BitArray.ofBits s.model.width bits).map ([·])).mapError .fault

/-- The report on the assignment with the given bits or, without any, on the
first `limit` assignments that satisfy the model. -/
def report (bits : List Nat) (limit : Nat) : Report :=
  match assemble with
  | .error failure => ⟨[], some failure⟩
  | .ok s =>
    match s.assignments bits limit with
    | .error failure => ⟨s.encodingLines, some failure⟩
    | .ok chosen =>
      let rest := s.reportOn chosen
      ⟨s.encodingLines ++ rest.lines, rest.failure⟩

end Survey

end ChoiceTree
