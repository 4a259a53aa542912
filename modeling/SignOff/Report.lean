/-
  SignOff/Report.lean
  ===================
  **Answers as JSON.**  The form in which the results of the workflow's operations are
  shown: a decision, a status, and lists of steps and of statuses.
-/
import SignOff.Service
import SignOff.Json.Records

namespace SignOff

namespace Decision

def toJson (d : Decision) : Json :=
  .obj [("step", d.step.toJson), ("transfer_state", .str d.state.name)]

end Decision

namespace Status

def toJson (s : Status) : Json :=
  .obj [("transfer", s.transfer.toJson), ("steps", .arr (s.steps.map Step.toJson)),
    ("state", .str s.state.name)]

end Status

namespace Service

def stepsJson (steps : List Step) : Json := .arr (steps.map Step.toJson)

def statusesJson (statuses : List Status) : Json := .arr (statuses.map Status.toJson)

end Service

end SignOff
