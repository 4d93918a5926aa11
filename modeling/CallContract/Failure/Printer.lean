import CallContract.Failure.Basic

/-!
# The texts of failures

Every failure has a message for readers and a `repr` that lists its attributes in the form of a
constructor call. Names stand unescaped in messages; in the attributes, texts are quoted.
-/
namespace CallContract

namespace Location

def text (l : Location) : String := l.file ++ ":" ++ toString l.line

def repr (l : Location) : String :=
  "CallingLocation(file_name=" ++ Text.quoted l.file ++ ", line_num=" ++ toString l.line ++ ")"

end Location

namespace Failure

/-- The sentence that reports the failure. -/
def message : Failure → String
  | .general text => "exception during function argument check: " ++ text
  | .invalidSignature defect => "invalid function signature: " ++ defect.message
  | .constraintCompilation _ constraint problem =>
    "unable to compile type annotation `" ++ constraint ++ "` into checks: " ++ problem
  | .checkConstruction kind location problem =>
    "unable to construct check `" ++ kind.name ++ "` at `" ++ location.text ++
      "` due to invalid constructor argument: " ++ problem
  | .bindingRejection rejection =>
    "unable to bind function call argument: " ++ rejection.message
  | .checkExecution param _ check operation value =>
    "operation `" ++ operation ++ "` failed for param " ++ param.text ++ " during check `" ++
      check.text ++ "` for this value: " ++ value.text
  | .typeViolation param arg check declared received =>
    "violation of type check `" ++ check.text ++ "` for param " ++ param.text ++ " (declared=" ++
      declared.text ++ "; received=" ++ received.name ++ "): " ++ arg.text
  | .valueViolation param arg check =>
    "violation of value-constraint check `" ++ check.text ++ "` for param " ++ param.text ++
      ": " ++ arg.text
  | .elementViolation param arg check index element =>
    "violation of sequence check `" ++ check.text ++ "` for param " ++ param.text ++ ": " ++
      arg.text ++ " (at sequence element [" ++ toString index ++ "]=" ++ element.text ++ ")"

/-- The attributes of a failure by name, in the order in which they are listed. -/
def attributes : Failure → List (String × String)
  | .general text => [("message", Text.quoted text)]
  | .invalidSignature defect => [("problem", Text.quoted defect.message)]
  | .constraintCompilation param constraint problem =>
    [("param", param.repr), ("annotation", Text.quoted constraint),
      ("problem", Text.quoted problem)]
  | .checkConstruction kind location problem =>
    [("check_type", kind.name), ("calling_location", location.repr),
      ("problem", Text.quoted problem)]
  | .bindingRejection rejection =>
    [("exception_args", "(" ++ Text.quoted rejection.message ++ ",)")]
  | .checkExecution param arg check operation value =>
    [("param", param.repr), ("arg_that_caused_failure", arg.repr), ("during_check", check.text),
      ("operation_that_failed", Text.quoted operation),
      ("value_that_caused_failure", value.text)]
  | .typeViolation param arg check declared received =>
    [("param", param.repr), ("arg_that_caused_failure", arg.repr),
      ("check_that_failed", check.text), ("type_declared", declared.text),
      ("type_received", received.name)]
  | .valueViolation param arg check =>
    [("param", param.repr), ("arg_that_caused_failure", arg.repr),
      ("check_that_failed", check.text)]
  | .elementViolation param arg check index element =>
    [("param", param.repr), ("arg_that_caused_failure", arg.repr),
      ("check_that_failed", check.text), ("idx_within_sequence", toString index),
      ("value_within_sequence", element.text)]

/-- The form that lists every attribute. -/
def repr (e : Failure) : String :=
  e.kind.name ++ "(" ++ Text.listed (e.attributes.map fun (name, text) => name ++ "=" ++ text) ++
    ")"

end Failure
end CallContract
