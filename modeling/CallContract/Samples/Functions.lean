import CallContract.Guarded

/-!
# Sample functions

Names and parameters of small functions: without constraints, with an integer in either place, with
a default that fits its constraint and one that does not, and variadic.
-/
namespace CallContract.Samples

/-- A function's name and parameters. -/
structure Declaration where
  name : String
  params : List Param
deriving Repr

/-- The declared function under the initial policy. -/
def Declaration.register (d : Declaration) : Except Failure Guarded :=
  Guarded.register d.name d.params

/-- A parameter that takes its argument by position or keyword. -/
def plainParam (name : String) : Param := ⟨name, .positionalOrKeyword, none, none⟩

def typedParam (name : String) (t : ValueType) : Param :=
  { plainParam name with constraint := some (.plain t) }

def zeroParams : Declaration := ⟨"deco_0_params_no_annots", []⟩

def oneParam : Declaration := ⟨"deco_1_params_no_annots", [plainParam "param"]⟩

def twoParams : Declaration :=
  ⟨"deco_2_params_no_annots", [plainParam "param_1", plainParam "param_2"]⟩

def twoParamsFirstInt : Declaration :=
  ⟨"deco_2_params_annot_1_int", [typedParam "param_1" .int, plainParam "param_2"]⟩

def twoParamsSecondInt : Declaration :=
  ⟨"deco_2_params_annot_2_int", [plainParam "param_1", typedParam "param_2" .int]⟩

def intWithIntDefault : Declaration :=
  ⟨"deco_1_params_annot_int_dflt_int",
    [{ typedParam "param" .int with default := some (.int 33) }]⟩

/-- The default violates the constraint. -/
def intWithStrDefault : Declaration :=
  ⟨"deco_1_params_annot_int_dflt_str",
    [{ typedParam "param" .int with default := some (.str "hello") }]⟩

def variadicIntStr : Declaration :=
  ⟨"variadic_int_str",
    [{ typedParam "args" .int with kind := .varPositional },
      { typedParam "kwargs" .str with kind := .varKeyword }]⟩

end CallContract.Samples
