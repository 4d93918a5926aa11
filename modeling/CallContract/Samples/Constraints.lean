import CallContract.Constraint.Compilation

/-!
# Sample constraints

Common refinements and sequences, and two that do not do what they seem to: the element of
`sequenceOfRefined` has two checks, and `doublyRefined` asks an integer for its length.

**Results.**
* `checks_sequenceOfPositiveInts`: the checks of the most complex one that compiles.
-/
namespace CallContract.Samples

def positiveInt : Constraint := .refined (.plain .int) [.kind .positive]

/-- Mixes a check and a kind in one group. -/
def nonEmptyIncreasingList : Constraint :=
  .refined (.plain .list) [.group [.check .nonEmpty, .kind .monotonicIncreasing]]

def sequenceOfInt : Constraint := .sequenceOf (.plain .int)

def sequenceOfPositiveInts : Constraint :=
  .refined sequenceOfInt [.check (.eachSatisfies .positive)]

def sequenceOfRefined : Constraint := .sequenceOf positiveInt

def doublyRefined : Constraint := .refined positiveInt [.kind .nonEmpty]

theorem checks_sequenceOfPositiveInts : sequenceOfPositiveInts.checks =
    .ok [.isSequenceShaped (.sequenceOf (.plain .int)), .eachSatisfies (.typeEquals .int),
      .eachSatisfies .positive] := rfl

end CallContract.Samples
