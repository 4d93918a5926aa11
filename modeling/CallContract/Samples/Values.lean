import CallContract.Value.Basic

/-!
# Sample values

One value of each type, and small lists of different growth.
-/
namespace CallContract.Samples

/-- One value of every type but `object`. -/
def oneOfEach : List Value :=
  [.none, .bool true, .int 7, .float ⟨0x4004000000000000⟩, .str "hello",
    .list [.int 1, .int 2, .int 3], .tuple [.int 1, .int 2], .dict [(.str "a", .int 1)]]

/-- The samples that are not instances of the type. -/
def notInstancesOf (t : ValueType) : List Value := oneOfEach.filter fun v => !v.isInstance t

def emptyList : Value := .list []

def increasing : Value := .list [.int 1, .int 2, .int 5, .int 9]

def decreasing : Value := .list [.int 3, .int 1]

/-- Integers with a text behind them. -/
def intsThenStr : Value := .list [.int 1, .int 2, .str "x"]

/-- Two items without an order between them. -/
def unorderable : Value := .list [.int 1, .str "a"]

end CallContract.Samples
