import CallContract.Binary64
import CallContract.Binding
import CallContract.Check.Basic
import CallContract.Check.Evaluation
import CallContract.Check.Violation
import CallContract.Console.Entry
import CallContract.Console.Log
import CallContract.Console.Record
import CallContract.Constraint.Basic
import CallContract.Constraint.Compilation
import CallContract.Contract
import CallContract.Decimal.Basic
import CallContract.Decimal.Layout
import CallContract.Decimal.Shortest
import CallContract.Event
import CallContract.Failure.Basic
import CallContract.Failure.Kind
import CallContract.Failure.Printer
import CallContract.Guarded
import CallContract.Number
import CallContract.Param
import CallContract.Policy
import CallContract.Policy.FromToml
import CallContract.Policy.FromYaml
import CallContract.Policy.Reading
import CallContract.Reader
import CallContract.Samples.Constraints
import CallContract.Samples.Functions
import CallContract.Samples.Generator
import CallContract.Samples.Random
import CallContract.Samples.Values
import CallContract.Session
import CallContract.Signature
import CallContract.Text.Blank
import CallContract.Text.Listed
import CallContract.Text.Quoted
import CallContract.Text.Unprintable
import CallContract.Toml.Basic
import CallContract.Toml.Document
import CallContract.Toml.Scalar
import CallContract.Toml.Statement
import CallContract.Value.Basic
import CallContract.Value.Equality
import CallContract.Value.Order
import CallContract.Value.Printer
import CallContract.Value.Sequence
import CallContract.Value.ValueType
import CallContract.Yaml.Cursor
import CallContract.Yaml.Node
import CallContract.Yaml.Scalar
import CallContract.Yaml.Token
import CallContract.Proofs.Values.Order
import CallContract.Proofs.Values.DistinctKeys
import CallContract.Proofs.Values.Equality
import CallContract.Proofs.Constraints.Compiled
import CallContract.Proofs.Constraints.Meaning
import CallContract.Proofs.Constraints.Support
import CallContract.Proofs.Constraints.Grammar
import CallContract.Proofs.Checks.Growth
import CallContract.Proofs.Contracts.Enforcement
import CallContract.Proofs.Contracts.Support
import CallContract.Proofs.Binding.Outcome
import CallContract.Proofs.Binding.Steps
import CallContract.Proofs.Binding.FirstDefect
import CallContract.Proofs.Binding.Attribution
import CallContract.Proofs.Binding.Conservation
import CallContract.Proofs.Binding.ByName
import CallContract.Proofs.Values.StrictOrder
import CallContract.Proofs.Contracts.Certificates
import CallContract.Proofs.Contracts.Modes
import CallContract.Proofs.Contracts.ByName
import CallContract.Proofs.Console.Lines
import CallContract.Proofs.Console.Calls
import CallContract.Proofs.Sessions.Runs
import CallContract.Proofs.Signatures.Declarable
import CallContract.Proofs.Checks.EqualValues
import CallContract.Proofs.Binding.KeywordOrder
import CallContract.Proofs.Checks.Nested
import CallContract.Proofs.Contracts.KeywordOrder
import CallContract.Proofs.Binding.Extension
import CallContract.Proofs.Constraints.Problems
import CallContract.Proofs.Contracts.Registration
import CallContract.Proofs.Numbers.Exact
import CallContract.Proofs.Texts.Delimited
import CallContract.Proofs.Numbers.ReadBack
import CallContract.Proofs.Texts.Quotes
import CallContract.Proofs.Values.Text
import CallContract.Proofs.Failures.Messages
import CallContract.Proofs.Checks.Text
import CallContract.Proofs.Failures.Repr
import CallContract.Proofs.Console.Names
import CallContract.Proofs.Constraints.Text
import CallContract.Proofs.Policies.Updates
import CallContract.Proofs.Values.Access
import CallContract.Proofs.Samples.IncreasingLists
