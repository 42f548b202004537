import Estate.Deployment.Preview
import Estate.Project.Settings
import Estate.Resolution.Trace

/-! The catalogue of documents: every type that can be read and written, with its values and its
schema. -/
namespace Estate
open Document

/-- The types of documents. -/
inductive DocumentType where
  | severity | effect | variableType
  | statement | policyVariable | definition | library
  | libraryAttachment | inlineAttachment | attachment | compartment
  | stack | parameter | blueprint | snapshot
  | policySource | resolvedPolicy | outcome | step | ignoredOverride | trace
  | order | parameterSource | resolvedParameter | stackResolution | preview
  | outputFormat | settings | config
deriving DecidableEq

namespace DocumentType

/-- The values of a type, and how they are written and read. -/
def description : DocumentType → (α : Type) × Schema α
  | severity => ⟨_, .word Policy.Severity.vocabulary⟩
  | effect => ⟨_, .word Policy.Effect.vocabulary⟩
  | variableType => ⟨_, .word Policy.VariableType.vocabulary⟩
  | statement => ⟨_, Policy.Statement.schema⟩
  | policyVariable => ⟨_, Policy.Variable.schema⟩
  | definition => ⟨_, Policy.Definition.schema⟩
  | library => ⟨_, Policy.Library.schema⟩
  | libraryAttachment => ⟨_, LibraryAttachment.schema⟩
  | inlineAttachment => ⟨_, InlineAttachment.schema⟩
  | attachment => ⟨_, Attachment.schema⟩
  | compartment => ⟨_, Compartment.schema⟩
  | stack => ⟨_, Deployment.Stack.schema⟩
  | parameter => ⟨_, Deployment.Parameter.schema⟩
  | blueprint => ⟨_, Deployment.Blueprint.schema⟩
  | snapshot => ⟨_, Snapshot.schema⟩
  | policySource => ⟨_, .word Resolution.Source.vocabulary⟩
  | resolvedPolicy => ⟨_, Resolution.ResolvedPolicy.schema⟩
  | outcome => ⟨_, Resolution.Outcome.schema⟩
  | step => ⟨_, Resolution.Step.schema⟩
  | ignoredOverride => ⟨_, Policy.IgnoredOverride.schema⟩
  | trace => ⟨_, Resolution.Trace.schema⟩
  | order => ⟨_, Deployment.Order.schema⟩
  | parameterSource => ⟨_, .word Deployment.ParameterSource.vocabulary⟩
  | resolvedParameter => ⟨_, Deployment.ResolvedParameter.schema⟩
  | stackResolution => ⟨_, Deployment.StackResolution.schema⟩
  | preview => ⟨_, Deployment.Preview.schema⟩
  | outputFormat => ⟨_, .word Project.OutputFormat.vocabulary⟩
  | settings => ⟨_, Project.Settings.schema⟩
  | config => ⟨_, Project.Config.schema⟩

abbrev Carrier (t : DocumentType) : Type := t.description.1

def schema (t : DocumentType) : Schema t.Carrier := t.description.2

/-- A document of a type as it is written after it was read, if it can be read. -/
def canonical? (t : DocumentType) (n : Node) : Option Node :=
  (t.schema.read .json n).map t.schema.write

end DocumentType
end Estate
