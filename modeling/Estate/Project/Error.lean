import Estate.Deployment.Order
import Estate.Policy.Index
import Estate.Storage.Error

/-! Why an operation on a project fails, by the layer in which it does. -/
namespace Estate.Project
open Storage Policy Deployment

inductive ProjectError where
  | topology (cause : StoreError)
  | policy (cause : PolicyError)
  | deployment (cause : OrderError)
  | unreadableSettings (path : String)
  | malformedSettings (path : String)
deriving DecidableEq

namespace ProjectError

/-- The wording of the cause below the layer, where there is one. -/
def cause? : ProjectError → Option String
  | topology cause => some cause.message
  | policy cause => some cause.message
  | deployment cause => some cause.message
  | unreadableSettings _ | malformedSettings _ => none

/-- The wording of an error, which starts with the layer. -/
def message : ProjectError → String
  | topology cause => "topology error: " ++ cause.message
  | policy cause => "policy error: " ++ cause.message
  | deployment cause => "deployment error: " ++ cause.message
  | unreadableSettings path => s!"I/O error at {path}: the files refuse it"
  | malformedSettings path => s!"failed to parse config {path}: not such a document"

end ProjectError
end Estate.Project
