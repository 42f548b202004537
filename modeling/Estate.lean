import Estate.Catalogue
import Estate.Main
import Estate.Storage.Volume
import Estate.Proofs.Compartment.Ascent
import Estate.Proofs.Compartment.Building
import Estate.Proofs.Compartment.Rearrangement
import Estate.Proofs.Compartment.Chain
import Estate.Proofs.Compartment.Preorder
import Estate.Proofs.Topology.Validation
import Estate.Proofs.Deployment.Path
import Estate.Proofs.Deployment.Rounds
import Estate.Proofs.Deployment.Dependency
import Estate.Proofs.Deployment.Layering
import Estate.Proofs.Deployment.Refusal
import Estate.Proofs.Deployment.Checked
import Estate.Proofs.Deployment.Safety
import Estate.Proofs.Deployment.Completeness
import Estate.Proofs.Resolution.Election
import Estate.Proofs.Resolution.Winners
import Estate.Proofs.Resolution.Inheritance
import Estate.Proofs.Resolution.Noninterference
import Estate.Proofs.Storage.Reading
import Estate.Proofs.Command.Gate
import Estate.Proofs.Command.Outline
import Estate.Proofs.Resolution.Suppression
import Estate.Proofs.Document.RoundTrip
import Estate.Proofs.Document.Alteration
import Estate.Proofs.Deployment.Naming
import Estate.Proofs.Deployment.Part
import Estate.Proofs.Topology.Reordering
import Estate.Proofs.Storage.Steps
import Estate.Proofs.Storage.Directories
import Estate.Proofs.Storage.Saving
import Estate.Proofs.Resolution.Reporting
import Estate.Proofs.Resolution.Draft
import Estate.Proofs.Compartment.Elevation
import Estate.Proofs.Resolution.Elevation
import Estate.Proofs.Resolution.Placement
import Estate.Proofs.Policy.Substitution
import Estate.Proofs.Policy.Instantiation
import Estate.Proofs.Policy.Merging
import Estate.Proofs.Resolution.Account
import Estate.Proofs.Deployment.Precedence
import Estate.Proofs.Deployment.Supply
import Estate.Proofs.Storage.Listing
import Estate.Proofs.Storage.Confinement
