import NameRoles.Classify.Identifiers
import NameRoles.Document.Load
import NameRoles.Json.Writer
import NameRoles.Proofs.Classification
import NameRoles.Proofs.DepthLimit
import NameRoles.Proofs.Destructuring
import NameRoles.Proofs.Faults
import NameRoles.Proofs.Irrelevance
import NameRoles.Proofs.KeyPaths
import NameRoles.Proofs.LoadedNodes
import NameRoles.Proofs.Locality
import NameRoles.Proofs.NodeObjects
import NameRoles.Proofs.Outcome
import NameRoles.Proofs.Positions
import NameRoles.Proofs.Rearrangement
import NameRoles.Proofs.Rendering
import NameRoles.Proofs.Rules
import NameRoles.Proofs.ScalarTexts
import NameRoles.Proofs.Serialization
import NameRoles.Proofs.Strictness
import NameRoles.Proofs.TextLoading
import NameRoles.Proofs.VisitOrder
import NameRoles.Proofs.Wrapping
import NameRoles.Proofs.ClassificationLog
import NameRoles.Proofs.EarlyExit
import NameRoles.Proofs.Relabelling
import NameRoles.Proofs.LoadingLog
import NameRoles.Proofs.MemberOrder
import NameRoles.Proofs.SlotOrder
import NameRoles.Proofs.TypeLevel
import NameRoles.Proofs.DottedNames
import NameRoles.Proofs.FaithfulNames
