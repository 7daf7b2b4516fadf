import Variants.CommandLine.Run
import Variants.Main
import Variants.Proofs.OrderedMap
import Variants.Proofs.Tuple
import Variants.Proofs.Dimension
import Variants.Proofs.Declaration
import Variants.Proofs.Narrowing
import Variants.Proofs.Reachable
import Variants.Proofs.GenerationOrder
import Variants.Proofs.Generation
import Variants.Proofs.Filtering
import Variants.Proofs.Containment
import Variants.Proofs.Locality
import Variants.Proofs.Passes
import Variants.Proofs.Resolution
import Variants.Proofs.Composition
import Variants.Proofs.Naming
import Variants.Proofs.Pinning
import Variants.Proofs.RoundTrip
import Variants.Proofs.Evaluation
import Variants.Proofs.Annotation
import Variants.Proofs.Noninterference
import Variants.Proofs.PassThrough
import Variants.Proofs.FailingPlaceholder
import Variants.Proofs.Stripping
import Variants.Proofs.Flattening
import Variants.Proofs.DeclaredOrder
import Variants.Proofs.Exhaustion
import Variants.Proofs.Relay
import Variants.Proofs.RenderedNodes
import Variants.Proofs.DependencyOrder
import Variants.Proofs.Intersection
import Variants.Proofs.Satisfaction
import Variants.Proofs.Shrinking
import Variants.Proofs.Failure
import Variants.Proofs.JsonText
import Variants.Proofs.Extension
import Variants.Proofs.Views
import Variants.Proofs.PostOrder
