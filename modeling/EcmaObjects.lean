import EcmaObjects.CommandLine.Run
import EcmaObjects.ForBinding
import EcmaObjects.Main
import EcmaObjects.Proofs.AdapterClose
import EcmaObjects.Proofs.Extensible
import EcmaObjects.Proofs.Key
import EcmaObjects.Proofs.Lineage
import EcmaObjects.Proofs.Permanent
import EcmaObjects.Proofs.Array
import EcmaObjects.Proofs.Propagation
import EcmaObjects.Proofs.PropertyOrder
import EcmaObjects.Proofs.Refusal
import EcmaObjects.Proofs.Validation
import EcmaObjects.Proofs.Reading
import EcmaObjects.Proofs.Adapter
import EcmaObjects.Proofs.Completeness
import EcmaObjects.Proofs.Writing
import EcmaObjects.Proofs.ElementDefinition
import EcmaObjects.Proofs.Draining
import EcmaObjects.Proofs.Thenables
import EcmaObjects.Proofs.Ancestry
import EcmaObjects.Proofs.Tag
import EcmaObjects.Proofs.Storage
import EcmaObjects.Proofs.Wrapper
import EcmaObjects.Proofs.AdapterThrow
import EcmaObjects.Proofs.CommandLine.Iterating
