import Trelyan.Lib.BigEndian
import Trelyan.Lib.Except
import Trelyan.Lib.BoxMap
import Trelyan.Lib.Atomic
import Trelyan.Lib.Lifecycle
import Trelyan.Lib.Asa.Basic
import Trelyan.Lib.Asa.Custody
import Trelyan.Lib.Python
import Trelyan.Lib.JsonRoundTrip
import Trelyan.Lib.JsonEqual
import Trelyan.Lib.PyText
import Trelyan.Lib.Faults
import Trelyan.Lib.FileSystem
import Trelyan.Contract.Types
import Trelyan.Contract.Methods
import Trelyan.Contract.Approval
import Trelyan.Contract.Chain
import Trelyan.Contract.Invariant
import Trelyan.Contract.Cells
import Trelyan.Contract.Provenance
import Trelyan.Contract.Acceptance
import Trelyan.Contract.Custody
import Trelyan.Contract.Footprint
import Trelyan.Sdk.Message
import Trelyan.Sdk.Boxes
import Trelyan.Sdk.Client
import Trelyan.Ct.SessionVerdict
import Trelyan.Ct.Symmetry
import Trelyan.Ct.Crops
import Trelyan.Ct.IndexSafety
import Trelyan.Falcon.Core
import Trelyan.Falcon.Rejection
import Trelyan.Falcon.Signer
import Trelyan.Falcon.Sizes
import Trelyan.Falcon.Bindings
import Trelyan.Falcon.Streaming
import Trelyan.Falcon.DetSign
import Trelyan.Falcon.Modp
import Trelyan.Seal.Atomicity
import Trelyan.Seal.Durability
import Trelyan.Seal.Contract
import Trelyan.Seal.BadBuild
import Trelyan.Seal.Wipe
import Trelyan.Sdk.Reader
import Trelyan.Sdk.OnChain
import Trelyan.Teal.Check
import Trelyan.Pin.Binding
