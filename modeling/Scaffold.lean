import Scaffold.Main
import Scaffold.Proofs.Bindings
import Scaffold.Proofs.References
import Scaffold.Proofs.Success
import Scaffold.Proofs.Locality
import Scaffold.Proofs.Order
import Scaffold.Proofs.Atomicity
import Scaffold.Proofs.Delivery
import Scaffold.Proofs.Defects
import Scaffold.Proofs.Sufficiency
import Scaffold.Proofs.Decoding
import Scaffold.Proofs.Records
import Scaffold.Proofs.Encoding
import Scaffold.Proofs.Properties
import Scaffold.Proofs.Keys
import Scaffold.Proofs.Inputs
import Scaffold.Proofs.Configurations
import Scaffold.Proofs.Separation
import Scaffold.Proofs.Descriptions
import Scaffold.Proofs.Manifest
import Scaffold.Proofs.Comments
import Scaffold.Proofs.Ways
import Scaffold.Proofs.DefaultClient
import Scaffold.Proofs.PackageImport
import Scaffold.Proofs.Acceptance
import Scaffold.Proofs.Delegates
import Scaffold.Proofs.KeyFields
import Scaffold.Proofs.Agreement
import Scaffold.Proofs.Precedence
import Scaffold.Proofs.Facets
import Scaffold.Proofs.Cleaning
import Scaffold.Proofs.UniqueIndexes
import Scaffold.Proofs.ImportLines
