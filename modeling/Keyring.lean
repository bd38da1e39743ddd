import Keyring.Key.Generate
import Keyring.KeySet.Load
import Keyring.KeySet.Store
import Keyring.Proofs.Cipher.Blocks
import Keyring.Proofs.Cipher.Inverse
import Keyring.Proofs.Cipher.Chain
import Keyring.Proofs.Format.BigEndian
import Keyring.Proofs.Format.Padding
import Keyring.Proofs.Text.Web64
import Keyring.Proofs.Text.Canonical
import Keyring.Proofs.Json.Numeral
import Keyring.Proofs.Json.Token
import Keyring.Proofs.Json.Node
import Keyring.Proofs.Record.Layout
import Keyring.Proofs.Record.Schema
import Keyring.Proofs.Rsa.Primitive
import Keyring.Proofs.Envelope
import Keyring.Proofs.Key.Obtained
import Keyring.Proofs.Key.Checked
import Keyring.Proofs.Key.SymmetricEnvelope
import Keyring.Proofs.Key.SymmetricAuthenticity
import Keyring.Proofs.Key.RsaSignature
import Keyring.Proofs.Key.RecordText
import Keyring.Proofs.Key.ForeignRecord
import Keyring.Proofs.KeySet.Load
import Keyring.Proofs.KeySet.Routing
import Keyring.Proofs.Modular
import Keyring.Proofs.Rsa.Genuine
import Keyring.Proofs.Prime
import Keyring.Proofs.Rsa.Oaep
import Keyring.Proofs.Key.RsaGenuine
import Keyring.Proofs.Dsa.Primitive
import Keyring.Proofs.Key.RsaEnvelope
import Keyring.Proofs.Format.Der
import Keyring.Proofs.Key.DsaSignature
import Keyring.Proofs.Key.DsaVerification
import Keyring.Proofs.Key.Fingerprint
import Keyring.Proofs.Key.Reachable
import Keyring.Proofs.KeySet.Families
import Keyring.Proofs.Json.Reading
import Keyring.Proofs.Record.Rewriting
import Keyring.Proofs.Record.Variants
import Keyring.Proofs.Key.RecordVariants
import Keyring.Proofs.Rsa.Restoring
import Keyring.Proofs.Key.RsaRestoring
import Keyring.Proofs.Dsa.Generator
import Keyring.Proofs.Key.DsaGenerator
import Keyring.Proofs.Key.RsaNumbers
import Keyring.Proofs.Key.RsaCrtValues
import Keyring.Proofs.Key.Generated
import Keyring.Proofs.Format.Pack
import Keyring.Proofs.Format.PackCount
import Keyring.Proofs.KeyType
import Keyring.Proofs.Key.SymmetricMaking
import Keyring.Proofs.Json.Ends
import Keyring.Proofs.Key.RecordExtent
import Keyring.Proofs.Record.Items
import Keyring.Proofs.Record.Change
import Keyring.Proofs.Record.Sizes
import Keyring.Proofs.Key.DeclaredSizes
