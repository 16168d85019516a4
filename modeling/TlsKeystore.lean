import TlsKeystore.Asn1.Outline
import TlsKeystore.Main
import TlsKeystore.Proofs.Bundle
import TlsKeystore.Proofs.Commands
import TlsKeystore.Proofs.Disclosure
import TlsKeystore.Proofs.Footprint
import TlsKeystore.Proofs.Handwritten
import TlsKeystore.Proofs.Inspectable
import TlsKeystore.Proofs.KeyMatch
import TlsKeystore.Proofs.Plane
import TlsKeystore.Proofs.Provision
import TlsKeystore.Proofs.Regrouped
import TlsKeystore.Proofs.Resolve
import TlsKeystore.Proofs.Selection
import TlsKeystore.Proofs.Serial
import TlsKeystore.Proofs.Skipped
import TlsKeystore.Proofs.SummaryText
import TlsKeystore.Proofs.Template
import TlsKeystore.Proofs.Validity
import TlsKeystore.Proofs.Walk
import TlsKeystore.Proofs.Whole
import TlsKeystore.Proofs.X509.Extent
import TlsKeystore.Proofs.X509.Signed
