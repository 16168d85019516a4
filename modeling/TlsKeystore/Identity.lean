/-
Identities: a key and the certificate that binds it to a name.
-/
import TlsKeystore.Rsa.Generate
import TlsKeystore.X509.Issue

namespace TlsKeystore

/-- A private key, its PKCS#8 octets, and a certificate for it. -/
structure Identity where
  privateKey : PrivateKey
  key : Bytes
  certificate : Bytes
deriving DecidableEq, Repr

/-- Why no identity is made. A key that was drawn has an encoding and is taken back
from it, since any other is passed over and drawn again (`PrivateKey.drawKey?`), and
octets for a serial number are always there: so there is no error for encoding a key,
for loading it, or for drawing a number. -/
inductive IdentityFailure where
  | noKey
  | issue (why : IssueFailure)
deriving DecidableEq, Repr

def IdentityFailure.message : IdentityFailure → String
  | .noKey => "Failed to generate RSA key"
  | .issue why => why.message

namespace Identity

/-- A new key and a certificate for it that is valid from a day before `now`. With
both bounds given, the clock of the request is not asked. -/
def generate (commonName : String) (subject : SubjectTemplate) (now : Instant) :
    Draw (Except IdentityFailure Identity) := do
  match ← PrivateKey.generate? with
  | none => return .error .noKey
  | some k =>
    let random ← Draw.octets CertificateRequest.serialLength
    let request : CertificateRequest :=
      { commonName, subject
        notBefore := some (now.later (-CertificateRequest.backdate))
        notAfter := some (now.later CertificateRequest.validity) }
    match (request.terms now random).selfSign k with
    | .error why => return .error (.issue why)
    | .ok certificate => return .ok ⟨k, k.encode, certificate⟩

end Identity
end TlsKeystore
