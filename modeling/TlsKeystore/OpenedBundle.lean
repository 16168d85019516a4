/-
The contents of an opened bundle, and their summary.

An opened bundle is an alias, a key and a certificate, the latter two as
octets. The summary reads the certificate once and collects what an
operator looks at; it fails with the first of its questions that has no
answer. `Summary.text` is the form in which it is shown.
-/
import TlsKeystore.X509.Inspect
import TlsKeystore.Rsa.PrivateKey

namespace TlsKeystore

/-- What a bundle holds: the name of its entry, a PKCS#8 key, a certificate. -/
structure OpenedBundle where
  label : String
  key : Bytes
  certificate : Bytes
deriving DecidableEq, Repr

/-- Why a bundle has no summary. -/
inductive SummaryFailure where
  | certificate (why : InspectFailure)
  | privateKey
deriving DecidableEq, Repr

def SummaryFailure.message : SummaryFailure → String
  | .certificate why => why.message
  | .privateKey => "Failed to decode private key"

/-- What an operator looks at. -/
structure Summary where
  label : String
  commonName : Option String
  selfIssued : Bool
  serial : String
  notBefore : Timestamp
  notAfter : Timestamp
  ca : Option CaConstraint
  signatureAlgorithm : String
  keyMatches : Bool
deriving DecidableEq, Repr

namespace OpenedBundle

/-- Whether the key is a private key with these public numbers. -/
def keyMatchesOctets (b : OpenedBundle) (k : RsaPublicOctets) : Except SummaryFailure Bool :=
  match PrivateKey.decode? b.key with
  | none => .error .privateKey
  | some key =>
    .ok (Bytes.ofNat key.modulus == k.modulus && Bytes.ofNat key.publicExponent == k.exponent)

/-- Whether the key is the one that the certificate was issued for. -/
def keyMatches (b : OpenedBundle) : Except SummaryFailure Bool := do
  let k ← (Inspect.rsaPublicKey b.certificate).mapError .certificate
  b.keyMatchesOctets k

/-- The summary, from one reading of the certificate. -/
def summary (b : OpenedBundle) : Except SummaryFailure Summary := do
  let c ← (Inspect.ask .ok b.certificate).mapError .certificate
  let k ← c.rsaPublicKey.mapError .certificate
  let commonName ← c.commonName.mapError .certificate
  let ca ← c.caConstraint.mapError .certificate
  let keyMatches ← b.keyMatchesOctets k
  return { label := b.label, commonName, selfIssued := c.selfIssued, serial := c.serialHex,
           notBefore := c.notBefore, notAfter := c.notAfter, ca,
           signatureAlgorithm := c.signatureAlgorithmText, keyMatches }

end OpenedBundle

-- ==================================================================== text

namespace Summary

/-- The constraint on one line. -/
def constraintText : Option CaConstraint → String
  | none => "<absent>"
  | some c =>
    let length := match c.pathLength with
      | none => "unconstrained"
      | some n => toString n
    "ca=" ++ toString c.authority ++ " path_len=" ++ length ++ " critical=" ++ toString c.critical

/-- One line for each field, without a line end after the last. -/
def text (s : Summary) : String :=
  "\n".intercalate
    ["alias:            " ++ s.label,
      "common name:      " ++ s.commonName.getD "<none>",
      "self-issued:      " ++ toString s.selfIssued,
      "serial:           " ++ s.serial,
      "not before:       " ++ s.notBefore.text,
      "not after:        " ++ s.notAfter.text,
      "basic constraints: " ++ constraintText s.ca,
      "signature:        " ++ s.signatureAlgorithm,
      "key matches cert: " ++ toString s.keyMatches]

end Summary
end TlsKeystore
