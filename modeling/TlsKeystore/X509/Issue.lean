/-
Issuing certificates that are signed by their own key.

A `CertificateRequest` may leave the validity and the serial number open;
`CertificateRequest.terms` settles them from the clock and random octets.
`CertificateTerms.selfSign` writes the certificate: issuer and subject are
the same name, the serial number is the least INTEGER for its octets, and
an authority carries a key identifier and the basic constraints.
-/
import TlsKeystore.X509.Inspect
import TlsKeystore.Rsa.Signature

namespace TlsKeystore

/-- An instant, in nanoseconds since 1970. -/
structure Instant where
  nanos : Int
deriving DecidableEq, Repr

namespace Instant

def perSecond : Int := 1000000000

def ofSeconds (s : Int) : Instant := ⟨s * perSecond⟩

/-- Whole seconds since 1970, rounded down. -/
def seconds (t : Instant) : Int := t.nanos / perSecond

/-- The instant so many seconds later. -/
def later (t : Instant) (s : Int) : Instant := ⟨t.nanos + s * perSecond⟩

end Instant

/-- The attributes that the subjects of all certificates share. -/
structure SubjectTemplate where
  orgUnit : String
  organization : String
  locality : String
  state : String
  country : String
deriving DecidableEq, Repr

namespace SubjectTemplate

def standard : SubjectTemplate where
  orgUnit := "Lab3"
  organization := "DistributedSystems"
  locality := "Moscow"
  state := "Moscow"
  country := "RU"

/-- The attributes of a subject, in the order of the name. -/
def attributes (s : SubjectTemplate) (commonName : String) : List (Oid × String) :=
  [(NameAttribute.commonName, commonName), (NameAttribute.orgUnit, s.orgUnit),
    (NameAttribute.organization, s.organization), (NameAttribute.locality, s.locality),
    (NameAttribute.state, s.state), (NameAttribute.country, s.country)]

end SubjectTemplate

/-- What a certificate shall say. -/
structure CertificateTerms where
  commonName : String
  subject : SubjectTemplate
  notBefore : Instant
  notAfter : Instant
  serial : Bytes
  ca : Bool
deriving DecidableEq, Repr

/-- What a certificate shall say, with the validity and the serial number open
where they are not given. -/
structure CertificateRequest where
  commonName : String
  subject : SubjectTemplate := .standard
  notBefore : Option Instant := none
  notAfter : Option Instant := none
  serial : Option Bytes := none
  ca : Bool := true
deriving DecidableEq, Repr

-- ========================================================== open questions

namespace CertificateRequest

/-- How far the validity reaches back, against clocks that differ: a day. -/
def backdate : Int := 24 * 60 * 60

/-- How long a certificate is valid: five years of 365 days. -/
def validity : Int := 5 * 365 * 24 * 60 * 60

/-- The length of a random serial number. -/
def serialLength : Nat := 20

/-- Random octets as a serial number: with the top bit clear, they denote the same
number with and without a sign. -/
def positiveSerial : Bytes → Bytes
  | [] => []
  | x :: rest => (x &&& 0x7F) :: rest

/-- Settles what is open, from the clock and random octets. -/
def terms (r : CertificateRequest) (now : Instant) (random : Bytes) : CertificateTerms where
  commonName := r.commonName
  subject := r.subject
  notBefore := r.notBefore.getD (now.later (-backdate))
  notAfter := r.notAfter.getD (now.later validity)
  serial := r.serial.getD (positiveSerial random)
  ca := r.ca

end CertificateRequest

-- ================================================================= writing

/-- Why no certificate is made. A date in no year that can be written is no error that
a caller is told of: the whole run breaks off there. So that issuing has a result for
all dates, it stands among the failures, with a message of its own. -/
inductive IssueFailure where
  | dateOutOfRange
  | unsigned
deriving DecidableEq, Repr

def IssueFailure.message : IssueFailure → String
  | .dateOutOfRange => "Certificate date out of range"
  | .unsigned => "Failed to self-sign certificate"

namespace CertificateTerms

def keyIdentifier : Oid := .ofArcs [2, 5, 29, 14]

/-- The signature algorithm, with the NULL that belongs to it. -/
def algorithm : Bytes := Der.sequence [Der.oid Signature.sha256WithRsa, Der.null]

/-- The public part of a key under its algorithm. -/
def publicKeyInfo (k : PrivateKey) : Bytes :=
  Der.sequence [Der.sequence [Der.oid PrivateKey.rsaEncryption, Der.null],
    Der.bitString (Der.sequence [Der.natural k.modulus, Der.natural k.publicExponent])]

/-- The extensions of an authority: the first octets of the digest of its public
key, and that it may issue. -/
def authorityExtensions (k : PrivateKey) : Bytes :=
  let identifier := (Sha256.sha256.digest (publicKeyInfo k)).take 20
  Der.wrap (Tag.explicit 3) [Der.sequence
    [Der.sequence [Der.oid keyIdentifier, Der.octetString (Der.octetString identifier)],
      Der.sequence [Der.oid Certificate.basicConstraints, Der.boolean true,
        Der.octetString (Der.sequence [Der.boolean true])]]]

/-- The octets to be signed; none where a bound of the validity cannot be
written. -/
def toSign? (t : CertificateTerms) (k : PrivateKey) : Option Bytes := do
  let notBefore ← X509Time.encode? t.notBefore.seconds
  let notAfter ← X509Time.encode? t.notAfter.seconds
  let name := Name.encode (t.subject.attributes t.commonName)
  some (Der.sequence
    [Der.wrap (Tag.explicit 0) [Der.natural 2], Der.natural (Bytes.toNat t.serial), algorithm,
      name, Der.sequence [notBefore, notAfter], name, publicKeyInfo k,
      if t.ca then authorityExtensions k else []])

/-- The certificate, signed by the key that it is for. There is none for which there
can be no room. -/
def selfSign (t : CertificateTerms) (k : PrivateKey) : Except IssueFailure Bytes :=
  match t.toSign? k with
  | none => .error .dateOutOfRange
  | some signed =>
    match Signature.sign? k signed with
    | none => .error .unsigned
    | some signature =>
      let certificate := Der.sequence [signed, algorithm, Der.bitString signature]
      if certificate.length ≤ Bytes.maxLength then .ok certificate else .error .unsigned

end CertificateTerms
end TlsKeystore
