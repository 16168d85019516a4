/-
From the bags of a bundle to its entries.

Every key is paired with the first certificate of equal identifier, and
the certificates of its issuers are appended, found by name. Certificates
that are trusted and carry no identifier are entries of their own. Entries
stand under an alias each, in order of the aliases, and a later one
replaces an earlier one.

Only the order of the keys among themselves and of the certificates among
themselves counts: `entries` looks at the two lists, and never at how bags
of the two kinds stand to each other.
-/
import TlsKeystore.Pkcs12.Bag

namespace TlsKeystore.Pkcs12

/-- What stands under an alias: a key and its certificates, the leaf first, or a
certificate alone. -/
inductive Entry where
  | keyChain (key : Bytes) (chain : List Bytes)
  | certificate (der : Bytes)
deriving DecidableEq, Repr

/-- A certificate of a bundle with what its bag says. -/
abbrev LabelledCertificate := BagCertificate × Labels

/-- A key of a bundle with what its bag says. -/
abbrev LabelledKey := Bytes × Labels

/-- The keys among bags. -/
def keys (bags : List Bag) : List LabelledKey :=
  bags.filterMap fun
    | .key der labels => some (der, labels)
    | .certificate _ _ => none

/-- The certificates among bags. -/
def certificates (bags : List Bag) : List LabelledCertificate :=
  bags.filterMap fun
    | .key _ _ => none
    | .certificate cert labels => some (cert, labels)

-- ================================================================== chains

/-- The certificates above one with the given issuer, up to the first that issued
itself. The leaf's own subject is no issuer. A chain is no longer than there
are certificates. -/
def issuers (all : List LabelledCertificate) (leaf : String) :
    (steps : Nat) → (issuer : String) → List BagCertificate
  | 0, _ => []
  | steps + 1, issuer =>
    match all.find? fun (c, l) => !l.trusted && c.subject == issuer && c.subject != leaf with
    | none => []
    | some (c, _) =>
      if c.subject = c.issuer then [c] else c :: issuers all leaf steps c.issuer

/-- The entry of a key, under its alias; none where the key has no identifier, or
no certificate has the same. -/
def entryOfKey? (all : List LabelledCertificate) (k : LabelledKey) : Option (String × Entry) := do
  let (der, labels) := k
  let id ← labels.keyId
  let (leaf, _) ← all.find? fun (_, l) => l.keyId = some id
  let above := issuers all leaf.subject all.length leaf.issuer
  some (labels.name.getD leaf.subject, .keyChain der ((leaf :: above).map (·.der)))

/-- The entry of a certificate that is trusted and belongs to no key. -/
def entryOfCertificate? (c : LabelledCertificate) : Option (String × Entry) :=
  let (cert, labels) := c
  if labels.keyId = none ∧ labels.trusted then
    some (labels.name.getD cert.subject, .certificate cert.der)
  else none

-- ================================================================= entries

/-- Puts an entry under an alias, in order of the aliases. -/
def insert (label : String) (e : Entry) : List (String × Entry) → List (String × Entry)
  | [] => [(label, e)]
  | (a, old) :: rest =>
    if label < a then (label, e) :: (a, old) :: rest
    else if label = a then (label, e) :: rest
    else (a, old) :: insert label e rest

/-- The entries of keys and certificates, keys first. -/
def entriesOf (keys : List LabelledKey) (certs : List LabelledCertificate) :
    List (String × Entry) :=
  (keys.filterMap (entryOfKey? certs) ++ certs.filterMap entryOfCertificate?).foldl
    (fun entries (label, e) => insert label e entries) []

/-- The entries of a bundle's bags, in order of their aliases. -/
def entries (bags : List Bag) : List (String × Entry) :=
  entriesOf (keys bags) (certificates bags)

end TlsKeystore.Pkcs12
