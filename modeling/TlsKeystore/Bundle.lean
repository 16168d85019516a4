/-
Locking an identity into a bundle, and unlocking bundles.

A bundle is unlocked to one alias, one key and one certificate. `walk` goes
through the entries in order of their aliases and stops at the first that
does not fit: an entry without a key, a second entry, a chain that is not
a single certificate.
-/
import TlsKeystore.Identity
import TlsKeystore.OpenedBundle
import TlsKeystore.Pkcs12.Entries
import TlsKeystore.Pkcs12.Writer

namespace TlsKeystore

/-- Why a bundle cannot be opened. -/
inductive OpenFailure where
  | unreadable (defect : Pkcs12.Defect)
  | notAKey (label : String)
  | severalKeys
  | chainLength (found : Nat)
  | noKey
deriving DecidableEq, Repr

def OpenFailure.message : OpenFailure → String
  | .unreadable d => "Failed to open PKCS#12 bundle: " ++ d.name
  | .notAKey label => "Unexpected non-key entry " ++ label ++ " in bundle"
  | .severalKeys => "Expected one private key in bundle, found several"
  | .chainLength n => "Expected one certificate in bundle, found " ++ toString n
  | .noKey => "Expected one private key in bundle, found none"

/-- Why an identity cannot be locked into a bundle. -/
inductive LockFailure where
  | certificate
  | build (defect : Pkcs12.Defect)
deriving DecidableEq, Repr

def LockFailure.message : LockFailure → String
  | .certificate => "Failed to load certificate into keystore: " ++ Pkcs12.Defect.certificate.name
  | .build d => "Failed to build PKCS#12 bundle: " ++ d.name

namespace Bundle

open Pkcs12

/-- The bundle of an identity, under an alias and a password. -/
def lock (identity : Identity) (name password : String) (salts : Salts) :
    Except LockFailure Bytes :=
  (Writer.write identity.key identity.certificate name password salts).mapError fun
    | .certificate => .certificate
    | d => .build d

/-- Takes the single key entry with a single certificate. `found` is what the
entries before these gave. -/
def walk : (found : Option OpenedBundle) → List (String × Entry) → Except OpenFailure OpenedBundle
  | none, [] => .error .noKey
  | some b, [] => .ok b
  | _, (label, .certificate _) :: _ => .error (.notAKey label)
  | some _, (_, .keyChain _ _) :: _ => .error .severalKeys
  | none, (label, .keyChain key [certificate]) :: rest => walk (some ⟨label, key, certificate⟩) rest
  | none, (_, .keyChain _ chain) :: _ => .error (.chainLength chain.length)

/-- The bags of a bundle, in the order in which they stand. -/
def bags (der : Bytes) (password : String) : Except Defect (List Bag) := do
  let p ← orDefect .encoding (Pfx.ofBytes? der)
  p.bags password

/-- The one key and the one certificate of a bundle. -/
def unlock (der : Bytes) (password : String) : Except OpenFailure OpenedBundle := do
  let bags ← (bags der password).mapError .unreadable
  walk none (entries bags)

end Bundle
end TlsKeystore
