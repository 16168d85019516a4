/-
Bundles that were cut, or that go on.

A bundle is one element, and an element says itself where it ends. So
octets of which all are a bundle are the beginning of no other bundle,
and no beginning of theirs is one (`Pfx.eq_of_isPrefix`). Whoever opens
what is left of a bundle, or a bundle with something behind it, is told so
before the password is asked for anything.
-/
import TlsKeystore.Proofs.WrongPassword

namespace TlsKeystore

namespace Pkcs12

/-- A bundle is one element. -/
theorem Pfx.readOne?_of_ofBytes? {b : Bytes} {pfx : Pfx}
    (h : ofBytes? b = some pfx) : ∃ e, Der.readOne? b = some e := by
  unfold ofBytes? at h
  obtain ⟨e, hone, -⟩ := Option.bind_eq_some_iff.mp h
  exact ⟨e, hone⟩

/-- Of two bundles of which one begins the other there is only one. -/
theorem Pfx.eq_of_isPrefix {b b' : Bytes} {pfx pfx' : Pfx}
    (h : ofBytes? b = some pfx) (h' : ofBytes? b' = some pfx')
    (hfront : b <+: b') : b = b' := by
  obtain ⟨_, hone⟩ := readOne?_of_ofBytes? h
  obtain ⟨_, hone'⟩ := readOne?_of_ofBytes? h'
  exact Der.eq_of_isPrefix_of_readOne? hone hone' hfront

end Pkcs12

namespace Bundle

open Pkcs12

/-- What is no bundle does not open. -/
theorem unlock_of_ofBytes?_eq_none {b : Bytes} (h : Pfx.ofBytes? b = none)
    (q : String) : unlock b q = .error (.unreadable .encoding) := by
  rw [unlock, bags, h]
  rfl

/-- Octets that begin a bundle, or that a bundle begins, are that bundle or
do not open. -/
theorem unlock_of_isPrefix {b damaged : Bytes} {pfx : Pfx}
    (hread : Pfx.ofBytes? b = some pfx)
    (hfront : damaged <+: b ∨ b <+: damaged) (hne : damaged ≠ b)
    (q : String) : unlock damaged q = .error (.unreadable .encoding) := by
  refine unlock_of_ofBytes?_eq_none ?_ q
  cases hdamaged : Pfx.ofBytes? damaged with
  | none => rfl
  | some pfx' =>
      have heq : damaged = b := hfront.elim
        (Pfx.eq_of_isPrefix hdamaged hread)
        fun h => (Pfx.eq_of_isPrefix hread hdamaged h).symm
      exact absurd heq hne

/-- What was locked does not open, under no password, when it was cut
anywhere, or when anything stands behind it. -/
theorem unlock_lock_damaged {identity : Identity} {name p : String}
    {salts : Salts} {der : Bytes}
    (hlock : lock identity name p salts = .ok der) (q : String) :
    (∀ part, part <+: der → part ≠ der →
        unlock part q = .error (.unreadable .encoding))
      ∧ ∀ rest, rest ≠ [] →
        unlock (der ++ rest) q = .error (.unreadable .encoding) := by
  obtain ⟨_, _, -, hread⟩ := read_of_lock hlock
  constructor
  · intro part hpart hne
    exact unlock_of_isPrefix hread (Or.inl hpart) hne q
  · intro rest hrest
    exact unlock_of_isPrefix hread (Or.inr (List.prefix_append der rest))
      (fun h => hrest (List.append_right_eq_self.mp h)) q

/-- A bundle without its last octet, and one with a line end behind it. -/
theorem unlock_lock_damaged_least :
    ∃ der,
      lock ⟨⟨0, 0, 0, 0, 0, 0, 0, 0⟩, [1, 2, 3], leastCertificate⟩ "node" ""
          (Writer.drawSalts.run ⟨fun _ => 0, 0⟩).1 = .ok der
        ∧ unlock der.dropLast "" = .error (.unreadable .encoding)
        ∧ unlock [] "" = .error (.unreadable .encoding)
        ∧ unlock (der ++ [0x0A]) "" = .error (.unreadable .encoding) := by
  have hname : Bmp.encode? "node" = some [0, 110, 0, 111, 0, 100, 0, 101] := by
    decide
  have hempty : Bmp.password? "" = some [0, 0] := by decide
  obtain ⟨der, hlock⟩ : ∃ der, lock
      ⟨⟨0, 0, 0, 0, 0, 0, 0, 0⟩, [1, 2, 3], leastCertificate⟩ "node" ""
      (Writer.drawSalts.run ⟨fun _ => 0, 0⟩).1 = .ok der :=
    lock_leastCertificate hname hempty (by decide) _
  have hne : der ≠ [] := by
    rintro rfl
    obtain ⟨_, _, -, hread⟩ := read_of_lock hlock
    cases hread
  obtain ⟨hcut, hbehind⟩ := unlock_lock_damaged hlock ""
  have hlast : der.dropLast ≠ der := fun h => by
    have hlength := congrArg List.length h
    have := List.length_pos_iff.mpr hne
    rw [List.length_dropLast] at hlength
    omega
  exact ⟨der, hlock, hcut _ (List.dropLast_prefix der) hlast,
    hcut [] List.nil_prefix hne.symm, hbehind _ (by simp)⟩

end Bundle
end TlsKeystore
