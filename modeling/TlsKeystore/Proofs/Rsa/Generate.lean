/-
New keys are what they should be.

# Primes

A prime is never passed over. It shares no factor with the product of the
small primes, being none of them, and it passes for every base: the last
of the squarings gives 1 by Fermat's theorem, and modulo a prime only 1 and
-1 have the square 1, so that the squarings have gone through -1 unless
they began with 1 (`reachesMinusOne_of_pow`, `seemsPrime_of_prime`).

# Keys

Euclid's algorithm keeps what each remainder is a multiple of, and so ends
with an inverse where there is one (`inverse?_eq_some`), and with nothing
else (`mul_mod_of_inverse?`). A new key is made of two numbers that were
drawn for its primes (`exists_drawn_of_generate?`), and has been looked at
as a whole before it is handed out (`fit_of_generate?`), so that no proof
about a new key needs its primes to be primes.
-/
import TlsKeystore.Proofs.Rsa.PrivateKey
import TlsKeystore.Proofs.Rsa.Signature
import TlsKeystore.Rsa.Generate

namespace TlsKeystore

/-- One draw after the other, from where the first has left the stream. -/
theorem Draw.run_bind {α β : Type} (x : Draw α) (f : α → Draw β)
    (e : Entropy) :
    (x >>= f).run e = (f (x.run e).1).run (x.run e).2 := rfl

-- =============================================================== inverses

namespace Modular

/-- Both remainders are multiples of `a` modulo `m`, and so is what the
algorithm ends with. -/
theorem euclid_spec {a m : Int} (r s : Nat) (x y : Int)
    (hx : x * a ≡ r [ZMOD m]) (hy : y * a ≡ s [ZMOD m]) :
    (euclid r s x y).1 = Nat.gcd r s
      ∧ (euclid r s x y).2 * a ≡ (euclid r s x y).1 [ZMOD m] := by
  induction r, s, x, y using euclid.induct with
  | case1 r x y =>
      rw [euclid, dif_pos rfl]
      exact ⟨(Nat.gcd_zero_right r).symm, hx⟩
  | case2 r s x y hs ih =>
      have hgcd : Nat.gcd s (r % s) = Nat.gcd r s := by
        rw [Nat.gcd_comm r s, Nat.gcd_rec s r, Nat.gcd_comm]
      have hrest : (x - (r / s : Nat) * y) * a ≡ (r % s : Nat) [ZMOD m] := by
        have hdiv : (s : Int) * (r / s : Nat) + (r % s : Nat) = r := by
          exact_mod_cast Nat.div_add_mod r s
        have hsplit : ((r % s : Nat) : Int) = r - (r / s : Nat) * s := by
          linarith
        rw [hsplit, sub_mul, mul_assoc]
        exact hx.sub (hy.mul_left _)
      rw [euclid, dif_neg hs, ← hgcd]
      exact ih hy hrest

/-- With a number and the modulus to begin with, it ends with their greatest
common divisor. -/
theorem euclid_mod (a m : Nat) :
    (euclid (a % m) m 1 0).1 = Nat.gcd (a % m) m
      ∧ (euclid (a % m) m 1 0).2 * a
        ≡ (euclid (a % m) m 1 0).1 [ZMOD m] := by
  refine euclid_spec _ _ _ _ ?_ ?_
  · rw [one_mul]
    exact_mod_cast (Int.mod_modEq (a : Int) m).symm
  · rw [zero_mul]
    exact (Int.modEq_zero_iff_dvd.mpr dvd_rfl).symm

/-- The inverse below the modulus is found, if it is one. -/
theorem inverse?_eq_some {a d m : Nat} (hm : 1 < m) (hd : d < m)
    (h : a * d % m = 1) : inverse? a m = some d := by
  have hone : a * d ≡ 1 [MOD m] := by
    rw [Nat.ModEq, h, Nat.mod_eq_of_lt hm]
  have hcoprime : Nat.gcd (a % m) m = 1 := by
    rw [← Nat.gcd_rec, Nat.gcd_comm]
    have hproduct : Nat.Coprime (a * d) m :=
      hone.gcd_eq.trans (Nat.gcd_one_left m)
    exact (Nat.coprime_mul_iff_left.mp hproduct).1
  obtain ⟨hg, hx⟩ := euclid_mod a m
  rw [hcoprime] at hg
  rw [hg] at hx
  unfold inverse?
  generalize euclid (a % m) m 1 0 = found at hg hx
  obtain ⟨g, x⟩ := found
  have hunique : x ≡ d [ZMOD m] := by
    have hinverse : (a : Int) * d ≡ 1 [ZMOD m] := by
      exact_mod_cast Int.natCast_modEq_iff.mpr hone
    calc x ≡ x * (a * d) [ZMOD m] := by
            simpa using (hinverse.mul_left x).symm
      _ = x * a * d := by ring
      _ ≡ 1 * d [ZMOD m] := hx.mul_right _
      _ = d := one_mul _
  have hvalue : x % m = d := by
    rw [hunique, Int.emod_eq_of_lt (by omega) (by exact_mod_cast hd)]
  simp only at hg
  simp [hg, hvalue]

/-- What is found is an inverse, and below the modulus. -/
theorem mul_mod_of_inverse? {a m d : Nat} (hm : 0 < m)
    (h : inverse? a m = some d) : a * d % m = 1 % m ∧ d < m := by
  obtain ⟨-, hx⟩ := euclid_mod a m
  unfold inverse? at h
  generalize euclid (a % m) m 1 0 = found at h hx
  obtain ⟨g, x⟩ := found
  dsimp only at h hx
  obtain ⟨rfl, hd⟩ := Option.ite_none_right_eq_some.mp h
  have hvalue : (d : Int) = x % m := by
    rw [← Option.some.inj hd, Int.toNat_of_nonneg]
    exact Int.emod_nonneg _ (by omega)
  have hlt : (d : Int) < m := by
    rw [hvalue]
    exact Int.emod_lt_of_pos _ (by omega)
  refine ⟨?_, by exact_mod_cast hlt⟩
  have hmod : ((a * d : Nat) : Int) ≡ (1 : Nat) [ZMOD m] := by
    calc ((a * d : Nat) : Int) = d * a := by push_cast; ring
      _ ≡ x * a [ZMOD m] := by
          rw [hvalue]
          exact (Int.mod_modEq x m).mul_right _
      _ ≡ (1 : Nat) [ZMOD m] := hx
  exact Int.natCast_modEq_iff.mp hmod

end Modular

namespace PrivateKey

-- ================================================================= primes

/-- Squarings that end with 1 modulo a prime begin with 1 or go through
-1. -/
theorem reachesMinusOne_of_pow {n : Nat} (hn : n.Prime) (count : Nat)
    {x : Nat} (hx : x < n) (h : x ^ 2 ^ count ≡ 1 [MOD n]) :
    x = 1 ∨ reachesMinusOne n count x = true := by
  induction count generalizing x with
  | zero =>
      rw [pow_zero, pow_one, Nat.ModEq, Nat.mod_eq_of_lt hx,
        Nat.mod_eq_of_lt hn.one_lt] at h
      exact Or.inl h
  | succ count ih =>
      rw [reachesMinusOne, Bool.or_eq_true, beq_iff_eq]
      have hsquare : (x * x % n) ^ 2 ^ count ≡ 1 [MOD n] := by
        rw [pow_succ', pow_mul, pow_two] at h
        exact ((Nat.mod_modEq _ _).pow _).trans h
      rcases ih (Nat.mod_lt _ hn.pos) hsquare with hone | hreaches
      · -- a root of 1 modulo a prime
        have := Fact.mk hn
        have hroot : (x : ZMod n) * x = 1 := by
          have hmod : x * x ≡ 1 [MOD n] := by
            rw [Nat.ModEq, hone, Nat.mod_eq_of_lt hn.one_lt]
          exact_mod_cast (ZMod.natCast_eq_natCast_iff _ _ _).mpr hmod
        rcases mul_self_eq_one_iff.mp hroot with hplus | hminus
        · left
          have hmod : x ≡ 1 [MOD n] :=
            (ZMod.natCast_eq_natCast_iff _ _ _).mp (by exact_mod_cast hplus)
          rwa [Nat.ModEq, Nat.mod_eq_of_lt hx,
            Nat.mod_eq_of_lt hn.one_lt] at hmod
        · right
          left
          have hzero : ((x + 1 : Nat) : ZMod n) = 0 := by
            rw [Nat.cast_add, Nat.cast_one, hminus, neg_add_cancel]
          have hdvd := (ZMod.natCast_eq_zero_iff _ _).mp hzero
          have hle := Nat.le_of_dvd (Nat.succ_pos x) hdvd
          omega
      · exact Or.inr (Or.inr hreaches)

/-- What 2 is counted out of divides. -/
theorem two_pow_twos_dvd (bound n : Nat) : 2 ^ twos bound n ∣ n := by
  induction bound generalizing n with
  | zero => simp [twos]
  | succ bound ih =>
      rw [twos]
      split
      · next heven =>
          have hhalf := Nat.mul_dvd_mul_right (ih (n / 2)) 2
          rwa [Nat.div_mul_cancel (Nat.dvd_of_mod_eq_zero heven)] at hhalf
      · exact one_dvd n

/-- A prime passes for every base that it does not divide. -/
theorem passes_of_prime {n base : Nat} (hn : n.Prime) (hbase : ¬ n ∣ base) :
    passes n base = true := by
  have hdvd := two_pow_twos_dvd (Bytes.bitLength n) (n - 1)
  unfold passes
  generalize twos (Bytes.bitLength n) (n - 1) = s at hdvd ⊢
  have hcoprime : Nat.Coprime base n :=
    ((Nat.Prime.coprime_iff_not_dvd hn).mpr hbase).symm
  have hfermat : base ^ (n - 1) ≡ 1 [MOD n] := by
    rw [← Nat.totient_prime hn]
    exact Nat.ModEq.pow_totient hcoprime
  have hlast : (base ^ ((n - 1) / 2 ^ s) % n) ^ 2 ^ s ≡ 1 [MOD n] := by
    refine ((Nat.mod_modEq _ _).pow _).trans ?_
    rwa [← pow_mul, Nat.div_mul_cancel hdvd]
  have hreaches := reachesMinusOne_of_pow hn s (Nat.mod_lt _ hn.pos) hlast
  show (Modular.pow base ((n - 1) / 2 ^ s) n == 1
    || reachesMinusOne n s (Modular.pow base ((n - 1) / 2 ^ s) n)) = true
  rw [Modular.pow_eq, Bool.or_eq_true, beq_iff_eq]
  exact hreaches

/-- A product that a prime divides has a factor that it divides. -/
private theorem exists_dvd_of_dvd_foldl {n : Nat} (hn : n.Prime)
    {factors : List Nat} {acc : Nat} (h : n ∣ factors.foldl (· * ·) acc) :
    n ∣ acc ∨ ∃ q ∈ factors, n ∣ q := by
  induction factors generalizing acc with
  | nil => exact Or.inl h
  | cons q factors ih =>
      rcases ih h with hacc | ⟨q', hq', hdvd⟩
      · rcases (Nat.Prime.dvd_mul hn).mp hacc with hacc | hq
        · exact Or.inl hacc
        · exact Or.inr ⟨q, List.mem_cons_self, hq⟩
      · exact Or.inr ⟨q', List.mem_cons_of_mem _ hq', hdvd⟩

/-- What stands among the small primes is small, and not zero. -/
private theorem not_dvd_of_mem_primesBelow {n bound q : Nat} (hn : bound ≤ n)
    (hq : q ∈ primesBelow bound) : ¬ n ∣ q := by
  rw [primesBelow, List.mem_filter, Bool.and_eq_true, decide_eq_true_eq,
    List.mem_range] at hq
  intro hdvd
  have hle := Nat.le_of_dvd (by omega) hdvd
  omega

/-- No prime is passed over, unless it is a small one. -/
theorem seemsPrime_of_prime {n : Nat} (hn : n.Prime) (hlarge : 2000 ≤ n) :
    seemsPrime n = true := by
  have hcoprime : Nat.gcd n smallProduct = 1 := by
    refine (Nat.Prime.coprime_iff_not_dvd hn).mpr fun hdvd => ?_
    rcases exists_dvd_of_dvd_foldl hn hdvd with hone | ⟨q, hq, hdvd⟩
    · exact hn.one_lt.ne' (Nat.dvd_one.mp hone)
    · exact not_dvd_of_mem_primesBelow hlarge hq hdvd
  rw [seemsPrime, hcoprime, Bool.and_eq_true, List.all_eq_true]
  exact ⟨rfl, fun base hbase => passes_of_prime hn
    (not_dvd_of_mem_primesBelow (by omega) hbase)⟩

-- ================================================================== draws

/-- A number that can be drawn for a prime of so many bits: its top two bits
are set, and it is odd. -/
structure Drawn (bits n : Nat) : Prop where
  size : Bytes.bitLength n = bits
  large : 3 * 2 ^ (bits - 2) ≤ n
  odd : n % 2 = 1

/-- Two up at a time, a number keeps its top bits for as long as it has its
size. -/
theorem drawn_of_primeFrom? {bits count n p : Nat}
    (hlarge : 3 * 2 ^ (bits - 2) ≤ n) (hodd : n % 2 = 1)
    (h : primeFrom? bits count n = some p) : Drawn bits p := by
  induction count generalizing n with
  | zero => cases h
  | succ count ih =>
      rw [primeFrom?] at h
      split at h
      · next hsuits =>
          cases h
          simp only [suits, Bool.and_eq_true, beq_iff_eq] at hsuits
          exact ⟨hsuits.1.1, hlarge, hodd⟩
      · exact ih (by omega) (by omega) h

theorem oddNumber_odd {bits : Nat} (hbits : 3 ≤ bits) (octets : Bytes) :
    oddNumber bits octets % 2 = 1 := by
  have hpow : Nat.pow 2 (bits - 2) = 2 * 2 ^ (bits - 3) := by
    rw [← pow_succ']
    show 2 ^ (bits - 2) = _
    congr 1
    omega
  unfold oddNumber
  dsimp only
  omega

theorem le_oddNumber (bits : Nat) (octets : Bytes) :
    3 * 2 ^ (bits - 2) ≤ oddNumber bits octets := by
  have hpow : Nat.pow 2 (bits - 2) = 2 ^ (bits - 2) := rfl
  unfold oddNumber
  dsimp only
  omega

theorem drawn_of_drawPrime? {bits draws p : Nat} {e : Entropy}
    (hbits : 3 ≤ bits) (h : ((drawPrime? bits draws).run e).1 = some p) :
    Drawn bits p := by
  induction draws generalizing e with
  | zero => cases h
  | succ draws ih =>
      rw [drawPrime?, Draw.run_bind] at h
      generalize (Draw.octets (bits / 8)).run e = drawn at h
      obtain ⟨octets, e'⟩ := drawn
      dsimp only at h
      cases hfound : primeFrom? bits reach (oddNumber bits octets) with
      | none =>
          rw [hfound] at h
          exact ih h
      | some p' =>
          rw [hfound] at h
          cases h
          exact drawn_of_primeFrom? (le_oddNumber bits octets)
            (oddNumber_odd hbits octets) hfound

-- =================================================================== keys

/-- What new keys are looked at for. -/
structure Fit (k : PrivateKey) : Prop where
  size : Bytes.bitLength k.modulus = keyBits
  consistent : k.consistent = true
  signs : k.signs = true

theorem fit_of_ofPrimes? {p q : Nat} {k : PrivateKey}
    (h : ofPrimes? p q = some k) : k.Fit := by
  unfold ofPrimes? at h
  simp only [Option.bind_eq_bind, Option.bind_eq_some_iff,
    Option.ite_none_right_eq_some] at h
  obtain ⟨d, -, coefficient, -, ⟨hsize, hconsistent, hsigns⟩, hk⟩ := h
  cases hk
  exact ⟨hsize, hconsistent, hsigns⟩

theorem exists_drawn_of_drawKey? {pairs : Nat} {e : Entropy} {k : PrivateKey}
    (h : ((drawKey? pairs).run e).1 = some k) :
    ∃ p q, Drawn (keyBits / 2) p ∧ Drawn (keyBits / 2) q
      ∧ ofPrimes? p q = some k := by
  have hdrawn {e : Entropy} {p : Nat} :
      ((drawPrime? (keyBits / 2) maxDraws).run e).1 = some p →
        Drawn (keyBits / 2) p := drawn_of_drawPrime? (by decide)
  induction pairs generalizing e with
  | zero => cases h
  | succ pairs ih =>
      rw [drawKey?, Draw.run_bind, Draw.run_bind] at h
      cases hp : ((drawPrime? (keyBits / 2) maxDraws).run e).1 with
      | none =>
          rw [hp] at h
          cases h
      | some p =>
          rw [hp] at h
          generalize ((drawPrime? (keyBits / 2) maxDraws).run e).2 = e' at h
          cases hq : ((drawPrime? (keyBits / 2) maxDraws).run e').1 with
          | none =>
              rw [hq] at h
              cases h
          | some q =>
              rw [hq] at h
              dsimp only at h
              cases hk : ofPrimes? p q with
              | none =>
                  rw [hk] at h
                  exact ih h
              | some k' =>
                  rw [hk] at h
                  cases h
                  exact ⟨p, q, hdrawn hp, hdrawn hq, hk⟩

/-- A new key is made of two numbers that were drawn for its primes. -/
theorem exists_drawn_of_generate? {e : Entropy} {k : PrivateKey}
    (h : (generate?.run e).1 = some k) :
    ∃ p q, Drawn (keyBits / 2) p ∧ Drawn (keyBits / 2) q
      ∧ ofPrimes? p q = some k :=
  exists_drawn_of_drawKey? h

/-- Every new key is fit. -/
theorem fit_of_generate? {e : Entropy} {k : PrivateKey}
    (h : (generate?.run e).1 = some k) : k.Fit := by
  obtain ⟨p, q, -, -, hk⟩ := exists_drawn_of_generate? h
  exact fit_of_ofPrimes? hk

-- ================================================================ one draw

/-- A prime of the right size suits, if it leaves the public exponent its
inverse. -/
theorem suits_of_prime {bits n : Nat} (hn : n.Prime) (hlarge : 2000 ≤ n)
    (hbits : Bytes.bitLength n = bits) (hexponent : n % keyExponent ≠ 1) :
    suits bits n = true := by
  rw [suits, seemsPrime_of_prime hn hlarge]
  simp [hbits, hexponent]

/-- A number that suits is taken as it is drawn. -/
theorem run_drawPrime?_of_suits {bits draws n : Nat} {e : Entropy}
    (hnumber : oddNumber bits ((Draw.octets (bits / 8)).run e).1 = n)
    (hsuits : suits bits n = true) :
    (drawPrime? bits (draws + 1)).run e
      = (some n, ((Draw.octets (bits / 8)).run e).2) := by
  have hfound : primeFrom? bits reach n = some n := if_pos hsuits
  rw [drawPrime?, Draw.run_bind, hnumber, hfound]
  rfl

/-- A stream from which the primes of `plain` are drawn. -/
def plainStream : Entropy where
  octet
    | 0 => 0x35
    | 1 => 0xB0
    | 128 => 0x2B
    | 129 => 0xD8
    | _ => 0
  used := 0

/-- The key that is made of them. It undoes the public exponent modulo the
product of the primes less one, and signs as `plain` does. -/
def drawn : PrivateKey :=
  { plain with privateExponent :=
      (53131 * ((plainPrime1 - 1) * (plainPrime2 - 1)) + 1) / 65537 }

theorem ofPrimes?_plain : ofPrimes? plainPrime1 plainPrime2 = some drawn := by
  have hd : Modular.inverse? keyExponent
      ((plainPrime1 - 1) * (plainPrime2 - 1)) = some drawn.privateExponent :=
    Modular.inverse?_eq_some (by decide +kernel) (by decide +kernel)
      (by decide +kernel)
  have hcoefficient : Modular.inverse? plainPrime2 plainPrime1
      = some drawn.coefficient :=
    Modular.inverse?_eq_some (by decide +kernel) (by decide +kernel)
      (by decide +kernel)
  rw [ofPrimes?, hd, hcoefficient]
  decide +kernel

theorem fit_drawn : drawn.Fit := fit_of_ofPrimes? ofPrimes?_plain

theorem sound_drawn : drawn.Sound where
  prime1 := prime_plainPrime1
  prime2 := prime_plainPrime2
  distinct := sound_plain.distinct
  modulus := by decide +kernel
  exponent1 := by decide +kernel
  exponent2 := by decide +kernel

theorem run_generate?_plainStream :
    generate?.run plainStream
      = (some drawn, { plainStream with used := 256 }) := by
  have hsuits1 : suits 1024 plainPrime1 = true :=
    suits_of_prime prime_plainPrime1 (by decide +kernel) (by decide +kernel)
      (by decide +kernel)
  have hsuits2 : suits 1024 plainPrime2 = true :=
    suits_of_prime prime_plainPrime2 (by decide +kernel) (by decide +kernel)
      (by decide +kernel)
  have hnumber1 : oddNumber 1024 ((Draw.octets 128).run plainStream).1
      = plainPrime1 := by decide +kernel
  have hnumber2 : oddNumber 1024
      ((Draw.octets 128).run { plainStream with used := 128 }).1
      = plainPrime2 := by decide +kernel
  have hfirst : (drawPrime? (keyBits / 2) maxDraws).run plainStream
      = (some plainPrime1, { plainStream with used := 128 }) :=
    run_drawPrime?_of_suits hnumber1 hsuits1
  have hsecond : (drawPrime? (keyBits / 2) maxDraws).run
      { plainStream with used := 128 }
      = (some plainPrime2, { plainStream with used := 256 }) :=
    run_drawPrime?_of_suits hnumber2 hsuits2
  show (drawKey? (63 + 1)).run plainStream = _
  rw [drawKey?, Draw.run_bind, hfirst, Draw.run_bind, hsecond]
  dsimp only
  rw [ofPrimes?_plain]
  rfl

end PrivateKey
end TlsKeystore
