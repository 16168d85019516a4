/-
Text as octets and back.

# UTF-8

`Utf8.decode?` refuses anything that is not the encoding of a text: overlong
forms, surrogates, numbers past the last code point.

# Two-octet units

They serve for names and passwords of PKCS#12. A BMPString holds code points
of the Basic Multilingual Plane, each as two octets, most significant first.
The last code point of the plane, U+FFFF, is a non-character and counts as
outside. A password becomes a BMPString with two zero octets behind it.
-/
import TlsKeystore.Bytes

namespace TlsKeystore.Utf8

/-- The UTF-8 octets of a text. -/
def encode (s : String) : Bytes := s.toUTF8.data.toList

/-- The text whose UTF-8 octets these are, if there is one. -/
def decode? (b : Bytes) : Option String := String.fromUTF8? ⟨b.toArray⟩

end TlsKeystore.Utf8

namespace TlsKeystore.Bmp

/-- Whether a character can stand in a BMPString. -/
def admits (c : Char) : Bool := c.toNat < 0xFFFF

/-- The two octets of a character of the plane. -/
def unit (c : Char) : Bytes :=
  [UInt8.ofNat (c.toNat / 256), UInt8.ofNat (c.toNat % 256)]

/-- The octets of a text; none when a character lies outside the plane. -/
def encode? (s : String) : Option Bytes :=
  if s.toList.all admits then some (s.toList.flatMap unit) else none

/-- The characters of an even number of octets; none when a unit is no
character of the plane. -/
def decodeChars? : Bytes → Option (List Char)
  | [] => some []
  | [_] => none
  | high :: low :: rest =>
    let n := high.toNat * 256 + low.toNat
    if h : n.isValidChar then
      let c := Char.ofNatAux n h
      if admits c then (decodeChars? rest).map (c :: ·) else none
    else none

/-- The text of a BMPString. -/
def decode? (b : Bytes) : Option String := (decodeChars? b).map String.ofList

/-- A password as the PKCS#12 key derivation takes it: its BMPString and two
zero octets. -/
def password? (s : String) : Option Bytes := (encode? s).map (· ++ [0, 0])

/-- The characters of UTF-16 units. A pair of surrogates is one character; an
odd octet at the end is a unit by itself; none for a surrogate that stands
alone. -/
def utf16Chars? : Bytes → Option (List Char)
  | [] => some []
  | [x] => some [Char.ofNat x.toNat]
  | a :: b :: rest =>
    let n := a.toNat * 256 + b.toNat
    if n < 0xD800 ∨ 0xE000 ≤ n then (utf16Chars? rest).map (Char.ofNat n :: ·)
    else if 0xDC00 ≤ n then none
    else match rest with
      | c :: d :: rest =>
        let low := c.toNat * 256 + d.toNat
        if 0xDC00 ≤ low ∧ low < 0xE000 then
          (utf16Chars? rest).map
            (Char.ofNat (0x10000 + (n - 0xD800) * 0x400 + (low - 0xDC00)) :: ·)
        else none
      | _ => none

/-- The text of UTF-16 units, most significant octet first. -/
def utf16? (b : Bytes) : Option String := (utf16Chars? b).map String.ofList

end TlsKeystore.Bmp
