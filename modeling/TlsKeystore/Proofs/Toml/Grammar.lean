/-
What a document can look like.

The relations here tell which texts say a thing, with no reader at hand: a
character between quotes, a string, a number, an assignment, and so on to all
the lines of a document (`Document`). They leave open what a writer is free to
choose, such as the notation of a string, blanks, comments and line ends, the
base of an integer, or where an array is broken into lines. Only what the
documents of this library are made of is covered: scalars, arrays of tables
that pair keys with strings, and sections that may stand several times.

Every relation has what is said first and the text last. What is said of a
number are its digits: whether one is too large to be read is no matter of the
text.
-/
import TlsKeystore.Calendar
import Mathlib

namespace TlsKeystore.Toml.Grammar

-- ================================================================= spaces

def Blank (c : Char) : Prop := c = ' ' ∨ c = '\t'
deriving Decidable

/-- Any character but a control character; tabs are none. -/
def Visible (c : Char) : Prop := c = '\t' ∨ (0x20 ≤ c.toNat ∧ c.toNat ≠ 0x7F)
deriving Decidable

/-- The characters of a key without quotes. -/
def KeyChar (c : Char) : Prop := c.isAlphanum = true ∨ c = '-' ∨ c = '_'
deriving Decidable

/-- Blanks, or nothing. -/
def Blanks (w : List Char) : Prop := ∀ c ∈ w, Blank c

inductive Newline : List Char → Prop where
  | feed : Newline ['\n']
  | both : Newline ['\r', '\n']

/-- Blanks and line ends, or nothing. -/
inductive White : List Char → Prop where
  | nil : White []
  | blank {c : Char} {w : List Char} (hc : Blank c) (hw : White w) :
      White (c :: w)
  | line {n w : List Char} (hn : Newline n) (hw : White w) : White (n ++ w)

/-- A comment up to the end of its line, or nothing. -/
inductive Remark : List Char → Prop where
  | none : Remark []
  | some {w : List Char} (hw : ∀ c ∈ w, Visible c) : Remark ('#' :: w)

/-- Blanks, line ends and comments that end with their line, or nothing. -/
inductive Gap : List Char → Prop where
  | nil : Gap []
  | blank {c : Char} {w : List Char} (hc : Blank c) (hw : Gap w) : Gap (c :: w)
  | line {r n w : List Char} (hr : Remark r) (hn : Newline n) (hw : Gap w) :
      Gap (r ++ n ++ w)

-- ================================================================= digits

/-- A digit in a base up to 16, of either case. -/
def Digit (base d : Nat) (c : Char) : Prop :=
  d < base ∧ (c = Nat.digitChar d ∨ c = (Nat.digitChar d).toUpper)

/-- Digits one behind the other. -/
def Plain (base : Nat) (ds : List Nat) (w : List Char) : Prop :=
  List.Forall₂ (Digit base) ds w

/-- At least one digit; an underscore may stand between two. -/
inductive Digits (base : Nat) : List Nat → List Char → Prop where
  | one {d : Nat} {c : Char} (hc : Digit base d c) : Digits base [d] [c]
  | more {d : Nat} {c : Char} {ds : List Nat} {w : List Char}
      (hc : Digit base d c) (hw : Digits base ds w) :
      Digits base (d :: ds) (c :: w)
  | grouped {d : Nat} {c : Char} {ds : List Nat} {w : List Char}
      (hc : Digit base d c) (hw : Digits base ds w) :
      Digits base (d :: ds) (c :: '_' :: w)

/-- The number of digits in a row, the highest first. -/
def value (base : Nat) (ds : List Nat) : Nat := Nat.ofDigits base ds.reverse

/-- A sign or none, and whether it is a minus. -/
inductive Sign : Bool → List Char → Prop where
  | none : Sign false []
  | plus : Sign false ['+']
  | minus : Sign true ['-']

def signed (negative : Bool) (n : Nat) : Int := if negative then -n else n

-- ================================================================ strings

/-- The letters behind a backslash, and what they stand for. -/
def letters : List (Char × Char) :=
  [('b', '\x08'), ('t', '\t'), ('n', '\n'), ('f', '\x0c'), ('r', '\r'),
    ('"', '"'), ('\\', '\\')]

/-- A character between double quotes: itself, a letter behind a backslash, or
its number in as many hexadecimal digits as the letter in front of them asks
for. -/
inductive Spelled (c : Char) : List Char → Prop where
  | plain (hc : Visible c) (hquote : c ≠ '"') (hbackslash : c ≠ '\\') :
      Spelled c [c]
  | letter {x : Char} (hx : (x, c) ∈ letters) : Spelled c ['\\', x]
  | number {u : Char} {width : Nat} {ds : List Nat} {w : List Char}
      (hu : (u, width) ∈ [('u', 4), ('U', 8)]) (hlength : ds.length = width)
      (hw : Plain 16 ds w) (hc : c.toNat = value 16 ds) :
      Spelled c ('\\' :: u :: w)

/-- What stands between two double quotes. -/
inductive BasicBody : List Char → List Char → Prop where
  | nil : BasicBody [] []
  | cons {c : Char} {s v w : List Char} (hv : Spelled c v)
      (hw : BasicBody s w) : BasicBody (c :: s) (v ++ w)

/-- What stands between six double quotes. There are no three quotes in a row;
and a backslash at the end of a line is dropped with all blanks and line ends
behind it. -/
inductive LongBasicBody : List Char → List Char → Prop where
  | nil : LongBasicBody [] []
  | cons {c : Char} {s v w : List Char} (hv : Spelled c v)
      (hw : LongBasicBody s w) : LongBasicBody (c :: s) (v ++ w)
  | line {s n w : List Char} (hn : Newline n) (hw : LongBasicBody s w) :
      LongBasicBody ('\n' :: s) (n ++ w)
  | quote {s w : List Char} (hfew : ¬ ['"', '"'] <+: w)
      (hw : LongBasicBody s w) : LongBasicBody ('"' :: s) ('"' :: w)
  | joined {s b n v w : List Char} (hb : Blanks b) (hn : Newline n)
      (hv : White v) (hall : ∀ c ∈ w.head?, ¬ (Blank c ∨ c = '\n' ∨ c = '\r'))
      (hw : LongBasicBody s w) : LongBasicBody s ('\\' :: (b ++ n ++ v ++ w))

/-- What stands between six single quotes. There are no three quotes in a row. -/
inductive LongLiteralBody : List Char → List Char → Prop where
  | nil : LongLiteralBody [] []
  | cons {c : Char} {s w : List Char} (hc : Visible c) (hquote : c ≠ '\'')
      (hw : LongLiteralBody s w) : LongLiteralBody (c :: s) (c :: w)
  | line {s n w : List Char} (hn : Newline n) (hw : LongLiteralBody s w) :
      LongLiteralBody ('\n' :: s) (n ++ w)
  | quote {s w : List Char} (hfew : ¬ ['\'', '\''] <+: w)
      (hw : LongLiteralBody s w) : LongLiteralBody ('\'' :: s) ('\'' :: w)

/-- What stands between six quotes behind a line end that is not part of it;
without one it does not begin with a line end. -/
inductive Opened (body : List Char) : List Char → Prop where
  | line {n : List Char} (hn : Newline n) : Opened body (n ++ body)
  | none (hbody : ∀ c ∈ body.head?, c ≠ '\n' ∧ c ≠ '\r') : Opened body body

/-- A string in any of its four notations. -/
inductive StringText (s : List Char) : List Char → Prop where
  | basic {w : List Char} (hw : BasicBody s w) :
      StringText s ('"' :: w ++ ['"'])
  | literal (hs : ∀ c ∈ s, Visible c ∧ c ≠ '\'') :
      StringText s ('\'' :: s ++ ['\''])
  | longBasic {v w : List Char} (hv : LongBasicBody s v) (hw : Opened v w) :
      StringText s ('"' :: '"' :: '"' :: w ++ ['"', '"', '"'])
  | longLiteral {v w : List Char} (hv : LongLiteralBody s v)
      (hw : Opened v w) :
      StringText s ('\'' :: '\'' :: '\'' :: w ++ ['\'', '\'', '\''])

/-- A key without a path, with quotes on one line or without any. -/
inductive KeyText (name : List Char) : List Char → Prop where
  | bare (hne : name ≠ []) (hname : ∀ c ∈ name, KeyChar c) : KeyText name name
  | basic {w : List Char} (hw : BasicBody name w) :
      KeyText name ('"' :: w ++ ['"'])
  | literal (hname : ∀ c ∈ name, Visible c ∧ c ≠ '\'') :
      KeyText name ('\'' :: name ++ ['\''])

-- ================================================================ numbers

/-- Decimal digits that do not begin with a zero, or a zero alone. -/
inductive Whole : List Nat → List Char → Prop where
  | zero : Whole [0] ['0']
  | digits {ds : List Nat} {w : List Char} (hw : Digits 10 ds w)
      (hzero : ds.head? ≠ some 0) : Whole ds w

/-- An integer. The format bounds it to 64 bits. -/
inductive IntegerText : Int → List Char → Prop where
  | decimal {negative : Bool} {ds : List Nat} {v w : List Char}
      (hv : Sign negative v) (hw : Whole ds w)
      (hlow : -2 ^ 63 ≤ signed negative (value 10 ds))
      (hhigh : signed negative (value 10 ds) < 2 ^ 63) :
      IntegerText (signed negative (value 10 ds)) (v ++ w)
  | based {x : Char} {base : Nat} {ds : List Nat} {w : List Char}
      (hx : (x, base) ∈ [('x', 16), ('o', 8), ('b', 2)])
      (hw : Digits base ds w) (hhigh : value base ds < 2 ^ 63) :
      IntegerText (value base ds) ('0' :: x :: w)

/-- Digits behind a point, or nothing. -/
inductive Fraction : List Nat → List Char → Prop where
  | none : Fraction [] []
  | some {ds : List Nat} {w : List Char} (hw : Digits 10 ds w) :
      Fraction ds ('.' :: w)

/-- A power of ten, or nothing. -/
inductive Exponent : Int → List Char → Prop where
  | none : Exponent 0 []
  | some {e : Char} {negative : Bool} {ds : List Nat} {v w : List Char}
      (he : e = 'e' ∨ e = 'E') (hv : Sign negative v) (hw : Digits 10 ds w) :
      Exponent (signed negative (value 10 ds)) (e :: (v ++ w))

/-- A number with a floating point as a text says it, a decimal to all of its
digits. The format bounds neither these nor the power of ten. -/
inductive Floating where
  | decimal (negative : Bool) (digits : Nat) (power : Int)
  | infinite (negative : Bool)
  | notANumber

/-- A number with a fraction, a power of ten or both, or one of the special
ones. -/
inductive FloatText : Floating → List Char → Prop where
  | decimal {negative : Bool} {ds places : List Nat} {power : Int}
      {u v w x : List Char} (hu : Sign negative u) (hv : Whole ds v)
      (hw : Fraction places w) (hx : Exponent power x) (hsome : w ++ x ≠ []) :
      FloatText (.decimal negative (value 10 (ds ++ places))
        (power - places.length)) (u ++ v ++ w ++ x)
  | infinite {negative : Bool} {u : List Char} (hu : Sign negative u) :
      FloatText (.infinite negative) (u ++ ['i', 'n', 'f'])
  | notANumber {negative : Bool} {u : List Char} (hu : Sign negative u) :
      FloatText .notANumber (u ++ ['n', 'a', 'n'])

-- ======================================================== dates and times

/-- A number in exactly so many digits. -/
def Fixed (count n : Nat) (w : List Char) : Prop :=
  ∃ ds, Plain 10 ds w ∧ ds.length = count ∧ n = value 10 ds

/-- A day that the calendar has. -/
inductive DateText : List Char → Prop where
  | intro {year month day : Nat} {y m d : List Char} (hy : Fixed 4 year y)
      (hm : Fixed 2 month m) (hd : Fixed 2 day d)
      (hmonth : 1 ≤ month ∧ month ≤ 12)
      (hday : 1 ≤ day ∧ day ≤ Calendar.daysInMonth year month) :
      DateText (y ++ '-' :: m ++ '-' :: d)

/-- An hour and a minute. -/
inductive ClockText : List Char → Prop where
  | intro {hour minute : Nat} {h m : List Char} (hh : Fixed 2 hour h)
      (hm : Fixed 2 minute m) (hhour : hour ≤ 23) (hminute : minute ≤ 59) :
      ClockText (h ++ ':' :: m)

/-- Parts of a second, or nothing. -/
inductive FinerText : List Char → Prop where
  | none : FinerText []
  | some {ds : List Nat} {w : List Char} (hne : ds ≠ []) (hw : Plain 10 ds w) :
      FinerText ('.' :: w)

/-- A time of day. A minute may have a leap second. -/
inductive TimeText : List Char → Prop where
  | intro {second : Nat} {u v w : List Char} (hu : ClockText u)
      (hv : Fixed 2 second v) (hsecond : second ≤ 60) (hw : FinerText w) :
      TimeText (u ++ ':' :: v ++ w)

/-- How far a clock is ahead, or nothing. -/
inductive OffsetText : List Char → Prop where
  | none : OffsetText []
  | zero {c : Char} (hc : c = 'Z' ∨ c = 'z') : OffsetText [c]
  | ahead {c : Char} {w : List Char} (hc : c = '+' ∨ c = '-')
      (hw : ClockText w) : OffsetText (c :: w)

/-- A date, a time, or both. -/
inductive MomentText : List Char → Prop where
  | date {w : List Char} (hw : DateText w) : MomentText w
  | time {w : List Char} (hw : TimeText w) : MomentText w
  | both {c : Char} {u v w : List Char} (hu : DateText u)
      (hc : c = 'T' ∨ c = 't' ∨ c = ' ') (hv : TimeText v)
      (hw : OffsetText w) : MomentText (u ++ c :: (v ++ w))

-- ================================================================= values

/-- What a value without parts says. Of a date or a time it is only told that it
is one. -/
inductive Value where
  | string (s : String)
  | integer (n : Int)
  | floating (x : Floating)
  | boolean (b : Bool)
  | moment

inductive ScalarText : Value → List Char → Prop where
  | string {s : String} {w : List Char} (hw : StringText s.toList w) :
      ScalarText (.string s) w
  | integer {n : Int} {w : List Char} (hw : IntegerText n w) :
      ScalarText (.integer n) w
  | floating {x : Floating} {w : List Char} (hw : FloatText x w) :
      ScalarText (.floating x) w
  | boolean (b : Bool) : ScalarText (.boolean b) (toString b).toList
  | moment {w : List Char} (hw : MomentText w) : ScalarText .moment w

/-- Keys with a string each. -/
abbrev Pairs := List (String × String)

/-- A key, the sign of equality, and the text of a value, with blanks between
them. -/
inductive Keyed (name : String) (v : List Char) : List Char → Prop where
  | intro {k b b' : List Char} (hk : KeyText name.toList k) (hb : Blanks b)
      (hb' : Blanks b') : Keyed name v (k ++ b ++ '=' :: (b' ++ v))

/-- Pairs with commas between them. -/
inductive PairsText : Pairs → List Char → Prop where
  | one {name s : String} {v w b : List Char} (hv : StringText s.toList v)
      (hw : Keyed name v w) (hb : Blanks b) : PairsText [(name, s)] (w ++ b)
  | more {name s : String} {ps : Pairs} {v w b b' u : List Char}
      (hv : StringText s.toList v) (hw : Keyed name v w) (hb : Blanks b)
      (hb' : Blanks b') (hu : PairsText ps u) :
      PairsText ((name, s) :: ps) (w ++ b ++ ',' :: (b' ++ u))

/-- A table between braces, on one line but for the line ends of its strings. -/
inductive TableText : Pairs → List Char → Prop where
  | empty {b : List Char} (hb : Blanks b) : TableText [] ('{' :: b ++ ['}'])
  | pairs {ps : Pairs} {b w : List Char} (hb : Blanks b)
      (hw : PairsText ps w) : TableText ps ('{' :: (b ++ w) ++ ['}'])

/-- Tables with commas between them, and perhaps one behind the last. -/
inductive ItemsText : List Pairs → List Char → Prop where
  | none {g : List Char} (hg : Gap g) : ItemsText [] g
  | last {ps : Pairs} {g w g' : List Char} (hg : Gap g) (hw : TableText ps w)
      (hg' : Gap g') : ItemsText [ps] (g ++ w ++ g')
  | more {ps : Pairs} {items : List Pairs} {g w g' u : List Char}
      (hg : Gap g) (hw : TableText ps w) (hg' : Gap g')
      (hu : ItemsText items u) :
      ItemsText (ps :: items) (g ++ w ++ g' ++ ',' :: u)

-- =============================================================== documents

/-- What a key is given: a scalar, or an array of tables. -/
inductive Content where
  | scalar (v : Value)
  | tables (items : List Pairs)

inductive ContentText : Content → List Char → Prop where
  | scalar {v : Value} {w : List Char} (hw : ScalarText v w) :
      ContentText (.scalar v) w
  | tables {items : List Pairs} {w : List Char} (hw : ItemsText items w) :
      ContentText (.tables items) ('[' :: w ++ [']'])

/-- What a line can say: a key is given something, or a section begins that may
stand several times. -/
inductive Expression where
  | assignment (name : String) (content : Content)
  | header (name : String)

/-- Assignments in a row. -/
def assigned (as : List (String × Content)) : List Expression :=
  as.map fun a => .assignment a.1 a.2

/-- Sections of one name, each with its pairs. -/
def sections (name : String) (items : List Pairs) : List Expression :=
  items.flatMap fun ps =>
    .header name :: assigned (ps.map fun p => (p.1, .scalar (.string p.2)))

inductive ExpressionText : Expression → List Char → Prop where
  | assignment {name : String} {content : Content} {v w : List Char}
      (hv : ContentText content v) (hw : Keyed name v w) :
      ExpressionText (.assignment name content) w
  | header {name : String} {b k b' : List Char} (hb : Blanks b)
      (hk : KeyText name.toList k) (hb' : Blanks b') :
      ExpressionText (.header name) ('[' :: '[' :: (b ++ k ++ b') ++ [']', ']'])

/-- A line without its end: perhaps an expression, then perhaps a comment. -/
inductive LineText : Option Expression → List Char → Prop where
  | empty {b r : List Char} (hb : Blanks b) (hr : Remark r) :
      LineText none (b ++ r)
  | expression {e : Expression} {b w b' r : List Char} (hb : Blanks b)
      (hw : ExpressionText e w) (hb' : Blanks b') (hr : Remark r) :
      LineText (some e) (b ++ w ++ b' ++ r)

/-- Lines with line ends between them, and what they say in this order. -/
inductive Document : List Expression → List Char → Prop where
  | last {e? : Option Expression} {w : List Char} (hw : LineText e? w) :
      Document e?.toList w
  | more {e? : Option Expression} {es : List Expression} {v n w : List Char}
      (hv : LineText e? v) (hn : Newline n) (hw : Document es w) :
      Document (e?.toList ++ es) (v ++ n ++ w)

/-- A whole text. It may begin with a byte order mark. -/
inductive Text (es : List Expression) : List Char → Prop where
  | plain {w : List Char} (hw : Document es w) : Text es w
  | marked {w : List Char} (hw : Document es w) : Text es ('\uFEFF' :: w)

end TlsKeystore.Toml.Grammar
