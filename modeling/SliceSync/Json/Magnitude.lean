import SliceSync.Json.Token
/-!
# Magnitudes of numbers

A number is held in double precision as the product of two factors: its leading digits, as many as make
a number of 64 bits, and a power of ten. Each factor is the double nearest to it. The number is out of
range if the product is, which near the bound differs from what the digits as written would say.
-/

namespace SliceSync.Json

/-- What is kept of a number: leading digits, and the power of ten that they are a multiple of. -/
structure Magnitude where
  leading : Nat
  exponent : Int

/-- Appends digits to a number while it stays below 2 to the 64, and gives the digits left. -/
def takeDigits (n : Nat) : List Char → Nat × List Char
  | [] => (n, [])
  | d :: ds =>
    let next := n * 10 + (d.toNat - '0'.toNat)
    if next < UInt64.size then takeDigits next ds else (n, d :: ds)

def exponentValue : List Char → Int
  | '-' :: ds => -(digits ds)
  | '+' :: ds => digits ds
  | ds => digits ds
where
  digits (ds : List Char) : Int := (ds.foldl (fun n d => n * 10 + (d.toNat - '0'.toNat)) 0 : Nat)

/-- What is kept of a number as written. A digit left over before the point counts as a power of ten, one
behind it not at all. -/
def Magnitude.of (written : List Char) : Magnitude :=
  let p := numberParts written
  let fraction := p.fraction.getD []
  let (n, beyond) := takeDigits 0 p.whole
  let (leading, unread) := takeDigits n fraction
  let taken : Int := fraction.length - unread.length
  { leading, exponent := beyond.length - taken + exponentValue (p.exponent.getD ['0']) }

/-- The number nearest to a natural number among those of 53 significant binary digits, the even one of
two. -/
def nearestDouble (n : Nat) : Nat :=
  let unit := Nat.pow 2 (n.log2 - 52)
  let half := 2 * (n % unit)
  let isUp := unit < half || (unit = half && n / unit % 2 = 1)
  (if isUp then n / unit + 1 else n / unit) * unit

/-- The least number that is nearer to 2 to the 1024 than to any double. -/
def doubleBound : Nat := Nat.pow 2 1024 - Nat.pow 2 970

/-- Whether a magnitude is within the range of double precision. -/
def Magnitude.isInRange (m : Magnitude) : Bool :=
  m.leading = 0 || m.exponent ≤ 0 ||
    (m.exponent ≤ 308 &&
      nearestDouble m.leading * nearestDouble (Nat.pow 10 m.exponent.toNat) < doubleBound)

/-! ## Small laws -/

/-- What fits is appended as it stands. -/
theorem takeDigits_lt {n : Nat} (h : n < UInt64.size) (ds : List Char) :
    (takeDigits n ds).1 < UInt64.size := by
  induction ds generalizing n with
  | nil => exact h
  | cons d ds ih => grind [takeDigits]

/-- A number of at most 53 binary digits is a double itself. -/
theorem nearestDouble_of_log2_le {n : Nat} (h : n.log2 ≤ 52) : nearestDouble n = n := by
  have : n.log2 - 52 = 0 := by omega
  simp [nearestDouble, this, Nat.mod_one]

end SliceSync.Json
