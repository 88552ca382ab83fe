import KineticText.Number.Power
import KineticText.Number.Rounding

/-!
# Double-precision numbers

A finite double is a sign and a *rank*: its place in the increasing list of
the non-negative finite doubles, `0, 2^-1074, 2 * 2^-1074, …`.  Each of them
is a whole number of *units* of `2^-1074`, given by `unitsAt`, so exact sums,
products and quotients are arithmetic of natural numbers.  Every operation
computes the exact result in units and rounds it once, to the nearest double
with ties to the even rank (`nearestRank`); a result beyond the largest finite
double is an infinity.

There are four groups: ranks and units, the type, its order, and arithmetic.
-/

namespace KineticText

/-! ## Ranks and units -/

/-- The number of ranks of finite magnitudes; the rank of infinity. -/
def rankLimit : Nat := 2047 * twoPow 52

/-- The units of `2^-1074` in the magnitude of a rank.  Below `2^52` ranks
count units; above, each block of `2^52` ranks has steps twice as wide. -/
def unitsAt (rank : Nat) : Nat :=
  if rank < twoPow 52 then rank
  else (twoPow 52 + rank % twoPow 52) * twoPow (rank / twoPow 52 - 1)

/-- The rank whose magnitude is nearest to `n / d` units, ties to the even
rank.  The width of the grid is chosen by the number of binary digits of the
quotient; a quotient rounded up to the next block lands on its first rank. -/
def nearestRank (n d : Nat) : Nat :=
  let widening := (n / d).log2 - 52
  widening * twoPow 52 + halfEven n (d * twoPow widening)

/-! ## The type -/

/-- The magnitude of a finite double. -/
structure Magnitude where
  /-- The place among the non-negative finite doubles. -/
  rank : Nat
  rank_lt : rank < rankLimit
deriving DecidableEq, Repr

def Magnitude.units (m : Magnitude) : Nat := unitsAt m.rank

/-- A double: a signed magnitude, a signed infinity, or not a number. -/
inductive Binary64 where
  | finite (negative : Bool) (magnitude : Magnitude)
  | infinity (negative : Bool)
  | nan
deriving DecidableEq, Repr

namespace Binary64

/-- The double of a sign and a rank; ranks from `rankLimit` on are infinite. -/
def ofRank (negative : Bool) (rank : Nat) : Binary64 :=
  if h : rank < rankLimit then finite negative ⟨rank, h⟩ else infinity negative

def nearest (negative : Bool) (n d : Nat) : Binary64 := ofRank negative (nearestRank n d)

def ofFraction (negative : Bool) (n d : Nat) : Binary64 := nearest negative (n * twoPow 1074) d

def ofInt (i : Int) : Binary64 := ofFraction (i < 0) i.natAbs 1

instance (n : Nat) : OfNat Binary64 n := ⟨ofInt n⟩

instance : Inhabited Binary64 := ⟨finite false ⟨0, by decide⟩⟩

def zero (negative : Bool) : Binary64 := finite negative ⟨0, by decide⟩

def isFinite : Binary64 → Bool
  | finite .. => true
  | _ => false

def isNaN : Binary64 → Bool
  | nan => true
  | _ => false

/-- The sign; an undefined number counts as positive. -/
def isNegative : Binary64 → Bool
  | finite negative _ => negative
  | infinity negative => negative
  | nan => false

/-- The rank of the magnitude, infinity above all others. -/
def rank : Binary64 → Nat
  | finite _ magnitude => magnitude.rank
  | infinity _ => rankLimit
  | nan => 0

/-- The signed exact value in units of `2^-1074`. -/
def units : Binary64 → Int
  | finite negative magnitude => if negative then -magnitude.units else magnitude.units
  | _ => 0

/-! ## Order

Comparison is by sign and rank.  The two zeros are equal, and no comparison
with an undefined number holds. -/

def key (x : Binary64) : Int := if x.isNegative then -x.rank else x.rank

/-- Whether the first of two signed ranks is strictly below the second. -/
def rankBelow (negative : Bool) (rank : Nat) (negative' : Bool) (rank' : Nat) : Bool :=
  match negative, negative' with
  | false, false => rank < rank'
  | true, true => rank' < rank
  | true, false => 0 < rank || 0 < rank'
  | false, true => false

def lt (x y : Binary64) : Bool :=
  !x.isNaN && !y.isNaN && rankBelow x.isNegative x.rank y.isNegative y.rank

def le (x y : Binary64) : Bool :=
  !x.isNaN && !y.isNaN && !rankBelow y.isNegative y.rank x.isNegative x.rank

instance : LT Binary64 := ⟨fun x y => x.lt y = true⟩
instance : LE Binary64 := ⟨fun x y => x.le y = true⟩
instance (x y : Binary64) : Decidable (x < y) := inferInstanceAs (Decidable (x.lt y = true))
instance (x y : Binary64) : Decidable (x ≤ y) := inferInstanceAs (Decidable (x.le y = true))

theorem rankBelow_eq (x y : Binary64) :
    rankBelow x.isNegative x.rank y.isNegative y.rank = decide (x.key < y.key) := by
  rw [Bool.eq_iff_iff, decide_eq_true_iff, key, key]
  cases x.isNegative <;> cases y.isNegative <;> simp [rankBelow]
  all_goals omega

theorem lt_iff_key {x y : Binary64} :
    x < y ↔ x.isNaN = false ∧ y.isNaN = false ∧ x.key < y.key := by
  show x.lt y = true ↔ _
  rw [lt, rankBelow_eq]
  simp [and_assoc]

theorem le_iff_key {x y : Binary64} :
    x ≤ y ↔ x.isNaN = false ∧ y.isNaN = false ∧ x.key ≤ y.key := by
  show x.le y = true ↔ _
  rw [le, rankBelow_eq]
  simp [and_assoc]

theorem key_lt_of_lt {x y : Binary64} (h : x < y) : x.key < y.key := (lt_iff_key.1 h).2.2

/-- Equal as numbers: the zeros agree, and an undefined number equals nothing. -/
def sameNumber (x y : Binary64) : Bool := x.le y && y.le x

/-- The first of two numbers unless the second is strictly greater. -/
def larger (x y : Binary64) : Binary64 := if x < y then y else x

def smaller (x y : Binary64) : Binary64 := if y < x then y else x

/-! ## Arithmetic -/

def neg : Binary64 → Binary64
  | finite negative magnitude => finite (!negative) magnitude
  | infinity negative => infinity (!negative)
  | nan => nan

/-- The double nearest to a whole number of units; an exact zero gets the
given sign. -/
def ofUnits (zeroSign : Bool) (z : Int) : Binary64 :=
  if z = 0 then zero zeroSign else nearest (z < 0) z.natAbs 1

/-- A sum that is exactly zero is negative only if both terms are. -/
def add : Binary64 → Binary64 → Binary64
  | nan, _ | _, nan => nan
  | infinity a, infinity b => if a = b then infinity a else nan
  | infinity a, finite .. => infinity a
  | finite .., infinity b => infinity b
  | x@(finite a _), y@(finite b _) => ofUnits (a && b) (x.units + y.units)

def sub (x y : Binary64) : Binary64 := x.add y.neg

/-- An infinity times a zero is undefined. -/
def mul : Binary64 → Binary64 → Binary64
  | nan, _ | _, nan => nan
  | infinity a, infinity b => infinity (a ^^ b)
  | infinity a, finite b y => if y.rank = 0 then nan else infinity (a ^^ b)
  | finite a x, infinity b => if x.rank = 0 then nan else infinity (a ^^ b)
  | finite a x, finite b y => nearest (a ^^ b) (x.units * y.units) (twoPow 1074)

/-- A zero by a zero and an infinity by an infinity are undefined; any other
quotient by zero is infinite. -/
def div : Binary64 → Binary64 → Binary64
  | nan, _ | _, nan => nan
  | infinity _, infinity _ => nan
  | infinity a, finite b _ => infinity (a ^^ b)
  | finite a _, infinity b => zero (a ^^ b)
  | finite a x, finite b y =>
    if y.rank = 0 then (if x.rank = 0 then nan else infinity (a ^^ b))
    else nearest (a ^^ b) (x.units * twoPow 1074) y.units

instance : Neg Binary64 := ⟨neg⟩
instance : Add Binary64 := ⟨add⟩
instance : Sub Binary64 := ⟨sub⟩
instance : Mul Binary64 := ⟨mul⟩
instance : Div Binary64 := ⟨div⟩

/-- The double nearest to the ratio of a circle's circumference to its
diameter. -/
def pi : Binary64 := ofFraction false 884279719003555 (twoPow 48)

end Binary64

end KineticText
