import KineticText.Number.Shortest

/-!
# Quantities

A quantity is a number that keeps the kind it was given in: a whole number, a
double, or a truth value, which counts as one or zero.  Quantities of any two
kinds are compared exactly.  Sums, differences and products of whole numbers
are exact whole numbers; as soon as a double takes part, the other number
stands for the double nearest to it.

There are four groups: the kinds, the order, arithmetic, and what all this
says about two doubles.
-/

namespace KineticText

/-! ## Kinds -/

/-- A number in the kind it was given in. -/
inductive Quantity where
  | whole (value : Int)
  | real (value : Binary64)
  /-- A truth value, which counts as one or zero. -/
  | truth (value : Bool)
deriving DecidableEq, Repr

namespace Quantity

instance : Inhabited Quantity := ⟨whole 0⟩

instance (n : Nat) : OfNat Quantity n := ⟨whole n⟩

/-- The whole number of a quantity that is not a double. -/
def whole? : Quantity → Option Int
  | whole value => some value
  | truth value => some (if value then 1 else 0)
  | real _ => none

def toBinary64 : Quantity → Binary64
  | whole value => .ofInt value
  | truth value => if value then 1 else 0
  | real value => value

def rounded (q : Quantity) : Quantity := real q.toBinary64

def isNaN : Quantity → Bool
  | real value => value.isNaN
  | _ => false

/-- Whether a quantity is a double, or a whole number that is not beyond all
of them. -/
def hasDouble : Quantity → Bool
  | real _ => true
  | q => q.toBinary64.isFinite

/-- The exact decimal of a quantity, if it is a finite number; a double stands
for its shortest decimal. -/
def toDecimal? : Quantity → Option Decimal
  | whole value => some (.ofInt value)
  | real value => value.toDecimal?
  | truth _ => none

/-- The time in seconds; a quantity that is not finite counts as none. -/
def seconds (q : Quantity) : Decimal := q.toDecimal?.getD (.ofInt 0)

/-! ## Order

No comparison with an undefined number holds. -/

/-- Whether a whole number is strictly below a double. -/
def wholeBelow (a : Int) : Binary64 → Bool
  | .nan => false
  | .infinity negative => !negative
  | y => a * twoPow 1074 < y.units

def belowWhole (x : Binary64) (b : Int) : Bool :=
  match x with
  | .nan => false
  | .infinity negative => negative
  | x => x.units < b * twoPow 1074

def lt (p q : Quantity) : Bool :=
  match p.whole?, q.whole? with
  | some a, some b => a < b
  | some a, none => wholeBelow a q.toBinary64
  | none, some b => belowWhole p.toBinary64 b
  | none, none => p.toBinary64 < q.toBinary64

def le (p q : Quantity) : Bool := !p.isNaN && !q.isNaN && !q.lt p

instance : LT Quantity := ⟨fun p q => p.lt q = true⟩
instance : LE Quantity := ⟨fun p q => p.le q = true⟩
instance (p q : Quantity) : Decidable (p < q) := inferInstanceAs (Decidable (p.lt q = true))
instance (p q : Quantity) : Decidable (p ≤ q) := inferInstanceAs (Decidable (p.le q = true))

/-- The first of two quantities unless the second is strictly greater. -/
def larger (p q : Quantity) : Quantity := if p < q then q else p

def smaller (p q : Quantity) : Quantity := if q < p then q else p

/-! ## Arithmetic -/

/-- An operation on whole numbers where both are whole, else on doubles. -/
def combine (onWhole : Int → Int → Int) (onReal : Binary64 → Binary64 → Binary64)
    (p q : Quantity) : Quantity :=
  match p.whole?, q.whole? with
  | some a, some b => whole (onWhole a b)
  | _, _ => real (onReal p.toBinary64 q.toBinary64)

instance : Add Quantity := ⟨combine (· + ·) (· + ·)⟩
instance : Sub Quantity := ⟨combine (· - ·) (· - ·)⟩
instance : Mul Quantity := ⟨combine (· * ·) (· * ·)⟩

/-- The double nearest to a quotient.  The quotient of whole numbers is rounded
once. -/
def quotient (p q : Quantity) : Binary64 :=
  match p.whole?, q.whole? with
  | some a, some b =>
    if b = 0 then p.toBinary64 / q.toBinary64
    else .ofFraction (a < 0 ^^ b < 0) a.natAbs b.natAbs
  | _, _ => p.toBinary64 / q.toBinary64

instance : HDiv Quantity Quantity Binary64 := ⟨quotient⟩

def half (q : Quantity) : Binary64 := q.toBinary64 / 2

/-- Whether two quantities can be combined: both are whole, or neither is
beyond all doubles. -/
def fits (p q : Quantity) : Bool :=
  (p.whole?.isSome && q.whole?.isSome) || (p.hasDouble && q.hasDouble)

/-! ## Two doubles -/

theorem real_lt_real {x y : Binary64} : real x < real y ↔ x < y := by
  exact decide_eq_true_iff

theorem real_le_real {x y : Binary64} : real x ≤ real y ↔ x ≤ y := by
  show le (real x) (real y) = true ↔ x.le y = true
  have h : (real y).lt (real x) = y.lt x := by
    rw [Bool.eq_iff_iff]
    exact real_lt_real
  rw [le, h]
  simp only [isNaN, Binary64.le, Binary64.lt]
  cases x.isNaN <;> cases y.isNaN <;> simp

theorem real_add_real (x y : Binary64) : real x + real y = real (x + y) := rfl

theorem real_sub_real (x y : Binary64) : real x - real y = real (x - y) := rfl

theorem fits_real (x y : Binary64) : fits (real x) (real y) = true := rfl

end Quantity

end KineticText
