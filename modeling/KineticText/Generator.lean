import KineticText.Datum.Number

/-!
# Random numbers

The twisted generator of 624 words of 32 bits.  A state is the block of words
and how many of them have been handed out; `uniform` draws a double from zero
up to below one.
-/

namespace KineticText

structure Generator where
  block : Array UInt32
  /-- How many words of the block have been handed out. -/
  used : Nat
deriving Repr

namespace Generator

def size : Nat := 624

/-- A word of a block; positions behind its end count from its start. -/
def wordAt (block : Array UInt32) (i : Nat) : UInt32 := block.getD (i % size) 0

/-! ## Seeding -/

def blockOfWord (seed : UInt32) : Array UInt32 :=
  (List.range (size - 1)).foldl (fun block i =>
      let last := wordAt block i
      block.push ((1812433253 : UInt32) * (last ^^^ (last >>> 30)) + UInt32.ofNat (i + 1)))
    #[seed]

/-- Mixes something into word `i` from the word before it, and keeps the first
word a copy of the last one whenever the end of the block is reached. -/
def mix (block : Array UInt32) (i : Nat) (factor : UInt32) (combine : UInt32 → UInt32) :
    Array UInt32 :=
  let before := wordAt block (i - 1)
  let word := combine (wordAt block i ^^^ ((before ^^^ (before >>> 30)) * factor))
  let block := block.setIfInBounds i word
  if i = size - 1 then block.setIfInBounds 0 word else block

/-- The position mixed in a round; the first word is left out. -/
def mixed (round : Nat) : Nat := round % (size - 1) + 1

def blockOfKey (key : Array UInt32) : Array UInt32 :=
  let rounds := max size key.size
  let keyed := (List.range rounds).foldl (fun block round =>
      let j := round % key.size
      mix block (mixed round) 1664525 fun word => word + key.getD j 0 + UInt32.ofNat j)
    (blockOfWord 19650218)
  let spread := (List.range (size - 1)).foldl (fun block round =>
      let i := mixed (rounds + round)
      mix block i 1566083941 fun word => word - UInt32.ofNat i)
    keyed
  spread.setIfInBounds 0 0x80000000

/-- The words of a number, the lowest first; zero has one. -/
def keyOf (n : Nat) : Array UInt32 :=
  (List.range (n.log2 / 32 + 1)).map (fun i => UInt32.ofNat (n >>> (32 * i))) |>.toArray

def ofSeed (seed : Int) : Generator := ⟨blockOfKey (keyOf seed.natAbs), size⟩

/-- The modulus of residues of doubles, which is prime. -/
def residueModulus : Nat := twoPow 61 - 1

/-- The seed that stands for a double, if it is defined: its residue, where a
half is `2^60`, so that a unit of `2^-1074` is `2^24`.  Residues of negative
numbers count down from `2^64`, and minus one gives way to minus two. -/
def seedOfReal? (x : Binary64) : Option Int :=
  let residue :=
    match x with
    | .finite _ magnitude => some (magnitude.units * twoPow 24 % residueModulus)
    | .infinity _ => some 314159
    | .nan => none
  residue.map fun r =>
    if x.isNegative && r ≠ 0 then ((twoPow 64 - max r 2 : Nat) : Int) else (r : Int)

/-- The generator that a value seeds.  Without a value that names a number it is
that of `fallback`; a list or a mapping is no seed. -/
def ofDatum (seed : Datum) (fallback : Int) : Except Failure Generator :=
  match seed with
  | .list _ | .mapping _ => .error .misfit
  | .real x => .ok (ofSeed ((seedOfReal? x).getD fallback))
  | v => .ok (ofSeed ((v.quantity?.bind Quantity.whole?).getD fallback))

/-! ## Drawing -/

def nextBlock (block : Array UInt32) : Array UInt32 :=
  (List.range size).foldl (fun block i =>
      let joined := (wordAt block i &&& 0x80000000) ||| (wordAt block (i + 1) &&& 0x7fffffff)
      let twist : UInt32 := if joined &&& 1 = 0 then 0 else 0x9908b0df
      block.setIfInBounds i (wordAt block (i + 397) ^^^ (joined >>> 1) ^^^ twist))
    block

/-- Spreads the bits of a word before it is handed out. -/
def temper (word : UInt32) : UInt32 :=
  let word := word ^^^ (word >>> 11)
  let word := word ^^^ ((word <<< 7) &&& 0x9d2c5680)
  let word := word ^^^ ((word <<< 15) &&& 0xefc60000)
  word ^^^ (word >>> 18)

def word (g : Generator) : UInt32 × Generator :=
  if g.used < size then (temper (wordAt g.block g.used), { g with used := g.used + 1 })
  else
    let block := nextBlock g.block
    (temper (wordAt block 0), ⟨block, 1⟩)

/-- The numerator of a draw over `2^53`: 27 bits of one word and 26 of the
next. -/
def numerator (g : Generator) : Nat × Generator :=
  let (high, g) := g.word
  let (low, g) := g.word
  ((high >>> 5).toNat * twoPow 26 + (low >>> 6).toNat, g)

/-- Draws a double from zero up to below one. -/
def uniform (g : Generator) : Binary64 × Generator :=
  let (n, g) := g.numerator
  (.ofFraction false n (twoPow 53), g)

end Generator

end KineticText
