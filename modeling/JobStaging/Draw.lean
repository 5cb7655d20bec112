/-!
# Draws

A number below a bound drawn from a seed. The seed is stretched to a 256-bit key by a permuted
congruential generator, the key opens a ChaCha stream of twelve rounds, and the first word of the
stream, as a fraction of 2^32, picks the number; the second word decides the carry where the first
one falls too close to a boundary.

Without a seed the generator of the machine draws. Nothing is known of it but that its numbers stay
below their bounds, so it is a parameter wherever something is drawn (`Source`).
-/

set_option autoImplicit false

namespace JobStaging.Draw

/-- A word with its bits turned to the left. -/
def turn (w : UInt32) (n : UInt32) : UInt32 := (w <<< n) ||| (w >>> (32 - n))

/-- The next state of the key generator. -/
def nextState (s : UInt64) : UInt64 := s * 6364136223846793005 + 11634580027462260723

/-- The word that a state of the key generator gives. -/
def outputWord (s : UInt64) : UInt32 :=
  let x := (((s >>> 18) ^^^ s) >>> 27).toUInt32
  let n := (s >>> 59).toUInt32
  (x >>> n) ||| (x <<< ((32 - n) % 32))

/-- So many words of the key that a seed is stretched to. -/
def keyWords : Nat → UInt64 → List UInt32
  | 0, _ => []
  | n + 1, s => outputWord (nextState s) :: keyWords n (nextState s)

/-- The sixteen words that the stream works on. -/
abbrev Block := Vector UInt32 16

/-- Mixes four words of a block. -/
def quarter (a b c d : Fin 16) (v : Block) : Block :=
  let xa := v[a] + v[b]
  let xd := turn (v[d] ^^^ xa) 16
  let xc := v[c] + xd
  let xb := turn (v[b] ^^^ xc) 12
  let xa := xa + xb
  let xd := turn (xd ^^^ xa) 8
  let xc := xc + xd
  let xb := turn (xb ^^^ xc) 7
  (((v.set a xa).set b xb).set c xc).set d xd

/-- A round over the columns and a round over the diagonals. -/
def doubleRound (v : Block) : Block :=
  let v := quarter 3 7 11 15 (quarter 2 6 10 14 (quarter 1 5 9 13 (quarter 0 4 8 12 v)))
  quarter 3 4 9 14 (quarter 2 7 8 13 (quarter 1 6 11 12 (quarter 0 5 10 15 v)))

/-- Several double rounds. -/
def rounds : Nat → Block → Block
  | 0, v => v
  | n + 1, v => rounds n (doubleRound v)

/-- The block before the rounds: four constants, the key, and a zero counter and stream number. -/
def openingBlock (key : List UInt32) : Block :=
  #v[0x61707865, 0x3320646e, 0x79622d32, 0x6b206574,
     key.getD 0 0, key.getD 1 0, key.getD 2 0, key.getD 3 0,
     key.getD 4 0, key.getD 5 0, key.getD 6 0, key.getD 7 0, 0, 0, 0, 0]

/-- The first two words of a seed's stream. -/
def firstWords (seed : UInt64) : UInt32 × UInt32 :=
  let opening := openingBlock (keyWords 8 seed)
  let mixed := rounds 6 opening
  (mixed[0] + opening[0], mixed[1] + opening[1])

/-- The number below `n` that two words pick: `first · n / 2^32`, one more if the words together
carry past the next boundary. -/
def scale (first second : UInt32) (n : Nat) : Nat :=
  let wide := first.toNat * n
  let high := wide / UInt32.size
  let low := wide % UInt32.size
  if low + n > UInt32.size ∧ low + second.toNat * n / UInt32.size ≥ UInt32.size then high + 1
  else high

/-- The number below `n` that a seed picks. -/
def below (seed : UInt64) (n : Nat) : Nat :=
  let words := firstWords seed
  scale words.1 words.2 n

/-- A scaled draw stays below its bound. -/
theorem scale_lt (first second : UInt32) {n : Nat} (hn : 0 < n) : scale first second n < n := by
  have h1 : first.toNat + 1 ≤ UInt32.size := first.toNat_lt
  have h2 : second.toNat + 1 ≤ UInt32.size := second.toNat_lt
  have hw : first.toNat * n + n ≤ UInt32.size * n := by
    have := Nat.mul_le_mul_right n h1
    rwa [Nat.add_mul, Nat.one_mul] at this
  have hs : second.toNat * n / UInt32.size < n := by
    rw [Nat.div_lt_iff_lt_mul (by decide)]
    have := Nat.mul_le_mul_right n h2
    rw [Nat.add_mul, Nat.one_mul] at this
    rw [Nat.mul_comm n]
    omega
  have hd := Nat.div_add_mod (first.toNat * n) UInt32.size
  unfold scale
  simp only
  generalize first.toNat * n / UInt32.size = q at hd ⊢
  generalize first.toNat * n % UInt32.size = r at hd ⊢
  generalize second.toNat * n / UInt32.size = t at hs ⊢
  generalize first.toNat * n = m at hw hd
  simp only [UInt32.size] at hw hd ⊢
  split <;> omega

/-- A draw stays below its bound. -/
theorem below_lt (seed : UInt64) {n : Nat} (hn : 0 < n) : below seed n < n :=
  scale_lt _ _ hn

/-- What gives a number below any bound. -/
structure Source where
  below : Nat → Nat
  below_lt : ∀ n, 0 < n → below n < n

namespace Source

/-- The draws from a seed. -/
def ofSeed (seed : UInt64) : Source := ⟨Draw.below seed, fun _ => Draw.below_lt seed⟩

/-- Always the first of several. It serves where all of them are the same. -/
def first : Source := ⟨fun _ => 0, fun _ h => h⟩

/-- The draws from a seed, if there is one. -/
def seeded (unseeded : Source) : Option UInt64 → Source
  | some seed => ofSeed seed
  | none => unseeded

end Source

end JobStaging.Draw
