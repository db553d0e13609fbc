import Mathlib.Data.Nat.Bitwise
import Mathlib.Tactic

/-!
# Machine words as natural numbers

Arithmetic of an unsigned 32-bit type is written on `ℕ` with the wrap-around made explicit by
`u32`; the two's complement reading of a word and the conversion of a signed number to a word are
`asInt32` and `ofInt32`. Little-endian decoding of 16- and 32-bit fields is `le16` and `le32`.

The second half is the bit arithmetic of page-aligned addresses with a block of size `4096`:
masking off the low twelve bits, masking them in, and joining an aligned address with a flag byte.
Each of these is turned into `+`, `/` and `%`, so that later goals are linear.
-/

namespace Verif

/-! ### Wrapping -/

/-- The number of values of a 32-bit word. -/
abbrev word : ℕ := 4294967296

/-- Truncation to 32 bits. -/
def u32 (n : ℕ) : ℕ := n % 4294967296

theorem u32_eq (n : ℕ) : u32 n = n % 4294967296 := rfl

theorem u32_lt (n : ℕ) : u32 n < 4294967296 := Nat.mod_lt _ (by norm_num)

theorem u32_of_lt {n : ℕ} (h : n < 4294967296) : u32 n = n := Nat.mod_eq_of_lt h

/-- Subtraction of 32-bit words. -/
def u32Sub (a b : ℕ) : ℕ := u32 (a + (4294967296 - u32 b))

theorem u32Sub_of_le {a b : ℕ} (hb : b ≤ a) (ha : a < 4294967296) : u32Sub a b = a - b := by
  unfold u32Sub
  rw [u32_of_lt (by omega : b < 4294967296), u32_eq]
  omega

/-- A signed number stored in a 32-bit word. -/
def ofInt32 (i : ℤ) : ℕ := (i % 4294967296).toNat

theorem ofInt32_lt (i : ℤ) : ofInt32 i < 4294967296 := by
  unfold ofInt32
  omega

/-- The signed reading of a 32-bit word. -/
def asInt32 (n : ℕ) : ℤ := if u32 n < 2147483648 then u32 n else (u32 n : ℤ) - 4294967296

theorem asInt32_of_lt {n : ℕ} (h : n < 2147483648) : asInt32 n = n := by
  unfold asInt32
  rw [u32_of_lt (by omega), if_pos h]

/-- A word survives a round trip through the signed type. -/
theorem ofInt32_asInt32 (n : ℕ) : ofInt32 (asInt32 n) = u32 n := by
  have h := u32_lt n
  unfold ofInt32 asInt32
  split <;> omega

/-! ### Little-endian fields -/

/-- The byte at offset `i` of a byte string, `0` past its end. -/
def byteAt (b : List UInt8) (i : ℕ) : ℕ := (b.getD i 0).toNat

theorem byteAt_lt (b : List UInt8) (i : ℕ) : byteAt b i < 256 := UInt8.toNat_lt _

/-- The 16-bit little-endian field at offset `i`. -/
def le16 (b : List UInt8) (i : ℕ) : ℕ := byteAt b i + 256 * byteAt b (i + 1)

/-- The 32-bit little-endian field at offset `i`. -/
def le32 (b : List UInt8) (i : ℕ) : ℕ := le16 b i + 65536 * le16 b (i + 2)

theorem le16_lt (b : List UInt8) (i : ℕ) : le16 b i < 65536 := by
  have h0 := byteAt_lt b i
  have h1 := byteAt_lt b (i + 1)
  unfold le16
  omega

theorem le32_lt (b : List UInt8) (i : ℕ) : le32 b i < 4294967296 := by
  have h0 := le16_lt b i
  have h1 := le16_lt b (i + 2)
  unfold le32
  omega

/-! ### Page-aligned addresses -/

/-- Masking in the low twelve bits. -/
theorem and_pageOffset (x : ℕ) : x &&& 0xFFF = x % 4096 := Nat.and_two_pow_sub_one_eq_mod x 12

/-- Masking off the low twelve bits of a 32-bit word. -/
theorem and_pageBase {x : ℕ} (h : x < 4294967296) : x &&& 0xFFFFF000 = x - x % 4096 := by
  have hdiv : x &&& 0xFFFFF000 = x / 2 ^ 12 * 2 ^ 12 := by
    apply Nat.eq_of_testBit_eq
    intro i
    rw [Nat.testBit_and, show (0xFFFFF000 : ℕ) = (2 ^ 20 - 1) * 2 ^ 12 by norm_num,
      Nat.testBit_mul_two_pow, Nat.testBit_mul_two_pow, Nat.testBit_div_two_pow,
      Nat.testBit_two_pow_sub_one]
    by_cases hi : 12 ≤ i
    · rw [show i - 12 + 12 = i by omega]
      by_cases h32 : i < 32
      · simp [hi, show i - 12 < 20 by omega]
      · -- above bit 31 the word itself has no bit set
        have hbit : x.testBit i = false :=
          Nat.testBit_lt_two_pow (lt_of_lt_of_le h
            (by calc (4294967296 : ℕ) = 2 ^ 32 := by norm_num
                  _ ≤ 2 ^ i := Nat.pow_le_pow_right (by norm_num) (by omega)))
        simp [hi, hbit]
    · simp [hi]
  rw [hdiv]
  omega

/-- An aligned address joined with flags below the page size is their sum. -/
theorem or_flags {a f : ℕ} (ha : a % 4096 = 0) (hf : f < 4096) : a ||| f = a + f := by
  obtain ⟨k, rfl⟩ := Nat.dvd_of_mod_eq_zero ha
  exact (Nat.two_pow_add_eq_or_of_lt (i := 12) hf k).symm

/-- The page base of an aligned address joined with flags is the address. -/
theorem pageBase_or_flags {a f : ℕ} (ha : a % 4096 = 0) (ha' : a < 4294967296) (hf : f < 4096) :
    (a ||| f) &&& 0xFFFFF000 = a := by
  rw [or_flags ha hf, and_pageBase (by omega)]
  omega

/-- Testing a flag of an aligned address joined with flags tests the flags. -/
theorem testBit_or_flags {a f i : ℕ} (ha : a % 4096 = 0) (hi : i < 12) :
    (a ||| f).testBit i = f.testBit i := by
  obtain ⟨k, rfl⟩ := Nat.dvd_of_mod_eq_zero ha
  rw [Nat.testBit_or, show 4096 * k = k * 2 ^ 12 by ring, Nat.testBit_mul_two_pow]
  simp [Nat.not_le.mpr hi]

end Verif
