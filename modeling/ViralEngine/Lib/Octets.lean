/-
  File:      ViralEngine/Lib/Octets.lean
  Subject:   NUMBERS IN NETWORK BYTE ORDER, AND BYTES UNDER A REPEATING MASK. No program fact.

  * `octets`, `bigEndian` -- a number in `k` bytes, the most significant first, and back;
  * `bigEndian_octets`, `octets_bigEndian` -- the two are inverse on their ranges;
  * `Key`, `masked` -- four bytes that are combined with a text over and over;
  * `masked_masked` -- the same key twice is no key.
-/
import Mathlib.Algebra.Order.Ring.Nat
import Mathlib.Data.List.Basic
import Mathlib.Tactic.Ring

namespace Viral.Lib

/-! ## 1. Numbers -/

/-- A number in `k` bytes, the most significant one first; what does not fit is cut off. -/
def octets : (k : Nat) → (n : Nat) → List UInt8
  | 0, _ => []
  | k + 1, n => UInt8.ofNat (n >>> (8 * k)) :: octets k n

/-- The number a text of bytes is, the most significant byte first. -/
def bigEndian (s : List UInt8) : Nat := s.foldl (fun n b => n <<< 8 ||| b.toNat) 0

@[simp] theorem octets_length (k n : Nat) : (octets k n).length = k := by
  induction k with
  | zero => rfl
  | succ k ih => simp [octets, ih]

theorem shift_or_byte (n : Nat) (b : UInt8) : n <<< 8 ||| b.toNat = n * 256 + b.toNat := by
  rw [← Nat.shiftLeft_add_eq_or_of_lt (b := b.toNat) (i := 8) b.toNat_lt, Nat.shiftLeft_eq]

theorem foldl_bigEndian (s : List UInt8) (n : Nat) :
    s.foldl (fun n b => n <<< 8 ||| b.toNat) n = n * 256 ^ s.length + bigEndian s := by
  unfold bigEndian
  induction s generalizing n with
  | nil => simp
  | cons b s ih =>
    rw [List.foldl_cons, List.foldl_cons, ih, ih (0 <<< 8 ||| b.toNat)]
    rw [shift_or_byte, shift_or_byte, List.length_cons]
    ring

@[simp] theorem bigEndian_nil : bigEndian [] = 0 := rfl

theorem bigEndian_cons (b : UInt8) (s : List UInt8) :
    bigEndian (b :: s) = b.toNat * 256 ^ s.length + bigEndian s := by
  show (b :: s).foldl _ 0 = _
  rw [List.foldl_cons, foldl_bigEndian, shift_or_byte]
  simp

theorem bigEndian_lt (s : List UInt8) : bigEndian s < 256 ^ s.length := by
  induction s with
  | nil => simp
  | cons b s ih =>
    have hb : b.toNat + 1 ≤ 256 := b.toNat_lt
    calc bigEndian (b :: s) = b.toNat * 256 ^ s.length + bigEndian s := bigEndian_cons b s
      _ < b.toNat * 256 ^ s.length + 256 ^ s.length := by omega
      _ = (b.toNat + 1) * 256 ^ s.length := by ring
      _ ≤ 256 * 256 ^ s.length := Nat.mul_le_mul_right _ hb
      _ = 256 ^ (b :: s).length := by rw [List.length_cons]; ring

theorem bigEndian_octets_mod (k n : Nat) : bigEndian (octets k n) = n % 256 ^ k := by
  induction k with
  | zero => simp [octets, Nat.mod_one]
  | succ k ih =>
    have hpow : 2 ^ (8 * k) = 256 ^ k := by rw [Nat.pow_mul]
    rw [octets, bigEndian_cons, ih, octets_length, Nat.mod_pow_succ, UInt8.toNat_ofNat',
      Nat.shiftRight_eq_div_pow, hpow]
    ring

theorem bigEndian_octets {k n : Nat} (h : n < 256 ^ k) : bigEndian (octets k n) = n := by
  rw [bigEndian_octets_mod, Nat.mod_eq_of_lt h]

/-- Two texts of one length that are the same number are the same text. -/
theorem bigEndian_inj {s t : List UInt8} (hlen : s.length = t.length)
    (h : bigEndian s = bigEndian t) : s = t := by
  induction s generalizing t with
  | nil => exact (List.length_eq_zero_iff.mp hlen.symm).symm
  | cons b s ih =>
    cases t with
    | nil => cases hlen
    | cons c t =>
      have hst : s.length = t.length := Nat.succ.inj hlen
      rw [bigEndian_cons, bigEndian_cons, ← hst] at h
      have hs := bigEndian_lt s
      have ht := bigEndian_lt t
      rw [← hst] at ht
      have hpos : 0 < 256 ^ s.length := Nat.pow_pos (by decide)
      have htop : b.toNat = c.toNat := by
        have hd := congrArg (· / 256 ^ s.length) h
        simpa [Nat.mul_comm _ (256 ^ s.length), Nat.mul_add_div hpos, Nat.div_eq_of_lt hs,
          Nat.div_eq_of_lt ht] using hd
      rw [htop] at h
      rw [UInt8.toNat_inj.mp htop, ih hst (Nat.add_left_cancel h)]

theorem octets_bigEndian (s : List UInt8) : octets s.length (bigEndian s) = s :=
  bigEndian_inj (octets_length _ _) (bigEndian_octets (bigEndian_lt s))

/-! ## 2. A repeating mask -/

/-- Four bytes, read over and over. -/
structure Key where
  k0 : UInt8
  k1 : UInt8
  k2 : UInt8
  k3 : UInt8
  deriving DecidableEq, Repr

namespace Key

/-- The byte of the key for the byte of the text with the index `j`. -/
def byte (k : Key) (j : Nat) : UInt8 :=
  match j &&& 3 with
  | 0 => k.k0
  | 1 => k.k1
  | 2 => k.k2
  | _ => k.k3

/-- The key as it is sent. -/
def bytes (k : Key) : List UInt8 := [k.k0, k.k1, k.k2, k.k3]

/-- The key in the first four bytes of a text; what is missing is 0. -/
def ofBytes (s : List UInt8) : Key := ⟨s.getD 0 0, s.getD 1 0, s.getD 2 0, s.getD 3 0⟩

/-- The key that changes nothing. -/
def zero : Key := ⟨0, 0, 0, 0⟩

@[simp] theorem bytes_length (k : Key) : k.bytes.length = 4 := rfl

@[simp] theorem ofBytes_bytes (k : Key) (s : List UInt8) : ofBytes (k.bytes ++ s) = k := rfl

theorem bytes_ofBytes {s : List UInt8} (h : 4 ≤ s.length) : (ofBytes s).bytes = s.take 4 := by
  match s, h with
  | a :: b :: c :: d :: s, _ => rfl

@[simp] theorem byte_zero (j : Nat) : zero.byte j = 0 := by
  unfold Key.byte
  split <;> rfl

end Key

/-- A text under a mask. -/
def masked (k : Key) (s : List UInt8) : List UInt8 := s.mapIdx fun j b => b ^^^ k.byte j

@[simp] theorem masked_length (k : Key) (s : List UInt8) : (masked k s).length = s.length := by
  simp [masked]

@[simp] theorem masked_nil (k : Key) : masked k [] = [] := rfl

theorem mapIdx_id (s : List UInt8) (f : Nat → UInt8 → UInt8) (hf : ∀ j b, f j b = b) :
    s.mapIdx f = s :=
  List.ext_getElem (by simp) fun j h _ => by simp [hf]

/-- **The same mask twice is no mask.** -/
@[simp] theorem masked_masked (k : Key) (s : List UInt8) : masked k (masked k s) = s := by
  unfold masked
  rw [List.mapIdx_mapIdx]
  refine mapIdx_id s _ fun j b => ?_
  show b ^^^ k.byte j ^^^ k.byte j = b
  rw [UInt8.xor_assoc, UInt8.xor_self, UInt8.xor_zero]

@[simp] theorem masked_zero (s : List UInt8) : masked Key.zero s = s :=
  mapIdx_id s _ fun j b => by simp

end Viral.Lib
