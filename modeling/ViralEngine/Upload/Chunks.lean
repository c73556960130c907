/-
  File:      ViralEngine/Upload/Chunks.lean
  Subject:   A FILE CUT INTO CHUNKS
             (ctus-main/lib/ctus/src/ctus/chunk/FileChunker.cpp, ChunkUtility.cpp).

  The constructor takes a size for the chunks, or finds one by the size of the file; only in the
  second case does it count the chunks. `chunkFile` writes that many chunk files, `loadChunks` reads
  them back.

  * `FileChunker`, `calculateChunkSize`, `make` -- the object as its constructor leaves it;
  * `readChunks` -- the loop of `chunkFile`;
  * `chunkFile`, `loadChunks` -- the two calls, where the file system does its part;
  * `loaded_whole` -- when the chunks are the file.
-/
import Mathlib.Data.Int.ModEq
import Mathlib.Data.List.TakeDrop

namespace Viral.Upload

/-! ## 1. Sizes -/

/-- A kilobyte, in thousands. -/
def KB : Int := 1000

/-- `getChunkSizeFromGB`. -/
def getChunkSizeFromGB (size : Int) : Int := size * KB * KB * KB

/-- `getChunkSizeFromMB`. -/
def getChunkSizeFromMB (size : Int) : Int := size * KB * KB

/-- `static_cast<int>`. -/
def castInt (n : Int) : Int := Int.bmod n (2 ^ 32)

/-- What `FileChunker` keeps: `files` are the chunk files in its directory, `chunks` those read. -/
structure FileChunker where
  chunkSize : Int
  chunkNumber : Int
  files : List (List UInt8)
  chunks : List (List UInt8)
  deriving DecidableEq, Repr

/-- The number of chunks of a size. -/
def countChunks (fileSize chunkSize : Int) : Int × Int :=
  (chunkSize, castInt ((fileSize + chunkSize - 1) / chunkSize))

/-- `calculateChunkSize`: the size of the chunks and their number. -/
def calculateChunkSize (fileSize : Int) : Int × Int :=
  if fileSize ≥ getChunkSizeFromGB 1 then countChunks fileSize (getChunkSizeFromMB 10)
  else if fileSize ≥ getChunkSizeFromMB 100 then countChunks fileSize (getChunkSizeFromMB 5)
  else if fileSize ≥ getChunkSizeFromMB 50 then countChunks fileSize (getChunkSizeFromMB 2)
  else if fileSize ≥ getChunkSizeFromMB 10 then countChunks fileSize (getChunkSizeFromMB 1)
  else (fileSize, 1)

namespace FileChunker

/-- The constructor, with the size of the file. -/
def make (chunkSize : Int) (fileSize : Nat) : FileChunker :=
  if 0 < chunkSize then ⟨chunkSize, 0, [], []⟩
  else ⟨(calculateChunkSize fileSize).1, (calculateChunkSize fileSize).2, [], []⟩

end FileChunker

/-- The loop of `chunkFile`: each round reads what is left, up to the size of a chunk. -/
def readChunks (chunkSize : Nat) : Nat → List UInt8 → List (List UInt8)
  | 0, _ => []
  | n + 1, file => file.take chunkSize :: readChunks chunkSize n (file.drop chunkSize)

namespace FileChunker

/-- `chunkFile`. -/
def chunkFile (c : FileChunker) (file : List UInt8) : FileChunker :=
  { c with files := readChunks c.chunkSize.toNat c.chunkNumber.toNat file }

/-- `loadChunks`. -/
def loadChunks (c : FileChunker) : FileChunker :=
  { c with chunks := c.files.take c.chunkNumber.toNat }

/-- Behind the constructor, `chunkFile` and `loadChunks`. -/
def loaded (chunkSize : Int) (file : List UInt8) : FileChunker :=
  ((make chunkSize file.length).chunkFile file).loadChunks

end FileChunker

/-! ## 2. What is read -/

section Read

variable {cs n : Nat} {file : List UInt8}

@[simp] theorem readChunks_length (cs n : Nat) (file : List UInt8) :
    (readChunks cs n file).length = n := by
  induction n generalizing file with
  | zero => rfl
  | succ n ih => exact congrArg (· + 1) (ih _)

/-- **The first chunks are the beginning of the file.** -/
theorem readChunks_flatten (cs n : Nat) (file : List UInt8) :
    (readChunks cs n file).flatten = file.take (n * cs) := by
  induction n generalizing file with
  | zero => simp [readChunks]
  | succ n ih =>
    rw [readChunks, List.flatten_cons, ih, Nat.succ_mul, Nat.add_comm, List.take_add]

theorem readChunks_bound (cs n : Nat) (file : List UInt8) :
    ∀ c ∈ readChunks cs n file, c.length ≤ cs := by
  induction n generalizing file with
  | zero => exact fun _ h => nomatch h
  | succ n ih =>
    intro c hc
    rcases List.mem_cons.mp hc with rfl | hc
    · exact List.length_take_le _ _
    · exact ih _ c hc

end Read

/-! ## 3. The chunks and the file -/

/-- `n` chunks are enough exactly if they are as many as are counted. -/
theorem enough_iff {len cs n : Int} (hcs : 0 < cs) : len ≤ n * cs ↔ (len + cs - 1) / cs ≤ n := by
  rw [Int.ediv_le_iff_le_mul hcs]
  constructor <;> intro h <;> omega

theorem castInt_of_lt {n : Int} (h0 : 0 ≤ n) (h : n < 2 ^ 31) : castInt n = n := by
  unfold castInt
  exact Int.bmod_eq_of_le (by omega) (by omega)

theorem castInt_lt (n : Int) : castInt n < 2 ^ 31 := by
  have := Int.bmod_lt (x := n) (m := 2 ^ 32) (by decide)
  unfold castInt
  omega

/-- The longest file whose chunks an `int` counts. -/
def longestFile : Int := (2 ^ 31 - 1) * getChunkSizeFromMB 10

/-- **The chunks counted are enough**, for a file an `int` can count the chunks of. -/
theorem counted_enough {len cs : Int} (h0 : 0 ≤ len) (hcs : 0 < cs) (hle : cs ≤ 10 ^ 7)
    (hlong : cs < 10 ^ 7 → len < 10 ^ 9 ∧ 10 ^ 6 ≤ cs) :
    len ≤ (countChunks len cs).2.toNat * cs ↔ len ≤ longestFile := by
  have hlongest : longestFile = (2 ^ 31 - 1) * 10 ^ 7 := by decide
  have hnonneg : 0 ≤ (len + cs - 1) / cs := Int.ediv_nonneg (by omega) (by omega)
  rw [enough_iff hcs, hlongest]
  simp only [countChunks]
  by_cases hfits : (len + cs - 1) / cs < 2 ^ 31
  · rw [castInt_of_lt hnonneg hfits, Int.toNat_of_nonneg hnonneg]
    refine ⟨fun _ => ?_, fun _ => Int.le_refl _⟩
    have hlen : len ≤ (2 ^ 31 - 1) * cs := (enough_iff hcs).mpr (by omega)
    by_cases hc : cs < 10 ^ 7
    · have := (hlong hc).1
      omega
    · obtain rfl : cs = 10 ^ 7 := by omega
      exact hlen
  · -- the number has wrapped
    have hcast := castInt_lt ((len + cs - 1) / cs)
    refine ⟨fun h => absurd h (by omega), fun h => ?_⟩
    have hlen : len ≤ (2 ^ 31 - 1) * cs → False := fun h =>
      hfits (Int.lt_of_le_of_lt ((enough_iff hcs).mp h) (by omega))
    by_cases hc : cs < 10 ^ 7
    · obtain ⟨hsmall, hbig⟩ := hlong hc
      exact (hlen (by omega)).elim
    · obtain rfl : cs = 10 ^ 7 := by omega
      exact (hlen h).elim

/-- What is found by the size of the file: chunks of which there are few, or the whole file. -/
theorem calculate_cases (len : Int) :
    (∃ cs, calculateChunkSize len = countChunks len cs ∧ 0 < cs ∧ cs ≤ 10 ^ 7 ∧
      (cs < 10 ^ 7 → len < 10 ^ 9 ∧ 10 ^ 6 ≤ cs)) ∨
    calculateChunkSize len = (len, 1) ∧ len < 10 ^ 7 := by
  have e1 : getChunkSizeFromGB 1 = 10 ^ 9 := by decide
  have e2 : getChunkSizeFromMB 100 = 10 ^ 8 := by decide
  have e3 : getChunkSizeFromMB 50 = 5 * 10 ^ 7 := by decide
  have e4 : getChunkSizeFromMB 10 = 10 ^ 7 := by decide
  unfold calculateChunkSize
  by_cases h1 : len ≥ getChunkSizeFromGB 1
  · exact .inl ⟨_, if_pos h1, by decide, by decide, fun h => absurd h (by decide)⟩
  rw [if_neg h1]
  by_cases h2 : len ≥ getChunkSizeFromMB 100
  · exact .inl ⟨_, if_pos h2, by decide, by decide, fun _ => ⟨by omega, by decide⟩⟩
  rw [if_neg h2]
  by_cases h3 : len ≥ getChunkSizeFromMB 50
  · exact .inl ⟨_, if_pos h3, by decide, by decide, fun _ => ⟨by omega, by decide⟩⟩
  rw [if_neg h3]
  by_cases h4 : len ≥ getChunkSizeFromMB 10
  · exact .inl ⟨_, if_pos h4, by decide, by decide, fun _ => ⟨by omega, by decide⟩⟩
  · exact .inr ⟨if_neg h4, by omega⟩

theorem calculate_enough {len : Int} (h0 : 0 ≤ len) :
    0 ≤ (calculateChunkSize len).1 ∧
      (len ≤ (calculateChunkSize len).2.toNat * (calculateChunkSize len).1 ↔
        len ≤ longestFile) := by
  rcases calculate_cases len with ⟨cs, heq, hcs, hle, hlong⟩ | ⟨heq, hshort⟩
  · rw [heq]
    exact ⟨Int.le_of_lt hcs, counted_enough h0 hcs hle hlong⟩
  · have hlongest : longestFile = (2 ^ 31 - 1) * 10 ^ 7 := by decide
    have hone : ((1 : Int).toNat : Int) * len = len := by simp
    rw [heq]
    simp only [hone, hlongest]
    exact ⟨h0, by omega⟩

theorem loaded_chunks (chunkSize : Int) (file : List UInt8) :
    (FileChunker.loaded chunkSize file).chunks =
      readChunks (FileChunker.make chunkSize file.length).chunkSize.toNat
        (FileChunker.make chunkSize file.length).chunkNumber.toNat file := by
  show List.take _ (readChunks _ _ file) = _
  refine List.take_of_length_le ?_
  rw [readChunks_length]
  exact Nat.le_refl _

/-- The size of the chunks is not negative, as the constructor leaves it. -/
theorem make_chunkSize (chunkSize : Int) (fileSize : Nat) :
    0 ≤ (FileChunker.make chunkSize fileSize).chunkSize := by
  unfold FileChunker.make
  split
  case isTrue h => exact Int.le_of_lt h
  case isFalse => exact (calculate_enough (Int.natCast_nonneg fileSize)).1

theorem loaded_fixed {chunkSize : Int} (h : 0 < chunkSize) (file : List UInt8) :
    (FileChunker.loaded chunkSize file).chunks = [] := by
  rw [loaded_chunks, FileChunker.make, if_pos h]
  rfl

/-- **When the chunks are the file**: none is longer than their size, and together they are the file
    never where that size is given, unless there is nothing in it, and where it is not, for every
    file whose chunks an `int` can count. -/
theorem loaded_whole (chunkSize : Int) (file : List UInt8) :
    (∀ c ∈ (FileChunker.loaded chunkSize file).chunks,
      (c.length : Int) ≤ (FileChunker.loaded chunkSize file).chunkSize) ∧
    ((FileChunker.loaded chunkSize file).chunks.flatten = file ↔
      file = [] ∨ chunkSize ≤ 0 ∧ (file.length : Int) ≤ longestFile) := by
  constructor
  · intro c hc
    have hsize := make_chunkSize chunkSize file.length
    rw [loaded_chunks] at hc
    have hbound := readChunks_bound _ _ file c hc
    show (c.length : Int) ≤ (FileChunker.make chunkSize file.length).chunkSize
    omega
  · by_cases hfixed : 0 < chunkSize
    · rw [loaded_fixed hfixed, List.flatten_nil]
      simp [Int.not_le.mpr hfixed, eq_comm]
    · have hmake : FileChunker.make chunkSize file.length =
          ⟨(calculateChunkSize file.length).1, (calculateChunkSize file.length).2, [], []⟩ :=
        if_neg hfixed
      obtain ⟨hsize, henough⟩ := calculate_enough (Int.natCast_nonneg file.length)
      rw [loaded_chunks, readChunks_flatten, List.take_eq_self_iff, hmake]
      rw [← Int.ofNat_le, Nat.cast_mul, Int.toNat_of_nonneg hsize, henough]
      constructor
      · intro h
        exact .inr ⟨Int.not_lt.mp hfixed, h⟩
      · rintro (rfl | ⟨-, h⟩)
        · decide
        · exact h

end Viral.Upload
