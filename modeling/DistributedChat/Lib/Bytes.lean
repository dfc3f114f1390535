import Mathlib

/-!
# Bytes and fixed-width numbers

Byte strings are lists of bytes; `overwrite` writes into a buffer at an offset. `be32` writes a
number in four bytes, most significant first, and `readBe32` takes them off the front of a byte
string again; `le64` writes a number in eight bytes, least significant first.
-/

namespace DistributedChat.Lib

abbrev Bytes := List UInt8

/-! ## Buffers -/

/-- The bytes of a buffer from an offset on are replaced. -/
def overwrite (buffer : Bytes) (offset : ℕ) (chunk : Bytes) : Bytes :=
  buffer.take offset ++ chunk ++ buffer.drop (offset + chunk.length)

variable {buffer chunk : Bytes}

theorem length_overwrite {offset : ℕ} (h : offset + chunk.length ≤ buffer.length) :
    (overwrite buffer offset chunk).length = buffer.length := by
  unfold overwrite
  simp only [List.length_append, List.length_take, List.length_drop]
  omega

theorem take_overwrite {offset : ℕ} (h : offset ≤ buffer.length) :
    (overwrite buffer offset chunk).take (offset + chunk.length) = buffer.take offset ++ chunk := by
  unfold overwrite
  apply List.take_left'
  rw [List.length_append, List.length_take, Nat.min_eq_left h]

theorem overwrite_all (h : buffer.length = chunk.length) : overwrite buffer 0 chunk = chunk := by
  unfold overwrite
  rw [List.take_zero, List.nil_append, Nat.zero_add, ← h, List.drop_length, List.append_nil]

/-! ## Big-endian words -/

/-- The low 32 bits of a number, most significant byte first. -/
def be32 (n : ℕ) : Bytes :=
  [UInt8.ofNat (n >>> 24), UInt8.ofNat (n >>> 16), UInt8.ofNat (n >>> 8), UInt8.ofNat n]

/-- The number in the first four bytes, and the bytes after it. -/
def readBe32 : Bytes → Option (ℕ × Bytes)
  | b₀ :: b₁ :: b₂ :: b₃ :: rest =>
    some (b₀.toNat <<< 24 + b₁.toNat <<< 16 + b₂.toNat <<< 8 + b₃.toNat, rest)
  | _ => none

@[simp] theorem length_be32 (n : ℕ) : (be32 n).length = 4 := rfl

variable {n : ℕ}

theorem readBe32_be32 (h : n < 2 ^ 32) (rest : Bytes) :
    readBe32 (be32 n ++ rest) = some (n, rest) := by
  unfold be32
  simp only [List.cons_append, List.nil_append, readBe32, UInt8.toNat_ofNat']
  have hn : (n >>> 24 % 2 ^ 8) <<< 24 + (n >>> 16 % 2 ^ 8) <<< 16 +
    (n >>> 8 % 2 ^ 8) <<< 8 + n % 2 ^ 8 = n := by
    simp only [Nat.shiftRight_eq_div_pow, Nat.shiftLeft_eq]
    omega
  rw [hn]

variable {b rest : Bytes}

theorem readBe32_append (h : readBe32 b = some (n, rest)) (t : Bytes) :
    readBe32 (b ++ t) = some (n, rest ++ t) := by
  match b with
  | b₀ :: b₁ :: b₂ :: b₃ :: tail =>
    obtain ⟨rfl, rfl⟩ := Prod.mk.inj (Option.some.inj h)
    rfl

theorem eq_of_readBe32 (h : readBe32 b = some (n, rest)) : b = be32 n ++ rest := by
  match b with
  | b₀ :: b₁ :: b₂ :: b₃ :: tail =>
    obtain ⟨rfl, rfl⟩ := Prod.mk.inj (Option.some.inj h)
    have h0 := b₀.toNat_lt
    have h1 := b₁.toNat_lt
    have h2 := b₂.toNat_lt
    have h3 := b₃.toNat_lt
    unfold be32
    simp only [List.cons_append, List.nil_append, List.cons.injEq, ← UInt8.toNat_inj,
      UInt8.toNat_ofNat', Nat.shiftRight_eq_div_pow, Nat.shiftLeft_eq, Nat.reducePow, and_true]
    refine ⟨?_, ?_, ?_, ?_⟩ <;> omega

theorem length_of_readBe32 (h : readBe32 b = some (n, rest)) : b.length = 4 + rest.length := by
  rw [eq_of_readBe32 h, List.length_append, length_be32]

/-! ## Little-endian words -/

/-- The low 64 bits of a number, least significant byte first. -/
def le64 (n : ℕ) : Bytes := (List.range 8).map fun index => UInt8.ofNat (n >>> (index * 8))

end DistributedChat.Lib
