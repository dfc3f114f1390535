import DistributedChat.Lib.Bytes

/-!
# Length-delimited packets

A packet on the wire is a 16-bit id, a 16-bit length and a body of that length, numbers most
significant byte first. A receiver refuses a header it does not admit, waits for the bytes of a
packet that is not complete, and refuses a complete packet it does not serve. `Receiver.scan` says
what it makes of a byte string as a whole: the packets up to the first refusal, and whether it waits
with the bytes of an unfinished packet or has refused.

1. A header is read back from its bytes, and only from them.
2. `scan_append`: a scan may be cut anywhere; it goes on from the bytes it waits with.
3. `scan_encodeAll` and `scan_spec`: the packets of a scan are those of the longest prefix that is
   made of packets the receiver takes.
-/

namespace DistributedChat.Lib

open List

/-! ## Headers -/

/-- The low 16 bits of a number, most significant byte first. -/
def be16 (n : ℕ) : Bytes := [UInt8.ofNat (n >>> 8), UInt8.ofNat n]

/-- The header of a packet: its id and the length of its body. -/
def header (id len : ℕ) : Bytes := be16 id ++ be16 len

/-- The header in the first four bytes, and the bytes after it. -/
def readHeader : Bytes → Option (ℕ × ℕ × Bytes)
  | b₀ :: b₁ :: b₂ :: b₃ :: rest =>
    some (b₀.toNat <<< 8 + b₁.toNat, b₂.toNat <<< 8 + b₃.toNat, rest)
  | _ => none

@[simp] theorem length_header (id len : ℕ) : (header id len).length = 4 := rfl

variable {id len : ℕ}

theorem readHeader_header (hid : id < 2 ^ 16) (hlen : len < 2 ^ 16) (rest : Bytes) :
    readHeader (header id len ++ rest) = some (id, len, rest) := by
  have hword : ∀ n < 2 ^ 16, (n >>> 8 % 2 ^ 8) <<< 8 + n % 2 ^ 8 = n := by
    intro n hn
    simp only [Nat.shiftRight_eq_div_pow, Nat.shiftLeft_eq]
    omega
  unfold header be16
  simp only [cons_append, nil_append, readHeader, UInt8.toNat_ofNat', hword id hid, hword len hlen]

theorem be16_word (b₀ b₁ : UInt8) : be16 (b₀.toNat <<< 8 + b₁.toNat) = [b₀, b₁] := by
  have h₀ := b₀.toNat_lt
  have h₁ := b₁.toNat_lt
  unfold be16
  simp only [List.cons.injEq, ← UInt8.toNat_inj, UInt8.toNat_ofNat', Nat.shiftRight_eq_div_pow,
    Nat.shiftLeft_eq, Nat.reducePow, and_true]
  omega

theorem word_lt (b₀ b₁ : UInt8) : b₀.toNat <<< 8 + b₁.toNat < 2 ^ 16 := by
  have h₀ := b₀.toNat_lt
  have h₁ := b₁.toNat_lt
  rw [Nat.shiftLeft_eq]
  omega

theorem eq_of_readHeader {b rest : Bytes} (h : readHeader b = some (id, len, rest)) :
    b = header id len ++ rest ∧ id < 2 ^ 16 ∧ len < 2 ^ 16 := by
  match b with
  | b₀ :: b₁ :: b₂ :: b₃ :: tail =>
    simp only [readHeader, Option.some.injEq, Prod.mk.injEq] at h
    obtain ⟨rfl, rfl, rfl⟩ := h
    refine ⟨?_, word_lt b₀ b₁, word_lt b₂ b₃⟩
    rw [header, be16_word, be16_word]
    rfl

theorem readHeader_eq_none_iff {b : Bytes} : readHeader b = none ↔ b.length < 4 := by
  match b with
  | [] | [_] | [_, _] | [_, _, _] => simp [readHeader]
  | _ :: _ :: _ :: _ :: tail => simp [readHeader]

/-! ## Packets -/

structure Packet where
  id : ℕ
  body : Bytes
  deriving DecidableEq, Repr

def Packet.encode (p : Packet) : Bytes := header p.id p.body.length ++ p.body

/-- The bytes of packets one after the other. -/
def encodeAll (ps : List Packet) : Bytes := ps.flatMap Packet.encode

@[simp] theorem encodeAll_cons (p : Packet) (ps : List Packet) :
    encodeAll (p :: ps) = p.encode ++ encodeAll ps := rfl

/-- The id and the length of a packet fit into its header. -/
def Packet.Fits (p : Packet) : Prop := p.id < 2 ^ 16 ∧ p.body.length < 2 ^ 16

/-- A header is followed by at least the body it announces: there is a complete packet. -/
theorem header_append_eq_encode {rest : Bytes} (h : len ≤ rest.length) :
    header id len ++ rest = (Packet.mk id (rest.take len)).encode ++ rest.drop len := by
  rw [Packet.encode, length_take, Nat.min_eq_left h, append_assoc, take_append_drop]

/-! ## Receivers -/

/-- What a receiver checks: a header when it is complete, and the id of a complete packet. -/
structure Receiver where
  admits : ℕ → ℕ → Bool
  serves : ℕ → Bool

/-- What a receiver does after the packets it took. -/
inductive Tail
  | waiting (partially : Bytes)
  | refused
  deriving DecidableEq, Repr

namespace Receiver

variable (R : Receiver)

/-- The packets a receiver takes. -/
structure Takes (p : Packet) : Prop where
  fits : p.Fits
  admits : R.admits p.id p.body.length = true
  serves : R.serves p.id = true

/-- The packets a receiver takes from a byte string, and what it does after them. -/
def scan (b : Bytes) : List Packet × Tail :=
  match _read : readHeader b with
  | none => ([], .waiting b)
  | some (id, len, rest) =>
    if R.admits id len = false then ([], .refused)
    else if rest.length < len then ([], .waiting b)
    else if R.serves id = false then ([], .refused)
    else
      let r := scan (rest.drop len)
      (⟨id, rest.take len⟩ :: r.1, r.2)
termination_by b.length
decreasing_by
  rw [(eq_of_readHeader _read).1, length_append, length_header, length_drop]
  omega

variable {b : Bytes}

theorem scan_short (h : b.length < 4) : R.scan b = ([], .waiting b) := by
  have hnone := readHeader_eq_none_iff.mpr h
  unfold scan
  split <;> simp_all

section Header

variable {R} {id len : ℕ} (hid : id < 2 ^ 16) (hlen : len < 2 ^ 16)

include hid hlen

theorem scan_refused (h : R.admits id len = false) (rest : Bytes) :
    R.scan (header id len ++ rest) = ([], .refused) := by
  have hread := readHeader_header hid hlen rest
  unfold scan
  split <;> simp_all

variable {rest : Bytes}

theorem scan_waiting (h : R.admits id len = true) (hrest : rest.length < len) :
    R.scan (header id len ++ rest) = ([], .waiting (header id len ++ rest)) := by
  have hread := readHeader_header hid hlen rest
  unfold scan
  split <;> simp_all

theorem scan_unserved (h : R.admits id len = true) (hrest : len ≤ rest.length)
    (hs : R.serves id = false) :
    R.scan (header id len ++ rest) = ([], .refused) := by
  have hread := readHeader_header hid hlen rest
  have hle := Nat.not_lt.mpr hrest
  unfold scan
  split <;> simp_all

theorem scan_taken (h : R.admits id len = true) (hrest : len ≤ rest.length)
    (hs : R.serves id = true) :
    R.scan (header id len ++ rest) =
      (⟨id, rest.take len⟩ :: (R.scan (rest.drop len)).1, (R.scan (rest.drop len)).2) := by
  have hread := readHeader_header hid hlen rest
  have hle := Nat.not_lt.mpr hrest
  rw [scan]
  split <;> simp_all

end Header

/-- The cases of a scan: a header that has not arrived, one that is refused, a packet that has not
arrived, one that is refused, and one that is taken. -/
theorem scan_induction {motive : Bytes → Prop} (short : ∀ b, b.length < 4 → motive b)
    (refused : ∀ id len rest, id < 2 ^ 16 → len < 2 ^ 16 → R.admits id len = false →
      motive (header id len ++ rest))
    (waiting : ∀ id len rest, id < 2 ^ 16 → len < 2 ^ 16 → R.admits id len = true →
      rest.length < len →
      motive (header id len ++ rest))
    (unserved : ∀ id len rest, id < 2 ^ 16 → len < 2 ^ 16 → R.admits id len = true →
      len ≤ rest.length →
      R.serves id = false → motive (header id len ++ rest))
    (taken : ∀ id len rest, id < 2 ^ 16 → len < 2 ^ 16 → R.admits id len = true →
      len ≤ rest.length →
      R.serves id = true → motive (rest.drop len) → motive (header id len ++ rest)) (b : Bytes) :
        motive b := by
  induction hn : b.length using Nat.strongRecOn generalizing b with
  | ind n ih =>
    cases hread : readHeader b with
    | none => exact short b (readHeader_eq_none_iff.mp hread)
    | some found =>
      obtain ⟨id, len, rest⟩ := found
      obtain ⟨rfl, hid, hlen⟩ := eq_of_readHeader hread
      by_cases ha : R.admits id len = true
      · by_cases hle : len ≤ rest.length
        · by_cases hs : R.serves id = true
          · refine taken id len rest hid hlen ha hle hs (ih _ ?_ _ rfl)
            rw [← hn, length_append, length_header, length_drop]
            omega
          · exact unserved id len rest hid hlen ha hle (by simpa using hs)
        · exact waiting id len rest hid hlen ha (by omega)
      · exact refused id len rest hid hlen (by simpa using ha)

/-! ## Cutting a byte string -/

/-- A scan that goes on with more bytes. -/
def resume (r : List Packet × Tail) (c : Bytes) : List Packet × Tail :=
  match r.2 with
  | .refused => r
  | .waiting b => (r.1 ++ (R.scan (b ++ c)).1, (R.scan (b ++ c)).2)

/-- **A scan may be cut anywhere**: it goes on from the bytes it waits with. -/
theorem scan_append (b c : Bytes) : R.scan (b ++ c) = R.resume (R.scan b) c := by
  induction b using R.scan_induction with
  | short b h => rw [R.scan_short h]; rfl
  | refused id len rest hid hlen ha =>
    rw [append_assoc, scan_refused hid hlen ha, scan_refused hid hlen ha]
    rfl
  | waiting id len rest hid hlen ha hrest => rw [scan_waiting hid hlen ha hrest]; rfl
  | unserved id len rest hid hlen ha hrest hs =>
    have hmore : len ≤ (rest ++ c).length := by rw [length_append]; omega
    rw [append_assoc, scan_unserved hid hlen ha hmore hs, scan_unserved hid hlen ha hrest hs]
    rfl
  | taken id len rest hid hlen ha hrest hs ih =>
    have hmore : len ≤ (rest ++ c).length := by rw [length_append]; omega
    rw [append_assoc, scan_taken hid hlen ha hmore hs, scan_taken hid hlen ha hrest hs,
      take_append_of_le_length hrest, drop_append_of_le_length hrest, ih]
    obtain ⟨ps, tail⟩ := R.scan (rest.drop len)
    cases tail <;> rfl

theorem scan_idle {c : Bytes} (h : (R.scan b).2 = .waiting c) : R.scan c = ([], .waiting c) := by
  induction b using R.scan_induction with
  | short b hb =>
    rw [R.scan_short hb] at h
    obtain rfl := Tail.waiting.inj h
    exact R.scan_short hb
  | refused id len rest hid hlen ha =>
    rw [scan_refused hid hlen ha] at h
    cases h
  | waiting id len rest hid hlen ha hrest =>
    rw [scan_waiting hid hlen ha hrest] at h
    obtain rfl := Tail.waiting.inj h
    exact scan_waiting hid hlen ha hrest
  | unserved id len rest hid hlen ha hrest hs =>
    rw [scan_unserved hid hlen ha hrest hs] at h
    cases h
  | taken id len rest hid hlen ha hrest hs ih =>
    rw [scan_taken hid hlen ha hrest hs] at h
    exact ih h

/-! ## What a scan takes -/

variable {R}

theorem scan_encode {p : Packet} (hp : R.Takes p) (t : Bytes) :
    R.scan (p.encode ++ t) = (p :: (R.scan t).1, (R.scan t).2) := by
  have hle : p.body.length ≤ (p.body ++ t).length := by rw [length_append]; omega
  rw [Packet.encode, append_assoc, scan_taken hp.fits.1 hp.fits.2 hp.admits hle hp.serves,
    take_left, drop_left]

theorem scan_encodeAll {ps : List Packet} (hps : ∀ p ∈ ps, R.Takes p) (t : Bytes) :
    R.scan (encodeAll ps ++ t) = (ps ++ (R.scan t).1, (R.scan t).2) := by
  induction ps with
  | nil => rfl
  | cons p ps ih =>
    rw [encodeAll_cons, append_assoc, scan_encode (hps p mem_cons_self),
      ih fun q hq => hps q (mem_cons_of_mem p hq)]
    rfl

/-- A first part of some packets: the receiver takes the first ones and waits. -/
theorem scan_part {ps : List Packet} (hps : ∀ p ∈ ps, R.Takes p) {c : Bytes}
    (h : b ++ c = encodeAll ps) :
    ∃ n t, R.scan b = (ps.take n, .waiting t) ∧ (c = [] → n = ps.length) := by
  have hall := R.scan_append b c
  rw [h, ← append_nil (encodeAll ps), scan_encodeAll hps, R.scan_short (by decide),
    append_nil] at hall
  unfold resume at hall
  cases htail : (R.scan b).2 with
  | refused =>
    rw [htail] at hall
    cases (congrArg Prod.snd hall).trans htail
  | waiting t =>
    rw [htail] at hall
    obtain ⟨rfl, -⟩ := Prod.mk.inj hall
    refine ⟨(R.scan b).1.length, t, ?_, ?_⟩
    · rw [take_left, ← htail]
    · rintro rfl
      rw [append_nil, R.scan_idle htail, append_nil]

theorem scan_other {q : Packet} (hq : q.Fits) (hnot : ¬ R.Takes q) (t : Bytes) :
    R.scan (q.encode ++ t) = ([], .refused) := by
  rw [Packet.encode, append_assoc]
  by_cases ha : R.admits q.id q.body.length = true
  · by_cases hs : R.serves q.id = true
    · exact absurd ⟨hq, ha, hs⟩ hnot
    · exact scan_unserved hq.1 hq.2 ha (by rw [length_append]; omega) (by simpa using hs)
  · exact scan_refused hq.1 hq.2 (by simpa using ha) _

/-- A byte string is the packets that are taken from it and what the receiver stops at. -/
theorem scan_spec (b : Bytes) : ∃ t, b = encodeAll (R.scan b).1 ++ t ∧
    (∀ p ∈ (R.scan b).1, R.Takes p) ∧ R.scan t = ([], (R.scan b).2) := by
  induction b using R.scan_induction with
  | short b h =>
    rw [R.scan_short h]
    exact ⟨b, rfl, by simp, R.scan_short h⟩
  | refused id len rest hid hlen ha =>
    rw [scan_refused hid hlen ha]
    exact ⟨_, rfl, by simp, scan_refused hid hlen ha rest⟩
  | waiting id len rest hid hlen ha hrest =>
    rw [scan_waiting hid hlen ha hrest]
    exact ⟨_, rfl, by simp, scan_waiting hid hlen ha hrest⟩
  | unserved id len rest hid hlen ha hrest hs =>
    rw [scan_unserved hid hlen ha hrest hs]
    exact ⟨_, rfl, by simp, scan_unserved hid hlen ha hrest hs⟩
  | taken id len rest hid hlen ha hrest hs ih =>
    obtain ⟨t, hb, htakes, ht⟩ := ih
    have hfirst : R.Takes ⟨id, rest.take len⟩ := by
      have hlength : (rest.take len).length = len := by rw [length_take]; omega
      exact ⟨⟨hid, lt_of_eq_of_lt hlength hlen⟩, (congrArg (R.admits id) hlength).trans ha, hs⟩
    rw [scan_taken hid hlen ha hrest hs]
    refine ⟨t, ?_, ?_, ht⟩
    · rw [encodeAll_cons, append_assoc, ← hb]
      exact header_append_eq_encode hrest
    · intro p hp
      rcases mem_cons.mp hp with rfl | hp
      · exact hfirst
      · exact htakes p hp

/-- The packets of a scan are those of the longest prefix made of packets the receiver takes. -/
theorem scan_longest {ps : List Packet} (hps : ∀ p ∈ ps, R.Takes p) (hb : encodeAll ps <+: b) :
    ps <+: (R.scan b).1 := by
  obtain ⟨t, rfl⟩ := hb
  rw [scan_encodeAll hps]
  exact prefix_append ps _

end Receiver

end DistributedChat.Lib
