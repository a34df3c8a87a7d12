import Mathlib.Data.BitVec
import Mathlib.Data.List.Basic
import Mathlib.Data.List.TakeWhile

/-!
# Byte strings and network byte order
-/

namespace Gateway

/-- The contents of a byte buffer, or of a C++ string. -/
abbrev Bytes := List UInt8

/-- A statement about every byte is a statement about 256 numbers. -/
theorem forall_byte {P : UInt8 → Prop} (h : ∀ n : Fin 256, P (.ofNat n)) (b : UInt8) : P b := by
  have hb := h ⟨b.toNat, b.toNat_lt⟩
  rwa [UInt8.ofNat_toNat] at hb

/-- The bytes of an ASCII literal. -/
def ascii (s : String) : Bytes := s.toList.map Char.toUInt8

/-! ## The first occurrence of a byte -/

section Search
variable {c : UInt8} {s : Bytes}

theorem bne_of_notMem (h : c ∉ s) : ∀ d ∈ s, (d != c) = true := by
  intro d hd
  have hne : d ≠ c := fun heq => h (heq ▸ hd)
  simpa using hne

theorem takeWhile_bne_of_notMem (h : c ∉ s) : s.takeWhile (· != c) = s :=
  List.takeWhile_eq_self_iff.mpr (bne_of_notMem h)

theorem findIdx?_of_notMem (h : c ∉ s) : s.findIdx? (· == c) = none := by
  apply List.findIdx?_eq_none_iff.mpr
  intro d hd
  have hne : d ≠ c := fun heq => h (heq ▸ hd)
  simpa using hne

theorem findIdx?_append_cons (h : c ∉ s) (t : Bytes) :
    (s ++ c :: t).findIdx? (· == c) = some s.length := by
  rw [List.findIdx?_append, findIdx?_of_notMem h, List.findIdx?_cons]
  simp

end Search

/-! ## Network byte order -/

/-- A 32-bit integer in network byte order: the four bytes it occupies in memory,
which are the same on every host. -/
structure Net32 where
  b0 : UInt8
  b1 : UInt8
  b2 : UInt8
  b3 : UInt8
deriving DecidableEq, Repr

def Net32.bytes (n : Net32) : Bytes := [n.b0, n.b1, n.b2, n.b3]

/-- Host to network: most significant byte first. -/
def htonl (w : BitVec 32) : Net32 :=
  ⟨.ofNat (w.toNat / 2 ^ 24), .ofNat (w.toNat / 2 ^ 16), .ofNat (w.toNat / 2 ^ 8), .ofNat w.toNat⟩

/-- Network to host. -/
def ntohl (n : Net32) : BitVec 32 :=
  .ofNat 32 (n.b0.toNat * 2 ^ 24 + n.b1.toNat * 2 ^ 16 + n.b2.toNat * 2 ^ 8 + n.b3.toNat)

@[simp] theorem ntohl_htonl (w : BitVec 32) : ntohl (htonl w) = w := by
  apply BitVec.eq_of_toNat_eq
  have hw := w.isLt
  simp only [ntohl, htonl, UInt8.toNat_ofNat', BitVec.toNat_ofNat]
  omega

@[simp] theorem htonl_ntohl (n : Net32) : htonl (ntohl n) = n := by
  obtain ⟨a, b, c, d⟩ := n
  have ha := a.toNat_lt
  have hb := b.toNat_lt
  have hc := c.toNat_lt
  have hd := d.toNat_lt
  simp only [ntohl, htonl, Net32.mk.injEq, ← UInt8.toNat_inj, UInt8.toNat_ofNat',
    BitVec.toNat_ofNat]
  omega

/-- A 16-bit integer in network byte order. -/
structure Net16 where
  b0 : UInt8
  b1 : UInt8
deriving DecidableEq, Repr

def Net16.bytes (n : Net16) : Bytes := [n.b0, n.b1]

/-- Host to network, 16 bits. -/
def htons (w : BitVec 16) : Net16 := ⟨.ofNat (w.toNat / 2 ^ 8), .ofNat w.toNat⟩

/-- Network to host, 16 bits. -/
def ntohs (n : Net16) : BitVec 16 := .ofNat 16 (n.b0.toNat * 2 ^ 8 + n.b1.toNat)

@[simp] theorem ntohs_htons (w : BitVec 16) : ntohs (htons w) = w := by
  apply BitVec.eq_of_toNat_eq
  have hw := w.isLt
  simp only [ntohs, htons, UInt8.toNat_ofNat', BitVec.toNat_ofNat]
  omega

/-- `memcpy(dst + off, src, |src|)`; `none` when the copy runs past the end of `dst`. -/
def memcpy (dst : Bytes) (off : ℕ) (src : Bytes) : Option Bytes :=
  if off + src.length ≤ dst.length then
    some (dst.take off ++ src ++ dst.drop (off + src.length))
  else none

theorem memcpy_eq_some {dst src : Bytes} {off : ℕ} (h : off + src.length ≤ dst.length) :
    memcpy dst off src = some (dst.take off ++ src ++ dst.drop (off + src.length)) := if_pos h

end Gateway
