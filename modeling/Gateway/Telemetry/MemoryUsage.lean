import Gateway.Telemetry.CpuUsage
import Gateway.Config.ConfigParser
import Mathlib.Tactic.NormNum

/-!
# Memory from `/proc/self/status` (`include/telemetry/Telemetry.hpp`)

A line of the file is a tag, a colon and a text of the field's own. Unlike the line of
`/proc/self/stat`, whatever the process is called does not move the number that is looked for.
-/

namespace Gateway.Telemetry
open InputStream Config Rounding

/-- `"VmRSS:"` -/
def rssKey : Bytes := ascii "VmRSS:"

/-- What `iss >> key >> kb` leaves in `kb`. -/
def readKb (line : Bytes) : UInt64 := (({ rest := line } : InputStream).skipWord.readUInt64 0).1

/-- `get_rss_memory_mb`: `line.rfind("VmRSS:", 0) == 0` says that the line begins with the key. -/
def getRssMemoryMb (statusFile : Option Bytes) : ℚ :=
  match statusFile with
  | none => 0
  | some content =>
    match (getlines content).find? rssKey.isPrefixOf with
    | none => 0
    | some line => toDouble (toDouble (readKb line).toNat / 1024)

/-! ## The file of the kernel -/

/-- A line of the file, without its newline. -/
structure StatusField where
  tag : Bytes
  text : Bytes
  colon_notMem : 58 ∉ tag
  newline_notMem : 10 ∉ tag ++ text

def StatusField.line (field : StatusField) : Bytes := field.tag ++ 58 :: field.text

def statusText (fields : List StatusField) : Bytes := fields.flatMap fun field => field.line ++ [10]

/-- The text of the field: a tab, the number of kilobytes padded with spaces, and the unit. -/
def kbText (padding : ℕ) (kb : Number) : Bytes :=
  9 :: List.replicate padding 32 ++ kb.digits ++ ascii " kB"

/-! ## The line that is found -/

theorem StatusField.newline_notMem_line (field : StatusField) : 10 ∉ field.line := by
  have h := field.newline_notMem
  simp only [List.mem_append, not_or] at h
  simp [line, h.1, h.2]

theorem splitOn_statusText (fields : List StatusField) :
    (statusText fields).splitOn 10 = fields.map StatusField.line ++ [[]] := by
  induction fields with
  | nil => rfl
  | cons field fields ih =>
    have htext : statusText (field :: fields) = field.line ++ 10 :: statusText fields := by
      simp [statusText]
    rw [htext, List.splitOn_append_cons_self_of_not_mem field.newline_notMem_line, ih]
    rfl

theorem getlines_statusText (fields : List StatusField) :
    getlines (statusText fields) = fields.map StatusField.line := by
  rw [getlines, splitOn_statusText]
  simp

/-- The key is found in the place of the tag only. -/
theorem isPrefixOf_line_iff (field : StatusField) :
    rssKey.isPrefixOf field.line = true ↔ field.tag = ascii "VmRSS" := by
  have hkey : rssKey = ascii "VmRSS" ++ [58] := rfl
  have htag : (58 : UInt8) ∉ ascii "VmRSS" := by decide
  have htags (tag rest : Bytes) (h : 58 ∉ tag) : (tag ++ 58 :: rest).takeWhile (· != 58) = tag := by
    rw [List.takeWhile_append_of_pos (bne_of_notMem h)]
    simp
  rw [List.isPrefixOf_iff_prefix, hkey, StatusField.line]
  constructor
  · intro h
    obtain ⟨rest, hrest⟩ := h
    have heq := congrArg (List.takeWhile (· != 58)) hrest
    rw [List.append_assoc, List.singleton_append, htags _ _ htag,
      htags _ _ field.colon_notMem] at heq
    exact heq.symm
  · intro h
    rw [h]
    exact ⟨field.text, by simp⟩

/-! ## The number on it -/

theorem readUInt64_blank {blank : Bytes} (hblank : ∀ c ∈ blank, isSpace c = true) (r : Bytes)
    (value : UInt64) :
    readUInt64 { rest := blank ++ r } value = readUInt64 { rest := r } value := by
  simp only [readUInt64, List.dropWhile_append_of_pos hblank, ↓reduceIte]

theorem readKb_kbText (padding : ℕ) (kb : Number) :
    readKb (rssKey ++ kbText padding kb) = kb.value := by
  have hkey : IsWord rssKey := ⟨by decide, by decide +kernel⟩
  have htext : EndsWord (kbText padding kb) := endsWord_cons rfl _
  have hblank : ∀ c ∈ 9 :: List.replicate padding (32 : UInt8), isSpace c = true := by
    intro c hc
    rcases List.mem_cons.mp hc with rfl | hc
    · rfl
    · rw [List.eq_of_mem_replicate hc]
      rfl
  have hunit : EndsWord (ascii " kB") := endsWord_cons rfl _
  -- one more space than there is does not matter
  have hspace : ∀ c ∈ ([32] : Bytes), isSpace c = true := by decide +kernel
  have hnumber := readUInt64_digits kb.ne_nil kb.isDigit kb.lt hunit 0
  rw [readKb, skipWord_word hkey htext, kbText, List.append_assoc, readUInt64_blank hblank,
    ← readUInt64_blank hspace, List.singleton_append, ← List.cons_append, hnumber]
  rfl

/-- The division by 1024 is exact, and the conversion is for numbers of at most 53 bits. -/
theorem toDouble_megabytes (kb : ℕ) :
    toDouble (toDouble kb / 1024) = toDouble kb / 1024 ∧
      (kb < 2 ^ 53 → toDouble (toDouble kb / 1024) = kb / 1024) := by
  have hdiv : (1024 : ℚ)⁻¹ = 2 ^ (-10 : ℤ) := by norm_num
  have hexact : toDouble (toDouble kb / 1024) = toDouble kb / 1024 := by
    have hkb : (0 : ℚ) ≤ kb := Nat.cast_nonneg kb
    rw [div_eq_mul_inv, hdiv, toDouble, toDouble, roundBits_mul_zpow (roundBits_nonneg hkb),
      roundBits_roundBits hkb]
  refine ⟨hexact, ?_⟩
  intro hlt
  rw [hexact, toDouble, roundBits_natCast hlt]

/-- Whatever the fields before and after it hold, the memory is that of the one field with the
tag, exactly up to a conversion to `double` that changes no number below `2 ^ 53`, and 0 when
there is none. -/
theorem getRssMemoryMb_statusText (fields : List StatusField) :
    ((∀ field ∈ fields, field.tag ≠ ascii "VmRSS") →
        getRssMemoryMb (some (statusText fields)) = 0) ∧
      ∀ before field after padding kb, fields = before ++ field :: after →
        (∀ other ∈ before, other.tag ≠ ascii "VmRSS") → field.tag = ascii "VmRSS" →
        field.text = kbText padding kb →
        getRssMemoryMb (some (statusText fields)) = toDouble kb.value.toNat / 1024 ∧
          (kb.value.toNat < 2 ^ 53 →
            getRssMemoryMb (some (statusText fields)) = kb.value.toNat / 1024) := by
  constructor
  · intro habsent
    have hnone : (fields.map StatusField.line).find? rssKey.isPrefixOf = none := by
      apply List.find?_eq_none.mpr
      intro line hline
      obtain ⟨field, hfield, rfl⟩ := List.mem_map.mp hline
      rw [isPrefixOf_line_iff]
      exact habsent field hfield
    rw [getRssMemoryMb, getlines_statusText, hnone]
  · intro before field after padding kb hfields hbefore htag htext
    have hfound : (fields.map StatusField.line).find? rssKey.isPrefixOf = some field.line := by
      apply List.find?_eq_some_iff_append.mpr
      refine ⟨(isPrefixOf_line_iff field).mpr htag, before.map StatusField.line,
        after.map StatusField.line, by simp [hfields], ?_⟩
      intro line hline
      obtain ⟨other, hother, rfl⟩ := List.mem_map.mp hline
      rw [Bool.not_eq_eq_eq_not, Bool.not_true, ← Bool.not_eq_true, isPrefixOf_line_iff]
      exact hbefore other hother
    have hline : field.line = rssKey ++ kbText padding kb := by
      rw [StatusField.line, htag, htext]
      rfl
    rw [getRssMemoryMb, getlines_statusText, hfound, hline]
    dsimp only
    rw [readKb_kbText]
    exact toDouble_megabytes kb.value.toNat

def twoMegabytes : Number := ⟨ascii "2048", by decide, by decide +kernel, by decide⟩

/-- A process with the key in its name. -/
def misleadingName : List StatusField :=
  [⟨ascii "Name", 9 :: ascii "VmRSS: 5", by decide, by decide⟩,
    ⟨ascii "VmRSS", kbText 4 twoMegabytes, by decide, by decide⟩]

theorem getRssMemoryMb_statusText_misleadingName :
    getRssMemoryMb (some (statusText misleadingName)) = 2 := by
  have hname : ∀ other ∈ misleadingName.take 1, other.tag ≠ ascii "VmRSS" := by decide
  have hvalue : twoMegabytes.value.toNat = 2048 := rfl
  have hmemory := ((getRssMemoryMb_statusText misleadingName).2 (misleadingName.take 1) _ [] 4
    twoMegabytes rfl hname rfl rfl).2
  rw [hvalue] at hmemory
  rw [hmemory (by norm_num)]
  norm_num

end Gateway.Telemetry
