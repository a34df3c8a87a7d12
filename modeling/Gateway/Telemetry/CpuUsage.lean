import Gateway.Lib.InputStream
import Gateway.Lib.Rounding
import Mathlib.Algebra.Order.Field.Rat

/-!
# CPU usage from `/proc/self/stat` (`include/telemetry/Telemetry.hpp`)

The clock (in nanoseconds), the number of ticks in a second and the content of the file are
arguments. The results are rounded as `double` operations are.
-/

namespace Gateway.Telemetry
open InputStream Rounding

/-- What `get_cpu_usage_pct` keeps between its calls. -/
structure CpuBaseline where
  lastCpuTime : ℤ
  lastUtimeStime : UInt64

/-- What the extractions leave in `utime` and `stime`. -/
def readCpuTimes (content : Bytes) : UInt64 × UInt64 :=
  let statFile := skipWords 13 { rest := content }
  let (utime, statFile) := statFile.readUInt64 0
  let (stime, _) := statFile.readUInt64 0
  (utime, stime)

/-- `get_cpu_usage_pct`, with what `sysconf(_SC_CLK_TCK)` returns. -/
def getCpuUsagePct (t : CpuBaseline) (statFile : Option Bytes) (now clkTck : ℤ) : ℚ × CpuBaseline :=
  match statFile with
  | none => (0, t)
  | some content =>
    let (utime, stime) := readCpuTimes content
    let elapsedSec := toDouble (toDouble (now - t.lastCpuTime : ℤ) / 10 ^ 9)
    if elapsedSec ≤ 0 then (0, t)
    else
      let currentTotal := utime + stime
      let deltaJiffies := currentTotal - t.lastUtimeStime
      let ticksPerSec := if clkTck ≤ 0 then 100 else clkTck
      let processCpuSec := toDouble (toDouble deltaJiffies.toNat / toDouble ticksPerSec)
      let cpuPct := toDouble (toDouble (processCpuSec / elapsedSec) * 100)
      (max 0 cpuPct, ⟨now, currentTotal⟩)

/-! ## The line of the kernel -/

/-- The name of a process. -/
structure Comm where
  bytes : Bytes
  length_le : bytes.length ≤ 15

/-- A decimal number of at most 64 bits. -/
structure Number where
  digits : Bytes
  ne_nil : digits ≠ []
  isDigit : ∀ c ∈ digits, isDigit c
  lt : decimal digits < 2 ^ 64

def Number.value (n : Number) : UInt64 := .ofNat (decimal n.digits)

/-- A line of `/proc/self/stat`: the fields of the kernel's numbering are the pid, the name,
the eleven of `before`, `utime`, `stime` and those of `after`. -/
structure StatLine where
  pid : Bytes
  comm : Comm
  before : List Bytes
  utime : Number
  stime : Number
  after : List Bytes
  pid_isWord : IsWord pid
  before_length : before.length = 11
  before_isWord : ∀ field ∈ before, IsWord field

namespace StatLine

/-- The fields from the third on. -/
def fields (line : StatLine) : List Bytes :=
  line.before ++ line.utime.digits :: line.stime.digits :: line.after

def text (line : StatLine) : Bytes :=
  line.pid ++ (32 :: 40 :: line.comm.bytes ++ [41] ++ (spaced line.fields ++ [10]))

end StatLine

/-! ## What is extracted from it -/

theorem spaced_append (a b : List Bytes) : spaced (a ++ b) = spaced a ++ spaced b :=
  List.flatMap_append

/-- Two numbers after twelve words and the pid. -/
theorem readCpuTimes_of_skipWords {content r : Bytes} {utime stime : Number}
    (h : skipWords 13 { rest := content } =
      { rest := spaced [utime.digits, stime.digits] ++ r }) (hr : EndsWord r) :
    readCpuTimes content = (utime.value, stime.value) := by
  have hrest : EndsWord (32 :: stime.digits ++ r) := endsWord_cons rfl _
  have hspaced : spaced [utime.digits, stime.digits] ++ r =
      32 :: utime.digits ++ (32 :: stime.digits ++ r) := by
    simp [spaced]
  rw [readCpuTimes, h, hspaced, readUInt64_digits utime.ne_nil utime.isDigit utime.lt hrest]
  dsimp only
  rw [readUInt64_digits stime.ne_nil stime.isDigit stime.lt hr]
  rfl

/-- What is left of a line once the pid is skipped. -/
theorem skipWord_pid (line : StatLine) :
    skipWord { rest := line.text } =
      { rest := 32 :: 40 :: line.comm.bytes ++ [41] ++ (spaced line.fields ++ [10]) } := by
  apply skipWord_word line.pid_isWord
  exact endsWord_cons rfl _

theorem endsWord_fields (words : List Bytes) : EndsWord (spaced words ++ [10]) :=
  endsWord_spaced words (endsWord_cons rfl [])

/-- A name without white space is one word, and the numbers are the 14th and the 15th. -/
theorem readCpuTimes_of_comm (line : StatLine) (h : ∀ c ∈ line.comm.bytes, isSpace c = false) :
    readCpuTimes line.text = (line.utime.value, line.stime.value) := by
  have hcomm : IsWord (40 :: line.comm.bytes ++ [41]) := by
    refine ⟨by simp, ?_⟩
    intro c hc
    simp only [List.cons_append, List.mem_cons, List.mem_append, List.not_mem_nil, or_false] at hc
    rcases hc with rfl | hc | rfl
    · rfl
    · exact h c hc
    · rfl
  have hskip : skipWord
      { rest := 32 :: 40 :: line.comm.bytes ++ [41] ++ (spaced line.fields ++ [10]) } =
        { rest := spaced line.fields ++ [10] } :=
    skipWord_space_word hcomm (endsWord_fields line.fields)
  have hbefore := skipWords_spaced line.before_isWord
    (endsWord_fields (line.utime.digits :: line.stime.digits :: line.after))
  rw [line.before_length] at hbefore
  apply readCpuTimes_of_skipWords _ (endsWord_fields line.after)
  rw [skipWords, skipWord_pid, skipWords, hskip, StatLine.fields, spaced_append,
    List.append_assoc, hbefore]
  simp [spaced]

/-! ## A name with white space -/

theorem isWord_zero_of_mem {n : ℕ} {w : Bytes} (h : w ∈ List.replicate n ([48] : Bytes)) :
    IsWord w := by
  rw [List.eq_of_mem_replicate h]
  exact isWord_singleton rfl

theorem isWord_of_mem_state_zeros {n : ℕ} {w : Bytes}
    (h : w ∈ [82] :: List.replicate n ([48] : Bytes)) : IsWord w := by
  rcases List.mem_cons.mp h with rfl | h
  · exact isWord_singleton rfl
  · exact isWord_zero_of_mem h

/-- A line of a running process whose other fields are zero but for `utime`. -/
def zeroLine (comm : Comm) : StatLine where
  pid := [49]
  comm := comm
  before := [82] :: List.replicate 10 [48]
  utime := ⟨[49], List.cons_ne_nil _ _, List.forall_mem_singleton.mpr rfl, by decide⟩
  stime := ⟨[48], List.cons_ne_nil _ _, List.forall_mem_singleton.mpr rfl, by decide⟩
  after := List.replicate 37 [48]
  pid_isWord := isWord_singleton rfl
  before_length := rfl
  before_isWord _ := isWord_of_mem_state_zeros

/-- The name is read as two words or more. -/
theorem skipWords_comm {comm : Comm} {c : UInt8} (hc : c ∈ comm.bytes) (hspace : isSpace c = true)
    {r : Bytes} (hr : EndsWord r) :
    ∃ k, 2 ≤ k ∧ k ≤ 9 ∧
      skipWords k { rest := 32 :: 40 :: comm.bytes ++ [41] ++ r } = { rest := r } := by
  have hlen := comm.length_le
  have hparen : isSpace 41 = false := by decide
  have hfirst : EndsWord (32 :: 40 :: comm.bytes) := endsWord_cons rfl _
  obtain ⟨k, hk, hle⟩ := skipWords_blank_first hparen hr hfirst (List.cons_ne_nil _ _)
  simp only [List.length_cons] at hle
  refine ⟨k + 1, ?_, by omega, hk⟩
  -- one word only would be a name without white space
  by_contra hone
  obtain rfl : k = 0 := by omega
  rw [skipWords, skipWords, skipWord_concat hparen hr, InputStream.mk.injEq] at hk
  have hall := List.dropWhile_eq_nil_iff.mp (List.append_left_eq_self.mp hk.1) c (by
    apply List.mem_append_left
    exact List.mem_cons_of_mem 40 hc)
  rw [isWordByte, hspace] at hall
  exact absurd hall (by decide)

/-- Every field of the line between the state and `utime` is zero. -/
theorem fields_zeroLine (comm : Comm) {n : ℕ} (hn : n < 10) :
    ∃ later, (zeroLine comm).fields = ([82] :: List.replicate n [48]) ++ [48] :: later := by
  let times : List Bytes := [49] :: [48] :: List.replicate 37 [48]
  have hzeros : List.replicate 10 ([48] : Bytes) =
      List.replicate n [48] ++ [48] :: List.replicate (9 - n) [48] := by
    have hcount : n + (9 - n + 1) = 10 := by omega
    rw [← List.replicate_succ, List.replicate_append_replicate, hcount]
  have hfields : (zeroLine comm).fields = [82] :: (List.replicate 10 [48] ++ times) := rfl
  refine ⟨List.replicate (9 - n) [48] ++ times, ?_⟩
  rw [hfields, hzeros, List.append_assoc, List.cons_append, List.cons_append]

/-- Such a name moves an earlier field, which is zero, into the place of `utime`. -/
theorem readCpuTimes_zeroLine {comm : Comm} {c : UInt8} (hc : c ∈ comm.bytes)
    (hspace : isSpace c = true) : (readCpuTimes (zeroLine comm).text).1 = 0 := by
  obtain ⟨k, hge, hle, hk⟩ := skipWords_comm hc hspace (endsWord_fields (zeroLine comm).fields)
  -- the pid and the name take `k + 1` of the 13 words, fields of `before` the others
  obtain ⟨later, hfields⟩ := fields_zeroLine comm (show 11 - k < 10 by omega)
  have hwords : ∀ w ∈ [82] :: List.replicate (11 - k) ([48] : Bytes), IsWord w :=
    fun _ => isWord_of_mem_state_zeros
  have hskip := skipWords_spaced hwords (endsWord_fields ([48] :: later))
  have hcount : 12 = k + (11 - k + 1) := by omega
  have hname : (zeroLine comm).comm = comm := rfl
  rw [List.length_cons, List.length_replicate, ← List.append_assoc, ← spaced_append,
    ← hfields] at hskip
  rw [readCpuTimes, skipWords, skipWord_pid, hname, hcount, skipWords_add, hk, hskip, spaced_cons,
    List.append_assoc,
    readUInt64_digits (List.cons_ne_nil _ _) (List.forall_mem_singleton.mpr rfl) (by decide)
      (endsWord_fields later)]
  rfl

/-- The 14th and the 15th field are what is extracted, on every line with the name, exactly
when there is no white space in it. -/
theorem readCpuTimes_eq_fields_iff (comm : Comm) :
    (∀ line : StatLine, line.comm = comm →
        readCpuTimes line.text = (line.utime.value, line.stime.value)) ↔
      ∀ c ∈ comm.bytes, isSpace c = false := by
  constructor
  · intro h c hc
    by_contra hspace
    have hread := h (zeroLine comm) rfl
    have hzero := readCpuTimes_zeroLine hc (eq_true_of_ne_false hspace)
    have hone : (zeroLine comm).utime.value = 1 := rfl
    rw [hread, hone] at hzero
    have heq : (1 : UInt64) = 0 := hzero
    exact absurd heq (by decide)
  · rintro h line rfl
    exact readCpuTimes_of_comm line h

/-- For a process called `a b` the times 1 and 0 are read as 0 and 1. -/
theorem name_with_space_misread :
    let line := zeroLine ⟨ascii "a b", by decide⟩
    line.text = ascii "1 (a b) R 0 0 0 0 0 0 0 0 0 0 1 0" ++ spaced line.after ++ [10] ∧
      (line.utime.value, line.stime.value) = (1, 0) ∧ readCpuTimes line.text = (0, 1) := by
  refine ⟨by decide +kernel, rfl, by decide +kernel⟩

end Gateway.Telemetry
