import Gateway.Lib.Libc

/-!
# Formatted extraction from an input stream

`>>` skips white space and then reads a word, or a decimal number. A failed extraction leaves
the stream in a state in which the later ones do nothing.
-/

namespace Gateway

structure InputStream where
  rest : Bytes
  good : Bool := true
deriving DecidableEq

def isWordByte (c : UInt8) : Bool := !isSpace c

namespace InputStream

/-- `stream >> word`, for a word that is not looked at. -/
def skipWord (s : InputStream) : InputStream :=
  if s.good then
    let rest := s.rest.dropWhile isSpace
    { rest := rest.dropWhile isWordByte, good := !rest.isEmpty }
  else s

/-- `stream >> value` for a `uint64_t`: the value is kept when there is nothing to read, and is
0 or the greatest one when what there is cannot be converted. -/
def readUInt64 (s : InputStream) (value : UInt64) : UInt64 × InputStream :=
  if s.good then
    let rest := s.rest.dropWhile isSpace
    if rest.isEmpty then (value, { rest, good := false })
    else
      let (negative, rest) := readSign rest
      let digits := rest.takeWhile isDigit
      let rest := rest.dropWhile isDigit
      if digits.isEmpty then (0, { rest, good := false })
      else if 2 ^ 64 ≤ decimal digits then (.ofNat (2 ^ 64 - 1), { rest, good := false })
      else (if negative then -.ofNat (decimal digits) else .ofNat (decimal digits), { rest })
  else (value, s)

/-- Skipping a number of words. -/
def skipWords : ℕ → InputStream → InputStream
  | 0, s => s
  | n + 1, s => skipWords n s.skipWord

theorem skipWords_add (m n : ℕ) (s : InputStream) :
    skipWords (m + n) s = skipWords n (skipWords m s) := by
  induction m generalizing s with
  | zero => rw [Nat.zero_add, skipWords]
  | succ m ih => rw [Nat.succ_add, skipWords, skipWords, ih]

end InputStream

/-- A text that `>>` reads as one word. -/
def IsWord (w : Bytes) : Prop := w ≠ [] ∧ ∀ c ∈ w, isSpace c = false

/-- The text does not go on with the word before it. -/
def EndsWord (r : Bytes) : Prop := ∀ c, r.head? = some c → isSpace c = true

/-- Words with a space before each. -/
def spaced (words : List Bytes) : Bytes := words.flatMap (32 :: ·)

theorem spaced_cons (w : Bytes) (words : List Bytes) :
    spaced (w :: words) = 32 :: w ++ spaced words := List.flatMap_cons

section Words
variable {r s w : Bytes}

theorem EndsWord.dropWhile (h : EndsWord r) : r.dropWhile isWordByte = r := by
  cases r with
  | nil => rfl
  | cons c r =>
    rw [List.dropWhile_cons, if_neg]
    rw [isWordByte, h c rfl]
    decide

theorem endsWord_cons {c : UInt8} (hc : isSpace c = true) (r : Bytes) : EndsWord (c :: r) := by
  intro b hb
  rw [← Option.some.inj hb]
  exact hc

theorem endsWord_spaced (words : List Bytes) (h : EndsWord r) : EndsWord (spaced words ++ r) := by
  cases words with
  | nil => exact h
  | cons w words => exact endsWord_cons rfl _

theorem EndsWord.dropWhile_isDigit (h : EndsWord r) : r.dropWhile isDigit = r := by
  cases r with
  | nil => rfl
  | cons c r =>
    rw [List.dropWhile_cons, if_neg]
    intro hc
    have hspace := h c rfl
    rw [(isDigit_ne hc).1] at hspace
    exact absurd hspace (by decide)

theorem isWord_singleton {c : UInt8} (hc : isSpace c = false) : IsWord [c] :=
  ⟨List.cons_ne_nil c [], List.forall_mem_singleton.mpr hc⟩

theorem isWord_digits (hne : w ≠ []) (hd : ∀ c ∈ w, isDigit c) : IsWord w :=
  ⟨hne, fun c hc => (isDigit_ne (hd c hc)).1⟩

theorem readSign_append_digits (hne : w ≠ []) (hd : ∀ c ∈ w, isDigit c) (r : Bytes) :
    readSign (w ++ r) = (false, w ++ r) := by
  obtain ⟨c, w, rfl⟩ := List.exists_cons_of_ne_nil hne
  obtain ⟨-, hminus, hplus, -⟩ := isDigit_ne (hd c List.mem_cons_self)
  unfold readSign
  split <;> simp_all

theorem IsWord.dropWhile_isSpace (h : IsWord w) : w.dropWhile isSpace = w := by
  cases w with
  | nil => rfl
  | cons c w =>
    rw [List.dropWhile_cons, if_neg]
    simp [h.2 c List.mem_cons_self]

theorem IsWord.dropWhile_isWordByte (h : IsWord w) : w.dropWhile isWordByte = [] := by
  rw [List.dropWhile_eq_nil_iff]
  intro c hc
  rw [isWordByte, h.2 c hc]
  rfl

end Words

namespace InputStream
variable {r s w : Bytes}

/-- A word does not go on past a byte that ends it. -/
theorem skipWord_append (hs : s.dropWhile isSpace ≠ []) (hr : EndsWord r) :
    skipWord { rest := s ++ r } = { rest := (s.dropWhile isSpace).dropWhile isWordByte ++ r } := by
  have hskip : (s ++ r).dropWhile isSpace = s.dropWhile isSpace ++ r := by
    rw [List.dropWhile_append, if_neg (by simpa using hs)]
  have hword : (s.dropWhile isSpace ++ r).dropWhile isWordByte =
      (s.dropWhile isSpace).dropWhile isWordByte ++ r := by
    rw [List.dropWhile_append, hr.dropWhile]
    split
    · next h => rw [List.isEmpty_iff.mp h, List.nil_append]
    · rfl
  have hgood : (!(s.dropWhile isSpace ++ r).isEmpty) = true := by simp [hs]
  simp only [skipWord, hskip, hword, hgood, ↓reduceIte]

theorem skipWord_word (hw : IsWord w) (hr : EndsWord r) :
    skipWord { rest := w ++ r } = { rest := r } := by
  rw [skipWord_append (hw.dropWhile_isSpace.symm ▸ hw.1) hr, hw.dropWhile_isSpace,
    hw.dropWhile_isWordByte, List.nil_append]

theorem skipWord_space_word (hw : IsWord w) (hr : EndsWord r) :
    skipWord { rest := 32 :: w ++ r } = { rest := r } := by
  have hskip : (32 :: w).dropWhile isSpace = w := hw.dropWhile_isSpace
  rw [skipWord_append (hskip.symm ▸ hw.1) hr, hskip, hw.dropWhile_isWordByte, List.nil_append]

theorem skipWords_spaced {words : List Bytes} (hwords : ∀ w ∈ words, IsWord w)
    (hr : EndsWord r) : skipWords words.length { rest := spaced words ++ r } = { rest := r } := by
  induction words with
  | nil => rfl
  | cons w words ih =>
    have hw := hwords w List.mem_cons_self
    have hrest : EndsWord (spaced words ++ r) := endsWord_spaced words hr
    rw [spaced_cons, List.append_assoc, List.length_cons, skipWords,
      skipWord_space_word hw hrest]
    exact ih (fun w hmem => hwords w (List.mem_cons_of_mem _ hmem))

theorem readUInt64_digits {digits : Bytes} (hne : digits ≠ []) (hd : ∀ c ∈ digits, isDigit c)
    (hlt : decimal digits < 2 ^ 64) (hr : EndsWord r) (value : UInt64) :
    readUInt64 { rest := 32 :: digits ++ r } value =
      (.ofNat (decimal digits), { rest := r }) := by
  have hskip : (32 :: digits ++ r).dropWhile isSpace = digits ++ r := by
    have hword := (isWord_digits hne hd).dropWhile_isSpace
    rw [List.cons_append, List.dropWhile_cons, if_pos (by decide), List.dropWhile_append, hword,
      if_neg (by simpa using hne)]
  have hdrop : (digits ++ r).dropWhile isDigit = r := by
    rw [List.dropWhile_append_of_pos hd, hr.dropWhile_isDigit]
  have htake : (digits ++ r).takeWhile isDigit = digits := by
    have hsplit : (digits ++ r).takeWhile isDigit ++ (digits ++ r).dropWhile isDigit =
        digits ++ r := List.takeWhile_append_dropWhile
    rw [hdrop] at hsplit
    exact List.append_cancel_right hsplit
  have hrest : (digits ++ r).isEmpty = false := by simp [hne]
  have hempty : digits.isEmpty = false := by simpa using hne
  simp only [readUInt64, hskip, readSign_append_digits hne hd, htake, hdrop, hrest, hempty,
    Nat.not_le.mpr hlt, Bool.false_eq_true, ↓reduceIte]

theorem length_dropWhile_lt {p : UInt8 → Bool} {c : UInt8} (hhead : s.head? = some c)
    (hc : p c = true) : (s.dropWhile p).length < s.length := by
  obtain ⟨s, rfl⟩ := List.head?_eq_some_iff.mp hhead
  rw [List.dropWhile_cons, if_pos hc, List.length_cons, Nat.lt_succ_iff]
  exact (List.dropWhile_suffix p).length_le

theorem endsWord_dropWhile (s : Bytes) : EndsWord (s.dropWhile isWordByte) := by
  intro c hc
  have hnot := List.head?_dropWhile_not isWordByte s
  rw [hc] at hnot
  simpa [isWordByte] using hnot

/-- The bytes that skipping a word leaves of a text that ends in a word. -/
theorem skipWord_concat {c : UInt8} (hc : isSpace c = false) (hr : EndsWord r) (s : Bytes) :
    skipWord { rest := s ++ [c] ++ r } =
      { rest := ((s.dropWhile isSpace ++ [c]).dropWhile isWordByte) ++ r } := by
  have hskip : (s ++ [c]).dropWhile isSpace = s.dropWhile isSpace ++ [c] := by
    rw [List.dropWhile_append]
    split
    · next h => simp [List.isEmpty_iff.mp h, hc]
    · rfl
  rw [skipWord_append (by simp [hskip]) hr, hskip]

/-- A text that begins with white space and ends in a word is skipped word by word, and each
word takes at least two bytes of it. -/
theorem skipWords_blank_first {c : UInt8} (hc : isSpace c = false) (hr : EndsWord r)
    (hs : EndsWord s) (hne : s ≠ []) :
    ∃ k, skipWords (k + 1) { rest := s ++ [c] ++ r } = { rest := r } ∧
      2 * (k + 1) ≤ s.length + 1 := by
  have hword : isWordByte c = true := by simp [isWordByte, hc]
  induction hn : s.length using Nat.strongRecOn generalizing s with
  | ind n ih =>
    obtain ⟨b, hb⟩ : ∃ b, s.head? = some b := ⟨_, List.head?_eq_some_head hne⟩
    have hlt : (s.dropWhile isSpace).length < s.length := length_dropWhile_lt hb (hs b hb)
    generalize ht : s.dropWhile isSpace = t at hlt
    by_cases hu : t.dropWhile isWordByte = []
    · refine ⟨0, ?_, by omega⟩
      rw [skipWords, skipWords, skipWord_concat hc hr, ht, List.dropWhile_append, hu]
      simp [hword]
    · have htne : t ≠ [] := fun h => hu (by rw [h]; rfl)
      obtain ⟨d, hd⟩ : ∃ d, t.head? = some d := ⟨_, List.head?_eq_some_head htne⟩
      have hd' : isWordByte d = true := by
        have hnot := List.head?_dropWhile_not isSpace s
        rw [ht, hd] at hnot
        simpa [isWordByte] using hnot
      have hlt' := length_dropWhile_lt hd hd'
      obtain ⟨k, hk, hle⟩ := ih _ (by omega) (endsWord_dropWhile t) hu rfl
      refine ⟨k + 1, ?_, by omega⟩
      rw [skipWords, skipWord_concat hc hr, ht, List.dropWhile_append,
        if_neg (by simpa using hu), hk]

end InputStream

end Gateway
