import Gateway.Config.HotReload
import Gateway.Lib.Trim

/-!
# Reading back a configuration that was written as text

A file is a list of lines: comments, lines without an equals sign, and assignments with
any padding. The last assignment of a key decides, so a file in which the last assignments
denote the fields of a configuration loads as that configuration.
-/

namespace Gateway.Config

/-- Spaces, tabs and carriage returns. -/
def Padding := {s : Bytes // ∀ c ∈ s, c = 32 ∨ c = 9 ∨ c = 13}

/-- A key and a value that a line can assign. -/
structure Assignment where
  key : Bytes
  value : Bytes
  key_trimmed : Trim.Trimmed isBlank key := by decide
  value_trimmed : Trim.Trimmed isBlank value := by decide
  equals_notMem : 61 ∉ key := by decide
  not_comment : key.head? ≠ some 35 ∧ key.head? ≠ some 59 := by decide
  newline_notMem : 10 ∉ key ∧ 10 ∉ value := by decide

/-- A line of a file: a comment after `#` or `;`, a line without `=`, or an assignment. -/
inductive ConfigLine where
  | comment (indent : Padding) (mark : {c : UInt8 // c = 35 ∨ c = 59})
      (remark : {s : Bytes // 10 ∉ s})
  | bare (line : {s : Bytes // 10 ∉ s ∧ 61 ∉ s})
  | assign (a : Assignment) (indent beforeEquals afterEquals trailing : Padding)

namespace ConfigLine

def text : ConfigLine → Bytes
  | comment indent mark remark => indent.1 ++ mark.1 :: remark.1
  | bare line => line.1
  | assign a indent beforeEquals afterEquals trailing =>
    (indent.1 ++ (a.key ++ beforeEquals.1)) ++ 61 :: (afterEquals.1 ++ (a.value ++ trailing.1))

/-- The value that the line assigns to a key. -/
def valueOf (key : Bytes) : ConfigLine → Option Bytes
  | assign a _ _ _ _ => if key = a.key then some a.value else none
  | _ => none

end ConfigLine

/-- The lines with a newline between them; a newline at the end is an empty last line. -/
def fileText (lines : List ConfigLine) : Bytes := [10].intercalate (lines.map ConfigLine.text)

/-- The value of the last assignment of a key. -/
def lastValue (lines : List ConfigLine) (key : Bytes) : Option Bytes :=
  lines.reverse.findSome? (ConfigLine.valueOf key)

/-- A decimal text of a number. -/
def Denotes (v : Bytes) (n : ℕ) : Prop :=
  v ≠ [] ∧ (∀ c ∈ v, isDigit c = true) ∧ decimal v = n

/-- The last assignment of each key denotes the field of the configuration. -/
structure Renders (lines : List ConfigLine) (c : GatewayConfig) : Prop where
  port : ∃ v, lastValue lines (ascii "port") = some v ∧ Denotes v c.port.toNat
  threadPoolSize : ∃ v, lastValue lines (ascii "thread_pool_size") = some v ∧
    Denotes v c.threadPoolSize.toNat
  rateLimitCapacity : ∃ v n, lastValue lines (ascii "rate_limit_capacity") = some v ∧
    Denotes v n ∧ c.rateLimitCapacity = n
  rateLimitRefillRate : ∃ v n, lastValue lines (ascii "rate_limit_refill_rate") = some v ∧
    Denotes v n ∧ c.rateLimitRefillRate = n
  logLevel : lastValue lines (ascii "log_level") = some c.logLevel
  sharedSecret : lastValue lines (ascii "shared_secret") = some c.sharedSecret
  logFile : lastValue lines (ascii "log_file") = some c.logFile

/-! ## One line -/

theorem trim_eq (s : Bytes) : trim s = Trim.trim isBlank s := rfl

theorem Padding.isBlank (pad : Padding) : ∀ c ∈ pad.1, isBlank c = true := by
  intro c hc
  rcases pad.2 c hc with rfl | rfl | rfl <;> rfl

theorem Padding.newline_notMem (pad : Padding) : 10 ∉ pad.1 := by
  intro hc
  have := pad.2 10 hc
  revert this
  decide

theorem parseLine_comment (indent : Padding) (mark : {c : UInt8 // c = 35 ∨ c = 59})
    (remark : {s : Bytes // 10 ∉ s}) :
    parseLine (ConfigLine.comment indent mark remark).text = none := by
  have hmark : isBlank mark.1 = false := by
    rcases mark.2 with h | h <;> rw [h] <;> rfl
  have htrim : trim (ConfigLine.comment indent mark remark).text =
      mark.1 :: remark.1.rdropWhile isBlank := by
    rw [trim_eq, ConfigLine.text, Trim.trim_append_cons hmark,
      List.dropWhile_eq_nil_iff.mpr indent.isBlank, List.nil_append]
  rw [parseLine, htrim]
  rcases mark.2 with h | h <;> simp [h]

theorem parseLine_bare (line : {s : Bytes // 10 ∉ s ∧ 61 ∉ s}) :
    parseLine (ConfigLine.bare line).text = none := by
  have hfind : (trim line.1).findIdx? (· == 61) = none :=
    findIdx?_of_notMem fun h => line.2.2 (Trim.mem_of_mem_trim h)
  simp only [parseLine, ConfigLine.text, hfind, ite_self]

/-- The first byte of a padded key, if it has one, starts no comment. -/
theorem Assignment.head?_ne (a : Assignment) {pre post : Padding} {rest : Bytes} {c : UInt8}
    (hc : ((pre.1 ++ (a.key ++ post.1)).dropWhile isBlank ++ 61 :: rest).head? = some c) :
    c ≠ 35 ∧ c ≠ 59 := by
  rw [List.dropWhile_append_of_pos pre.isBlank] at hc
  cases hkey : a.key with
  | nil =>
    rw [hkey, List.nil_append, List.dropWhile_eq_nil_iff.mpr post.isBlank, List.nil_append,
      List.head?_cons] at hc
    obtain rfl := Option.some.inj hc
    decide
  | cons d key =>
    have hd : isBlank d = false := a.key_trimmed.1 d (by rw [hkey]; rfl)
    rw [hkey, List.cons_append, List.dropWhile_cons_of_neg (by simp [hd])] at hc
    obtain rfl := Option.some.inj hc
    have hcomment := a.not_comment
    rw [hkey] at hcomment
    simpa using hcomment

theorem Assignment.equals_notMem_padded (a : Assignment) (pre post : Padding) :
    61 ∉ pre.1 ++ (a.key ++ post.1) := by
  have hpad (pad : Padding) : 61 ∉ pad.1 := fun h => absurd (pad.isBlank 61 h) (by decide)
  simp [hpad, a.equals_notMem]

/-- A line that is no comment is split at its first equals sign. -/
theorem parseLine_of_trim {line pre post : Bytes} (htrim : trim line = pre ++ 61 :: post)
    (hpre : 61 ∉ pre) (hhead : ∀ c, (pre ++ 61 :: post).head? = some c → c ≠ 35 ∧ c ≠ 59) :
    parseLine line = if (trim pre).isEmpty then none else some (trim pre, trim post) := by
  have hfind : (pre ++ 61 :: post).findIdx? (· == 61) = some pre.length :=
    findIdx?_append_cons hpre post
  have hcomment : ¬ ((pre ++ 61 :: post).isEmpty || (pre ++ 61 :: post).head? = some 35 ||
      (pre ++ 61 :: post).head? = some 59) = true := by
    simp only [Bool.or_eq_true, decide_eq_true_eq, not_or]
    exact ⟨⟨by simp, fun h => (hhead _ h).1 rfl⟩, fun h => (hhead _ h).2 rfl⟩
  have hdrop : (pre ++ 61 :: post).drop (pre.length + 1) = post := by
    rw [List.drop_length_add_append, List.drop_one, List.tail_cons]
  simp only [parseLine, htrim, hfind, if_neg hcomment, List.take_left, hdrop]

theorem parseLine_assign (a : Assignment) (indent beforeEquals afterEquals trailing : Padding) :
    parseLine (ConfigLine.assign a indent beforeEquals afterEquals trailing).text =
      if a.key.isEmpty then none else some (a.key, a.value) := by
  have hequals : isBlank 61 = false := rfl
  have hkey : trim ((indent.1 ++ (a.key ++ beforeEquals.1)).dropWhile isBlank) = a.key := by
    rw [trim_eq, Trim.trim_dropWhile]
    exact Trim.trim_padded a.key_trimmed indent.isBlank beforeEquals.isBlank
  have hvalue : trim ((afterEquals.1 ++ (a.value ++ trailing.1)).rdropWhile isBlank) =
      a.value := by
    rw [trim_eq, Trim.trim_rdropWhile]
    exact Trim.trim_padded a.value_trimmed afterEquals.isBlank trailing.isBlank
  have hmem : 61 ∉ (indent.1 ++ (a.key ++ beforeEquals.1)).dropWhile isBlank := fun h =>
    a.equals_notMem_padded indent beforeEquals ((List.dropWhile_suffix _).subset h)
  rw [ConfigLine.text, parseLine_of_trim (Trim.trim_append_cons hequals _ _) hmem
    fun c hc => a.head?_ne hc, hkey, hvalue]

/-- A line of the file stores the value it assigns. -/
theorem storeLine_text (kv : KvStore) (l : ConfigLine) {key : Bytes} (hkey : key ≠ []) :
    storeLine kv l.text key = (l.valueOf key).or (kv key) := by
  cases l with
  | comment indent mark remark =>
    simp only [storeLine, parseLine_comment, ConfigLine.valueOf, Option.none_or]
  | bare line =>
    simp only [storeLine, parseLine_bare, ConfigLine.valueOf, Option.none_or]
  | assign a indent beforeEquals afterEquals trailing =>
    rw [storeLine, parseLine_assign, ConfigLine.valueOf]
    by_cases hempty : a.key = []
    · simp [hempty, hkey]
    · rw [if_neg (by simpa using hempty)]
      by_cases h : key = a.key
      · rw [if_pos h, Option.some_or, h]
        exact Function.update_self _ _ _
      · rw [if_neg h, Option.none_or]
        exact Function.update_of_ne h _ _

/-! ## The file -/

theorem newline_notMem_text (l : ConfigLine) : 10 ∉ l.text := by
  cases l with
  | comment indent mark remark =>
    have hmark : mark.1 ≠ 10 := by
      rcases mark.2 with h | h <;> rw [h] <;> decide
    simp [ConfigLine.text, indent.newline_notMem, hmark.symm, remark.2]
  | bare line => exact line.2.1
  | assign a indent beforeEquals afterEquals trailing =>
    simp [ConfigLine.text, indent.newline_notMem, beforeEquals.newline_notMem,
      afterEquals.newline_notMem, trailing.newline_notMem, a.newline_notMem]

/-- An empty last part, which `getline` does not return, would not be stored either. -/
theorem foldl_storeLine_getlines (kv : KvStore) (content : Bytes) :
    (getlines content).foldl storeLine kv = (content.splitOn 10).foldl storeLine kv := by
  rw [getlines]
  split_ifs with hlast
  · conv_rhs => rw [← List.dropLast_append_getLast? [] hlast, List.foldl_append]
    rfl
  · rfl

/-- After the lines are stored, each key has its last value. -/
theorem foldl_storeLine_text (lines : List ConfigLine) {key : Bytes} (hkey : key ≠ []) :
    (lines.map ConfigLine.text).foldl storeLine (fun _ => none) key = lastValue lines key := by
  induction lines using List.reverseRecOn with
  | nil => rfl
  | append_singleton lines l ih =>
    rw [List.map_append, List.foldl_append, lastValue, List.reverse_append,
      List.reverse_singleton, List.singleton_append, List.findSome?_cons]
    have hstore := storeLine_text ((lines.map ConfigLine.text).foldl storeLine fun _ => none) l hkey
    rw [List.map_singleton, List.foldl_cons, List.foldl_nil, hstore, ih]
    cases l.valueOf key <;> rfl

theorem valuesIn_fileText (lines : List ConfigLine) {key : Bytes} (hkey : key ≠ []) :
    valuesIn (fileText lines) key = lastValue lines key := by
  rw [valuesIn, foldl_storeLine_getlines]
  by_cases hlines : lines = []
  · rw [hlines]
    rfl
  · rw [fileText, List.splitOn_intercalate, foldl_storeLine_text lines hkey]
    · simpa using fun l _ => newline_notMem_text l
    · simpa using hlines

/-! ## The configuration -/

variable {v : Bytes}

theorem readPort_of_denotes {port : UInt16} (h : Denotes v port.toNat) :
    Setting.readPort v = .ok port := by
  obtain ⟨hne, hdigits, hn⟩ := h
  have hlt := port.toNat_lt
  have hcast : UInt16.ofInt port.toNat = port := by
    rw [← UInt16.toNat_inj, toNat_ofInt16]
    omega
  rw [Setting.readPort, stoi_digits hne hdigits (by omega), hn, Except.map, hcast]

theorem stoul_of_denotes {n : UInt64} (h : Denotes v n.toNat) : stoul v = .ok n := by
  obtain ⟨hne, hdigits, hn⟩ := h
  rw [stoul_digits hne hdigits (by rw [hn]; exact n.toNat_lt), hn, UInt64.ofNat_toNat]

theorem stoll_of_denotes {n : ℕ} (h : Denotes v n) (hlt : n < 2 ^ 63) : stoll v = .ok n := by
  obtain ⟨hne, hdigits, rfl⟩ := h
  exact stoll_digits hne hdigits hlt

/-- A field is read from the last value of its key. -/
theorem reads_fileText {α : Type} {lines : List ConfigLine} {key : Bytes}
    {read : Bytes → Except StoiError α} {old new : α} (hkey : key ≠ [])
    (hv : lastValue lines key = some v) (hread : read v = .ok new) :
    Reads (valuesIn (fileText lines)) key read old new := by
  rw [Reads, valuesIn_fileText lines hkey, hv]
  exact hread

/-- A file that renders a configuration loads as this configuration. -/
theorem load_fileText (path : Bytes) (disk : Disk) (lines : List ConfigLine) (c : GatewayConfig)
    (hdisk : disk.content path = some (fileText lines)) (hlines : Renders lines c)
    (hcapacity : c.rateLimitCapacity < 2 ^ 63) (hrate : c.rateLimitRefillRate < 2 ^ 63) :
    (ConfigParser.loadFromFile {} disk path).1 = .ok true ∧
      (ConfigParser.loadFromFile {} disk path).2.config = c := by
  obtain ⟨port, hport, hport'⟩ := hlines.port
  obtain ⟨threads, hthreads, hthreads'⟩ := hlines.threadPoolSize
  obtain ⟨capacity, m, hcapacityV, hcapacity', hm⟩ := hlines.rateLimitCapacity
  obtain ⟨rate, n, hrateV, hrate', hn⟩ := hlines.rateLimitRefillRate
  have happly : applySettings (valuesIn (fileText lines)) settings {} = (none, c) := by
    apply applySettings_eq_iff.mpr
    refine ⟨?_, ?_, ?_, ?_, ?_, ?_, ?_⟩
    · exact reads_fileText (by decide) hport (readPort_of_denotes hport')
    · exact reads_fileText (by decide) hthreads (stoul_of_denotes hthreads')
    · rw [hm]
      exact reads_fileText (by decide) hcapacityV (stoll_of_denotes hcapacity' (by omega))
    · rw [hn]
      exact reads_fileText (by decide) hrateV (stoll_of_denotes hrate' (by omega))
    · exact reads_fileText (by decide) hlines.logLevel rfl
    · exact reads_fileText (by decide) hlines.sharedSecret rfl
    · exact reads_fileText (by decide) hlines.logFile rfl
  rw [← overriddenBy_fresh] at happly
  rw [loadFromFile_of_applySettings hdisk happly]
  exact ⟨rfl, rfl⟩

/-- A file with a comment, a line without a value, an unknown key, a key assigned twice, and
values that are empty or contain an equals sign or a hash. -/
def sampleLines : List ConfigLine :=
  let none : Padding := ⟨[], by simp⟩
  let space : Padding := ⟨[32], by simp⟩
  let line (a : Assignment) : ConfigLine := .assign a none space space none
  [.comment space ⟨35, by decide⟩ ⟨ascii " port = 1", by decide⟩,
    .bare ⟨ascii "port", by decide⟩,
    line { key := ascii "port", value := ascii "many" },
    line { key := ascii "log_file", value := [] },
    line { key := ascii "shared_secret", value := ascii "a=b#c" },
    line { key := ascii "thread_pool_size", value := ascii "16" },
    line { key := ascii "rate_limit_refill_rate", value := ascii "0" },
    line { key := ascii "rate_limit_capacity", value := ascii "200" },
    line { key := ascii "retries", value := ascii "3" },
    line { key := ascii "log_level", value := ascii "WARN" },
    .assign { key := ascii "port", value := ascii "09000" } ⟨[9], by simp⟩ none none
      ⟨[32, 13], by simp⟩,
    .bare ⟨[], by decide⟩]

theorem load_fileText_sample :
    let content := [10].intercalate [ascii " # port = 1", ascii "port", ascii "port = many",
      ascii "log_file = ", ascii "shared_secret = a=b#c", ascii "thread_pool_size = 16",
      ascii "rate_limit_refill_rate = 0", ascii "rate_limit_capacity = 200", ascii "retries = 3",
      ascii "log_level = WARN", ascii "\tport=09000 \r", []]
    (ConfigParser.loadFromFile {} (diskWith content) (ascii "gateway.conf")).1 = .ok true ∧
      (ConfigParser.loadFromFile {} (diskWith content) (ascii "gateway.conf")).2.config =
        ⟨9000, 16, 200, 0, ascii "WARN", ascii "a=b#c", []⟩ := by
  intro content
  have hcontent : fileText sampleLines = content := by decide +kernel
  rw [← hcontent]
  apply load_fileText (ascii "gateway.conf") _ sampleLines _ rfl
  · constructor
    · exact ⟨ascii "09000", rfl, by decide, List.all_eq_true.mp rfl, rfl⟩
    · exact ⟨ascii "16", rfl, by decide, List.all_eq_true.mp rfl, rfl⟩
    · exact ⟨ascii "200", 200, rfl, ⟨by decide, List.all_eq_true.mp rfl, rfl⟩, rfl⟩
    · exact ⟨ascii "0", 0, rfl, ⟨by decide, List.all_eq_true.mp rfl, rfl⟩, rfl⟩
    · rfl
    · rfl
    · rfl
  · decide
  · decide

end Gateway.Config
