import Mathlib.Data.List.Basic

/-!
# Texts of records

A record is a header, a body and a terminator. A reader knows a header from what stands before and
after it, and a header holds no terminator, but a body may hold anything. So a text can be read in
one way only as long as no body has a header after a terminator.
-/

namespace Gateway.Records

/-- The headers of the keys `K`, and the terminator. -/
structure Format (α K : Type*) where
  header : K → List α
  stop : α
  header_inj : ∀ {k k' : K} {r r' : List α},
    header k ++ r = header k' ++ r' → k = k' ∧ r = r'
  stop_notMem : ∀ k, stop ∉ header k

namespace Format

variable {α K : Type*} (f : Format α K)

def record (r : K × List α) : List α := f.header r.1 ++ (r.2 ++ [f.stop])

def text (rs : List (K × List α)) : List α := rs.flatMap f.record

/-- No record begins inside the body. -/
def Plain (body : List α) : Prop :=
  ∀ before k after, body ≠ before ++ f.stop :: (f.header k ++ after)

variable {f}

@[simp] theorem text_nil : f.text [] = [] := rfl

theorem text_singleton (r : K × List α) : f.text [r] = f.record r := by
  simp [text]

theorem text_cons (k : K) (body : List α) (rs : List (K × List α)) :
    f.text ((k, body) :: rs) = f.header k ++ (body ++ f.stop :: f.text rs) := by
  simp [text, record]

@[simp] theorem text_eq_nil_iff {rs : List (K × List α)} : f.text rs = [] ↔ rs = [] := by
  cases rs with
  | nil => simp [text]
  | cons r rs => simp [text, record]

theorem plain_of_notMem {body : List α} (h : f.stop ∉ body) : f.Plain body := by
  intro before k after hbody
  apply h
  simp [hbody]

/-- A header that begins a body and the rest of the text lies inside the body. -/
theorem header_in_body {body rest z : List α} {k : K}
    (h : body ++ f.stop :: rest = f.header k ++ z) : ∃ after, body = f.header k ++ after := by
  obtain ⟨after, hbody, -⟩ | ⟨after, hheader, hrest⟩ := List.append_eq_append_iff.mp h.symm
  · exact ⟨after, hbody⟩
  · cases after with
    | nil => exact ⟨[], by simpa using hheader.symm⟩
    | cons a after =>
      obtain ⟨rfl, -⟩ := List.cons.inj hrest
      exact absurd (by simp [hheader]) (f.stop_notMem k)

/-- Of two bodies that the same text goes on with, one that goes on behind the other is not
plain. -/
theorem eq_of_longer {body body' : List α} {rs rs' : List (K × List α)} (hplain : f.Plain body')
    (hlen : body.length ≤ body'.length)
    (h : body ++ f.stop :: f.text rs = body' ++ f.stop :: f.text rs') :
    body = body' ∧ f.text rs = f.text rs' := by
  obtain ⟨more, hbody, hrest⟩ | ⟨more, hbody, -⟩ := List.append_eq_append_iff.mp h
  · cases more with
    | nil => simpa [hbody] using hrest
    | cons a more =>
      -- the shorter body ends inside the longer one, and a record must begin there
      obtain ⟨rfl, hnext⟩ := List.cons.inj hrest
      cases rs with
      | nil => simp at hnext
      | cons r rs =>
        obtain ⟨k, other⟩ := r
        rw [text_cons] at hnext
        obtain ⟨after, hafter⟩ := header_in_body hnext.symm
        exact absurd (hbody.trans (by rw [hafter])) (hplain body k after)
  · have hmore : more = [] := by
      have := congrArg List.length hbody
      rw [List.length_append] at this
      exact List.eq_nil_of_length_eq_zero (by omega)
    subst hmore
    rw [List.append_nil] at hbody
    subst hbody
    exact ⟨rfl, (List.cons.inj (List.append_cancel_left h)).2⟩

/-- Texts of records with plain bodies are read in one way. -/
theorem text_injOn {rs rs' : List (K × List α)} (hrs : ∀ r ∈ rs, f.Plain r.2)
    (hrs' : ∀ r ∈ rs', f.Plain r.2) (h : f.text rs = f.text rs') : rs = rs' := by
  induction rs generalizing rs' with
  | nil => exact (text_eq_nil_iff.mp h.symm).symm
  | cons r rs ih =>
    obtain ⟨k, body⟩ := r
    cases rs' with
    | nil => exact absurd (text_eq_nil_iff.mp h) (List.cons_ne_nil _ _)
    | cons r' rs' =>
      obtain ⟨k', body'⟩ := r'
      rw [text_cons, text_cons] at h
      obtain ⟨rfl, hbodies⟩ := f.header_inj h
      have hsame : body = body' ∧ f.text rs = f.text rs' := by
        rcases Nat.le_total body.length body'.length with hle | hle
        · exact eq_of_longer (hrs' _ List.mem_cons_self) hle hbodies
        · obtain ⟨hbody, hrest⟩ := eq_of_longer (hrs _ List.mem_cons_self) hle hbodies.symm
          exact ⟨hbody.symm, hrest.symm⟩
      obtain ⟨rfl, hrest⟩ := hsame
      rw [ih (fun r hr => hrs r (List.mem_cons_of_mem _ hr))
        (fun r hr => hrs' r (List.mem_cons_of_mem _ hr)) hrest]

/-- A record with a header in its body reads as two records. -/
theorem text_two (k k' : K) (before after : List α) :
    f.text [(k, before), (k', after)] =
      f.record (k, before ++ f.stop :: (f.header k' ++ after)) := by
  simp [text, record]

/-- The bodies that a record can be read in one way with are the plain ones. -/
theorem plain_iff_unique (k : K) (body : List α) :
    f.Plain body ↔ ∀ rs, f.text rs = f.record (k, body) → rs = [(k, body)] := by
  constructor
  · intro hplain rs h
    rw [← text_singleton] at h
    cases rs with
    | nil => exact absurd (text_eq_nil_iff.mp h.symm) (List.cons_ne_nil _ _)
    | cons r rs =>
      obtain ⟨k', body'⟩ := r
      rw [text_cons, text_cons] at h
      obtain ⟨rfl, hbodies⟩ := f.header_inj h
      have hlen : body'.length ≤ body.length := by
        have hlengths := congrArg List.length hbodies
        simp only [List.length_append, List.length_cons, text_nil, List.length_nil] at hlengths
        omega
      obtain ⟨rfl, hrest⟩ := eq_of_longer hplain hlen hbodies
      rw [text_nil, text_eq_nil_iff] at hrest
      rw [hrest]
  · intro hunique before k' after hbody
    have htwo := hunique [(k, before), (k', after)] (by rw [hbody, text_two])
    simp at htwo

end Format

end Gateway.Records
