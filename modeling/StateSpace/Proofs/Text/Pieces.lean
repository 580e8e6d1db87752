import Mathlib.Data.List.TakeWhile
import StateSpace.Text.Blank

/-!
# Cutting texts

What was joined around a separator is cut there again, if the separator occurs in no part. A run of
characters is taken as long as possible. Trimming takes blanks off the ends and stops at the first
character that is none.
-/

namespace StateSpace.Text

variable {sep b : Char} {cs ds rest seen : List Char}

/-! ## Separators -/

theorem piecesFrom_append (h : sep ∉ cs) :
    piecesFrom sep seen (cs ++ rest) = piecesFrom sep (cs.reverse ++ seen) rest := by
  induction cs generalizing seen with
  | nil => rfl
  | cons c cs ih =>
    rw [List.mem_cons, not_or] at h
    rw [List.cons_append, piecesFrom, if_neg (Ne.symm h.1), ih h.2, List.reverse_cons,
      List.append_assoc, List.singleton_append]

theorem pieces_eq_singleton (h : sep ∉ cs) : pieces sep cs = [cs] := by
  have hfrom : piecesFrom sep [] (cs ++ []) = piecesFrom sep (cs.reverse ++ []) [] :=
    piecesFrom_append h
  rw [List.append_nil, List.append_nil] at hfrom
  unfold pieces
  rw [hfrom, piecesFrom, List.reverse_reverse]

theorem pieces_append_cons (h : sep ∉ cs) : pieces sep (cs ++ sep :: rest) = cs :: pieces sep rest := by
  unfold pieces
  rw [piecesFrom_append h, piecesFrom, if_pos rfl, List.append_nil, List.reverse_reverse]

theorem append_intercalate (s gap part : List Char) (parts : List (List Char)) :
    gap ++ s.intercalate (part :: parts) = s.intercalate ((gap ++ part) :: parts) := by
  cases parts with
  | nil => rw [List.intercalate_singleton, List.intercalate_singleton]
  | cons next parts =>
    rw [List.intercalate_cons_cons, List.intercalate_cons_cons, List.append_assoc, List.append_assoc,
      List.append_assoc]

/-- The pieces of a joined text are its parts, those behind a separator with the gap before them. -/
theorem pieces_intercalate {gap part : List Char} {parts : List (List Char)} (hgap : sep ∉ gap)
    (h : ∀ p ∈ part :: parts, sep ∉ p) :
    pieces sep ((sep :: gap).intercalate (part :: parts)) = part :: parts.map (gap ++ ·) := by
  induction parts generalizing part with
  | nil =>
    rw [List.intercalate_singleton, pieces_eq_singleton (h part List.mem_cons_self)]
    rfl
  | cons next parts ih =>
    rw [List.forall_mem_cons, List.forall_mem_cons] at h
    obtain ⟨hpart, hnext, hparts⟩ := h
    have hjoined : ∀ p ∈ (gap ++ next) :: parts, sep ∉ p :=
      List.forall_mem_cons.2 ⟨by simp [hgap, hnext], hparts⟩
    rw [List.intercalate_cons_cons, List.append_assoc, List.cons_append, append_intercalate,
      pieces_append_cons hpart, ih hjoined, List.map_cons]

theorem cut_append_cons (h : sep ∉ cs) : cut sep (cs ++ sep :: rest) = (cs, some rest) := by
  have hne : ∀ c ∈ cs, decide (c ≠ sep) = true := by
    intro c hc
    rw [decide_eq_true_iff]
    rintro rfl
    exact h hc
  unfold cut
  rw [List.dropWhile_append_of_pos hne, List.takeWhile_append_of_pos hne]
  simp

theorem cut_of_notMem (h : sep ∉ cs) : cut sep cs = (cs, none) := by
  have hne : ∀ c ∈ cs, decide (c ≠ sep) = true := by
    intro c hc
    rw [decide_eq_true_iff]
    rintro rfl
    exact h hc
  unfold cut
  rw [List.dropWhile_eq_nil_iff.2 hne]

/-! ## Runs of characters -/

section

variable {p : Char → Bool}

/-- A run of characters ends where the text stops. -/
theorem span_append (hp : ∀ c ∈ cs, p c = true) (hstop : ∀ c ∈ rest.head?, p c = false) :
    (cs ++ rest).takeWhile p = cs ∧ (cs ++ rest).dropWhile p = rest := by
  rw [List.takeWhile_append_of_pos hp, List.dropWhile_append_of_pos hp]
  cases rest with
  | nil => simp
  | cons c rest =>
    have hc := hstop c rfl
    simp [hc]

theorem head?_dropWhile : ∀ c ∈ (cs.dropWhile p).head?, p c = false := by
  intro c hc
  have hnot := List.head?_dropWhile_not p cs
  rw [Option.mem_def.1 hc] at hnot
  simpa using hnot

/-- Every text starts with a run that could not be longer. -/
theorem exists_span (p : Char → Bool) (cs : List Char) : ∃ run rest, cs.takeWhile p = run ∧
    cs.dropWhile p = rest ∧ cs = run ++ rest ∧ (∀ c ∈ run, p c = true) ∧
      ∀ c ∈ rest.head?, p c = false :=
  ⟨_, _, rfl, rfl, List.takeWhile_append_dropWhile.symm, List.all_eq_true.1 List.all_takeWhile,
    head?_dropWhile⟩

end

/-! ## Digits -/

/-- The decimal digits of a number denote it. -/
theorem decimal_toDigits (n : Nat) : decimal (Nat.toDigits 10 n) = n :=
  Nat.ofDigitChars_toDigits (by decide) (by decide)

theorem isDigit_of_mem_toDigits {c : Char} {n : Nat} (h : c ∈ Nat.toDigits 10 n) :
    c.isDigit = true := Nat.isDigit_of_mem_toDigits (by decide) (by decide) h

/-! ## Blanks at the ends -/

/-- The text begins and ends with characters that are no blanks. -/
structure Trimmed (cs : List Char) : Prop where
  head : ∃ a ∈ cs.head?, isBlank a = false
  last : ∃ a ∈ cs.getLast?, isBlank a = false

theorem Trimmed.ne_nil (h : Trimmed cs) : cs ≠ [] := by
  rintro rfl
  obtain ⟨a, ha, -⟩ := h.head
  cases ha

theorem trimmed_of_forall (hne : cs ≠ []) (h : ∀ c ∈ cs, isBlank c = false) : Trimmed cs where
  head := ⟨cs.head hne, List.head?_eq_some_head hne, h _ (List.head_mem hne)⟩
  last := ⟨cs.getLast hne, List.getLast?_eq_some_getLast hne, h _ (List.getLast_mem hne)⟩

theorem Trimmed.append (hc : Trimmed cs) (hd : Trimmed ds) (mid : List Char) :
    Trimmed (cs ++ mid ++ ds) where
  head := by
    obtain ⟨a, ha, hb⟩ := hc.head
    rw [Option.mem_def] at ha
    exact ⟨a, by rw [List.append_assoc, List.head?_append, ha]; rfl, hb⟩
  last := by
    obtain ⟨a, ha, hb⟩ := hd.last
    rw [Option.mem_def] at ha
    exact ⟨a, by rw [List.getLast?_append, ha]; rfl, hb⟩

theorem trimLeft_eq_self (h : ∃ a ∈ cs.head?, isBlank a = false) : trimLeft cs = cs := by
  obtain ⟨a, ha, hb⟩ := h
  obtain ⟨cs', rfl⟩ := List.head?_eq_some_iff.1 ha
  exact List.dropWhile_cons_of_neg (by rw [hb]; decide)

theorem Trimmed.trim_eq (h : Trimmed cs) : trim cs = cs := by
  unfold trim
  rw [trimLeft_eq_self h.head, trimLeft_eq_self (by rw [List.head?_reverse]; exact h.last),
    List.reverse_reverse]

theorem trim_cons (hb : isBlank b = true) : trim (b :: cs) = trim cs := by
  unfold trim trimLeft
  rw [List.dropWhile_cons_of_pos hb]

theorem Trimmed.trim_concat (h : Trimmed cs) (hb : isBlank b = true) : trim (cs ++ [b]) = cs := by
  obtain ⟨a, ha, hna⟩ := h.head
  rw [Option.mem_def] at ha
  have hhead : trimLeft (cs ++ [b]) = cs ++ [b] :=
    trimLeft_eq_self ⟨a, by rw [List.head?_append, ha]; rfl, hna⟩
  have hlast : trimLeft (b :: cs.reverse) = cs.reverse := by
    rw [trimLeft, List.dropWhile_cons_of_pos hb]
    exact trimLeft_eq_self (by rw [List.head?_reverse]; exact h.last)
  unfold trim
  rw [hhead, List.reverse_append, List.reverse_singleton, List.singleton_append, hlast,
    List.reverse_reverse]

end StateSpace.Text
