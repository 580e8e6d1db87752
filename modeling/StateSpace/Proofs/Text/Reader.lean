import Mathlib.Data.List.Infix
import StateSpace.Proofs.Text.Pieces

/-!
# Readers

A reader takes a value off the front of a text and leaves the rest. What is written of a value can be
told from whatever stands behind it if a reader gets just this value and this rest back (`Reads`). Pieces
of that kind may be put one behind the other (`Reads.bind`), as often as the text goes on with one
(`many_append`).
-/

namespace StateSpace.Text

/-- Takes a value off the front of a text, if there is one. -/
abbrev Reader (α : Type) := StateT (List Char) Option α

variable {α β : Type} {r r' : Reader α} {f : α → Reader β} {w v cs rest : List Char} {a : α} {b : β}

/-- The reader takes `w` for `a`, whatever follows. -/
def Reads (r : Reader α) (w : List Char) (a : α) : Prop := ∀ rest, r (w ++ rest) = some (a, rest)

/-- Nothing needs to follow. -/
theorem Reads.self (h : Reads r w a) : r w = some (a, []) := by
  have hnil := h []
  rwa [List.append_nil] at hnil

/-! ## One reader after the other -/

theorem reader_bind (h : r cs = some (a, rest)) : (r >>= f) cs = f a rest := by
  show (r cs >>= fun x => f x.1 x.2) = _
  rw [h]
  rfl

theorem reader_bind_none (h : r cs = none) : (r >>= f) cs = none := by
  show (r cs >>= fun x => f x.1 x.2) = _
  rw [h]
  rfl

theorem Reads.pure (a : α) : Reads (Pure.pure a) [] a := fun _ => rfl

theorem Reads.bind (h : Reads r w a) (h' : Reads (f a) v b) : Reads (r >>= f) (w ++ v) b := by
  intro rest
  rw [List.append_assoc, reader_bind (h _)]
  exact h' rest

/-- The answer is computed from what was read. -/
theorem Reads.map (h : Reads r w a) (g : α → β) : Reads (do return g (← r)) w (g a) :=
  fun rest => reader_bind (h rest)

/-- The first reader that takes anything. -/
theorem Reads.orElse (h : Reads r w a) : Reads (r <|> r') w a := by
  intro rest
  show (r (w ++ rest) <|> r' (w ++ rest)) = _
  rw [h]
  rfl

theorem Reads.orElse_of_none (hr : ∀ rest, r (w ++ rest) = none) (h : Reads r' w a) :
    Reads (r <|> r') w a := by
  intro rest
  show (r (w ++ rest) <|> r' (w ++ rest)) = _
  rw [hr]
  exact h rest

/-! ## Literals and numbers -/

/-- Takes these characters. -/
def literal (s : String) : Reader Unit := fun cs => (s.toList.isPrefixOf? cs).map ((), ·)

theorem reads_literal (s : String) : Reads (literal s) s.toList () := by
  intro rest
  unfold literal
  rw [List.isPrefixOf?_eq_some_iff_append_eq.2 rfl]
  rfl

/-- A text that starts with another character is left alone. -/
theorem literal_eq_none {s : String} {c d : Char} (hs : s.toList = c :: w) (h : c ≠ d) :
    literal s (d :: cs) = none := by
  unfold literal
  rw [hs, List.isPrefixOf?]
  simp [h]

/-- Takes a decimal number and the blank behind it. -/
def number : Reader Nat := fun cs =>
  match cs.takeWhile Char.isDigit, cs.dropWhile Char.isDigit with
  | d :: ds, ' ' :: rest => some (decimal (d :: ds), rest)
  | _, _ => none

theorem reads_number (n : Nat) : Reads number ((toString n).toList ++ [' ']) n := by
  intro rest
  have hdigits : (toString n).toList = Nat.toDigits 10 n := Nat.toList_repr
  have hstop : ∀ c ∈ (' ' :: rest).head?, c.isDigit = false := by
    intro c hc
    cases hc
    rfl
  obtain ⟨htake, hdrop⟩ := span_append (fun _ => isDigit_of_mem_toDigits (n := n)) hstop
  rw [hdigits, List.append_assoc, List.singleton_append]
  obtain ⟨d, ds, hds⟩ := List.exists_cons_of_ne_nil (Nat.toDigits_ne_nil (b := 10) (n := n))
  unfold number
  rw [htake, hdrop, hds]
  show some (decimal (d :: ds), rest) = _
  rw [← hds, decimal_toDigits]

/-- A written number starts with a digit. -/
theorem toList_toString_cons (n : Nat) : ∃ d ds, (toString n).toList = d :: ds ∧ d.isDigit = true := by
  have hdigits : (toString n).toList = Nat.toDigits 10 n := Nat.toList_repr
  obtain ⟨d, ds, hds⟩ := List.exists_cons_of_ne_nil (Nat.toDigits_ne_nil (b := 10) (n := n))
  exact ⟨d, ds, hdigits.trans hds, isDigit_of_mem_toDigits (n := n) (hds ▸ List.mem_cons_self)⟩

/-- No number starts with anything but a digit. -/
theorem number_eq_none {c : Char} (hc : c.isDigit = false) : number (c :: cs) = none := by
  unfold number
  rw [List.takeWhile_cons_of_neg (by rw [hc]; exact Bool.false_ne_true)]

/-! ## Many values -/

/-- Takes values as long as there is one. None is written with no characters. -/
def many (r : Reader α) (cs : List Char) : Option (List α × List Char) :=
  match r cs with
  | none => some ([], cs)
  | some (a, rest) =>
    if rest.length < cs.length then (many r rest).map fun (as, rest) => (a :: as, rest) else none
termination_by cs.length

theorem many_append {w : α → List Char} {as : List α} (hr : ∀ a ∈ as, Reads r (w a) a)
    (hw : ∀ a ∈ as, w a ≠ []) (hrest : r rest = none) :
    many r (as.flatMap w ++ rest) = some (as, rest) := by
  induction as with
  | nil =>
    rw [List.flatMap_nil, List.nil_append, many, hrest]
  | cons a as ih =>
    obtain ⟨ha, hr⟩ := List.forall_mem_cons.1 hr
    obtain ⟨hwa, hw⟩ := List.forall_mem_cons.1 hw
    have hlt : ∀ xs : List Char, xs.length < (w a ++ xs).length := fun xs => by
      rw [List.length_append]
      exact Nat.lt_add_of_pos_left (List.length_pos_iff.2 hwa)
    rw [List.flatMap_cons, List.append_assoc, many, ha]
    dsimp only
    rw [if_pos (hlt _), ih hr hw]
    rfl

end StateSpace.Text
