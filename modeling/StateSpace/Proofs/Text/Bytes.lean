import Mathlib.Data.List.TakeWhile
import StateSpace.Text.Bytes

/-!
# Boundaries in texts

A text may be cut only where a character ends (`Stands`). An ASCII character is its only byte, and the
first byte of any other character is none (`exists_firstByte`). So a scanner that looks at single bytes
may skip ASCII characters without losing the boundaries of the others (`stands_skip`).
-/

namespace StateSpace.Text

variable {c : Char} {cs pre rest text : List Char} {i : Nat} {p : Char → Bool}

/-! ## Bytes of characters -/

@[simp]
theorem bytes_nil : bytes [] = [] := rfl

@[simp]
theorem bytes_cons : bytes (c :: cs) = String.utf8EncodeChar c ++ bytes cs := List.flatMap_cons

@[simp]
theorem bytes_append : bytes (cs ++ rest) = bytes cs ++ bytes rest := List.flatMap_append

theorem length_bytes_cons : (bytes (c :: cs)).length = c.utf8Size + (bytes cs).length := by
  rw [bytes_cons, List.length_append, String.length_utf8EncodeChar]

theorem bytes_eq_nil_iff : bytes cs = [] ↔ cs = [] := by
  cases cs with
  | nil => simp
  | cons c cs =>
    rw [← List.length_eq_zero_iff, length_bytes_cons]
    have := c.utf8Size_pos
    simp only [reduceCtorEq, iff_false]
    omega

theorem toNat_ofUInt8 (b : UInt8) : (Char.ofUInt8 b).toNat = b.toNat := UInt8.toNat_toUInt32 b

/-- An ASCII character is its only byte, and the first byte of any other character is no such. -/
theorem exists_firstByte (c : Char) : ∃ b bs, String.utf8EncodeChar c = b :: bs ∧
    (c.toNat < 128 → Char.ofUInt8 b = c ∧ bs = []) ∧ (128 ≤ c.toNat → 128 ≤ (Char.ofUInt8 b).toNat) := by
  have hc : c.val.toNat = c.toNat := rfl
  simp only [toNat_ofUInt8]
  unfold String.utf8EncodeChar
  dsimp only
  rw [hc]
  split
  · rename_i hle
    refine ⟨_, _, rfl, fun _ => ⟨?_, rfl⟩, fun hge => by omega⟩
    apply Char.ext
    apply UInt32.toNat_inj.1
    show (Char.ofUInt8 _).toNat = c.toNat
    rw [toNat_ofUInt8, UInt8.toNat_ofNat']
    exact Nat.mod_eq_of_lt (by omega)
  · split
    · refine ⟨_, _, rfl, fun _ => by omega, fun _ => ?_⟩
      rw [UInt8.toNat_ofNat']
      omega
    · split
      · refine ⟨_, _, rfl, fun _ => by omega, fun _ => ?_⟩
        rw [UInt8.toNat_ofNat']
        omega
      · refine ⟨_, _, rfl, fun _ => by omega, fun _ => ?_⟩
        rw [UInt8.toNat_ofNat']
        omega

/-- The characters of a kind are all ASCII. -/
def Ascii (p : Char → Bool) : Prop := ∀ c, p c = true → c.toNat < 128

/-- What holds of ASCII characters only can be seen from the first byte. -/
theorem Ascii.firstByte (hp : Ascii p) {b : UInt8} {bs : List UInt8}
    (h : String.utf8EncodeChar c = b :: bs) : p (Char.ofUInt8 b) = p c := by
  obtain ⟨b', bs', hbytes, hsmall, hlarge⟩ := exists_firstByte c
  cases h.symm.trans hbytes
  by_cases hc : c.toNat < 128
  · rw [(hsmall hc).1]
  · have hb := hlarge (Nat.le_of_not_lt hc)
    have hcfalse : p c = false := Bool.eq_false_iff.2 fun h => hc (hp c h)
    have hbfalse : p (Char.ofUInt8 b) = false := Bool.eq_false_iff.2 fun h => by
      have := hp _ h
      omega
    rw [hcfalse, hbfalse]

theorem utf8Size_of_lt (h : c.toNat < 128) : c.utf8Size = 1 := by
  obtain ⟨b, bs, hbytes, hsmall, -⟩ := exists_firstByte c
  rw [← String.length_utf8EncodeChar, hbytes, (hsmall h).2]
  rfl

/-- ASCII characters are read back from their bytes. -/
theorem map_ofUInt8_bytes (h : ∀ c ∈ cs, c.toNat < 128) : (bytes cs).map Char.ofUInt8 = cs := by
  induction cs with
  | nil => rfl
  | cons c cs ih =>
    obtain ⟨hc, hcs⟩ := List.forall_mem_cons.1 h
    obtain ⟨b, bs, hbytes, hsmall, -⟩ := exists_firstByte c
    obtain ⟨hb, rfl⟩ := hsmall hc
    rw [bytes_cons, hbytes, List.map_append, ih hcs, List.map_singleton, hb]
    rfl

theorem length_bytes (h : ∀ c ∈ cs, c.toNat < 128) : (bytes cs).length = cs.length := by
  rw [← List.length_map Char.ofUInt8, map_ofUInt8_bytes h]

/-! ## Boundaries -/

/-- The position is the end of the characters in front of it. -/
def Stands (text : List Char) (i : Nat) (rest : List Char) : Prop :=
  ∃ pre, text = pre ++ rest ∧ (bytes pre).length = i

theorem stands_zero : Stands text 0 text := ⟨[], rfl, rfl⟩

theorem Stands.cons (h : Stands text i (c :: rest)) : Stands text (i + c.utf8Size) rest := by
  obtain ⟨pre, rfl, rfl⟩ := h
  refine ⟨pre ++ [c], by simp, ?_⟩
  rw [bytes_append, List.length_append, length_bytes_cons, bytes_nil, List.length_nil, Nat.add_zero]

/-- Characters of one byte each. -/
theorem Stands.append (h : Stands text i (cs ++ rest)) (hcs : ∀ c ∈ cs, c.toNat < 128) :
    Stands text (i + cs.length) rest := by
  obtain ⟨pre, rfl, rfl⟩ := h
  refine ⟨pre ++ cs, by simp, ?_⟩
  rw [bytes_append, List.length_append, length_bytes hcs]

theorem Stands.lt_length_iff (h : Stands text i rest) : i < (bytes text).length ↔ rest ≠ [] := by
  obtain ⟨pre, rfl, rfl⟩ := h
  rw [bytes_append, List.length_append, ne_eq, ← bytes_eq_nil_iff, ← List.length_eq_zero_iff]
  omega

theorem Stands.eq_length_iff (h : Stands text i rest) : i = (bytes text).length ↔ rest = [] := by
  obtain ⟨pre, rfl, rfl⟩ := h
  rw [bytes_append, List.length_append, ← bytes_eq_nil_iff, ← List.length_eq_zero_iff]
  omega

/-- A text can be cut at a boundary. -/
theorem splitBytes?_append : splitBytes? (pre ++ rest) (bytes pre).length = some (pre, rest) := by
  induction pre with
  | nil => simp [splitBytes?]
  | cons c pre ih =>
    have hpos := c.utf8Size_pos
    obtain ⟨k, hk⟩ : ∃ k, (bytes (c :: pre)).length = k + 1 :=
      ⟨(bytes (c :: pre)).length - 1, by rw [length_bytes_cons]; omega⟩
    rw [hk, List.cons_append, splitBytes?]
    rw [length_bytes_cons] at hk
    rw [if_pos (by omega), show k + 1 - c.utf8Size = (bytes pre).length by omega, ih]
    rfl

theorem Stands.split (h : Stands text i rest) : ∃ pre, splitBytes? text i = some (pre, rest) := by
  obtain ⟨pre, rfl, rfl⟩ := h
  exact ⟨pre, splitBytes?_append⟩

theorem Stands.byte?_nil (h : Stands text i []) : byte? (bytes text) i = none := by
  unfold byte?
  rw [List.getElem?_eq_none (Nat.le_of_eq (h.eq_length_iff.2 rfl).symm)]
  rfl

/-- At a boundary, the byte tells an ASCII character from all others. -/
theorem Stands.exists_byte (h : Stands text i (c :: rest)) :
    ∃ b, byte? (bytes text) i = some b ∧ ∀ p, Ascii p → p b = p c := by
  obtain ⟨pre, rfl, rfl⟩ := h
  obtain ⟨b, bs, hbytes, -, -⟩ := exists_firstByte c
  refine ⟨Char.ofUInt8 b, ?_, fun p hp => hp.firstByte hbytes⟩
  unfold byte?
  rw [bytes_append, List.getElem?_append_right (Nat.le_refl _), Nat.sub_self, bytes_cons, hbytes]
  rfl

theorem ascii_beq {d : Char} (hd : d.toNat < 128) : Ascii (· == d) := by
  intro c hc
  rwa [beq_iff_eq.1 hc]

theorem Stands.byte?_eq_some_iff {d : Char} (hd : d.toNat < 128) (h : Stands text i rest) :
    byte? (bytes text) i = some d ↔ rest.head? = some d := by
  cases rest with
  | nil => simp [h.byte?_nil]
  | cons c rest =>
    obtain ⟨b, hb, hsame⟩ := h.exists_byte
    have hbeq : (b == d) = (c == d) := hsame _ (ascii_beq hd)
    rw [hb, List.head?_cons, Option.some.injEq, Option.some.injEq, ← beq_iff_eq, hbeq, beq_iff_eq]

/-- ASCII characters can be cut out of the bytes. -/
theorem Stands.slice (h : Stands text i (cs ++ rest)) (hcs : ∀ c ∈ cs, c.toNat < 128) :
    (((bytes text).take (i + cs.length)).drop i).map Char.ofUInt8 = cs := by
  obtain ⟨pre, rfl, rfl⟩ := h
  rw [List.drop_take, Nat.add_sub_cancel_left, bytes_append, List.drop_left, bytes_append,
    ← length_bytes hcs, List.take_left, map_ofUInt8_bytes hcs]

/-- Skipping characters of an ASCII kind leads from boundary to boundary. -/
theorem stands_skip (hp : Ascii p) (hcs : ∀ c ∈ cs, p c = true) (hrest : ∀ c ∈ rest.head?, p c = false)
    (h : Stands text i (cs ++ rest)) : skip p (bytes text) i = i + cs.length := by
  induction cs generalizing i with
  | nil =>
    unfold skip
    split
    · rename_i hlt
      cases rest with
      | nil => exact absurd rfl (h.lt_length_iff.1 hlt)
      | cons c rest =>
        obtain ⟨b, hb, hsame⟩ := h.exists_byte
        unfold byte? at hb
        rw [List.getElem?_eq_getElem hlt, Option.map_some, Option.some.injEq] at hb
        rw [hb, hsame p hp, hrest c rfl]
        rfl
    · rfl
  | cons c cs ih =>
    obtain ⟨hc, hcs⟩ := List.forall_mem_cons.1 hcs
    have hlt := h.lt_length_iff.2 (List.cons_ne_nil _ _)
    obtain ⟨b, hb, hsame⟩ := h.exists_byte
    unfold byte? at hb
    rw [List.getElem?_eq_getElem hlt, Option.map_some, Option.some.injEq] at hb
    have hnext : Stands text (i + 1) (cs ++ rest) := utf8Size_of_lt (hp c hc) ▸ h.cons
    rw [skip, dif_pos hlt, hb, hsame p hp, if_pos hc, ih hcs hnext, List.length_cons]
    omega

end StateSpace.Text
