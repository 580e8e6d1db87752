import Mathlib.Data.List.Infix
import StateSpace.Expr.Token
import StateSpace.Proofs.Text.Pieces

/-!
# Cutting a text into tokens

A text is a sequence of blanks and lexemes. A lexeme is a run of digits, an identifier or a sign, and
none of them could be longer where it stands (`Lexes`). The tokens of a text are those of its only such
sequence, if its numbers fit (`Token.scan_eq_ok_iff`).
-/

namespace StateSpace

/-- The text is cut into the tokens: blanks are skipped, and every lexeme is as long as it can be. -/
inductive Lexes : List Char → List Token → Prop where
  | nil : Lexes [] []
  | blank {c : Char} {cs : List Char} {ts : List Token} (hc : Text.isBlank c = true)
      (h : Lexes cs ts) : Lexes (c :: cs) ts
  | num {digits rest : List Char} {n : Int64} {ts : List Token} (hne : digits ≠ [])
      (hdigits : ∀ d ∈ digits, d.isDigit = true) (hlongest : ∀ d ∈ rest.head?, d.isDigit = false)
      (hn : n.toInt = Text.decimal digits) (h : Lexes rest ts) :
      Lexes (digits ++ rest) (.num n :: ts)
  | ident {c : Char} {cs rest : List Char} {ts : List Token} (hc : Token.isIdentStart c = true)
      (hcs : ∀ d ∈ cs, Token.isIdentChar d = true)
      (hlongest : ∀ d ∈ rest.head?, Token.isIdentChar d = false) (h : Lexes rest ts) :
      Lexes (c :: (cs ++ rest)) (.ident (String.ofList (c :: cs)) :: ts)
  | sign {s : Sign} {rest : List Char} {ts : List Token}
      (hlongest : ∀ s' : Sign, s'.text.toList <+: s.text.toList ++ rest →
        s'.text.length ≤ s.text.length) (h : Lexes rest ts) :
      Lexes (s.text.toList ++ rest) (.sign s :: ts)

/-! ## Characters -/

theorem Text.isBlank_of_isDigit {c : Char} (h : c.isDigit = true) : isBlank c = false := by
  have hrange : 48 ≤ c.toNat ∧ c.toNat ≤ 57 := by
    simpa [Char.isDigit, UInt32.le_iff_toNat_le] using h
  unfold isBlank
  simp only [Bool.or_eq_false_iff, Bool.and_eq_false_iff, decide_eq_false_iff_not, beq_eq_false_iff_ne]
  omega

namespace Token

variable {c : Char} {cs digits rest : List Char} {t : Token} {ts : List Token}

theorem isIdentChar_of_isDigit (h : c.isDigit = true) : isIdentChar c = true := by
  simp [isIdentChar, Char.isAlphanum, h]

/-- Letters and the underscore are neither digits nor blanks. -/
theorem not_isDigit_of_isIdentStart (h : isIdentStart c = true) :
    c.isDigit = false ∧ Text.isBlank c = false := by
  have hrange : 65 ≤ c.toNat ∧ c.toNat ≤ 90 ∨ 97 ≤ c.toNat ∧ c.toNat ≤ 122 ∨ c.toNat = 95 := by
    unfold isIdentStart Char.isAlpha Char.isUpper Char.isLower at h
    simp only [Bool.or_eq_true, Bool.and_eq_true, decide_eq_true_eq, beq_iff_eq, ge_iff_le,
      UInt32.le_iff_toNat_le] at h
    rcases h with (⟨hlo, hhi⟩ | ⟨hlo, hhi⟩) | rfl
    · exact .inl ⟨hlo, hhi⟩
    · exact .inr (.inl ⟨hlo, hhi⟩)
    · exact .inr (.inr rfl)
  constructor
  · by_contra hdigit
    have : 48 ≤ c.toNat ∧ c.toNat ≤ 57 := by
      simpa [Char.isDigit, UInt32.le_iff_toNat_le] using hdigit
    omega
  · unfold Text.isBlank
    simp only [Bool.or_eq_false_iff, Bool.and_eq_false_iff, decide_eq_false_iff_not,
      beq_eq_false_iff_ne]
    omega

end Token

/-! ## Signs -/

namespace Sign

variable {s : Sign} {cs rest : List Char}

theorem text_length (s : Sign) : 0 < s.text.length ∧ s.text.length ≤ 2 := by
  cases s <;> decide

/-- A sign starts with neither a blank nor a character of an identifier. -/
theorem exists_head (s : Sign) : ∃ c cs, s.text.toList = c :: cs ∧ Text.isBlank c = false ∧
    Token.isIdentChar c = false := by
  cases s <;> exact ⟨_, _, rfl, rfl, rfl⟩

theorem first?_text (s : Sign) : first? s.text.toList = some (s, []) := by
  cases s <;> rfl

theorem eq_append_of_first? (h : first? cs = some (s, rest)) : cs = s.text.toList ++ rest := by
  unfold first? at h
  split at h <;> cases h <;> rfl

/-- A sign of two characters is found whatever follows. -/
theorem first?_of_two (h : s.text.length = 2) (rest : List Char) :
    first? (s.text.toList ++ rest) = some (s, rest) := by
  cases s <;> first | rfl | cases h

theorem not_prefix_of_first? (h : first? cs = none) (s : Sign) : ¬ s.text.toList <+: cs := by
  rintro ⟨rest, rfl⟩
  unfold first? at h
  split at h <;> cases h
  rename_i h₁ h₂ h₃ h₄ h₅ h₆ h₇ h₈ h₉ h₁₀ h₁₁ h₁₂ h₁₃ h₁₄ h₁₅ h₁₆ h₁₇ h₁₈
  cases s
  exacts [h₁ _ rfl, h₂ _ rfl, h₃ _ rfl, h₄ _ rfl, h₅ _ rfl, h₆ _ rfl, h₇ _ rfl, h₈ _ rfl, h₉ _ rfl,
    h₁₀ _ rfl, h₁₁ _ rfl, h₁₂ _ rfl, h₁₃ _ rfl, h₁₄ _ rfl, h₁₅ _ rfl, h₁₆ _ rfl, h₁₇ _ rfl, h₁₈ _ rfl]

theorem length_le_of_first? (h : first? cs = some (s, rest)) {s' : Sign}
    (hs' : s'.text.toList <+: cs) : s'.text.length ≤ s.text.length := by
  have hs := text_length s
  have hle := text_length s'
  by_cases htwo : s'.text.length = 2
  · obtain ⟨rest', rfl⟩ := hs'
    cases h.symm.trans (first?_of_two htwo rest')
    exact Nat.le_refl _
  · omega

/-- The sign that a text starts with is the longest one. -/
theorem first?_eq_some_iff : first? cs = some (s, rest) ↔ cs = s.text.toList ++ rest ∧
    ∀ s' : Sign, s'.text.toList <+: cs → s'.text.length ≤ s.text.length := by
  constructor
  · exact fun h => ⟨eq_append_of_first? h, fun s' => length_le_of_first? h⟩
  · rintro ⟨hcs, h⟩
    have hpre : s.text.toList <+: cs := ⟨rest, hcs.symm⟩
    cases hfirst : first? cs with
    | none => exact absurd hpre (not_prefix_of_first? hfirst s)
    | some p =>
      obtain ⟨s', rest'⟩ := p
      have hcs' := eq_append_of_first? hfirst
      have hpre' : s'.text.toList <+: cs := ⟨rest', hcs'.symm⟩
      have hlen : s'.text.toList.length = s.text.toList.length := by
        rw [String.length_toList, String.length_toList]
        exact Nat.le_antisymm (h s' hpre') (length_le_of_first? hfirst hpre)
      have htext : s'.text.toList = s.text.toList :=
        (List.prefix_of_prefix_length_le hpre' hpre (Nat.le_of_eq hlen)).eq_of_length hlen
      obtain rfl : s = s' := by
        have hfst := first?_text s'
        rw [htext, first?_text] at hfst
        exact congrArg Prod.fst (Option.some.inj hfst)
      rw [List.append_cancel_left (hcs'.symm.trans hcs)]

end Sign

/-! ## Single tokens -/

namespace Token

variable {c : Char} {cs digits rest : List Char} {t : Token} {ts : List Token}

theorem toInt_ofNat_of_le {k : Nat} (h : k ≤ maxNumber) : (Int64.ofNat k).toInt = k := by
  have hmax : maxNumber = 2 ^ 63 - 1 := rfl
  rw [Int64.toInt_ofNat_of_lt (by omega)]

/-- A natural number that fits is the value of only one token. -/
theorem ofNat_eq_of_toInt {n : Int64} {k : Nat} (h : n.toInt = k) :
    k ≤ maxNumber ∧ Int64.ofNat k = n := by
  have hlt := n.toInt_lt
  have hmax : maxNumber = 2 ^ 63 - 1 := rfl
  have hk : k ≤ maxNumber := by omega
  exact ⟨hk, Int64.toInt_inj.1 ((toInt_ofNat_of_le hk).trans h.symm)⟩

theorem scan_blank (h : Text.isBlank c = true) : scan (c :: cs) = scan cs := by
  conv_lhs => unfold scan
  exact if_pos h

theorem scan_cons (hb : Text.isBlank c = false) (hf : first c cs = .ok (t, rest))
    (hr : scan rest = .ok ts) : scan (c :: cs) = .ok (t :: ts) := by
  unfold scan
  rw [if_neg (by rw [hb]; decide)]
  split
  · rename_i h
    cases hf.symm.trans h
  · rename_i h
    cases hf.symm.trans h
    rw [hr]

theorem scan_sign {s : Sign} (hb : Text.isBlank c = false) (hi : isIdentChar c = false)
    (hs : Sign.first? (c :: cs) = some (s, rest)) (hr : scan rest = .ok ts) :
    scan (c :: cs) = .ok (.sign s :: ts) := by
  refine scan_cons hb ?_ hr
  unfold isIdentChar Char.isAlphanum at hi
  rw [Bool.or_eq_false_iff, Bool.or_eq_false_iff] at hi
  obtain ⟨⟨halpha, hdigit⟩, hunder⟩ := hi
  unfold first isIdentStart
  simp only [hdigit, halpha, hunder, hs, Bool.or_self, Bool.false_eq_true, if_false]

theorem scan_digits (hne : digits ≠ []) (hdigits : ∀ d ∈ digits, d.isDigit = true)
    (hstop : ∀ d ∈ rest.head?, d.isDigit = false) {n : Int64} (hn : n.toInt = Text.decimal digits)
    (hr : scan rest = .ok ts) : scan (digits ++ rest) = .ok (.num n :: ts) := by
  obtain ⟨c, cs, rfl⟩ := List.exists_cons_of_ne_nil hne
  obtain ⟨hc, hcs⟩ := List.forall_mem_cons.1 hdigits
  obtain ⟨htake, hdrop⟩ := Text.span_append hcs hstop
  obtain ⟨hmax, hvalue⟩ := ofNat_eq_of_toInt hn
  rw [List.cons_append]
  refine scan_cons (Text.isBlank_of_isDigit hc) ?_ hr
  unfold first
  rw [if_pos hc]
  simp only [htake, hdrop, if_pos hmax, hvalue]

theorem scan_ident (hc : isIdentStart c = true) (hcs : ∀ d ∈ cs, isIdentChar d = true)
    (hstop : ∀ d ∈ rest.head?, isIdentChar d = false) (hr : scan rest = .ok ts) :
    scan (c :: (cs ++ rest)) = .ok (.ident (String.ofList (c :: cs)) :: ts) := by
  obtain ⟨hdigit, hblank⟩ := not_isDigit_of_isIdentStart hc
  obtain ⟨htake, hdrop⟩ := Text.span_append hcs hstop
  refine scan_cons hblank ?_ hr
  unfold first
  simp only [hdigit, hc, htake, hdrop, Bool.false_eq_true, if_false, if_true]

/-! ## Whole texts -/

/-- The first token is the longest lexeme in front. -/
theorem lexes_of_first (hf : first c cs = .ok (t, rest)) (h : Lexes rest ts) :
    Lexes (c :: cs) (t :: ts) := by
  unfold first at hf
  dsimp only at hf
  split at hf
  · rename_i hc
    obtain ⟨run, rest', htake, hdrop, rfl, hrun, hstop⟩ := Text.exists_span Char.isDigit cs
    rw [htake, hdrop] at hf
    split at hf
    · rename_i hmax
      cases hf
      exact .num (List.cons_ne_nil _ _) (List.forall_mem_cons.2 ⟨hc, hrun⟩) hstop
        (toInt_ofNat_of_le hmax) h
    · cases hf
  · split at hf
    · rename_i hc
      obtain ⟨run, rest', htake, hdrop, rfl, hrun, hstop⟩ := Text.exists_span isIdentChar cs
      rw [htake, hdrop] at hf
      cases hf
      exact .ident hc hrun hstop h
    · split at hf
      · rename_i hs
        cases hf
        obtain ⟨hcs, hlongest⟩ := Sign.first?_eq_some_iff.1 hs
        rw [hcs] at hlongest ⊢
        exact .sign hlongest h
      · cases hf

/-- The tokens of a text are those of its only sequence of longest lexemes. -/
theorem scan_eq_ok_iff : scan cs = .ok ts ↔ Lexes cs ts := by
  constructor
  · intro h
    fun_induction scan cs generalizing ts with
    | case1 =>
      cases h
      exact .nil
    | case2 c cs hc ih => exact .blank hc (ih h)
    | case3 | case4 => cases h
    | case5 c cs _ t rest hf ts' hts ih =>
      cases h
      exact lexes_of_first hf (ih hts)
  · intro h
    induction h with
    | nil =>
      unfold scan
      rfl
    | blank hc _ ih => exact (scan_blank hc).trans ih
    | num hne hdigits hlongest hn _ ih => exact scan_digits hne hdigits hlongest hn ih
    | ident hc hcs hlongest _ ih => exact scan_ident hc hcs hlongest ih
    | @sign s rest ts hlongest _ ih =>
      obtain ⟨c, cs, hs, hblank, hident⟩ := s.exists_head
      have hfirst := Sign.first?_eq_some_iff.2 ⟨rfl, hlongest⟩
      rw [hs, List.cons_append] at hfirst ⊢
      exact scan_sign hblank hident hfirst ih

end Token

end StateSpace
