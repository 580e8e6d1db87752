import StateSpace.Proofs.Proposition.Grammar
import StateSpace.Proofs.Text.Bytes
import StateSpace.Proposition.Scanner

/-!
# Scanned propositions

The scanner of bytes keeps the boundaries of characters: what it skips or jumps over is a whole number
of them (`stands_skipGaps`, `exists_scanName`). So it has no faults and says what the reader of
characters says (`scan_eq`).
-/

namespace StateSpace.Atom

open Text

variable {n : Network} {text cs rest subject seen name : List Char} {i : Nat} {dot : Option Nat}
  {op : Comparator} {value : Int32} {var : Nat} {c : Char}

/-! ## Characters that matter -/

theorem ascii_isGap : Ascii isGap := by
  intro c hc
  unfold isGap at hc
  rw [Bool.or_eq_true, beq_iff_eq, beq_iff_eq] at hc
  rcases hc with rfl | rfl <;> decide

theorem ascii_isComparison : Ascii isComparison := by
  intro c hc
  simp only [isComparison, Bool.or_eq_true, beq_iff_eq] at hc
  rcases hc with ((rfl | rfl) | rfl) | rfl <;> decide

theorem ascii_isDigit : Ascii Char.isDigit := by
  intro c hc
  have hrange : 48 ≤ c.toNat ∧ c.toNat ≤ 57 := by
    simpa [Char.isDigit, UInt32.le_iff_toNat_le] using hc
  omega

/-! ## Positions -/

theorem cutFrom_eq (h : Stands text i rest) : cutFrom text i = some (String.ofList rest) := by
  obtain ⟨pre, hsplit⟩ := h.split
  unfold cutFrom
  rw [hsplit]
  rfl

/-- Behind gaps, the scanner stands where the reader does. -/
theorem stands_skipGaps (h : Stands text i cs) :
    Stands text (skip isGap (bytes text) i) (skipGaps cs) := by
  obtain ⟨gaps, rest, -, hdrop, rfl, hgaps, hrest⟩ := Text.exists_span isGap cs
  rw [stands_skip ascii_isGap hgaps hrest h, skipGaps, hdrop]
  exact h.append fun c hc => ascii_isGap c (hgaps c hc)

/-- The position of the last dot in what was seen of a name. -/
def LastDot (seen : List Char) : Option Nat → Prop
  | none => '.' ∉ seen
  | some i => ∃ process location, seen = process ++ '.' :: location ∧ '.' ∉ location ∧
      i = (bytes process).length

theorem LastDot.concat (h : LastDot seen dot) :
    LastDot (seen ++ [c]) (if c = '.' then some (bytes seen).length else dot) := by
  split
  · rename_i hc
    exact ⟨seen, [], by rw [hc], List.not_mem_nil, rfl⟩
  · rename_i hc
    cases dot with
    | none =>
      have hseen : '.' ∉ seen := h
      show '.' ∉ seen ++ [c]
      simp [hseen, Ne.symm hc]
    | some i =>
      obtain ⟨process, location, rfl, hlast, rfl⟩ := h
      exact ⟨process, location ++ [c], by simp, by simp [hlast, Ne.symm hc], rfl⟩

/-- The byte at a boundary in front of a character. -/
theorem exists_getElem (h : Stands text i (c :: rest)) : ∃ (hlt : i < (bytes text).length),
    ∀ p, Ascii p → p (Char.ofUInt8 (bytes text)[i]) = p c := by
  have hlt := h.lt_length_iff.2 (List.cons_ne_nil _ _)
  obtain ⟨b, hb, hsame⟩ := h.exists_byte
  unfold byte? at hb
  rw [List.getElem?_eq_getElem hlt, Option.map_some, Option.some.injEq] at hb
  exact ⟨hlt, hb ▸ hsame⟩

/-- The scanner takes the name off the text, and its last dot. -/
theorem exists_scanName (hplain : ∀ c ∈ subject, isComparison c = false)
    (hrest : ∀ c ∈ rest.head?, isComparison c = true) (h : Stands text i (subject ++ rest))
    (hdot : LastDot seen dot) : ∃ j dot', scanName text i seen dot =
        some (j, seen ++ subject.filter (!isGap ·), dot') ∧ Stands text j rest ∧
      LastDot (seen ++ subject.filter (!isGap ·)) dot' := by
  induction subject generalizing i seen dot with
  | nil =>
    refine ⟨i, dot, ?_, h, by simpa using hdot⟩
    rw [List.filter_nil, List.append_nil]
    cases rest with
    | nil => rw [scanName, dif_neg fun hlt => h.lt_length_iff.1 hlt rfl]
    | cons c rest =>
      obtain ⟨hlt, hsame⟩ := exists_getElem h
      rw [scanName, dif_pos hlt]
      dsimp only
      rw [hsame _ ascii_isComparison, if_pos (hrest c rfl)]
  | cons c subject ih =>
    obtain ⟨hc, hplain⟩ := List.forall_mem_cons.1 hplain
    obtain ⟨hlt, hsame⟩ := exists_getElem h
    have hstop : ¬isComparison (Char.ofUInt8 (bytes text)[i]) = true := by
      rw [hsame _ ascii_isComparison, hc]
      decide
    rw [scanName, dif_pos hlt]
    dsimp only
    rw [if_neg hstop, hsame _ ascii_isGap]
    by_cases hgap : isGap c = true
    · have hnext : Stands text (i + 1) (subject ++ rest) :=
        utf8Size_of_lt (ascii_isGap c hgap) ▸ h.cons
      rw [if_pos hgap, List.filter_cons_of_neg (by simp [hgap])]
      exact ih hplain hnext hdot
    · obtain ⟨pre, hsplit⟩ := h.split
      have hpoint : Char.ofUInt8 (bytes text)[i] = '.' ↔ c = '.' := by
        have hbeq := hsame _ (ascii_beq (d := '.') (by decide))
        rw [← beq_iff_eq, hbeq, beq_iff_eq]
      have hdot' := hdot.concat (c := c)
      simp only [← hpoint] at hdot'
      rw [if_neg hgap, hsplit, List.filter_cons_of_pos (by simp [hgap]), List.append_cons]
      exact ih hplain h.cons hdot'

/-! ## Comparisons -/

theorem comparator?_cons (hc : isComparison c = true) : comparator? (c :: cs) =
    (scanComparator c (cs.head? == some '=')).map fun (op, width) => (op, cs.drop (width - 1)) := by
  have hcases : c = '=' ∨ c = '<' ∨ c = '>' ∨ c = '!' := by
    simpa only [isComparison, Bool.or_eq_true, beq_iff_eq, or_assoc] using hc
  cases cs with
  | nil => rcases hcases with rfl | rfl | rfl | rfl <;> rfl
  | cons d cs =>
    by_cases hd : d = '='
    · subst hd
      rcases hcases with rfl | rfl | rfl | rfl <;> rfl
    · have hhead : ((d :: cs).head? == some '=') = false := by simpa using hd
      rw [hhead]
      rcases hcases with rfl | rfl | rfl | rfl <;> unfold comparator? <;> split <;>
        simp_all [scanComparator]

theorem scanComparator_width {equals : Bool} {width : Nat}
    (h : scanComparator c equals = some (op, width)) : width = 1 ∨ width = 2 ∧ equals = true := by
  unfold scanComparator at h
  split at h <;> cases h <;> simp

/-- The scanner finds the comparator that the reader finds, and stands behind it. -/
theorem scanComparator_spec (h : Stands text i (c :: cs)) (hc : isComparison c = true) :
    ∃ b, byte? (bytes text) i = some b ∧
      match comparator? (c :: cs) with
      | none => scanComparator b (byte? (bytes text) (i + 1) == some '=') = none
      | some (op, rest) => ∃ width, scanComparator b (byte? (bytes text) (i + 1) == some '=') =
          some (op, width) ∧ Stands text (i + width) rest := by
  have hascii := ascii_isComparison c hc
  have hnext : Stands text (i + 1) cs := utf8Size_of_lt hascii ▸ h.cons
  obtain ⟨b, hb, hsame⟩ := h.exists_byte
  obtain rfl : b = c := by simpa using hsame _ (ascii_beq hascii)
  refine ⟨b, hb, ?_⟩
  have hequals : (byte? (bytes text) (i + 1) == some '=') = (cs.head? == some '=') := by
    rw [Bool.eq_iff_iff, beq_iff_eq, beq_iff_eq]
    exact hnext.byte?_eq_some_iff (by decide)
  rw [hequals, comparator?_cons hc]
  cases hscan : scanComparator b (cs.head? == some '=') with
  | none => rfl
  | some p =>
    obtain ⟨op, width⟩ := p
    refine ⟨width, rfl, ?_⟩
    rcases scanComparator_width hscan with rfl | ⟨rfl, hequals⟩
    · exact hnext
    · obtain ⟨cs', rfl⟩ := List.head?_eq_some_iff.1 (beq_iff_eq.1 hequals)
      exact hnext.cons

/-- The scanner finds the number that the reader finds, and stands behind it. -/
theorem scanInteger_spec (h : Stands text i rest) :
    match integer? rest with
    | none => scanInteger (bytes text) i = none
    | some (value, rest') => ∃ j, scanInteger (bytes text) i = some (value, j) ∧ Stands text j rest' := by
  obtain ⟨sgn, ds, hsign, rfl, hsgn⟩ := exists_sign rest
  obtain ⟨digits, rest', htake, hdrop, rfl, hdigits, hstop⟩ := Text.exists_span Char.isDigit ds
  have hascii : ∀ c ∈ sgn ++ digits, c.toNat < 128 := by
    intro c hc
    rcases List.mem_append.1 hc with hc | hc
    · rcases hsgn with rfl | rfl | rfl
      · cases hc
      · rw [List.mem_singleton.1 hc]
        decide
      · rw [List.mem_singleton.1 hc]
        decide
    · exact ascii_isDigit c (hdigits c hc)
  have hstart : (if byte? (bytes text) i = some '-' ∨ byte? (bytes text) i = some '+' then i + 1 else i) =
      i + sgn.length := by
    have hminus := h.byte?_eq_some_iff (d := '-') (by decide)
    have hplus := h.byte?_eq_some_iff (d := '+') (by decide)
    simp only [hminus, hplus]
    rcases hsgn with rfl | rfl | rfl
    · refine if_neg ?_
      rintro (hhead | hhead) <;> obtain ⟨tail, htail⟩ := List.head?_eq_some_iff.1 hhead <;>
        rw [htail] at hsign <;> cases hsign
    · exact if_pos (.inl rfl)
    · exact if_pos (.inr rfl)
  have hbehind : Stands text (i + sgn.length) (digits ++ rest') :=
    h.append fun c hc => hascii c (List.mem_append_left _ hc)
  have hskip := stands_skip ascii_isDigit hdigits hstop hbehind
  have hend : Stands text (i + sgn.length + digits.length) rest' :=
    hbehind.append fun c hc => hascii c (List.mem_append_right _ hc)
  have hslice : (((bytes text).take (i + sgn.length + digits.length)).drop i).map Char.ofUInt8 =
      sgn ++ digits := by
    rw [← List.append_assoc] at h
    simpa only [List.length_append, Nat.add_assoc] using h.slice hascii
  unfold integer? scanInteger
  rw [hsign]
  dsimp only
  rw [htake, hdrop, hstart, hskip, hslice]
  by_cases hnil : digits = []
  · subst hnil
    rw [List.append_nil, int32?_nil hsgn]
    exact if_pos rfl
  · rw [if_neg fun heq => hnil (List.length_eq_zero_iff.1 (by omega))]
    cases int32? (sgn ++ digits) with
    | none => rfl
    | some value => exact ⟨_, rfl, hend⟩

theorem scanComparison_eq (h : Stands text i rest) (hrest : ∀ c ∈ rest.head?, isComparison c = true) :
    scanComparison var text i = some (parseComparison var rest text) := by
  cases rest with
  | nil =>
    unfold scanComparison
    rw [if_pos (h.eq_length_iff.2 rfl)]
    rfl
  | cons c cs =>
    obtain ⟨b, hb, hcomparator⟩ := scanComparator_spec h (hrest c rfl)
    unfold scanComparison parseComparison
    dsimp only
    rw [if_neg fun heq => List.cons_ne_nil _ _ (h.eq_length_iff.1 heq), hb]
    simp only [Option.bind_eq_bind, Option.bind_some, List.isEmpty_cons, Bool.false_eq_true, if_false]
    cases hop : comparator? (c :: cs) with
    | none =>
      rw [hop] at hcomparator
      dsimp only at hcomparator
      rw [hcomparator, cutFrom_eq h]
      rfl
    | some p =>
      obtain ⟨op, rest⟩ := p
      rw [hop] at hcomparator
      obtain ⟨width, hscan, hbehind⟩ := hcomparator
      have hgaps := stands_skipGaps hbehind
      have hinteger := scanInteger_spec hgaps
      rw [hscan]
      dsimp only
      cases hvalue : integer? (skipGaps rest) with
      | none =>
        rw [hvalue] at hinteger
        dsimp only at hinteger
        rw [hinteger, cutFrom_eq hgaps]
        rfl
      | some p =>
        obtain ⟨value, trail⟩ := p
        rw [hvalue] at hinteger
        obtain ⟨j, hj, hstands⟩ := hinteger
        have htrail := stands_skipGaps hstands
        rw [hj]
        dsimp only
        by_cases hend : skipGaps trail = []
        · rw [if_neg fun hlt => htrail.lt_length_iff.1 hlt hend, hend]
          rfl
        · rw [if_pos (htrail.lt_length_iff.2 hend), cutFrom_eq htrail, List.isEmpty_eq_false_iff.2 hend]
          rfl

/-! ## Locations -/

theorem scanLocation_eq (h : Stands text i rest) (hdot : LastDot name dot) :
    scanLocation n text i name dot = some (parseLocation n name rest text) := by
  unfold scanLocation parseLocation
  cases dot with
  | none =>
    have hnone : splitLastDot name = none := by
      unfold splitLastDot
      rw [cut_of_notMem (by simpa using (show '.' ∉ name from hdot))]
    rw [hnone]
  | some d =>
    obtain ⟨process, location, rfl, hlast, rfl⟩ := hdot
    have hpoint : Stands (process ++ '.' :: location) (bytes process).length ('.' :: location) :=
      ⟨process, rfl, rfl⟩
    have hlocation : cutFrom (process ++ '.' :: location) ((bytes process).length + 1) =
        some (String.ofList location) := cutFrom_eq hpoint.cons
    rw [splitLastDot_eq_some_iff.2 ⟨rfl, hlast⟩]
    simp only [splitBytes?_append, hlocation, Option.bind_eq_bind, Option.bind_some]
    cases n.processes.find? (String.ofList process) with
    | none => rfl
    | some pid =>
      dsimp only
      cases n.findLocation? pid (String.ofList location) with
      | none => rfl
      | some id =>
        dsimp only
        by_cases hend : rest = []
        · rw [if_neg fun hlt => h.lt_length_iff.1 hlt hend, hend]
          rfl
        · rw [if_pos (h.lt_length_iff.2 hend), cutFrom_eq h, List.isEmpty_eq_false_iff.2 hend]
          rfl

/-! ## Propositions -/

theorem isComparison_of_isGap (hc : isGap c = true) : isComparison c = false := by
  unfold isGap at hc
  rw [Bool.or_eq_true, beq_iff_eq, beq_iff_eq] at hc
  rcases hc with rfl | rfl <;> rfl

/-- Scanning bytes never fails to give a result, and it is what is read off the characters. -/
theorem scan_eq (n : Network) (text : List Char) : scan n text = some (parse n text) := by
  obtain ⟨gaps, htext, hgaps⟩ := exists_gaps text
  obtain ⟨subject, rest, -, -, hskip, hplain, hrest⟩ :=
    Text.exists_span (!isComparison ·) (skipGaps text)
  have hplain : ∀ c ∈ subject, isComparison c = false := by simpa using hplain
  have hrest : ∀ c ∈ rest.head?, isComparison c = true := by simpa using hrest
  have hname : subjectName text = subject.filter (!isGap ·) ∧ afterSubject text = rest := by
    have hfront : ∀ c ∈ gaps ++ subject, isComparison c = false := by
      intro c hc
      rcases List.mem_append.1 hc with hc | hc
      · exact isComparison_of_isGap (hgaps c hc)
      · exact hplain c hc
    have hnone : gaps.filter (!isGap ·) = [] := List.filter_eq_nil_iff.2 fun c hc => by simp [hgaps c hc]
    have happend := subject_append hfront hrest
    rwa [List.filter_append, hnone, List.nil_append, List.append_assoc, ← hskip, ← htext] at happend
  have hstart : Stands text (skip isGap (bytes text) 0) (skipGaps text) := stands_skipGaps stands_zero
  have hunseen : LastDot [] none := List.not_mem_nil
  obtain ⟨i, dot, hscan, hstands, hdot⟩ := exists_scanName hplain hrest (hskip ▸ hstart) hunseen
  rw [List.nil_append] at hscan hdot
  unfold scan parse
  simp only [hname.1, hname.2]
  by_cases hend : skipGaps text = []
  · rw [hend] at hskip
    rw [if_pos (hstart.eq_length_iff.2 hend), (List.append_eq_nil_iff.1 hskip.symm).1]
    rfl
  · rw [if_neg fun heq => hend (hstart.eq_length_iff.1 heq), hscan]
    simp only [Option.bind_eq_bind, Option.bind_some]
    split
    · rfl
    · cases n.ints.find? (String.ofList (subject.filter (!isGap ·))) with
      | none => exact scanLocation_eq hstands hdot
      | some var => exact scanComparison_eq hstands hrest

/-- A text is read as an atom exactly if it is a proposition that says what the atom says, and any other
text gets a diagnostic. Scanning its bytes has the same result, whatever its characters are. -/
theorem parse_denotes (n : Network) (text : List Char) :
    (∀ atom, parse n text = .ok atom ↔ Denotes n text atom) ∧
    ((∃ d, parse n text = .error d) ↔ ¬∃ atom, Denotes n text atom) ∧
    scan n text = some (parse n text) ∧
    (n.Coherent → ∀ pid name id, n.findLocation? pid name = some id ↔
      ∃ l, n.locations[id]? = some l ∧ l.process = pid ∧ l.name = name) := by
  refine ⟨fun atom => parse_eq_ok_iff, ?_, scan_eq n text, ?_⟩
  · simp only [← parse_eq_ok_iff]
    cases parse n text <;> simp
  · exact fun h pid name id => h.findLocation?_eq_some_iff

/-- Names and diagnostics with characters of several bytes. -/
theorem parse_denotes_wide : ∃ n : Network, n.Coherent ∧
    Denotes n "\tgrö ße <= -12 ".toList (.compare 0 .le (-12)) ∧
    Denotes n "Tür . auf".toList (.atLocation 0 0) ∧
    scan n "größe ≤ 12".toList = some (.error (.unknownSubject "größe≤12" "größe ≤ 12")) ∧
    (¬∃ atom, Denotes n "größe ≤ 12".toList atom) ∧
    ∃ l, n.locations[0]? = some l ∧ l.process = 0 ∧ l.name = "auf" := by
  obtain ⟨n, hn, hauf, hvar, hlocation, hunknown⟩ : ∃ n : Network, n.Coherent ∧
      n.findLocation? 0 "auf" = some 0 ∧
      parse n "\tgrö ße <= -12 ".toList = .ok (.compare 0 .le (-12)) ∧
      parse n "Tür . auf".toList = .ok (.atLocation 0 0) ∧
      parse n "größe ≤ 12".toList = .error (.unknownSubject "größe≤12" "größe ≤ 12") := by
    have hprocess := Network.addProcess_coherent (Network.empty_coherent "m")
      (rfl : Network.addProcess "Tür" { name := "m" } = .ok 0 _)
    have hlocation := Network.addLocation_coherent hprocess
      (rfl : Network.addLocation { id := 0, process := 0, name := "auf" } _ = .ok 0 _)
    have hvariable := Network.addVariable_coherent hlocation
      (rfl : Network.addVariable "größe" ⟨-20, 20, 0⟩ _ = .ok 0 _)
    exact ⟨_, hvariable, by decide +kernel, by decide +kernel, by decide +kernel, by decide +kernel⟩
  obtain ⟨hdenotes, -, -, -⟩ := parse_denotes n "\tgrö ße <= -12 ".toList
  obtain ⟨hplace, -, -, hfind⟩ := parse_denotes n "Tür . auf".toList
  obtain ⟨-, hrejected, hscan, -⟩ := parse_denotes n "größe ≤ 12".toList
  exact ⟨n, hn, (hdenotes _).1 hvar, (hplace _).1 hlocation, hscan.trans (congrArg some hunknown),
    hrejected.1 ⟨_, hunknown⟩, (hfind hn 0 "auf" 0).1 hauf⟩

end StateSpace.Atom
