import StateSpace.Proofs.Network.Coherent
import StateSpace.Proofs.Text.Pieces
import StateSpace.Proposition.Parser

/-!
# The grammar of propositions

    proposition := NAME | NAME COMPARATOR gaps [SIGN] DIGITS gaps | PROCESS '.' LOCATION

What stands in front of the first character of a comparison is a name, with gaps in it that do not
count. If a variable has the name, the proposition is about the variable, whatever else the name could
mean. Otherwise the last dot divides a process from one of its locations.
-/

namespace StateSpace

/-- How a comparator is written. -/
def Comparator.text : Comparator → List Char
  | eq => ['=', '=']
  | ne => ['!', '=']
  | lt => ['<']
  | gt => ['>']
  | le => ['<', '=']
  | ge => ['>', '=']

namespace Atom

/-- Characters in front of a comparison spell a name: the one that is left without gaps. -/
structure Spells (subject name : List Char) : Prop where
  plain : ∀ c ∈ subject, isComparison c = false
  filter : subject.filter (!isGap ·) = name
  ne_nil : name ≠ []

/-- A number has at most one sign. -/
def IsSign (sgn : List Char) : Prop := sgn = [] ∨ sgn = ['-'] ∨ sgn = ['+']

/-- The number that a sign and digits denote. -/
def signed (sgn digits : List Char) : Int :=
  if sgn = ['-'] then -(Text.decimal digits : Int) else Text.decimal digits

/-- The text is a proposition about the network that says what the atom says. -/
inductive Denotes (n : Network) : List Char → Atom → Prop where
  | nonzero {subject name : List Char} {var : Nat} (hs : Spells subject name)
      (hvar : n.ints.get? var = some (String.ofList name)) :
      Denotes n subject (.compare var .ne 0)
  | compared {subject name gaps sgn digits trail : List Char} {var : Nat} {op : Comparator}
      {value : Int32} (hs : Spells subject name)
      (hvar : n.ints.get? var = some (String.ofList name))
      (hgaps : ∀ c ∈ gaps, isGap c = true) (hsgn : IsSign sgn) (hne : digits ≠ [])
      (hdigits : ∀ c ∈ digits, c.isDigit = true) (hvalue : value.toInt = signed sgn digits)
      (htrail : ∀ c ∈ trail, isGap c = true) :
      Denotes n (subject ++ (op.text ++ (gaps ++ (sgn ++ (digits ++ trail)))))
        (.compare var op value)
  | located {subject process location : List Char} {pid id : Nat}
      (hs : Spells subject (process ++ '.' :: location)) (hlast : '.' ∉ location)
      (hnot : ∀ var, n.ints.get? var ≠ some (String.ofList (process ++ '.' :: location)))
      (hprocess : n.processes.get? pid = some (String.ofList process))
      (hlocation : n.findLocation? pid (String.ofList location) = some id) :
      Denotes n subject (.atLocation pid id)

variable {n : Network} {text cs rest subject name sgn digits gaps : List Char} {op : Comparator}
  {value : Int32} {var : Nat} {atom : Atom}

/-! ## Names -/

/-- The name in front of a comparison, and where the comparison starts. -/
theorem subject_append (hplain : ∀ c ∈ subject, isComparison c = false)
    (hrest : ∀ c ∈ rest.head?, isComparison c = true) :
    subjectName (subject ++ rest) = subject.filter (!isGap ·) ∧ afterSubject (subject ++ rest) = rest := by
  obtain ⟨htake, hdrop⟩ := Text.span_append (p := (!isComparison ·)) (by simpa using hplain)
    (by simpa using hrest)
  exact ⟨congrArg _ htake, hdrop⟩

theorem exists_subject (text : List Char) : ∃ subject rest, text = subject ++ rest ∧
    (∀ c ∈ subject, isComparison c = false) ∧ (∀ c ∈ rest.head?, isComparison c = true) ∧
      subjectName text = subject.filter (!isGap ·) := by
  obtain ⟨subject, rest, htake, -, htext, hplain, hrest⟩ :=
    Text.exists_span (!isComparison ·) text
  exact ⟨subject, rest, htext, by simpa using hplain, by simpa using hrest, congrArg _ htake⟩

/-- A name is split at its last dot. -/
theorem splitLastDot_eq_some_iff {process location : List Char} :
    splitLastDot name = some (process, location) ↔
      name = process ++ '.' :: location ∧ '.' ∉ location := by
  unfold splitLastDot
  constructor
  · intro h
    by_cases hdot : '.' ∈ name.reverse
    · obtain ⟨after, before, hname, hafter⟩ := List.eq_append_cons_of_mem hdot
      rw [hname, Text.cut_append_cons hafter] at h
      cases h
      exact ⟨by simpa using congrArg List.reverse hname, by simpa using hafter⟩
    · rw [Text.cut_of_notMem hdot] at h
      cases h
  · rintro ⟨rfl, hlast⟩
    have hcut : Text.cut '.' (location.reverse ++ '.' :: process.reverse) =
        (location.reverse, some process.reverse) := Text.cut_append_cons (by simpa using hlast)
    have hreverse : (process ++ '.' :: location).reverse =
        location.reverse ++ '.' :: process.reverse := by simp
    rw [hreverse, hcut]
    simp

/-! ## Comparisons -/

/-- The comparator that a text starts with is the longer one of two. -/
theorem comparator?_eq_some_iff : comparator? cs = some (op, rest) ↔
    cs = op.text ++ rest ∧ (op = .lt ∨ op = .gt → rest.head? ≠ some '=') := by
  constructor
  · intro h
    unfold comparator? at h
    split at h <;> cases h <;> refine ⟨rfl, ?_⟩
    · simp
    · simp
    · simp
    · rename_i hlonger
      rintro - heq
      obtain ⟨rest', rfl⟩ := List.head?_eq_some_iff.1 heq
      exact hlonger _ rfl
    · simp
    · rename_i hlonger
      rintro - heq
      obtain ⟨rest', rfl⟩ := List.head?_eq_some_iff.1 heq
      exact hlonger _ rfl
  · rintro ⟨rfl, hlonger⟩
    cases op with
    | eq | ne | le | ge => rfl
    | lt | gt =>
      cases rest with
      | nil => rfl
      | cons c rest =>
        have hc : c ≠ '=' := by simpa using hlonger
        show comparator? (_ :: c :: rest) = _
        unfold comparator?
        split <;> simp_all

theorem not_isSign_of_isDigit {c : Char} (h : c.isDigit = true) : c ≠ '-' ∧ c ≠ '+' := by
  constructor <;> rintro rfl <;> cases h

/-- The sign of a number is told apart from its digits. -/
theorem sign_append (hsgn : IsSign sgn) (hne : digits ≠ [])
    (hdigits : ∀ c ∈ digits, c.isDigit = true) : sign (sgn ++ (digits ++ rest)) = (sgn, digits ++ rest) := by
  obtain ⟨d, ds, rfl⟩ := List.exists_cons_of_ne_nil hne
  obtain ⟨hminus, hplus⟩ := not_isSign_of_isDigit (hdigits d List.mem_cons_self)
  rcases hsgn with rfl | rfl | rfl
  · show sign (d :: (ds ++ rest)) = ([], d :: (ds ++ rest))
    unfold sign
    split <;> simp_all
  · rfl
  · rfl

theorem exists_sign (cs : List Char) : ∃ sgn ds, sign cs = (sgn, ds) ∧ cs = sgn ++ ds ∧ IsSign sgn := by
  unfold sign
  split
  · exact ⟨_, _, rfl, rfl, .inr (.inl rfl)⟩
  · exact ⟨_, _, rfl, rfl, .inr (.inr rfl)⟩
  · exact ⟨_, _, rfl, rfl, .inl rfl⟩

theorem integer?_of_signed (hsgn : IsSign sgn) (hne : digits ≠ [])
    (hdigits : ∀ c ∈ digits, c.isDigit = true) :
    Text.integer? (sgn ++ digits) = some (signed sgn digits) := by
  have hfull : ¬(digits.isEmpty || !digits.all Char.isDigit) = true := by
    rw [List.isEmpty_eq_false_iff.2 hne, List.all_eq_true.2 hdigits]
    decide
  obtain ⟨d, ds, rfl⟩ := List.exists_cons_of_ne_nil hne
  obtain ⟨hminus, hplus⟩ := not_isSign_of_isDigit (hdigits d List.mem_cons_self)
  rcases hsgn with rfl | rfl | rfl
  · show Text.integer? (d :: ds) = _
    unfold Text.integer?
    split
    rename_i heq
    split at heq
    · simp_all
    · simp_all
    · cases heq
      exact if_neg hfull
  · exact if_neg hfull
  · exact if_neg hfull

theorem int32?_nil (hsgn : IsSign sgn) : Text.int32? sgn = none := by
  rcases hsgn with rfl | rfl | rfl <;> rfl

/-- Whether a signed number fits is decided by its value. -/
theorem int32?_eq_some_iff (hsgn : IsSign sgn) (hne : digits ≠ [])
    (hdigits : ∀ c ∈ digits, c.isDigit = true) :
    Text.int32? (sgn ++ digits) = some value ↔ value.toInt = signed sgn digits := by
  unfold Text.int32?
  rw [integer?_of_signed hsgn hne hdigits]
  show (if _ then _ else _) = _ ↔ _
  split
  · rename_i hrange
    have hint := Int32.toInt_ofInt_of_le hrange.1 (Int.lt_add_one_of_le hrange.2)
    rw [Option.some.injEq, ← Int32.toInt_inj, hint, eq_comm]
  · rename_i hrange
    have hlo := value.le_toInt
    have hhi := value.toInt_lt
    simp only [reduceCtorEq, false_iff]
    omega

/-- A signed number and the text behind its digits. -/
theorem integer?_eq_some_iff : integer? cs = some (value, rest) ↔
    ∃ sgn digits, cs = sgn ++ (digits ++ rest) ∧ IsSign sgn ∧ digits ≠ [] ∧
      (∀ c ∈ digits, c.isDigit = true) ∧ (∀ c ∈ rest.head?, c.isDigit = false) ∧
        value.toInt = signed sgn digits := by
  constructor
  · intro h
    obtain ⟨sgn, ds, hsign, rfl, hsgn⟩ := exists_sign cs
    obtain ⟨digits, rest', htake, hdrop, rfl, hdigits, hstop⟩ := Text.exists_span Char.isDigit ds
    unfold integer? at h
    rw [hsign] at h
    dsimp only at h
    rw [htake, hdrop, Option.map_eq_some_iff] at h
    obtain ⟨value', hvalue, heq⟩ := h
    cases heq
    have hne : digits ≠ [] := by
      rintro rfl
      rw [List.append_nil, int32?_nil hsgn] at hvalue
      cases hvalue
    exact ⟨sgn, digits, rfl, hsgn, hne, hdigits, hstop, (int32?_eq_some_iff hsgn hne hdigits).1 hvalue⟩
  · rintro ⟨sgn, digits, rfl, hsgn, hne, hdigits, hstop, hvalue⟩
    obtain ⟨htake, hdrop⟩ := Text.span_append hdigits hstop
    unfold integer?
    rw [sign_append hsgn hne hdigits]
    dsimp only
    rw [htake, hdrop, (int32?_eq_some_iff hsgn hne hdigits).2 hvalue]
    rfl

theorem skipGaps_append (hgaps : ∀ c ∈ gaps, isGap c = true) (hrest : ∀ c ∈ rest.head?, isGap c = false) :
    skipGaps (gaps ++ rest) = rest :=
  (Text.span_append hgaps hrest).2

theorem skipGaps_eq_nil_iff : skipGaps cs = [] ↔ ∀ c ∈ cs, isGap c = true := by
  unfold skipGaps
  rw [List.dropWhile_eq_nil_iff]

theorem exists_gaps (cs : List Char) : ∃ gaps, cs = gaps ++ skipGaps cs ∧ ∀ c ∈ gaps, isGap c = true := by
  obtain ⟨gaps, rest, -, hdrop, hcs, hgaps, -⟩ := Text.exists_span isGap cs
  exact ⟨gaps, by rw [skipGaps, hdrop]; exact hcs, hgaps⟩

/-- A signed number starts with a sign or a digit. -/
theorem head?_number (hsgn : IsSign sgn) (hne : digits ≠ []) (hdigits : ∀ c ∈ digits, c.isDigit = true) :
    ∀ c ∈ (sgn ++ (digits ++ rest)).head?, isGap c = false ∧ c ≠ '=' := by
  have hdigit : ∀ c : Char, c.isDigit = true → isGap c = false ∧ c ≠ '=' := by
    intro c hc
    constructor
    · unfold isGap
      rw [Bool.or_eq_false_iff, beq_eq_false_iff_ne, beq_eq_false_iff_ne]
      constructor <;> rintro rfl <;> cases hc
    · rintro rfl
      cases hc
  obtain ⟨d, ds, rfl⟩ := List.exists_cons_of_ne_nil hne
  rcases hsgn with rfl | rfl | rfl <;> rintro c ⟨⟩
  · exact hdigit d (hdigits d List.mem_cons_self)
  · decide
  · decide

theorem parseComparison_eq_ok_iff : parseComparison var rest text = .ok atom ↔
    rest = [] ∧ atom = .compare var .ne 0 ∨ ∃ op gaps sgn digits trail value,
      rest = op.text ++ (gaps ++ (sgn ++ (digits ++ trail))) ∧ (∀ c ∈ gaps, isGap c = true) ∧
      IsSign sgn ∧ digits ≠ [] ∧ (∀ c ∈ digits, c.isDigit = true) ∧ value.toInt = signed sgn digits ∧
      (∀ c ∈ trail, isGap c = true) ∧ atom = .compare var op value := by
  constructor
  · intro h
    unfold parseComparison at h
    dsimp only at h
    split at h
    · rename_i hempty
      cases h
      exact .inl ⟨List.isEmpty_iff.1 hempty, rfl⟩
    · split at h
      · cases h
      · rename_i op behind hop
        obtain ⟨rfl, -⟩ := comparator?_eq_some_iff.1 hop
        split at h
        · cases h
        · rename_i value trail hvalue
          split at h
          · rename_i hend
            cases h
            obtain ⟨gaps, hgaps, hall⟩ := exists_gaps behind
            obtain ⟨sgn, digits, hint, hsgn, hne, hdigits, -, hsigned⟩ :=
              integer?_eq_some_iff.1 hvalue
            rw [hint] at hgaps
            exact .inr ⟨op, gaps, sgn, digits, trail, value, by rw [hgaps], hall, hsgn, hne, hdigits,
              hsigned, skipGaps_eq_nil_iff.1 (List.isEmpty_iff.1 hend), rfl⟩
          · cases h
  · rintro (⟨rfl, rfl⟩ | ⟨op, gaps, sgn, digits, trail, value, rfl, hgaps, hsgn, hne, hdigits, hvalue,
      htrail, rfl⟩)
    · rfl
    · have hnumber : ∀ c ∈ (sgn ++ (digits ++ trail)).head?, isGap c = false ∧ c ≠ '=' :=
        head?_number hsgn hne hdigits
      have hop : comparator? (op.text ++ (gaps ++ (sgn ++ (digits ++ trail)))) =
          some (op, gaps ++ (sgn ++ (digits ++ trail))) := by
        refine comparator?_eq_some_iff.2 ⟨rfl, fun _ heq => ?_⟩
        cases gaps with
        | nil => exact (hnumber _ heq).2 rfl
        | cons c gaps =>
          cases heq
          cases hgaps '=' List.mem_cons_self
      have hstop : ∀ c ∈ trail.head?, c.isDigit = false := by
        intro c hc
        have hgap := htrail c (List.mem_of_mem_head? hc)
        unfold isGap at hgap
        rw [Bool.or_eq_true, beq_iff_eq, beq_iff_eq] at hgap
        rcases hgap with rfl | rfl <;> rfl
      have hvalue := integer?_eq_some_iff.2 ⟨sgn, digits, rfl, hsgn, hne, hdigits, hstop, hvalue⟩
      have hskip := skipGaps_append hgaps fun c hc => (hnumber c hc).1
      have hfull : (op.text ++ (gaps ++ (sgn ++ (digits ++ trail)))).isEmpty = false := by
        cases op <;> rfl
      unfold parseComparison
      simp only [hfull, hop, hskip, hvalue, skipGaps_eq_nil_iff.2 htrail, Bool.false_eq_true, if_false,
        List.isEmpty_nil, if_true]

/-! ## Propositions -/

theorem parseLocation_eq_ok_iff : parseLocation n name rest text = .ok atom ↔
    rest = [] ∧ ∃ process location pid id, name = process ++ '.' :: location ∧ '.' ∉ location ∧
      n.processes.get? pid = some (String.ofList process) ∧
      n.findLocation? pid (String.ofList location) = some id ∧ atom = .atLocation pid id := by
  constructor
  · intro h
    unfold parseLocation at h
    split at h
    · cases h
    · rename_i process location hsplit
      obtain ⟨rfl, hlast⟩ := splitLastDot_eq_some_iff.1 hsplit
      dsimp only at h
      split at h
      · cases h
      · rename_i pid hpid
        split at h
        · cases h
        · rename_i id hid
          split at h
          · rename_i hempty
            cases h
            exact ⟨List.isEmpty_iff.1 hempty, process, location, pid, id, rfl, hlast,
              (n.processes.inverse _ _).1 hpid, hid, rfl⟩
          · cases h
  · rintro ⟨rfl, process, location, pid, id, rfl, hlast, hprocess, hlocation, rfl⟩
    have hpid : n.processes.find? (String.ofList process) = some pid :=
      (n.processes.inverse _ _).2 hprocess
    unfold parseLocation
    rw [splitLastDot_eq_some_iff.2 ⟨rfl, hlast⟩]
    simp only [hpid, hlocation, List.isEmpty_nil, if_true]

theorem parse_of_spells (hs : Spells subject name) (hrest : ∀ c ∈ rest.head?, isComparison c = true) :
    parse n (subject ++ rest) = match n.ints.find? (String.ofList name) with
      | some var => parseComparison var rest (subject ++ rest)
      | none => parseLocation n name rest (subject ++ rest) := by
  obtain ⟨hname, hafter⟩ := subject_append hs.plain hrest
  unfold parse
  rw [hname, hafter, hs.filter]
  exact if_neg fun hempty => hs.ne_nil (List.isEmpty_iff.1 hempty)

/-- A text is read as an atom exactly if it says what the atom says. -/
theorem parse_eq_ok_iff : parse n text = .ok atom ↔ Denotes n text atom := by
  have hempty : ∀ c ∈ ([] : List Char).head?, isComparison c = true := by
    rintro c ⟨⟩
  constructor
  · intro h
    obtain ⟨subject, rest, rfl, hplain, hrest, hname⟩ := exists_subject text
    by_cases hne : subject.filter (!isGap ·) = []
    · unfold parse at h
      rw [hname, hne] at h
      cases h
    have hs : Spells subject (subject.filter (!isGap ·)) := ⟨hplain, rfl, hne⟩
    rw [parse_of_spells hs hrest] at h
    split at h
    · rename_i var hvar
      have hget := (n.ints.inverse _ _).1 hvar
      rcases parseComparison_eq_ok_iff.1 h with ⟨rfl, rfl⟩ | ⟨op, gaps, sgn, digits, trail, value,
        rfl, hgaps, hsgn, hne, hdigits, hvalue, htrail, rfl⟩
      · rw [List.append_nil]
        exact .nonzero hs hget
      · exact .compared hs hget hgaps hsgn hne hdigits hvalue htrail
    · rename_i hvar
      obtain ⟨rfl, process, location, pid, id, hdot, hlast, hprocess, hlocation, rfl⟩ :=
        parseLocation_eq_ok_iff.1 h
      rw [hdot] at hs hvar
      rw [List.append_nil]
      refine .located hs hlast (fun var hget => ?_) hprocess hlocation
      rw [NameTable.find?, (n.ints.inverse _ _).2 hget] at hvar
      cases hvar
  · intro h
    cases h with
    | @nonzero subject name var hs hvar =>
      have hfind : n.ints.find? (String.ofList name) = some var := (n.ints.inverse _ _).2 hvar
      rw [← List.append_nil text, parse_of_spells hs hempty, hfind]
      rfl
    | @compared subject name gaps sgn digits trail var op value hs hvar hgaps hsgn hne hdigits hvalue
        htrail =>
      have hfind : n.ints.find? (String.ofList name) = some var := (n.ints.inverse _ _).2 hvar
      rw [parse_of_spells hs (by cases op <;> rintro c ⟨⟩ <;> rfl), hfind]
      exact parseComparison_eq_ok_iff.2 (.inr ⟨op, gaps, sgn, digits, trail, value, rfl, hgaps, hsgn, hne,
        hdigits, hvalue, htrail, rfl⟩)
    | @located subject process location pid id hs hlast hnot hprocess hlocation =>
      have hfind : n.ints.find? (String.ofList (process ++ '.' :: location)) = none := by
        refine Option.eq_none_iff_forall_ne_some.2 fun var hvar => ?_
        exact hnot var ((n.ints.inverse _ _).1 hvar)
      rw [← List.append_nil text, parse_of_spells hs hempty, hfind]
      exact parseLocation_eq_ok_iff.2 ⟨rfl, process, location, pid, id, rfl, hlast, hprocess, hlocation,
        rfl⟩

end Atom

end StateSpace
