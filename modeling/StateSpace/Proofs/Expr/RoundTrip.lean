import StateSpace.Proofs.Expr.Scope
import StateSpace.Proofs.Expr.Written
import StateSpace.Proofs.Text.Pieces

/-!
# Reading what was written

Written expressions and statements are read back as they were. A written expression is an operand by
itself, as all compounds have brackets, so no level of binding regroups it (`Expr.derives_tokens`). In a
written statement no semicolon stands in a value, and the first equals sign of an assignment is that of
the assignment.
-/

namespace StateSpace

/-- The resolver knows the written names of the variables and clocks below the bounds. -/
structure Names (ints clocks : Nat) (resolve : String → Option Symbol) : Prop where
  int : ∀ id < ints, resolve ("i" ++ toString id) = some (.int id)
  clock : ∀ id < clocks, resolve ("c" ++ toString id) = some (.clock id)

/-! ## Expressions -/

variable {ints clocks : Nat} {resolve : String → Option Symbol} {e : Expr}

namespace Expr

/-- A written expression is derived as an operand: all of its compounds are bracketed. -/
theorem derives_tokens (hn : Names ints clocks resolve) (he : e.Within ints clocks) :
    Derives resolve .unary e.tokens e := by
  induction e with
  | const n => exact .tighter .num
  | int id => exact .tighter (.int (hn.int id he))
  | clock id => exact .tighter (.clock (hn.clock id he))
  | unary op e ih =>
    exact .applied (.tighter (.bracketed ((ih he).weaker (by decide))))
  | binary op l r ihl ihr =>
    have hop : Derives resolve op.level (l.tokens ++ .sign op.sign :: r.tokens) (.binary op l r) := by
      by_cases hk : op.level = .comparison
      · rw [hk]
        exact .compared hk ((ihl he.1).weaker (by decide)) ((ihr he.2).weaker (by decide))
      · exact .repeated hk ((ihl he.1).weaker (by cases op <;> decide))
          ((ihr he.2).weaker (by cases op <;> decide))
    have hbracketed := Derives.bracketed (hop.weaker (j := .or) (Nat.zero_le _))
    rw [List.append_assoc, List.cons_append] at hbracketed
    exact .tighter hbracketed

/-- A text with the tokens of an expression is read as the expression. -/
theorem parse_of_scan (hn : Names ints clocks resolve) (he : e.Within ints clocks)
    {text : List Char} (hscan : Token.scan text = .ok e.tokens) :
    Expr.parse resolve text = .ok e :=
  parse_eq_ok_iff.2 ⟨_, Token.scan_eq_ok_iff.1 hscan,
    .inr ((derives_tokens hn he).weaker (by decide))⟩

theorem scan_render_end (hu : e.Unsigned) : Token.scan e.render.toList = .ok e.tokens := by
  have hscan : Token.scan (e.render.toList ++ []) = .ok (e.tokens ++ []) :=
    scan_render hu (by rintro c ⟨⟩) (Token.scan_eq_ok_iff.2 .nil)
  rwa [List.append_nil, List.append_nil] at hscan

theorem closed_unsigned {resolve : String → Option Symbol} : Parser.Closed resolve Unsigned where
  const _ hn := hn
  int _ _ _ := trivial
  clock _ _ _ := trivial
  unary _ _ he := he
  binary _ _ _ hl hr := ⟨hl, hr⟩

/-! ### Characters of written expressions -/

theorem trimmed_toDigits {c : Char} (hc : Text.isBlank c = false) (n : Nat) :
    Text.Trimmed (c :: Nat.toDigits 10 n) :=
  Text.trimmed_of_forall (List.cons_ne_nil _ _) (List.forall_mem_cons.2
    ⟨hc, fun _ hd => Text.isBlank_of_isDigit (Text.isDigit_of_mem_toDigits hd)⟩)

theorem trimmed_render (hu : e.Unsigned) : Text.Trimmed e.render.toList := by
  cases e with
  | const n =>
    rw [toList_render_const hu]
    exact Text.trimmed_of_forall Nat.toDigits_ne_nil
      fun _ hd => Text.isBlank_of_isDigit (Text.isDigit_of_mem_toDigits hd)
  | int id =>
    rw [toList_render_int]
    exact trimmed_toDigits rfl id
  | clock id =>
    rw [toList_render_clock]
    exact trimmed_toDigits rfl id
  | unary op e =>
    rw [toList_render_unary]
    refine ⟨?_, ')', by simp [List.getLast?_cons, List.getLast?_append], rfl⟩
    cases op
    · exact ⟨'-', rfl, rfl⟩
    · exact ⟨'!', rfl, rfl⟩
  | binary op l r =>
    rw [toList_render_binary]
    exact ⟨⟨'(', rfl, rfl⟩, ')', by simp [List.getLast?_cons, List.getLast?_append], rfl⟩

/-- No separator of statements is written in an expression. -/
theorem semicolon_notMem_render (hu : e.Unsigned) : ';' ∉ e.render.toList := by
  have hdigits : ∀ n, ';' ∉ Nat.toDigits 10 n := by
    intro n hmem
    cases Text.isDigit_of_mem_toDigits hmem
  induction e with
  | const n =>
    rw [toList_render_const hu]
    exact hdigits _
  | int id =>
    rw [toList_render_int]
    simp [hdigits]
  | clock id =>
    rw [toList_render_clock]
    simp [hdigits]
  | unary op e ih =>
    rw [toList_render_unary]
    cases op <;> simp [UnaryOp.sign, Sign.text, ih hu]
  | binary op l r ihl ihr =>
    rw [toList_render_binary]
    cases op <;> simp [BinaryOp.sign, Sign.text, ihl hu.1, ihr hu.2]

end Expr

/-! ## Statements -/

namespace Update

/-- No number in the assignment is negative. -/
def Unsigned : Update → Prop
  | int _ e => e.Unsigned
  | clock _ e => e.Unsigned

/-- A name and a value around an equals sign are read as an assignment. -/
theorem parse_joined {name value : List Char} {e : Expr} (hsep : '=' ∉ name)
    (hname : Text.Trimmed name) (hvalue : Text.Trimmed value)
    (hread : Expr.parse resolve (' ' :: value) = .ok e) :
    Update.parse resolve (name ++ [' '] ++ '=' :: ' ' :: value) =
      match resolve (String.ofList name) with
      | some (.int id) => .ok (.int id e)
      | some (.clock id) => .ok (.clock id e)
      | none => .error (.unknownVariable (String.ofList name)) := by
  have hcut : Text.cut '=' (name ++ [' '] ++ '=' :: ' ' :: value) =
      (name ++ [' '], some (' ' :: value)) := Text.cut_append_cons (by simp [hsep])
  have hfull : (Text.trim (' ' :: value)).isEmpty = false := by
    rw [Text.trim_cons rfl, hvalue.trim_eq, List.isEmpty_eq_false_iff]
    exact hvalue.ne_nil
  unfold Update.parse
  rw [hcut]
  show (if (Text.trim (' ' :: value)).isEmpty = true then _ else
    Expr.parse resolve (' ' :: value) >>= _) = _
  rw [if_neg (by rw [hfull]; decide), hread]
  simp only [hname.trim_concat (b := ' ') rfl]
  rfl

/-- What is assigned to. -/
def target : Update → Expr
  | int id _ => .int id
  | clock id _ => .clock id

/-- What is assigned. -/
def value : Update → Expr
  | int _ e => e
  | clock _ e => e

variable {u : Update} {us : List Update}

theorem toList_render (u : Update) : u.render.toList =
    u.target.render.toList ++ [' '] ++ '=' :: ' ' :: u.value.render.toList := by
  cases u <;> simp [render, target, value, Expr.render]

theorem unsigned_target (u : Update) : u.target.Unsigned := by cases u <;> trivial

theorem unsigned_value (hu : u.Unsigned) : u.value.Unsigned := by cases u <;> exact hu

theorem equals_notMem_target (u : Update) : '=' ∉ u.target.render.toList := by
  have hdigits : ∀ n, '=' ∉ Nat.toDigits 10 n := by
    intro n hmem
    cases Text.isDigit_of_mem_toDigits hmem
  cases u with
  | int id e =>
    rw [target, Expr.toList_render_int]
    simp [hdigits]
  | clock id e =>
    rw [target, Expr.toList_render_clock]
    simp [hdigits]

/-- A written assignment is read back. -/
theorem parse_render (hn : Names ints clocks resolve) (hw : u.Within ints clocks)
    (hu : u.Unsigned) : Update.parse resolve u.render.toList = .ok u := by
  have hvalue := Expr.trimmed_render (unsigned_value hu)
  have hscan : Token.scan (' ' :: u.value.render.toList) = .ok u.value.tokens :=
    (Token.scan_blank rfl).trans (Expr.scan_render_end (unsigned_value hu))
  have hin : u.value.Within ints clocks := by cases u <;> exact hw.2
  rw [toList_render, parse_joined (equals_notMem_target u) (Expr.trimmed_render (unsigned_target u))
    hvalue (Expr.parse_of_scan hn hin hscan), String.ofList_toList]
  cases u with
  | int id e =>
    rw [show (Update.int id e).target.render = "i" ++ toString id from rfl, hn.int id hw.1]
    rfl
  | clock id e =>
    rw [show (Update.clock id e).target.render = "c" ++ toString id from rfl, hn.clock id hw.1]
    rfl

theorem trimmed_render (hu : u.Unsigned) : Text.Trimmed u.render.toList := by
  have h := (Expr.trimmed_render (unsigned_target u)).append
    (Expr.trimmed_render (unsigned_value hu)) [' ', '=', ' ']
  rw [toList_render]
  simpa using h

theorem semicolon_notMem_render (hu : u.Unsigned) : ';' ∉ u.render.toList := by
  rw [toList_render]
  simp [Expr.semicolon_notMem_render (unsigned_target u),
    Expr.semicolon_notMem_render (unsigned_value hu)]

theorem isNop_render (u : Update) : isNop u.render.toList = false := by
  rw [toList_render]
  cases u with
  | int id e => rw [target, Expr.toList_render_int]; simp [isNop]
  | clock id e => rw [target, Expr.toList_render_clock]; simp [isNop]

/-- The pieces of a written statement, without blanks around them, are its assignments. -/
theorem trim_pieces_render (hu : ∀ v ∈ u :: us, v.Unsigned) :
    (Text.pieces ';' ("; ".intercalate ((u :: us).map render)).toList).map Text.trim =
      (u :: us).map (·.render.toList) := by
  have hsep : ∀ p ∈ u.render.toList :: us.map (·.render.toList), ';' ∉ p :=
    List.forall_mem_map (f := fun v : Update => v.render.toList) (l := u :: us) |>.2
      fun v hv => semicolon_notMem_render (hu v hv)
  have hjoin : ("; ".intercalate ((u :: us).map render)).toList =
      (';' :: [' ']).intercalate (u.render.toList :: us.map (·.render.toList)) := by
    rw [String.toList_intercalate, List.map_map]
    rfl
  have htrim : ∀ v ∈ u :: us, Text.trim v.render.toList = v.render.toList :=
    fun v hv => (trimmed_render (hu v hv)).trim_eq
  rw [hjoin, Text.pieces_intercalate (by decide) hsep, List.map_cons, List.map_cons, List.map_map,
    List.map_map, htrim u List.mem_cons_self]
  refine congrArg _ (List.map_congr_left fun v hv => ?_)
  exact (Text.trim_cons rfl).trans (htrim v (List.mem_cons_of_mem _ hv))

/-- A written statement is read back. -/
theorem parseAll_render (hn : Names ints clocks resolve)
    (hus : ∀ u ∈ us, u.Within ints clocks ∧ u.Unsigned) :
    Update.parseAll resolve ("; ".intercalate (us.map render)).toList = .ok us := by
  cases us with
  | nil => rfl
  | cons u us =>
    unfold parseAll
    rw [trim_pieces_render fun v hv => (hus v hv).2, List.filter_eq_self.2, mapM_eq_ok,
      List.forall₂_map_left_iff, List.forall₂_same]
    · exact fun v hv => parse_render hn (hus v hv).1 (hus v hv).2
    · rintro p hp
      obtain ⟨v, -, rfl⟩ := List.mem_map.1 hp
      rw [isNop_render]
      rfl

theorem unsigned_of_parse {resolve : String → Option Symbol} {text : List Char}
    (h : Update.parse resolve text = .ok u) : u.Unsigned := by
  obtain ⟨_, _, e, he, ⟨_, _, rfl⟩ | ⟨_, _, rfl⟩⟩ := Update.parse_cases h
  · exact Expr.parse_induct (e := e) Expr.closed_unsigned he
  · exact Expr.parse_induct (e := e) Expr.closed_unsigned he

end Update

/-- What is written of an expression or a statement that was read is read back as the same, by every
resolver that knows the written names of the variables and clocks that occur. -/
theorem parse_written {resolve resolve' : String → Option Symbol}
    (hr : Resolves ints clocks resolve) (hn : Names ints clocks resolve') :
    (∀ text e, Expr.parse resolve text = .ok e → Expr.parse resolve' e.render.toList = .ok e) ∧
    ∀ text us, Update.parseAll resolve text = .ok us →
      Update.parseAll resolve' ("; ".intercalate (us.map Update.render)).toList = .ok us := by
  refine ⟨fun text e h => ?_, fun text us h => ?_⟩
  · exact Expr.parse_of_scan hn (Expr.parse_within hr h)
      (Expr.scan_render_end (Expr.parse_induct Expr.closed_unsigned h))
  · refine Update.parseAll_render hn fun u hu => ⟨Update.parseAll_within hr h u hu, ?_⟩
    obtain ⟨part, -, hpart⟩ := mem_of_mapM_eq_ok h hu
    exact Update.unsigned_of_parse hpart

/-- A guard and a statement that bind in several ways. -/
theorem parse_written_mixed : ∃ (resolve resolve' : String → Option Symbol) (e : Expr)
    (us : List Update),
    Expr.parse resolve "!x - -2 * x % 3 <= t && 1 || (x)".toList = .ok e ∧
    Expr.parse resolve' e.render.toList = .ok e ∧
    Update.parseAll resolve "x = x+1;; nop ; t=0".toList = .ok us ∧
    us.length = 2 ∧
    Update.parseAll resolve' ("; ".intercalate (us.map Update.render)).toList = .ok us := by
  have hr : Resolves 1 1 fun s => if s = "x" then some (.int 0)
      else if s = "t" then some (.clock 0) else none := by
    constructor <;> intro name id h <;> (repeat' split at h) <;> cases h <;> exact Nat.one_pos
  have hn : Names 1 1 fun s => if s = "i0" then some (.int 0)
      else if s = "c0" then some (.clock 0) else none := by
    constructor <;> intro id hid <;> obtain rfl := Nat.lt_one_iff.1 hid <;> rfl
  obtain ⟨e, he, -⟩ := exists_ok_of_any (x := Expr.parse (fun s => if s = "x" then some (.int 0)
    else if s = "t" then some (.clock 0) else none) "!x - -2 * x % 3 <= t && 1 || (x)".toList)
    (p := fun _ => true) (by decide +kernel)
  obtain ⟨us, hus, hlen⟩ := exists_ok_of_any (x := Update.parseAll (fun s =>
    if s = "x" then some (.int 0) else if s = "t" then some (.clock 0) else none)
    "x = x+1;; nop ; t=0".toList) (p := fun us => us.length = 2) (by decide +kernel)
  obtain ⟨hexpr, hstatement⟩ := parse_written hr hn
  exact ⟨_, _, e, us, he, hexpr _ e he, hus, of_decide_eq_true hlen, hstatement _ us hus⟩

end StateSpace
