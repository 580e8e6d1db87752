import StateSpace.Proofs.Expr.Grammar
import StateSpace.Proofs.Expr.Lexing

/-!
# Reading by descent

The reader of a level finds every expression of its level, if no operator follows that would become a
part of it. A chain does not stop at an operator of its own level: having read a part of the chain, it
goes on from there (`resume`). So the induction is on derivations, and its statement tells what is left
to do at the end of the derived tokens (`readerAt_eq_resume`). What is read from a text is what its
tokens derive (`Expr.parse_eq_ok_iff`).

The bounds on nesting and on the length of chains are no part of the grammar. Every step takes a token,
so they are never reached (`operand_eq_of_lt`, `chainFrom_eq_of_le`).
-/

namespace StateSpace

theorem BinaryOp.sign_injective : Function.Injective BinaryOp.sign := by
  intro op op' h
  cases op <;> cases op' <;> first | rfl | cases h

namespace Parser

variable {resolve : String → Option Symbol} {op? : Sign → Option BinaryOp} {next next' r r' : Reader}
  {k : Level} {ts ts' rest : List Token} {e left right : Expr} {fuel fuel' : Nat}

/-! ## What follows an expression -/

theorem opsAt_eq_none {op : BinaryOp} (h : op.level ≠ k) : opsAt k op.sign = none := by
  by_contra hne
  obtain ⟨op', hop⟩ := Option.ne_none_iff_exists'.1 hne
  obtain ⟨hlevel, hsign⟩ := eq_of_opsAt hop
  exact h (BinaryOp.sign_injective hsign ▸ hlevel)

/-- The tokens do not go on with an operator of the level. -/
def Leaves (op? : Sign → Option BinaryOp) (ts : List Token) : Prop :=
  ∀ s ts', ts = .sign s :: ts' → op? s = none

theorem leaves_sign {s : Sign} (h : op? s = none) : Leaves op? (.sign s :: ts) := by
  rintro _ _ ⟨⟩
  exact h

theorem leaves_nil : Leaves op? [] := by
  rintro _ _ ⟨⟩

/-- Tokens behind an expression of the level that are no part of its operands: an operator there binds
weaker, or continues a chain of the level. -/
def Follows (k : Level) (ts : List Token) : Prop :=
  ∀ (op : BinaryOp) (ts' : List Token), ts = .sign op.sign :: ts' →
    op.level.rank < k.rank ∨ op.level = k ∧ k ≠ .comparison

theorem follows_nil : Follows k [] := by
  rintro _ _ ⟨⟩

theorem follows_rightParen : Follows k (.sign .rightParen :: ts) := by
  intro op ts' h
  cases op <;> cases h

theorem follows_operator {op : BinaryOp}
    (h : op.level.rank < k.rank ∨ op.level = k ∧ k ≠ .comparison) :
    Follows k (.sign op.sign :: ts) := by
  intro op' ts' heq
  simp only [List.cons.injEq, Token.sign.injEq] at heq
  rwa [← BinaryOp.sign_injective heq.1]

theorem Follows.leaves (h : Follows k ts) {j : Level}
    (hj : k.rank < j.rank ∨ j = k ∧ k = .comparison) : Leaves (opsAt j) ts := by
  rintro s ts' rfl
  by_contra hne
  obtain ⟨op, hop⟩ := Option.ne_none_iff_exists'.1 hne
  obtain ⟨rfl, rfl⟩ := eq_of_opsAt hop
  rcases h op ts' rfl with hlt | ⟨heq, hk⟩
  · rcases hj with hj | ⟨hj, -⟩
    · omega
    · rw [hj] at hlt
      omega
  · rcases hj with hj | ⟨-, hj⟩
    · rw [heq] at hj
      omega
    · exact hk hj

/-- What may follow an expression may follow its operands. -/
theorem Follows.tighter (h : Follows k ts) : Follows k.next ts := by
  intro op ts' heq
  rcases h op ts' heq with hlt | ⟨heq, hk⟩
  · left
    cases k <;> simp only [Level.next, Level.rank] at hlt ⊢ <;> omega
  · left
    subst heq
    cases op <;> first | exact absurd rfl hk | decide

theorem Follows.leaves_tighter (h : Follows k ts) : Leaves (opsAt k.next) ts := by
  cases k with
  | unary | primary =>
    rintro _ _ _
    rfl
  | or | and | comparison | sum | product => exact h.leaves (.inl (by decide))

/-! ## Levels -/

theorem chainFrom_leaves (fuel : Nat) (h : Leaves op? ts) :
    chainFrom op? next fuel e ts = .ok (e, ts) := by
  match fuel, ts, h with
  | 0, _, _ => rfl
  | _ + 1, [], _ => rfl
  | _ + 1, .num _ :: _, _ => rfl
  | _ + 1, .ident _ :: _, _ => rfl
  | _ + 1, .sign s :: ts, h =>
    rw [chainFrom, h s ts rfl]

theorem chain_of_next (hn : next ts = .ok (e, rest)) :
    chain op? next ts = chainFrom op? next rest.length e rest := by
  unfold chain
  rw [hn]
  rfl

theorem single_leaves (hn : next ts = .ok (e, rest)) (h : Leaves op? rest) :
    single op? next ts = .ok (e, rest) := by
  unfold single
  rw [hn]
  match rest, h with
  | [], _ => rfl
  | .num _ :: _, _ => rfl
  | .ident _ :: _, _ => rfl
  | .sign s :: ts, h =>
    simp only [bind, Except.bind, h s ts rfl]

theorem single_takes {s : Sign} {op : BinaryOp} (hop : op? s = some op)
    (hl : next ts = .ok (left, .sign s :: ts')) (hr : next ts' = .ok (right, rest)) :
    single op? next ts = .ok (.binary op left right, rest) := by
  unfold single
  rw [hl]
  simp only [bind, Except.bind, hop, hr]

/-- What the reader of a level does with the tokens behind an expression of the level. -/
def resume (r : Reader) (k : Level) (e : Expr) : Reader := fun ts =>
  match k with
  | .or | .and | .sum | .product => chainFrom (opsAt k) (readerAt r k.next) ts.length e ts
  | .comparison | .unary | .primary => .ok (e, ts)

theorem resume_leaves (h : Leaves (opsAt k) ts) : resume r k e ts = .ok (e, ts) := by
  cases k with
  | or | and | sum | product => exact chainFrom_leaves _ h
  | comparison | unary | primary => rfl

/-- An expression of the next level starts a chain or is all there is. -/
theorem readerAt_of_next (hn : readerAt r k.next ts = .ok (e, rest)) (h : Follows k rest) :
    readerAt r k ts = resume r k e rest := by
  cases k with
  | or | and | sum | product => exact chain_of_next hn
  | comparison => exact single_leaves hn (h.leaves (.inr ⟨rfl, rfl⟩))
  | unary | primary => exact hn

/-! ## Bounds -/

/-- A reader that takes tokens off the front continues a chain at most as often as there are tokens. -/
theorem chainFrom_eq_of_le (hn : ∀ ts e rest, next ts = .ok (e, rest) → rest.length < ts.length)
    (hle : ts.length ≤ fuel) :
    chainFrom op? next fuel left ts = chainFrom op? next ts.length left ts := by
  obtain ⟨n, hlen⟩ : ∃ n, ts.length = n := ⟨_, rfl⟩
  induction n using Nat.strongRecOn generalizing ts left fuel with
  | _ n ih =>
    by_cases hleaves : Leaves op? ts
    · rw [chainFrom_leaves _ hleaves, chainFrom_leaves _ hleaves]
    · obtain ⟨s, ts', rfl, hop⟩ : ∃ s ts', ts = .sign s :: ts' ∧ op? s ≠ none := by
        simpa [Leaves] using hleaves
      obtain ⟨op, hop⟩ := Option.ne_none_iff_exists'.1 hop
      rw [List.length_cons] at hle hlen ⊢
      obtain ⟨fuel, rfl⟩ : ∃ m, fuel = m + 1 := ⟨fuel - 1, by omega⟩
      rw [chainFrom, chainFrom, hop]
      cases hr : next ts' with
      | error err => rfl
      | ok p =>
        have hlt := hn _ _ _ hr
        show chainFrom op? next fuel _ p.2 = chainFrom op? next ts'.length _ p.2
        rw [ih _ (by omega) (by omega) rfl, ih _ (by omega) (by omega : p.2.length ≤ ts'.length) rfl]

theorem chainFrom_takes {s : Sign} {op : BinaryOp} (hop : op? s = some op)
    (hn : ∀ ts e rest, next ts = .ok (e, rest) → rest.length < ts.length)
    (hr : next ts = .ok (right, rest)) :
    chainFrom op? next (Token.sign s :: ts).length left (.sign s :: ts) =
      chainFrom op? next rest.length (.binary op left right) rest := by
  have hlt := hn _ _ _ hr
  rw [List.length_cons, chainFrom, hop]
  dsimp only
  rw [hr]
  exact chainFrom_eq_of_le hn (Nat.le_of_lt hlt)

/-- The readers read the same off all token lists that are not longer than `n`. -/
def Agree (n : Nat) (r r' : Reader) : Prop := ∀ ts, ts.length ≤ n → r ts = r' ts

variable {n : Nat}

theorem Agree.chainFrom (hn : ∀ ts e rest, next ts = .ok (e, rest) → rest.length < ts.length)
    (h : Agree n next next') (fuel : Nat) (left : Expr) :
    Agree n (chainFrom op? next fuel left) (chainFrom op? next' fuel left) := by
  induction fuel generalizing left with
  | zero =>
    rintro ts -
    rfl
  | succ fuel ih =>
    intro ts hle
    by_cases hleaves : Leaves op? ts
    · rw [chainFrom_leaves _ hleaves, chainFrom_leaves _ hleaves]
    · obtain ⟨s, ts', rfl, hop⟩ : ∃ s ts', ts = .sign s :: ts' ∧ op? s ≠ none := by
        simpa [Leaves] using hleaves
      obtain ⟨op, hop⟩ := Option.ne_none_iff_exists'.1 hop
      rw [List.length_cons] at hle
      rw [Parser.chainFrom, Parser.chainFrom, hop]
      dsimp only
      rw [← h ts' (by omega)]
      cases hr : next ts' with
      | error err => rfl
      | ok p =>
        have hlt := hn _ _ _ hr
        exact ih _ p.2 (by omega)

theorem Agree.chain (hn : ∀ ts e rest, next ts = .ok (e, rest) → rest.length < ts.length)
    (h : Agree n next next') : Agree n (chain op? next) (chain op? next') := by
  intro ts hle
  unfold Parser.chain
  rw [← h ts hle]
  cases hr : next ts with
  | error err => rfl
  | ok p =>
    have hlt := hn _ _ _ hr
    exact h.chainFrom hn _ _ p.2 (by omega)

theorem Agree.single (hn : ∀ ts e rest, next ts = .ok (e, rest) → rest.length < ts.length)
    (h : Agree n next next') : Agree n (single op? next) (single op? next') := by
  intro ts hle
  unfold Parser.single
  rw [← h ts hle]
  cases hr : next ts with
  | error err => rfl
  | ok p =>
    obtain ⟨left, rest⟩ := p
    have hlt := hn _ _ _ hr
    match rest with
    | [] | .num _ :: _ | .ident _ :: _ => rfl
    | .sign s :: rest =>
      rw [List.length_cons] at hlt
      cases hop : op? s with
      | none => simp only [bind, Except.bind, hop]
      | some op => simp only [bind, Except.bind, hop, ← h rest (by omega)]

theorem Agree.levels (hr : Sound resolve .unary r) (h : Agree n r r') :
    Agree n (levels r) (levels r') := by
  have hn : ∀ k, k ≠ .primary → ∀ ts e rest, readerAt r k ts = .ok (e, rest) →
      rest.length < ts.length := fun k hk ts e rest => (sound_readerAt hr k hk).length_lt
  have hproduct : Agree n (readerAt r .product) (readerAt r' .product) :=
    h.chain (hn .unary (by decide))
  have hsum : Agree n (readerAt r .sum) (readerAt r' .sum) := hproduct.chain (hn .product (by decide))
  have hcomparison : Agree n (readerAt r .comparison) (readerAt r' .comparison) :=
    hsum.single (hn .sum (by decide))
  have hand : Agree n (readerAt r .and) (readerAt r' .and) :=
    hcomparison.chain (hn .comparison (by decide))
  exact hand.chain (hn .and (by decide))

/-- How deep an operand is nested is bounded by its tokens. -/
theorem operand_eq_of_lt (hlt : ts.length < fuel) (hlt' : ts.length < fuel') :
    operand resolve fuel ts = operand resolve fuel' ts := by
  induction fuel generalizing fuel' ts with
  | zero => omega
  | succ fuel ih =>
    obtain ⟨fuel', rfl⟩ : ∃ m, fuel' = m + 1 := ⟨fuel' - 1, by omega⟩
    match ts with
    | [] => rfl
    | .num _ :: _ => rfl
    | .ident _ :: _ => rfl
    | .sign s :: ts =>
      rw [List.length_cons] at hlt hlt'
      have hagree : Agree ts.length (operand resolve fuel) (operand resolve fuel') :=
        fun ts' hle => ih (by omega) (by omega)
      cases s with
      | minus | bang =>
        rw [operand, operand, hagree ts (Nat.le_refl _)]
      | leftParen =>
        rw [operand, operand, hagree.levels (sound_operand fuel) ts (Nat.le_refl _)]
      | _ => rfl

/-! ## Completeness -/

theorem operand_paren (h : levels (operand resolve fuel) ts = .ok (e, .sign .rightParen :: rest)) :
    operand resolve (fuel + 1) (.sign .leftParen :: ts) = .ok (e, rest) := by
  rw [operand, h]
  rfl

theorem operand_unary (op : UnaryOp) (h : operand resolve fuel ts = .ok (e, rest)) :
    operand resolve (fuel + 1) (.sign op.sign :: ts) = .ok (.unary op e, rest) := by
  cases op
  · show operand resolve (fuel + 1) (.sign .minus :: ts) = _
    rw [operand, h]
    rfl
  · show operand resolve (fuel + 1) (.sign .bang :: ts) = _
    rw [operand, h]
    rfl

/-- A chain takes the next operator of its level and the operand behind it. -/
theorem resume_takes {op : BinaryOp} (hk : op.level ≠ .comparison)
    (hn : ∀ ts e rest, readerAt r op.level.next ts = .ok (e, rest) → rest.length < ts.length)
    (hr : readerAt r op.level.next ts = .ok (right, rest)) :
    resume r op.level left (.sign op.sign :: ts) = resume r op.level (.binary op left right) rest := by
  have hop := opsAt_sign op
  cases op with
  | or | and | add | sub | mul | div | mod => exact chainFrom_takes hop hn hr
  | eq | ne | lt | le | gt | ge => exact absurd rfl hk

/-- Having read the tokens of an expression, the reader of its level goes on behind them. -/
theorem readerAt_eq_resume (h : Derives resolve k ts e) (hfuel : ts.length ≤ fuel)
    (hrest : Follows k rest) :
    readerAt (operand resolve fuel) k (ts ++ rest) = resume (operand resolve fuel) k e rest := by
  induction h generalizing fuel rest with
  | tighter h ih =>
    exact readerAt_of_next ((ih hfuel hrest.tighter).trans (resume_leaves hrest.leaves_tighter)) hrest
  | @repeated op ts ts' l r hk hl hr ihl ihr =>
    rw [List.length_append, List.length_cons] at hfuel
    have hright : readerAt (operand resolve fuel) op.level.next (ts' ++ rest) = .ok (r, rest) :=
      (ihr (by omega) hrest.tighter).trans (resume_leaves hrest.leaves_tighter)
    have hsound : Sound resolve op.level.next (readerAt (operand resolve fuel) op.level.next) :=
      sound_readerAt (sound_operand fuel) _ (by cases op <;> decide)
    rw [List.append_assoc, List.cons_append, ihl (by omega) (follows_operator (.inr ⟨rfl, hk⟩))]
    exact resume_takes hk (fun _ _ _ => hsound.length_lt) hright
  | @compared op ts ts' l r hk hl hr ihl ihr =>
    rw [List.length_append, List.length_cons] at hfuel
    have hop := opsAt_sign op
    rw [hk] at hop
    have hsum : Leaves (opsAt .sum) (.sign op.sign :: (ts' ++ rest)) :=
      leaves_sign (opsAt_eq_none (by rw [hk]; decide))
    have hfollows : Follows .sum (.sign op.sign :: (ts' ++ rest)) :=
      follows_operator (.inl (by rw [hk]; decide))
    rw [List.append_assoc, List.cons_append]
    exact single_takes hop ((ihl (by omega) hfollows).trans (resume_leaves hsum))
      ((ihr (by omega) hrest.tighter).trans (resume_leaves hrest.leaves_tighter))
  | applied h ih =>
    rw [List.length_cons] at hfuel
    obtain ⟨fuel, rfl⟩ := Nat.exists_eq_add_of_le' (by omega : 1 ≤ fuel)
    exact operand_unary _ (ih (by omega) hrest)
  | num =>
    obtain ⟨fuel, rfl⟩ := Nat.exists_eq_add_of_le' hfuel
    rfl
  | int h =>
    obtain ⟨fuel, rfl⟩ := Nat.exists_eq_add_of_le' hfuel
    show operand resolve (fuel + 1) (.ident _ :: rest) = _
    rw [operand, h]
    rfl
  | clock h =>
    obtain ⟨fuel, rfl⟩ := Nat.exists_eq_add_of_le' hfuel
    show operand resolve (fuel + 1) (.ident _ :: rest) = _
    rw [operand, h]
    rfl
  | bracketed h ih =>
    rw [List.length_cons, List.length_append] at hfuel
    obtain ⟨fuel, rfl⟩ := Nat.exists_eq_add_of_le' (by omega : 1 ≤ fuel)
    rw [List.cons_append, List.append_assoc]
    exact operand_paren ((ih (by omega) follows_rightParen).trans (resume_leaves (leaves_sign rfl)))

/-- A token list is read to its end if and only if it is an expression. -/
theorem expression_eq_ok_iff :
    expression resolve ts = .ok (e, []) ↔ Derives resolve .or ts e := by
  constructor
  · intro h
    obtain ⟨pre, hpre, hderives⟩ := sound_levels _ _ _ _ h
    rw [List.append_nil] at hpre
    exact hpre ▸ hderives
  · intro h
    have hread := readerAt_eq_resume h (Nat.le_succ ts.length) (follows_nil (k := .or))
    rw [List.append_nil, resume_leaves leaves_nil] at hread
    exact hread

end Parser

/-! ## Texts -/

variable {resolve : String → Option Symbol} {text : List Char} {e : Expr}

/-- What is read from a text is what its tokens derive, or what always holds if there is none. -/
theorem Expr.parse_eq_ok_iff : Expr.parse resolve text = .ok e ↔
    ∃ ts, Lexes text ts ∧ (ts = [] ∧ e = .const 1 ∨ Derives resolve .or ts e) := by
  constructor
  · intro h
    obtain ⟨ts, hts, hread⟩ := except_bind_eq_ok.1 h
    refine ⟨ts, Token.scan_eq_ok_iff.1 hts, ?_⟩
    split at hread
    · cases hread
      exact .inl ⟨rfl, rfl⟩
    · obtain ⟨⟨e', rest⟩, he, hend⟩ := except_bind_eq_ok.1 hread
      dsimp only at hend
      split at hend
      · rename_i hempty
        cases hend
        rw [List.isEmpty_iff.1 hempty] at he
        exact .inr (Parser.expression_eq_ok_iff.1 he)
      · cases hend
  · rintro ⟨ts, hts, ⟨rfl, rfl⟩ | hderives⟩
    · unfold Expr.parse
      rw [Token.scan_eq_ok_iff.2 hts]
      rfl
    · obtain ⟨t, ts, rfl⟩ := List.exists_cons_of_length_pos hderives.length_pos
      unfold Expr.parse
      rw [Token.scan_eq_ok_iff.2 hts]
      show (Parser.expression resolve (t :: ts) >>= _) = _
      rw [Parser.expression_eq_ok_iff.2 hderives]
      rfl

/-- A text is read as an expression exactly if it is cut into tokens that derive it, or into none and
the expression is the constant one; every other text is an error. The bounds on how deep an expression
is nested and on how long a chain is are never what ends the reading: a larger one changes nothing. -/
theorem Expr.parse_derives (resolve : String → Option Symbol) :
    (∀ text e, Expr.parse resolve text = .ok e ↔
      ∃ ts, Lexes text ts ∧ (ts = [] ∧ e = .const 1 ∨ Derives resolve .or ts e)) ∧
    (∀ text, (∃ err, Expr.parse resolve text = .error err) ↔
      ¬∃ e ts, Lexes text ts ∧ (ts = [] ∧ e = .const 1 ∨ Derives resolve .or ts e)) ∧
    (∀ ts fuel, ts.length < fuel → Parser.operand resolve fuel ts =
        Parser.operand resolve (ts.length + 1) ts ∧
      Parser.levels (Parser.operand resolve fuel) ts = Parser.expression resolve ts) ∧
    ∀ k ts fuel depth left, ts.length ≤ fuel →
      Parser.chainFrom (Parser.opsAt k) (Parser.readerAt (Parser.operand resolve depth) k.next) fuel
        left ts =
      Parser.chainFrom (Parser.opsAt k) (Parser.readerAt (Parser.operand resolve depth) k.next)
        ts.length left ts := by
  refine ⟨fun text e => parse_eq_ok_iff, fun text => ?_, fun ts fuel hlt => ⟨?_, ?_⟩, ?_⟩
  · simp only [← parse_eq_ok_iff]
    cases Expr.parse resolve text <;> simp
  · exact Parser.operand_eq_of_lt hlt (Nat.lt_succ_self _)
  · have hagree : Parser.Agree ts.length (Parser.operand resolve fuel)
        (Parser.operand resolve (ts.length + 1)) :=
      fun ts' hle => Parser.operand_eq_of_lt (by omega) (by omega)
    exact hagree.levels (Parser.sound_operand fuel) ts (Nat.le_refl _)
  · intro k ts fuel depth left hle
    refine Parser.chainFrom_eq_of_le (fun ts e rest hread => ?_) hle
    by_cases hk : k.next = .primary
    · rw [hk] at hread
      exact (Parser.sound_operand depth).length_lt hread
    · exact (Parser.sound_readerAt (Parser.sound_operand depth) _ hk).length_lt hread

/-- Sums group to the left, a comparison binds weaker, and comparisons do not chain. -/
theorem Expr.parse_derives_mixed : ∃ (resolve : String → Option Symbol) (ts : List Token),
    Expr.parse resolve "x - 2 - -x < 3".toList = .ok (.binary .lt
      (.binary .sub (.binary .sub (.int 0) (.const 2)) (.unary .neg (.int 0))) (.const 3)) ∧
    Derives resolve .or ts (.binary .lt
      (.binary .sub (.binary .sub (.int 0) (.const 2)) (.unary .neg (.int 0))) (.const 3)) ∧
    (¬∃ e ts, Lexes "x < 2 < 3".toList ts ∧ (ts = [] ∧ e = .const 1 ∨ Derives resolve .or ts e)) ∧
    Parser.levels (Parser.operand resolve 7) [.num 2, .sign .plus, .num 3] =
      Parser.expression resolve [.num 2, .sign .plus, .num 3] ∧
    Parser.chainFrom (Parser.opsAt .sum) (Parser.readerAt (Parser.operand resolve 1) .product) 9
        (.const 1) [.sign .minus, .num 3] =
      Parser.chainFrom (Parser.opsAt .sum) (Parser.readerAt (Parser.operand resolve 1) .product) 2
        (.const 1) [.sign .minus, .num 3] := by
  obtain ⟨haccepted, hrejected, hdepth, hchain⟩ := parse_derives fun _ => some (.int 0)
  obtain ⟨e, he, heq⟩ := exists_ok_of_any (x := Expr.parse (fun _ => some (.int 0))
    "x - 2 - -x < 3".toList) (p := fun e => e = .binary .lt (.binary .sub (.binary .sub (.int 0)
      (.const 2)) (.unary .neg (.int 0))) (.const 3)) (by decide +kernel)
  have he := of_decide_eq_true heq ▸ he
  obtain ⟨ts, -, ⟨-, hconst⟩ | hderives⟩ := (haccepted _ _).1 he
  · cases hconst
  · refine ⟨_, ts, he, hderives, (hrejected _).1 ?_, (hdepth _ 7 (by decide)).2,
      hchain .sum _ 9 1 _ (by decide)⟩
    cases hread : Expr.parse (fun _ => some (.int 0)) "x < 2 < 3".toList with
    | error err => exact ⟨err, rfl⟩
    | ok e =>
      have hnone : (Expr.parse (fun _ => some (.int 0)) "x < 2 < 3".toList).toOption = none := by
        decide +kernel
      rw [hread] at hnone
      cases hnone

end StateSpace
