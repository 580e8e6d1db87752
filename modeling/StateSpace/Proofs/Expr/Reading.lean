import StateSpace.Proofs.Expr.Descent

/-!
# What the parser can read

Numbers are not negative when they are read, and every other expression is put together from what was
read before. So what holds of such numbers, of what the resolver knows, and of compounds whose parts it
holds of, holds of every expression that the parser returns (`Expr.parse_induct`).
-/

namespace StateSpace

/-- A token that is no negative number. -/
def Token.Unsigned : Token → Prop
  | num n => 0 ≤ n.toInt
  | _ => True

theorem Lexes.unsigned {cs : List Char} {ts : List Token} (h : Lexes cs ts) :
    ∀ t ∈ ts, t.Unsigned := by
  induction h with
  | nil => exact fun t ht => absurd ht List.not_mem_nil
  | blank _ _ ih => exact ih
  | num _ _ _ hn _ ih =>
    refine List.forall_mem_cons.2 ⟨?_, ih⟩
    show 0 ≤ _
    rw [hn]
    exact Int.natCast_nonneg _
  | ident _ _ _ _ ih => exact List.forall_mem_cons.2 ⟨trivial, ih⟩
  | sign _ _ ih => exact List.forall_mem_cons.2 ⟨trivial, ih⟩

variable {resolve : String → Option Symbol} {text : List Char}

/-- Compounds have the property if their parts have it, and so does what tokens stand for. -/
structure Parser.Closed (resolve : String → Option Symbol) (P : Expr → Prop) : Prop where
  const : ∀ n : Int64, 0 ≤ n.toInt → P (.const n)
  int : ∀ name id, resolve name = some (.int id) → P (.int id)
  clock : ∀ name id, resolve name = some (.clock id) → P (.clock id)
  unary : ∀ op e, P e → P (.unary op e)
  binary : ∀ op l r, P l → P r → P (.binary op l r)

theorem Parser.Closed.of_derives {P : Expr → Prop} (hc : Parser.Closed resolve P) {k : Level}
    {ts : List Token} {e : Expr} (h : Derives resolve k ts e) (hts : ∀ t ∈ ts, t.Unsigned) : P e := by
  induction h with
  | tighter _ ih => exact ih hts
  | repeated _ _ _ ihl ihr | compared _ _ _ ihl ihr =>
    rw [List.forall_mem_append, List.forall_mem_cons] at hts
    exact hc.binary _ _ _ (ihl hts.1) (ihr hts.2.2)
  | applied _ ih => exact hc.unary _ _ (ih (List.forall_mem_cons.1 hts).2)
  | num => exact hc.const _ (hts _ List.mem_cons_self)
  | int hres => exact hc.int _ _ hres
  | clock hres => exact hc.clock _ _ hres
  | bracketed _ ih =>
    rw [List.forall_mem_cons, List.forall_mem_append] at hts
    exact ih hts.2.1

/-- Induction on what can be read. -/
theorem Expr.parse_induct {P : Expr → Prop} (hc : Parser.Closed resolve P) {e : Expr}
    (h : Expr.parse resolve text = .ok e) : P e := by
  obtain ⟨ts, hts, ⟨-, rfl⟩ | hderives⟩ := Expr.parse_eq_ok_iff.1 h
  · exact hc.const 1 (by decide)
  · exact hc.of_derives hderives hts.unsigned

/-- An assignment that is read has a target that the resolver knows, and its value is read. -/
theorem Update.parse_cases {u : Update} (h : Update.parse resolve text = .ok u) :
    ∃ name right e, Expr.parse resolve right = .ok e ∧
      ((∃ id, resolve name = some (.int id) ∧ u = .int id e) ∨
        ∃ id, resolve name = some (.clock id) ∧ u = .clock id e) := by
  unfold Update.parse at h
  split at h
  · cases h
  · cases h
  · split at h
    · cases h
    · obtain ⟨e, he, h⟩ := except_bind_eq_ok.1 h
      dsimp only at h
      split at h
      · rename_i hres
        cases h
        exact ⟨_, _, e, he, .inl ⟨_, hres, rfl⟩⟩
      · rename_i hres
        cases h
        exact ⟨_, _, e, he, .inr ⟨_, hres, rfl⟩⟩
      · cases h

end StateSpace
