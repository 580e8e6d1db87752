import StateSpace.Proofs.Expr.Reading

/-!
# Tokens of written expressions

A written expression is cut into the tokens one expects: brackets keep an operator apart from the signs
of its operands, and blanks keep it apart from their digits. What stands behind the expression does not
matter as long as it does not go on with a letter or a digit.
-/

namespace StateSpace

/-! ## Single tokens -/

namespace Token

variable {rest : List Char}

/-- The text does not go on with a letter, a digit or an underscore. -/
def Stops (rest : List Char) : Prop := ∀ c ∈ rest.head?, isIdentChar c = false

theorem Stops.digit (h : Stops rest) : ∀ d ∈ rest.head?, d.isDigit = false := by
  intro d hd
  by_contra hdigit
  have hident := h d hd
  rw [isIdentChar_of_isDigit (Bool.of_not_eq_false hdigit)] at hident
  cases hident

end Token

/-! ## Whole expressions -/

namespace Expr

/-- No number in the expression is negative. -/
def Unsigned : Expr → Prop
  | const n => 0 ≤ n.toInt
  | int _ => True
  | clock _ => True
  | unary _ e => e.Unsigned
  | binary _ l r => l.Unsigned ∧ r.Unsigned

/-- The tokens of a written expression. -/
def tokens : Expr → List Token
  | const n => [.num n]
  | int id => [.ident ("i" ++ toString id)]
  | clock id => [.ident ("c" ++ toString id)]
  | unary op e => .sign op.sign :: .sign .leftParen :: (e.tokens ++ [.sign .rightParen])
  | binary op l r => .sign .leftParen ::
      (l.tokens ++ .sign op.sign :: (r.tokens ++ [.sign .rightParen]))

theorem toList_render_const {n : Int64} (h : 0 ≤ n.toInt) :
    (const n).render.toList = Nat.toDigits 10 n.toInt.toNat := by
  obtain ⟨k, hk⟩ := Int.eq_ofNat_of_zero_le h
  show (toString n.toInt).toList = _
  rw [hk]
  exact Nat.toList_repr

theorem toList_render_int (id : Nat) :
    (int id).render.toList = 'i' :: Nat.toDigits 10 id := by
  show ("i" ++ toString id).toList = _
  rw [String.toList_append]
  exact congrArg _ Nat.toList_repr

theorem toList_render_clock (id : Nat) :
    (clock id).render.toList = 'c' :: Nat.toDigits 10 id := by
  show ("c" ++ toString id).toList = _
  rw [String.toList_append]
  exact congrArg _ Nat.toList_repr

theorem toList_render_unary (op : UnaryOp) (e : Expr) :
    (unary op e).render.toList = op.sign.text.toList ++ '(' :: (e.render.toList ++ [')']) := by
  cases op <;> simp [render, UnaryOp.sign, Sign.text]

theorem toList_render_binary (op : BinaryOp) (l r : Expr) : (binary op l r).render.toList =
    '(' :: (l.render.toList ++ ' ' :: (op.sign.text.toList ++ ' ' :: (r.render.toList ++ [')']))) := by
  have htext : op.text = op.sign.text := by cases op <;> rfl
  simp [render, htext]

theorem scan_unaryOp (op : UnaryOp) {rest : List Char} {ts : List Token}
    (h : Token.scan ('(' :: rest) = .ok ts) :
    Token.scan (op.sign.text.toList ++ '(' :: rest) = .ok (.sign op.sign :: ts) := by
  cases op <;> exact Token.scan_sign rfl rfl rfl h

theorem scan_binaryOp (op : BinaryOp) {rest : List Char} {ts : List Token}
    (h : Token.scan (' ' :: rest) = .ok ts) :
    Token.scan (op.sign.text.toList ++ ' ' :: rest) = .ok (.sign op.sign :: ts) := by
  cases op <;> exact Token.scan_sign rfl rfl rfl h

/-- What was written is cut into its tokens. -/
theorem scan_render {e : Expr} (he : e.Unsigned) {rest : List Char} {ts : List Token}
    (hstop : Token.Stops rest) (hr : Token.scan rest = .ok ts) :
    Token.scan (e.render.toList ++ rest) = .ok (e.tokens ++ ts) := by
  have hopen : ∀ {rest ts}, Token.scan rest = .ok ts →
      Token.scan ('(' :: rest) = .ok (.sign .leftParen :: ts) :=
    fun hr => Token.scan_sign rfl rfl rfl hr
  have hclose : ∀ {rest ts}, Token.scan rest = .ok ts →
      Token.scan (')' :: rest) = .ok (.sign .rightParen :: ts) :=
    fun hr => Token.scan_sign rfl rfl rfl hr
  have hclosed : ∀ rest, Token.Stops (')' :: rest) := by
    rintro rest c ⟨⟩
    rfl
  have hspaced : ∀ rest, Token.Stops (' ' :: rest) := by
    rintro rest c ⟨⟩
    rfl
  have hskip : ∀ rest, Token.scan (' ' :: rest) = Token.scan rest :=
    fun rest => Token.scan_blank rfl
  have hname : ∀ id, ∀ d ∈ Nat.toDigits 10 id, Token.isIdentChar d = true :=
    fun id d hd => Token.isIdentChar_of_isDigit (Text.isDigit_of_mem_toDigits hd)
  induction e generalizing rest ts with
  | const n =>
    have hn : n.toInt = Text.decimal (Nat.toDigits 10 n.toInt.toNat) := by
      rw [Text.decimal_toDigits, Int.toNat_of_nonneg he]
    rw [toList_render_const he]
    exact Token.scan_digits Nat.toDigits_ne_nil (fun d => Text.isDigit_of_mem_toDigits) hstop.digit
      hn hr
  | int id =>
    have hident := Token.scan_ident (c := 'i') rfl (hname id) hstop hr
    rw [← toList_render_int, String.ofList_toList] at hident
    rw [toList_render_int]
    exact hident
  | clock id =>
    have hident := Token.scan_ident (c := 'c') rfl (hname id) hstop hr
    rw [← toList_render_clock, String.ofList_toList] at hident
    rw [toList_render_clock]
    exact hident
  | unary op e ih =>
    have hbody := hopen (ih he (hclosed _) (hclose hr))
    rw [toList_render_unary]
    simpa only [tokens, List.append_assoc, List.cons_append, List.nil_append] using
      scan_unaryOp op hbody
  | binary op l r ihl ihr =>
    have hright := ihr he.2 (hclosed _) (hclose hr)
    have hop := scan_binaryOp op ((hskip _).trans hright)
    have hleft := hopen (ihl he.1 (hspaced _) ((hskip _).trans hop))
    rw [toList_render_binary]
    simpa only [tokens, List.append_assoc, List.cons_append, List.nil_append] using hleft

end Expr

end StateSpace
