import StateSpace.Expr.Parser
import StateSpace.Proofs.Action

/-!
# The grammar of expressions

    or         := and ('||' and)*
    and        := comparison ('&&' comparison)*
    comparison := sum [('==' | '!=' | '<' | '<=' | '>' | '>=') sum]
    sum        := product (('+' | '-') product)*
    product    := unary (('*' | '/' | '%') unary)*
    unary      := ('-' | '!') unary | primary
    primary    := NUMBER | IDENTIFIER | '(' or ')'

Repetitions group to the left and comparisons do not chain, so a level with repetitions is its own left
operand and a comparison is not. What a reader takes off the front of a token list is derived at its
level (`sound_levels`).
-/

namespace StateSpace

/-! ## Operators -/

/-- The sign of an operator with one operand. -/
def UnaryOp.sign : UnaryOp → Sign
  | neg => .minus
  | not => .bang

/-- The sign of an operator with two operands. -/
def BinaryOp.sign : BinaryOp → Sign
  | add => .plus
  | sub => .minus
  | mul => .times
  | div => .slash
  | mod => .percent
  | eq => .eqEq
  | ne => .notEq
  | lt => .less
  | le => .lessEq
  | gt => .greater
  | ge => .greaterEq
  | and => .andAnd
  | or => .orOr

/-- The levels of the grammar, from the one that binds weakest. -/
inductive Level where
  | or
  | and
  | comparison
  | sum
  | product
  | unary
  | primary
deriving DecidableEq, Repr

/-- The next tighter level; nothing binds tighter than a primary expression. -/
def Level.next : Level → Level
  | or => and
  | and => comparison
  | comparison => sum
  | sum => product
  | product => unary
  | unary => primary
  | primary => primary

/-- The tighter a level binds, the larger its rank. -/
def Level.rank : Level → Nat
  | or => 0
  | and => 1
  | comparison => 2
  | sum => 3
  | product => 4
  | unary => 5
  | primary => 6

theorem Level.rank_injective : Function.Injective Level.rank := by
  intro j k h
  cases j <;> cases k <;> first | rfl | cases h

/-- The level of an operator with two operands. -/
def BinaryOp.level : BinaryOp → Level
  | or => .or
  | and => .and
  | eq | ne | lt | le | gt | ge => .comparison
  | add | sub => .sum
  | mul | div | mod => .product

/-! ## Derivations -/

/-- The token list is an expression of the level. -/
inductive Derives (resolve : String → Option Symbol) : Level → List Token → Expr → Prop where
  | tighter {k : Level} {ts : List Token} {e : Expr} (h : Derives resolve k.next ts e) :
      Derives resolve k ts e
  | repeated {op : BinaryOp} {ts ts' : List Token} {l r : Expr} (hk : op.level ≠ .comparison)
      (hl : Derives resolve op.level ts l) (hr : Derives resolve op.level.next ts' r) :
      Derives resolve op.level (ts ++ .sign op.sign :: ts') (.binary op l r)
  | compared {op : BinaryOp} {ts ts' : List Token} {l r : Expr} (hk : op.level = .comparison)
      (hl : Derives resolve .sum ts l) (hr : Derives resolve .sum ts' r) :
      Derives resolve .comparison (ts ++ .sign op.sign :: ts') (.binary op l r)
  | applied {op : UnaryOp} {ts : List Token} {e : Expr} (h : Derives resolve .unary ts e) :
      Derives resolve .unary (.sign op.sign :: ts) (.unary op e)
  | num {n : Int64} : Derives resolve .primary [.num n] (.const n)
  | int {name : String} {id : Nat} (h : resolve name = some (.int id)) :
      Derives resolve .primary [.ident name] (.int id)
  | clock {name : String} {id : Nat} (h : resolve name = some (.clock id)) :
      Derives resolve .primary [.ident name] (.clock id)
  | bracketed {ts : List Token} {e : Expr} (h : Derives resolve .or ts e) :
      Derives resolve .primary (.sign .leftParen :: (ts ++ [.sign .rightParen])) e

variable {resolve : String → Option Symbol} {k : Level} {ts pre rest : List Token} {e left : Expr}

/-- No expression is empty. -/
theorem Derives.length_pos (h : Derives resolve k ts e) : 0 < ts.length := by
  induction h with
  | tighter _ ih => exact ih
  | repeated | compared | applied | num | int | clock | bracketed =>
    simp only [List.length_append, List.length_cons]
    omega

/-- An expression of a level is one of every weaker level. -/
theorem Derives.weaker (h : Derives resolve k ts e) {j : Level} (hj : j.rank ≤ k.rank) :
    Derives resolve j ts e := by
  obtain ⟨n, hn⟩ : ∃ n, k.rank - j.rank = n := ⟨_, rfl⟩
  induction n generalizing j with
  | zero =>
    obtain rfl : j = k := Level.rank_injective (by omega)
    exact h
  | succ n ih =>
    have hnext : j.next.rank = j.rank + 1 := by
      cases j with
      | primary => cases k <;> simp only [Level.rank] at hj hn <;> omega
      | _ => rfl
    exact .tighter (ih (by omega) (by omega))

namespace Parser

/-! ## Readers by level -/

/-- The operators of a level by their signs. -/
def opsAt : Level → Sign → Option BinaryOp
  | .or => orOp?
  | .and => andOp?
  | .comparison => compareOp?
  | .sum => addOp?
  | .product => mulOp?
  | .unary | .primary => fun _ => none

theorem opsAt_sign (op : BinaryOp) : opsAt op.level op.sign = some op := by
  cases op <;> rfl

theorem eq_of_opsAt {s : Sign} {op : BinaryOp} (h : opsAt k s = some op) :
    op.level = k ∧ op.sign = s := by
  cases k <;> simp only [opsAt, orOp?, andOp?, compareOp?, addOp?, mulOp?, reduceCtorEq] at h <;>
    split at h <;> cases h <;> exact ⟨rfl, rfl⟩

/-- The reader of a level over a reader of operands. -/
def readerAt (operand : Reader) : Level → Reader
  | .or => levels operand
  | .and => chain andOp? (single compareOp? (chain addOp? (chain mulOp? operand)))
  | .comparison => single compareOp? (chain addOp? (chain mulOp? operand))
  | .sum => chain addOp? (chain mulOp? operand)
  | .product => chain mulOp? operand
  | .unary | .primary => operand

/-! ## Soundness -/

/-- What the reader takes off the front is an expression of the level. -/
def Sound (resolve : String → Option Symbol) (k : Level) (r : Reader) : Prop :=
  ∀ ts e rest, r ts = .ok (e, rest) → ∃ pre, ts = pre ++ rest ∧ Derives resolve k pre e

variable {next r : Reader}

/-- A sound reader takes at least one token. -/
theorem Sound.length_lt (h : Sound resolve k next) (hr : next ts = .ok (e, rest)) :
    rest.length < ts.length := by
  obtain ⟨pre, rfl, hpre⟩ := h ts e rest hr
  have := hpre.length_pos
  simp only [List.length_append]
  omega

/-- A chain goes on from an expression of its own level. -/
theorem sound_chainFrom (hk : k ≠ .comparison) (hn : Sound resolve k.next next) (fuel : Nat)
    (hleft : Derives resolve k pre left)
    (h : chainFrom (opsAt k) next fuel left ts = .ok (e, rest)) :
    ∃ mid, ts = mid ++ rest ∧ Derives resolve k (pre ++ mid) e := by
  fun_induction chainFrom (opsAt k) next fuel left ts generalizing pre with
  | case1 =>
    cases h
    exact ⟨[], rfl, by simpa using hleft⟩
  | case2 fuel left s ts op hop ih =>
    obtain ⟨⟨right, ts'⟩, hr, hchain⟩ := except_bind_eq_ok.1 h
    obtain ⟨mid, rfl, hmid⟩ := hn _ _ _ hr
    obtain ⟨rfl, rfl⟩ := eq_of_opsAt hop
    obtain ⟨mid', rfl, hmid'⟩ := ih _ _ (.repeated hk hleft hmid) hchain
    exact ⟨.sign op.sign :: (mid ++ mid'), by simp, by simpa using hmid'⟩
  | case3 | case4 =>
    cases h
    exact ⟨[], rfl, by simpa using hleft⟩

theorem sound_chain (hk : k ≠ .comparison) (hn : Sound resolve k.next next) :
    Sound resolve k (chain (opsAt k) next) := by
  intro ts e rest h
  obtain ⟨⟨left, ts'⟩, hl, hchain⟩ := except_bind_eq_ok.1 h
  obtain ⟨pre, rfl, hpre⟩ := hn _ _ _ hl
  obtain ⟨mid, rfl, hmid⟩ := sound_chainFrom hk hn _ (.tighter hpre) hchain
  exact ⟨pre ++ mid, by simp, hmid⟩

theorem sound_single (hn : Sound resolve .sum next) :
    Sound resolve .comparison (single compareOp? next) := by
  intro ts e rest h
  obtain ⟨⟨left, ts'⟩, hl, hnext⟩ := except_bind_eq_ok.1 h
  obtain ⟨pre, rfl, hpre⟩ := hn _ _ _ hl
  dsimp only at hnext
  split at hnext
  · split at hnext
    · rename_i hop
      obtain ⟨⟨right, ts'⟩, hr, hright⟩ := except_bind_eq_ok.1 hnext
      obtain ⟨mid, rfl, hmid⟩ := hn _ _ _ hr
      obtain ⟨hcomparison, rfl⟩ := eq_of_opsAt (k := .comparison) hop
      cases hright
      exact ⟨_, by simp, .compared hcomparison hpre hmid⟩
    · cases hnext
      exact ⟨pre, rfl, .tighter hpre⟩
  · cases hnext
    exact ⟨pre, rfl, .tighter hpre⟩

theorem sound_readerAt (h : Sound resolve .unary r) (k : Level) (hk : k ≠ .primary) :
    Sound resolve k (readerAt r k) := by
  have hproduct : Sound resolve .product (readerAt r .product) :=
    sound_chain (k := .product) (by decide) h
  have hsum : Sound resolve .sum (readerAt r .sum) :=
    sound_chain (k := .sum) (by decide) hproduct
  have hcomparison : Sound resolve .comparison (readerAt r .comparison) := sound_single hsum
  have hand : Sound resolve .and (readerAt r .and) :=
    sound_chain (k := .and) (by decide) hcomparison
  cases k with
  | or => exact sound_chain (k := .or) (by decide) hand
  | and => exact hand
  | comparison => exact hcomparison
  | sum => exact hsum
  | product => exact hproduct
  | unary => exact h
  | primary => exact absurd rfl hk

/-- Brackets nest the weakest level in the tightest one; the fuel bounds how deep. -/
theorem sound_operand (fuel : Nat) : Sound resolve .unary (operand resolve fuel) := by
  induction fuel with
  | zero =>
    intro ts e rest h
    cases h
  | succ fuel ih =>
    intro ts e rest h
    unfold operand at h
    split at h
    · cases h
    · cases h
      exact ⟨[_], rfl, .tighter .num⟩
    · split at h
      · rename_i hres
        cases h
        exact ⟨[_], rfl, .tighter (.int hres)⟩
      · rename_i hres
        cases h
        exact ⟨[_], rfl, .tighter (.clock hres)⟩
      · cases h
    · obtain ⟨⟨e', ts'⟩, he, hunary⟩ := except_bind_eq_ok.1 h
      obtain ⟨pre, rfl, hpre⟩ := ih _ _ _ he
      cases hunary
      exact ⟨.sign UnaryOp.neg.sign :: pre, rfl, .applied hpre⟩
    · obtain ⟨⟨e', ts'⟩, he, hunary⟩ := except_bind_eq_ok.1 h
      obtain ⟨pre, rfl, hpre⟩ := ih _ _ _ he
      cases hunary
      exact ⟨.sign UnaryOp.not.sign :: pre, rfl, .applied hpre⟩
    · obtain ⟨⟨e', ts'⟩, he, hclose⟩ := except_bind_eq_ok.1 h
      obtain ⟨pre, rfl, hpre⟩ := sound_readerAt ih .or (by decide) _ _ _ he
      dsimp only at hclose
      split at hclose
      · cases hclose
        refine ⟨_, ?_, .tighter (.bracketed hpre)⟩
        simp
      · cases hclose
    · cases h

theorem sound_levels (fuel : Nat) : Sound resolve .or (levels (operand resolve fuel)) :=
  sound_readerAt (sound_operand fuel) .or (by decide)

end Parser

end StateSpace
