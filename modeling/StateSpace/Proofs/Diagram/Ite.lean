import StateSpace.Proofs.Diagram.Sound

/-!
# If-then-else on sound managers

`iteWithin` either answers at once or splits its operands at their topmost variable, which makes the
sum of their indices smaller (`Split`). That sum bounds the fuel a call can use, and the call returns
an edge that is `g` where `f` holds and `h` elsewhere, in whatever state the cache is. Operands in order
give an answer in order, even if other nodes were made against the order.
-/

namespace StateSpace.Manager

open StateSpace.Action

variable {ordered : Prop} {d d' : Manager} {e f g h r c₀ c₁ : Edge} {k l u : Edge × Edge × Edge}
  {v : UInt32} {fuel m n : Nat} {s : UInt32 × (Edge × Edge × Edge) × (Edge × Edge × Edge)}

/-! ## One step of the recursion -/

/-- The answer composed of those of the two halves, which is then kept. -/
def iteHalves (solve : Edge → Edge → Edge → Action Manager Edge) (k : Edge × Edge × Edge)
    (s : UInt32 × (Edge × Edge × Edge) × (Edge × Edge × Edge)) : Action Manager Edge := do
  let low ← solve s.2.1.1 s.2.1.2.1 s.2.1.2.2
  let high ← solve s.2.2.1 s.2.2.2.1 s.2.2.2.2
  let r ← node s.1 low high
  remember k r
  pure r

/-- The answer from the cache, else from the two halves. -/
def iteSolve (solve : Edge → Edge → Edge → Action Manager Edge) (k : Edge × Edge × Edge) :
    Action Manager Edge := do
  match ← lookUp k with
  | some r => pure r
  | none => do
    let s ← reading (·.split k.1 k.2.1 k.2.2)
    iteHalves solve k s

theorem iteWithin_succ (fuel : Nat) (f g h : Edge) : iteWithin (fuel + 1) f g h =
    (match iteTerminal f g h with
    | some r => pure r
    | none => (do
      let r ← iteSolve (iteWithin fuel) (iteNormal f g h).1
      pure (if (iteNormal f g h).2 then -r else r))) := by
  rw [iteWithin]
  cases iteTerminal f g h with
  | some r => rfl
  | none =>
    obtain ⟨⟨f, g, h⟩, negated⟩ := iteNormal f g h
    show (lookUp (f, g, h) >>= _) = ((lookUp (f, g, h) >>= _) >>= _)
    rw [bind_assoc]
    congr 1
    funext o
    cases o with
    | some r => rfl
    | none => simp only [iteHalves, bind_assoc, pure_bind]

/-- The measure that a step decreases. -/
def weight (k : Edge × Edge × Edge) : Nat := k.1.index + k.2.1.index + k.2.2.index

/-! ## No operation drops cells -/

theorem size_le_link (i j : Nat) (t : Table Node) :
    t.cells.size ≤ (t.link i j).cells.size := Nat.le_of_eq Array.size_modify.symm

theorem size_le_add (x : Node) (t : Table Node) : ∃ i t', Table.add x t = .ok i t' ∧
    t.cells.size ≤ t'.cells.size := by
  unfold Table.add
  cases t.free with
  | nil => exact ⟨_, _, rfl, by simp⟩
  | cons i free => exact ⟨_, _, rfl, by simp⟩

theorem size_le_put (x : Node) (t : Table Node) :
    t.cells.size ≤ ((Table.put x).after t).cells.size := by
  obtain ⟨i, t', hadd, hle⟩ := size_le_add x t
  unfold after outcome Table.put
  cases hh : t.heads.getD (t.bucket x) 0 with
  | zero => simpa [hh, hadd] using hle
  | succ head =>
    simp only [hh]
    cases t.probe x t.cells.size (head + 1) with
    | error e => exact Nat.le_refl _
    | ok p =>
      cases p with
      | found j => exact Nat.le_refl _
      | last j =>
        simp only [hadd]
        exact Nat.le_trans hle (size_le_link ..)

@[simp] theorem grows_store (x : Node) : Grows (store x) := by
  intro d
  have hle := size_le_put x d.nodes
  obtain ⟨nodes, cache⟩ := d
  show nodes.cells.size - 1 ≤ ((store x).after ⟨nodes, cache⟩).nodes.cells.size - 1
  cases hp : Table.put x nodes with
  | ok i t =>
    rw [after_ok (show store x ⟨nodes, cache⟩ = .ok (.ofIndex i) ⟨t, cache⟩ by simp [store, hp])]
    rw [after_ok hp] at hle
    exact Nat.sub_le_sub_right hle 1
  | error e t =>
    rw [after_error (show store x ⟨nodes, cache⟩ = .error e ⟨t, cache⟩ by simp [store, hp])]
    rw [after_error hp] at hle
    exact Nat.sub_le_sub_right hle 1

@[simp] theorem grows_node (v : UInt32) (low high : Edge) : Grows (node v low high) := by
  unfold node
  split
  · simp
  · split
    · simp
    · split <;> simp

@[simp] theorem grows_lookUp (k : Edge × Edge × Edge) : Grows (lookUp k) := fun _ => Nat.le_refl _

@[simp] theorem grows_remember (k : Edge × Edge × Edge) (r : Edge) : Grows (remember k r) :=
  fun _ => Nat.le_refl _

theorem grows_iteHalves {solve : Edge → Edge → Edge → Action Manager Edge}
    (hs : ∀ f g h, Grows (solve f g h)) (k : Edge × Edge × Edge)
    (s : UInt32 × (Edge × Edge × Edge) × (Edge × Edge × Edge)) : Grows (iteHalves solve k s) :=
  grows_bind (hs _ _ _) fun _ => grows_bind (hs _ _ _) fun _ => grows_bind (grows_node _ _ _)
    fun _ => grows_bind (grows_remember _ _) fun _ => grows_pure _

@[simp] theorem grows_iteWithin (fuel : Nat) (f g h : Edge) : Grows (iteWithin fuel f g h) := by
  induction fuel generalizing f g h with
  | zero => exact grows_pure _
  | succ fuel ih =>
    rw [iteWithin_succ]
    split
    · exact grows_pure _
    · refine grows_bind (grows_bind (grows_lookUp _) fun o => ?_) fun _ => grows_pure _
      cases o with
      | some r => exact grows_pure _
      | none => exact grows_bind (grows_reading _) fun s => grows_iteHalves ih _ s

@[simp] theorem grows_ite (f g h : Edge) : Grows (ite f g h) := grows_iteWithin _ f g h

@[simp] theorem grows_and (f g : Edge) : Grows (and f g) := grows_ite f g _

@[simp] theorem grows_foldlM {σ α β : Type} [HasCells σ] {x : β → α → Action σ β}
    (hx : ∀ b a, Grows (x b a)) (as : List α) (b : β) : Grows (as.foldlM x b) :=
  grows_iff.2 fun n => keeps_foldlM (fun b a => grows_iff.1 (hx b a) n) as b

@[simp] theorem grows_andMany (fs : List Edge) : Grows (andMany fs) :=
  grows_foldlM grows_and fs _

/-! ## Answers without a split -/

theorem iteTerminal_sound (hf : d.Stored f) (hg : d.Stored g) (hh : d.Stored h)
    (hd : Shaped ordered d) (ht : iteTerminal f g h = some r) : IteOf d f g h r := by
  unfold iteTerminal at ht
  split at ht
  · rename_i hf1
    obtain rfl := Option.some.inj ht
    exact ⟨hg, fun a => by simp [hf1], fun _ _ hog _ => hog⟩
  split at ht
  · rename_i hf0
    obtain rfl := Option.some.inj ht
    exact ⟨hh, fun a => by simp [hf0], fun _ _ _ hoh => hoh⟩
  split at ht
  · rename_i hgh
    obtain rfl := Option.some.inj ht
    exact ⟨hg, fun a => by simp [hgh], fun _ _ hog _ => hog⟩
  split at ht
  · rename_i hgh
    obtain rfl := Option.some.inj ht
    exact ⟨hf, fun a => by simp [hgh.1, hgh.2], fun _ hof _ _ => hof⟩
  split at ht
  · rename_i hgh
    obtain rfl := Option.some.inj ht
    exact ⟨hf.neg, fun a => by simp [hgh.1, hgh.2, value_neg hd hf], fun _ hof _ _ => hof.neg⟩
  · cases ht

theorem index_ne_one_of_iteTerminal (ht : iteTerminal f g h = none) : f.index ≠ 1 := by
  unfold iteTerminal at ht
  apply Edge.index_ne_one
  · rintro rfl
    simp at ht
  · rintro rfl
    simp [Ne.symm Edge.one_ne_zero] at ht

/-- A call and its normal form: their weights agree, and so do their answers up to the sign. -/
structure Normal (d : Manager) (f g h : Edge) (k : Edge × Edge × Edge)
    (negated : Bool) : Prop where
  condition : k.1.index = f.index
  weight : weight k = f.index + g.index + h.index
  stored : d.Stored k.1 ∧ d.Stored k.2.1 ∧ d.Stored k.2.2
  answer : ∀ {r}, IteOf d k.1 k.2.1 k.2.2 r →
    IteOf d f g h (if negated then -r else r)

theorem iteNormal_spec (hf : d.Stored f) (hg : d.Stored g) (hh : d.Stored h)
    (hd : Shaped ordered d) :
    Normal d f g h (iteNormal f g h).1 (iteNormal f g h).2 := by
  unfold iteNormal
  cases f.isComplemented with
  | false =>
    simp only [Bool.false_eq_true, if_false]
    cases g.isComplemented with
    | false => exact ⟨rfl, rfl, ⟨hf, hg, hh⟩, id⟩
    | true =>
      show Normal d f g h (f, -g, -h) true
      refine ⟨rfl, by simp [weight], ⟨hf, hg.neg, hh.neg⟩, fun {r} hr => ⟨hr.stored.neg, ?_, ?_⟩⟩
      · intro a
        rw [if_pos rfl, value_neg hd hr.stored, hr.value, value_neg hd hg, value_neg hd hh]
        cases d.value a f <;> simp
      · exact fun v hof hog hoh => (hr.order v hof hog.neg hoh.neg).neg
  | true =>
    simp only [if_true]
    cases h.isComplemented with
    | false =>
      show Normal d f g h (-f, h, g) false
      refine ⟨Edge.index_neg f, by simp [weight]; omega, ⟨hf.neg, hh, hg⟩,
        fun {r} hr => ⟨hr.stored, ?_, ?_⟩⟩
      · intro a
        rw [if_neg Bool.false_ne_true, hr.value, value_neg hd hf]
        cases d.value a f <;> simp
      · exact fun v hof hog hoh => hr.order v hof.neg hoh hog
    | true =>
      show Normal d f g h (-f, -h, -g) true
      refine ⟨Edge.index_neg f, by simp [weight]; omega, ⟨hf.neg, hh.neg, hg.neg⟩,
        fun {r} hr => ⟨hr.stored.neg, ?_, ?_⟩⟩
      · intro a
        rw [if_pos rfl, value_neg hd hr.stored, hr.value, value_neg hd hf, value_neg hd hg,
          value_neg hd hh]
        cases d.value a f <;> simp
      · exact fun v hof hog hoh => (hr.order v hof.neg hoh.neg hog.neg).neg

/-! ## Splitting -/

/-- The restrictions of an edge by `v`: they are no heavier, and lighter if the edge decides on `v`. If
the edge is in order from `v` on, they are below `v`. -/
structure Cofactors (d : Manager) (e : Edge) (v : UInt32) (c₀ c₁ : Edge) : Prop where
  stored : d.Stored c₀ ∧ d.Stored c₁
  le : c₀.index ≤ e.index ∧ c₁.index ≤ e.index
  lt : d.rank e = v.toNat → c₀.index < e.index ∧ c₁.index < e.index
  value : ∀ a, d.value a e = if a v then d.value a c₁ else d.value a c₀
  order : d.Ordered v.toNat e → d.Ordered (v.toNat + 1) c₀ ∧ d.Ordered (v.toNat + 1) c₁

theorem level_eq (hd : Shaped ordered d) (he : d.Stored e) :
    ∃ l, d.level e = .ok l ∧ l.toNat = d.rank e := by
  unfold level
  by_cases h1 : e.index = 1
  · rw [if_pos (Edge.isTerminal_iff.2 h1), rank_terminal h1]
    exact ⟨_, rfl, rfl⟩
  · obtain ⟨x, hx, -⟩ := hd.exists_node he h1
    rw [Edge.isTerminal_eq_false_iff.2 h1, if_neg Bool.false_ne_true, variableOf_eq hx,
      rank_node h1 hx]
    exact ⟨_, rfl, rfl⟩

theorem cofactors_spec (hd : Shaped ordered d) (he : d.Stored e) (hv : v.toNat < 2 ^ 32 - 1) :
    ∃ c₀ c₁, d.cofactors e v = .ok (c₀, c₁) ∧ Cofactors d e v c₀ c₁ := by
  obtain ⟨l, hl, hlr⟩ := level_eq hd he
  unfold cofactors
  rw [hl]
  by_cases hlv : l = v
  · subst hlv
    have h1 : e.index ≠ 1 := by
      intro h1
      rw [rank_terminal h1] at hlr
      omega
    obtain ⟨x, hx, hs⟩ := hd.exists_node he h1
    have hxv : x.var = l := UInt32.toNat_inj.1 ((rank_node h1 hx).symm.trans hlr.symm)
    refine ⟨signed e x.low, signed e x.high, ?_, ?_⟩
    · rw [low_eq hx, high_eq hx]
      exact if_pos rfl
    · refine ⟨⟨(hs.stored_child he.2 false).signed e, (hs.stored_child he.2 true).signed e⟩,
        ⟨?_, ?_⟩, fun _ => ⟨?_, ?_⟩, fun a => ?_, fun ho => ⟨?_, ?_⟩⟩
      · rw [index_signed]
        exact Nat.le_of_lt hs.low_lt
      · rw [index_signed]
        exact Nat.le_of_lt hs.high_lt
      · rw [index_signed]
        exact hs.low_lt
      · rw [index_signed]
        exact hs.high_lt
      · rw [value_node hd he h1 hx, hxv]
        cases a l <;> rfl
      · exact hxv ▸ (ho.child h1 hx false).signed e
      · exact hxv ▸ (ho.child h1 hx true).signed e
  · refine ⟨e, e, if_neg hlv, ⟨⟨he, he⟩, ⟨Nat.le_refl _, Nat.le_refl _⟩, fun hr => ?_,
      fun a => by simp, fun ho => ?_⟩⟩
    · exact absurd (UInt32.toNat_inj.1 (hlr.trans hr)) hlv
    · have hne : d.rank e ≠ v.toNat := fun hr => hlv (UInt32.toNat_inj.1 (hlr.trans hr))
      have hle := ho.le_rank
      have hbelow : d.Ordered (v.toNat + 1) e := ho.raise (by omega)
      exact ⟨hbelow, hbelow⟩

/-- The two halves of a call at its topmost variable. -/
structure Split (d : Manager) (k : Edge × Edge × Edge)
    (s : UInt32 × (Edge × Edge × Edge) × (Edge × Edge × Edge)) : Prop where
  var_pos : 0 < s.1.toNat
  var_lt : s.1.toNat < 2 ^ 32 - 1
  top : s.1.toNat = min (min (d.rank k.1) (d.rank k.2.1)) (d.rank k.2.2)
  fst : Cofactors d k.1 s.1 s.2.1.1 s.2.2.1
  snd : Cofactors d k.2.1 s.1 s.2.1.2.1 s.2.2.2.1
  thd : Cofactors d k.2.2 s.1 s.2.1.2.2 s.2.2.2.2

theorem toNat_min (a b : UInt32) : (min a b).toNat = min a.toNat b.toNat := by
  show (if a ≤ b then a else b).toNat = _
  split
  · rename_i hab
    rw [UInt32.le_iff_toNat_le] at hab
    omega
  · rename_i hab
    rw [UInt32.le_iff_toNat_le] at hab
    omega

theorem Shaped.rank_pos (hd : Shaped ordered d) (he : d.Stored e) : 0 < d.rank e := by
  by_cases h1 : e.index = 1
  · rw [rank_terminal h1]
    decide
  · obtain ⟨x, hx, hs⟩ := hd.exists_node he h1
    rw [rank_node h1 hx]
    exact hs.var_pos

theorem Shaped.rank_lt (hd : Shaped ordered d) (he : d.Stored e) (h1 : e.index ≠ 1) :
    d.rank e < 2 ^ 32 - 1 := by
  obtain ⟨x, hx, hs⟩ := hd.exists_node he h1
  rw [rank_node h1 hx]
  exact hs.var_lt

theorem split_spec (hd : Shaped ordered d) (hf : d.Stored k.1) (hg : d.Stored k.2.1)
    (hh : d.Stored k.2.2) (h1 : k.1.index ≠ 1) :
    ∃ s, d.split k.1 k.2.1 k.2.2 = .ok s ∧ Split d k s := by
  obtain ⟨x, hx, hxr⟩ := level_eq hd hf
  obtain ⟨y, hy, hyr⟩ := level_eq hd hg
  obtain ⟨z, hz, hzr⟩ := level_eq hd hh
  obtain ⟨v, hv⟩ : ∃ v, min (min x y) z = v := ⟨_, rfl⟩
  have htop : v.toNat = min (min (d.rank k.1) (d.rank k.2.1)) (d.rank k.2.2) := by
    rw [← hv, toNat_min, toNat_min, hxr, hyr, hzr]
  have hpf := hd.rank_pos hf
  have hpg := hd.rank_pos hg
  have hph := hd.rank_pos hh
  have hlt := hd.rank_lt hf h1
  have hvlt : v.toNat < 2 ^ 32 - 1 := by omega
  obtain ⟨f₀, f₁, hcf, hcf'⟩ := cofactors_spec hd hf hvlt
  obtain ⟨g₀, g₁, hcg, hcg'⟩ := cofactors_spec hd hg hvlt
  obtain ⟨h₀, h₁, hch, hch'⟩ := cofactors_spec hd hh hvlt
  refine ⟨(v, (f₀, g₀, h₀), (f₁, g₁, h₁)), ?_, ⟨by show 0 < v.toNat; omega, hvlt, htop, hcf', hcg',
    hch'⟩⟩
  have htv : d.topVariable k.1 k.2.1 k.2.2 = .ok v := by
    unfold topVariable
    rw [hx, hy, hz, ← hv]
    rfl
  unfold split
  rw [htv]
  show (d.cofactors k.1 v >>= _) = _
  rw [hcf]
  show (d.cofactors k.2.1 v >>= _) = _
  rw [hcg]
  show (d.cofactors k.2.2 v >>= _) = _
  rw [hch]
  rfl

/-- Both halves are lighter: the operand with the topmost variable is, and none is heavier. -/
theorem Split.weight_lt (hs : Split d k s) :
    weight s.2.1 < weight k ∧ weight s.2.2 < weight k := by
  have htop := hs.top
  have hf := hs.fst.le
  have hg := hs.snd.le
  have hh := hs.thd.le
  unfold weight
  by_cases h₁ : d.rank k.1 = s.1.toNat
  · have := hs.fst.lt h₁
    omega
  by_cases h₂ : d.rank k.2.1 = s.1.toNat
  · have := hs.snd.lt h₂
    omega
  · have := hs.thd.lt (by omega)
    omega

/-! ## The recursion -/

/-- What a call with operands `f`, `g` and `h` achieves. -/
def Solved (ordered : Prop) (d : Manager) (f g h r : Edge) (d' : Manager) : Prop :=
  Grown ordered d r d' ∧ IteOf d' f g h r

/-- A solver of lighter calls. -/
def Solves (ordered : Prop) (solve : Edge → Edge → Edge → Action Manager Edge) (n : Nat) : Prop :=
  ∀ d f g h, Sound ordered d → d.Stored f → d.Stored g → d.Stored h → weight (f, g, h) < n →
    EnsuresFit (solve f g h) d (Solved ordered d f g h)

/-- Operands in order are in order from the topmost variable on. -/
theorem Split.ordered_top (hs : Split d k s) {u : Nat} (hf : d.Ordered u k.1)
    (hg : d.Ordered u k.2.1) (hh : d.Ordered u k.2.2) : u ≤ s.1.toNat ∧ d.Ordered s.1.toNat k.1 ∧
      d.Ordered s.1.toNat k.2.1 ∧ d.Ordered s.1.toNat k.2.2 := by
  have htop := hs.top
  have hlt := hs.var_lt
  have hfr := hf.le_rank
  have hgr := hg.le_rank
  have hhr := hh.le_rank
  exact ⟨by omega, hf.raise (by omega), hg.raise (by omega), hh.raise (by omega)⟩

/-- The answers of the two halves, joined at the topmost variable, answer the call. -/
theorem Split.join {low high : Edge} (hs : Split d k s) (hd : Shaped ordered d)
    (hd' : Shaped ordered d') (hx : Extends d d') (hf : d.Stored k.1) (hg : d.Stored k.2.1)
    (hh : d.Stored k.2.2) (hlow : IteOf d' s.2.1.1 s.2.1.2.1 s.2.1.2.2 low)
    (hhigh : IteOf d' s.2.2.1 s.2.2.2.1 s.2.2.2.2 high) :
    (∀ a, (if d'.value a k.1 then d'.value a k.2.1 else d'.value a k.2.2) =
        if a s.1 then d'.value a high else d'.value a low) ∧
      (d.Ordered s.1.toNat k.1 → d.Ordered s.1.toNat k.2.1 → d.Ordered s.1.toNat k.2.2 →
        d'.Ordered (s.1.toNat + 1) low ∧ d'.Ordered (s.1.toNat + 1) high) := by
  have hfs := hs.fst.stored
  have hgs := hs.snd.stored
  have hhs := hs.thd.stored
  have hold : ∀ {c : Edge} (a : UInt32 → Bool), d.Stored c → d'.value a c = d.value a c :=
    fun a hc => value_extends hc hd hd' hx
  constructor
  · intro a
    rw [hold a hf, hold a hg, hold a hh, hs.fst.value, hs.snd.value, hs.thd.value, hlow.value,
      hhigh.value, hold a hfs.1, hold a hfs.2, hold a hgs.1, hold a hgs.2, hold a hhs.1,
      hold a hhs.2]
    cases a s.1 <;> simp only [if_true, Bool.false_eq_true, if_false]
  · intro hof hog hoh
    obtain ⟨hof₀, hof₁⟩ := hs.fst.order hof
    obtain ⟨hog₀, hog₁⟩ := hs.snd.order hog
    obtain ⟨hoh₀, hoh₁⟩ := hs.thd.order hoh
    exact ⟨hlow.order _ (hof₀.extends hx) (hog₀.extends hx) (hoh₀.extends hx),
      hhigh.order _ (hof₁.extends hx) (hog₁.extends hx) (hoh₁.extends hx)⟩

theorem iteHalves_spec {solve : Edge → Edge → Edge → Action Manager Edge}
    (hsolve : Solves ordered solve (weight k)) (hgrow : ∀ f g h, Grows (solve f g h))
    (hd : Sound ordered d) (hf : d.Stored k.1) (hg : d.Stored k.2.1) (hh : d.Stored k.2.2)
    (hs : Split d k s) :
    EnsuresFit (iteHalves solve k s) d (Solved ordered d k.1 k.2.1 k.2.2) := by
  have hw := hs.weight_lt
  have hfs := hs.fst.stored
  have hgs := hs.snd.stored
  have hhs := hs.thd.stored
  refine (hsolve d _ _ _ hd hfs.1 hgs.1 hhs.1 hw.1).bind (fun _ => grows_bind (hgrow _ _ _)
    fun _ => grows_bind (grows_node _ _ _) fun _ => grows_bind (grows_remember _ _)
    fun _ => grows_pure _) fun low d₁ ⟨hgrown₁, hlow⟩ => ?_
  have hd₁ := hgrown₁.sound
  have hx₁ := hgrown₁.extend
  have h0 := hd.toShaped
  have h1 := hd₁.toShaped
  refine (hsolve d₁ _ _ _ hd₁ (hfs.2.mono h0 hx₁) (hgs.2.mono h0 hx₁) (hhs.2.mono h0 hx₁)
    hw.2).bind (fun _ => grows_bind (grows_node _ _ _) fun _ => grows_bind (grows_remember _ _)
    fun _ => grows_pure _) fun high d₂ ⟨hgrown₂, hhigh⟩ => ?_
  have hd₂ := hgrown₂.sound
  have hx₂ := hx₁.trans hgrown₂.extend
  have h2 := hd₂.toShaped
  have hlow₂ := hlow.extends (hfs.1.mono h0 hx₁) (hgs.1.mono h0 hx₁) (hhs.1.mono h0 hx₁) h1 h2
    hgrown₂.extend
  obtain ⟨hval, hbelow⟩ := hs.join h0 h2 hx₂ hf hg hh hlow₂ hhigh
  refine (node_spec hd₂ hs.var_pos hs.var_lt hlow₂.stored hhigh.stored fun ho => ?_).bind
    (fun _ => grows_bind (grows_remember _ _) fun _ => grows_pure _)
    fun r d₃ ⟨hgrown₃, hnode, horder⟩ => ?_
  · have hzero := fun {e : Edge} (he : d.Stored e) => (h0.ordered_rank ho he).anti (Nat.zero_le _)
    obtain ⟨-, hof, hog, hoh⟩ := hs.ordered_top (hzero hf) (hzero hg) (hzero hh)
    obtain ⟨hlow, hhigh⟩ := hbelow hof hog hoh
    have hlt := hs.var_lt
    have hlr := hlow.le_rank
    have hhr := hhigh.le_rank
    omega
  have hd₃ := hgrown₃.sound
  have hx₃ := hx₂.trans hgrown₃.extend
  have hans : IteOf d₃ k.1 k.2.1 k.2.2 r := by
    refine ⟨hgrown₃.stored, fun a => ?_, fun v hof hog hoh => ?_⟩
    · rw [hnode, ← hval, value_extends (hf.mono h0 hx₂) h2 hd₃.toShaped hgrown₃.extend,
        value_extends (hg.mono h0 hx₂) h2 hd₃.toShaped hgrown₃.extend,
        value_extends (hh.mono h0 hx₂) h2 hd₃.toShaped hgrown₃.extend]
    · obtain ⟨hle, hof, hog, hoh⟩ := hs.ordered_top (hof.of_extends hf h0 hx₃)
        (hog.of_extends hg h0 hx₃) (hoh.of_extends hh h0 hx₃)
      obtain ⟨hlow, hhigh⟩ := hbelow hof hog hoh
      exact (horder hlow hhigh).anti hle
  have hf₃ := hf.mono h0 hx₃
  have hg₃ := hg.mono h0 hx₃
  have hh₃ := hh.mono h0 hx₃
  have hd₄ := hd₃.remember hf₃ hg₃ hh₃ hans
  have hx₄ : Extends d₃ { nodes := d₃.nodes, cache := d₃.cache.insert k r } := .of_nodes rfl
  have hrem : remember k r d₃ = .ok () { nodes := d₃.nodes, cache := d₃.cache.insert k r } := rfl
  refine (Ensures.fit ⟨_, _, bind_ok hrem _, ?_, ?_⟩)
  · exact ⟨hd₄, hx₃.trans hx₄, hans.stored.mono hd₃.toShaped hx₄⟩
  · exact hans.extends hf₃ hg₃ hh₃ hd₃.toShaped hd₄.toShaped hx₄

theorem iteSolve_spec {solve : Edge → Edge → Edge → Action Manager Edge}
    (hsolve : Solves ordered solve (weight k)) (hgrow : ∀ f g h, Grows (solve f g h))
    (hd : Sound ordered d) (hf : d.Stored k.1) (hg : d.Stored k.2.1) (hh : d.Stored k.2.2)
    (h1 : k.1.index ≠ 1) :
    EnsuresFit (iteSolve solve k) d (Solved ordered d k.1 k.2.1 k.2.2) := by
  have hx : Extends d { nodes := d.nodes, cache := (d.cache.get k).2 } := .of_nodes rfl
  have hd₁ := hd.lookUp k
  have h0 := hd.toShaped
  intro hfit
  unfold iteSolve at hfit ⊢
  rw [after_bind_ok (lookUp_eq d k)] at hfit
  rw [Ensures, bind_ok (lookUp_eq d k)]
  cases hp : d.cache.peek k with
  | some r =>
    obtain ⟨-, -, -, hr⟩ := hd.cache _ _ _ _ hp
    exact ⟨r, _, rfl, ⟨hd₁, hx, hr.stored.mono h0 hx⟩, hr.extends hf hg hh h0 hd₁.toShaped hx⟩
  | none =>
    rw [hp] at hfit
    obtain ⟨s, hs, hsplit⟩ := split_spec hd₁.toShaped (hf.mono h0 hx) (hg.mono h0 hx)
      (hh.mono h0 hx) h1
    have hread : reading (·.split k.1 k.2.1 k.2.2)
        (⟨d.nodes, (d.cache.get k).2⟩ : Manager) = .ok s ⟨d.nodes, (d.cache.get k).2⟩ :=
      reading_ok hs
    dsimp only at hfit ⊢
    rw [after_bind_ok hread] at hfit
    rw [bind_ok hread]
    obtain ⟨r, d', hrun, hgrown, hans⟩ := iteHalves_spec hsolve hgrow hd₁ (hf.mono h0 hx)
      (hg.mono h0 hx) (hh.mono h0 hx) hsplit hfit
    exact ⟨r, d', hrun, hgrown.after hx, hans⟩

theorem iteWithin_solves (ordered : Prop) (fuel : Nat) :
    Solves ordered (iteWithin fuel) fuel := by
  induction fuel with
  | zero => exact fun d f g h _ _ _ _ hlt => absurd hlt (Nat.not_lt_zero _)
  | succ fuel ih =>
    intro d f g h hd hf hg hh hlt
    rw [iteWithin_succ]
    cases ht : iteTerminal f g h with
    | some r =>
      have hans := iteTerminal_sound hf hg hh hd.toShaped ht
      exact EnsuresFit.pure ⟨.refl hd hans.stored, hans⟩
    | none =>
      have hn := iteNormal_spec hf hg hh hd.toShaped
      have hlighter : Solves ordered (iteWithin fuel) (weight (iteNormal f g h).1) := by
        intro d f' g' h' hd hf hg hh hlt'
        refine ih d f' g' h' hd hf hg hh ?_
        rw [hn.weight] at hlt'
        simp only [weight] at hlt hlt'
        exact Nat.lt_of_lt_of_le hlt' (Nat.le_of_lt_succ hlt)
      refine (iteSolve_spec hlighter (grows_iteWithin fuel) hd hn.stored.1 hn.stored.2.1
        hn.stored.2.2 ?_).bind (fun _ => grows_pure _) fun r d' ⟨hgrown, hans⟩ => EnsuresFit.pure ?_
      · rw [hn.condition]
        exact index_ne_one_of_iteTerminal ht
      · have h0 := hd.toShaped
        have hx := hgrown.extend
        have hans' := (iteNormal_spec (hf.mono h0 hx) (hg.mono h0 hx) (hh.mono h0 hx)
          hgrown.sound.toShaped).answer hans
        exact ⟨⟨hgrown.sound, hx, hans'.stored⟩, hans'⟩

/-- If-then-else answers `g` where `f` holds and `h` elsewhere, whatever the cache has kept. -/
theorem ite_spec (hd : Sound ordered d) (hf : d.Stored f) (hg : d.Stored g) (hh : d.Stored h) :
    EnsuresFit (ite f g h) d (Solved ordered d f g h) :=
  iteWithin_solves ordered _ d f g h hd hf hg hh (Nat.lt_succ_self _)

/-! ## More fuel makes no difference -/

theorem iteHalves_congr {solve solve' : Edge → Edge → Edge → Action Manager Edge}
    (h₀ : solve' s.2.1.1 s.2.1.2.1 s.2.1.2.2 d = solve s.2.1.1 s.2.1.2.1 s.2.1.2.2 d)
    (h₁ : ∀ low d', solve s.2.1.1 s.2.1.2.1 s.2.1.2.2 d = .ok low d' →
      solve' s.2.2.1 s.2.2.2.1 s.2.2.2.2 d' = solve s.2.2.1 s.2.2.2.1 s.2.2.2.2 d') :
    iteHalves solve' k s d = iteHalves solve k s d := by
  unfold iteHalves
  cases hl : solve s.2.1.1 s.2.1.2.1 s.2.1.2.2 d with
  | error e d' => rw [bind_error hl, bind_error (h₀.trans hl)]
  | ok low d' =>
    rw [bind_ok hl, bind_ok (h₀.trans hl)]
    exact bind_congr_apply (h₁ low d' hl)

/-- The two halves of a split are solved in the same way by a solver that answers lighter calls in the same
way, whatever reads the split. -/
theorem iteSolve_congr {solve solve' : Edge → Edge → Edge → Action Manager Edge}
    {read : Manager → Except Fault (UInt32 × (Edge × Edge × Edge) × (Edge × Edge × Edge))}
    (hread : ∀ {d s}, Split d k s → d.split k.1 k.2.1 k.2.2 = .ok s → read d = .ok s)
    (hsolve : Solves ordered solve (weight k)) (hgrow : ∀ f g h, Grows (solve f g h))
    (heq : ∀ {d f g h}, Sound ordered d → d.Stored f → d.Stored g → d.Stored h →
      weight (f, g, h) < weight k → Fits ((solve f g h).after d) → solve' f g h d = solve f g h d)
    (hd : Sound ordered d) (hf : d.Stored k.1) (hg : d.Stored k.2.1) (hh : d.Stored k.2.2)
    (h1 : k.1.index ≠ 1) (hfit : Fits ((iteSolve solve k).after d)) :
    (do match ← lookUp k with
      | some r => pure r
      | none => do
        let s ← reading read
        iteHalves solve' k s) d = iteSolve solve k d := by
  have hx : Extends d { nodes := d.nodes, cache := (d.cache.get k).2 } := .of_nodes rfl
  have h0 := hd.toShaped
  have hd₁ := hd.lookUp k
  unfold iteSolve at hfit ⊢
  rw [after_bind_ok (lookUp_eq d k)] at hfit
  rw [bind_ok (lookUp_eq d k), bind_ok (lookUp_eq d k)]
  cases hp : d.cache.peek k with
  | some r => rfl
  | none =>
    rw [hp] at hfit
    obtain ⟨s, hs, hsplit⟩ := split_spec hd₁.toShaped (hf.mono h0 hx) (hg.mono h0 hx)
      (hh.mono h0 hx) h1
    have hsplits : reading (·.split k.1 k.2.1 k.2.2)
        (⟨d.nodes, (d.cache.get k).2⟩ : Manager) = .ok s ⟨d.nodes, (d.cache.get k).2⟩ :=
      reading_ok hs
    have hreads : reading read (⟨d.nodes, (d.cache.get k).2⟩ : Manager) =
        .ok s ⟨d.nodes, (d.cache.get k).2⟩ :=
      reading_ok (hread hsplit hs)
    dsimp only at hfit ⊢
    rw [after_bind_ok hsplits] at hfit
    rw [bind_ok hsplits, bind_ok hreads]
    have hw := hsplit.weight_lt
    have hfs := hsplit.fst.stored
    have hgs := hsplit.snd.stored
    have hhs := hsplit.thd.stored
    have hfit₁ : Fits ((solve s.2.1.1 s.2.1.2.1 s.2.1.2.2).after ⟨d.nodes, (d.cache.get k).2⟩) :=
      fits_of_bind (fun _ => grows_bind (hgrow _ _ _) fun _ => grows_bind (grows_node _ _ _)
        fun _ => grows_bind (grows_remember _ _) fun _ => grows_pure _) hfit
    refine iteHalves_congr (heq hd₁ hfs.1 hgs.1 hhs.1 hw.1 hfit₁) fun low d' hlow => ?_
    obtain ⟨low', d'', hlow', hgrown, -⟩ := hsolve _ _ _ _ hd₁ hfs.1 hgs.1 hhs.1 hw.1 hfit₁
    cases hlow.symm.trans hlow'
    have h1 := hd₁.toShaped
    refine heq hgrown.sound (hfs.2.mono h1 hgrown.extend) (hgs.2.mono h1 hgrown.extend)
      (hhs.2.mono h1 hgrown.extend) hw.2 ?_
    rw [iteHalves, after_bind_ok hlow] at hfit
    exact fits_of_bind (fun _ => grows_bind (grows_node _ _ _) fun _ =>
      grows_bind (grows_remember _ _) fun _ => grows_pure _) hfit

/-- Any fuel above the weight of a call gives the same result: the recursion ends by itself. -/
theorem iteWithin_eq_of_lt (hd : Sound ordered d) (hf : d.Stored f) (hg : d.Stored g)
    (hh : d.Stored h) (hn : weight (f, g, h) < n) (hm : weight (f, g, h) < m)
    (hfit : Fits ((iteWithin n f g h).after d)) : iteWithin m f g h d = iteWithin n f g h d := by
  induction n generalizing m d f g h with
  | zero => exact absurd hn (Nat.not_lt_zero _)
  | succ n ih =>
    obtain ⟨m, rfl⟩ : ∃ j, m = j + 1 := ⟨m - 1, by omega⟩
    rw [iteWithin_succ] at hfit
    rw [iteWithin_succ, iteWithin_succ]
    cases ht : iteTerminal f g h with
    | some r => rfl
    | none =>
      rw [ht] at hfit
      have hnorm := iteNormal_spec hf hg hh hd.toShaped
      have hlighter : weight (iteNormal f g h).1 ≤ n ∧ weight (iteNormal f g h).1 ≤ m := by
        rw [hnorm.weight]
        exact ⟨Nat.le_of_lt_succ hn, Nat.le_of_lt_succ hm⟩
      have h1 : (iteNormal f g h).1.1.index ≠ 1 := by
        rw [hnorm.condition]
        exact index_ne_one_of_iteTerminal ht
      refine bind_congr_apply (iteSolve_congr (fun _ hs => hs) (fun d f g h hd hf hg hh hlt => ?_)
        (grows_iteWithin n) (fun hd hf hg hh hlt hfit => ?_) hd hnorm.stored.1 hnorm.stored.2.1
        hnorm.stored.2.2 h1 (fits_of_bind (fun _ => grows_pure _) hfit))
      · exact iteWithin_solves ordered n d f g h hd hf hg hh (Nat.lt_of_lt_of_le hlt hlighter.1)
      · exact ih hd hf hg hh (Nat.lt_of_lt_of_le hlt hlighter.1)
          (Nat.lt_of_lt_of_le hlt hlighter.2) hfit

end StateSpace.Manager
