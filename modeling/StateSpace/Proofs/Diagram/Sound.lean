import StateSpace.Diagram.Ite
import StateSpace.Proofs.Diagram.Value
import StateSpace.Proofs.OpCache

/-!
# Sound managers

A sound manager is shaped, and every cached result is the if-then-else of its key. The operations
that store nodes keep it sound: each one ends without a fault, extends the manager and returns a
stored edge (`Grown`), unless the cells outgrow their indices.
-/

namespace StateSpace.Manager

open StateSpace.Action

variable {ordered : Prop} {d d' d'' : Manager} {e e' f g h r low high : Edge} {v : UInt32}
  {a : UInt32 → Bool}

/-! ## Sound managers -/

/-- `r` is stored and is `g` where `f` holds and `h` elsewhere; it is in order if its operands are, and
then decides on no variable above theirs. -/
structure IteOf (d : Manager) (f g h r : Edge) : Prop where
  stored : d.Stored r
  value : ∀ a, d.value a r = if d.value a f then d.value a g else d.value a h
  order : ∀ v, d.Ordered v f → d.Ordered v g → d.Ordered v h → d.Ordered v r

/-- A manager whose cache holds if-then-elses only. -/
structure Sound (ordered : Prop) (d : Manager) : Prop extends Shaped ordered d where
  cache : ∀ f g h r, d.cache.peek (f, g, h) = some r →
    d.Stored f ∧ d.Stored g ∧ d.Stored h ∧ IteOf d f g h r

/-- `d'` is a sound extension of `d` that stores `e`. -/
structure Grown (ordered : Prop) (d : Manager) (e : Edge) (d' : Manager) : Prop where
  sound : Sound ordered d'
  extend : Extends d d'
  stored : d'.Stored e

theorem Grown.refl (hd : Sound ordered d) (he : d.Stored e) : Grown ordered d e d :=
  ⟨hd, .refl d, he⟩

theorem Grown.neg (hg : Grown ordered d e d') : Grown ordered d (-e) d' :=
  ⟨hg.sound, hg.extend, hg.stored.neg⟩

theorem Grown.after (hx : Extends d d') (hg : Grown ordered d' e d'') : Grown ordered d e d'' :=
  ⟨hg.sound, hx.trans hg.extend, hg.stored⟩

/-- Nodes stay shaped when the manager grows. -/
theorem NodeShaped.extends {i : Nat} {n : Node} (hn : NodeShaped ordered d i n)
    (hi : i ≤ d.nodes.cells.size) (hd : Shaped ordered d) (hx : Extends d d') :
    NodeShaped ordered d' i n where
  var_pos := hn.var_pos
  var_lt := hn.var_lt
  low_pos := hn.low_pos
  low_lt := hn.low_lt
  high_pos := hn.high_pos
  high_lt := hn.high_lt
  plain := hn.plain
  reduced := hn.reduced
  increasing ho := by
    rw [rank_extends ⟨hn.low_pos, Nat.lt_of_lt_of_le hn.low_lt hi⟩ hd hx,
      rank_extends ⟨hn.high_pos, Nat.lt_of_lt_of_le hn.high_lt hi⟩ hd hx]
    exact hn.increasing ho

theorem IteOf.extends (hr : IteOf d f g h r) (hf : d.Stored f) (hg : d.Stored g)
    (hh : d.Stored h) (hd : Shaped ordered d) (hd' : Shaped ordered d') (hx : Extends d d') :
    IteOf d' f g h r where
  stored := hr.stored.mono hd hx
  value a := by
    rw [value_extends hr.stored hd hd' hx, value_extends hf hd hd' hx, value_extends hg hd hd' hx,
      value_extends hh hd hd' hx, hr.value]
  order v hof hog hoh := (hr.order v (hof.of_extends hf hd hx) (hog.of_extends hg hd hx)
    (hoh.of_extends hh hd hx)).extends hx

theorem Shaped.of_nodes (hd : Shaped ordered d) (hn : d'.nodes = d.nodes) : Shaped ordered d' where
  wellFormed := by rw [hn]; exact hd.wellFormed
  free := by rw [hn]; exact hd.free
  terminal := by rw [hn]; exact hd.terminal
  fits := by rw [hn]; exact hd.fits
  hashed := by rw [hn]; exact hd.hashed
  node i n hi hin := by
    rw [hn] at hin
    exact (hd.node i n hi hin).extends (Nat.le_of_lt (Table.lt_size_of_value? hin)) hd (.of_nodes hn)

/-- A shaped extension with the same cache is sound. -/
theorem Sound.extends (hd : Sound ordered d) (hd' : Shaped ordered d') (hx : Extends d d')
    (hc : ∀ k, d'.cache.peek k = d.cache.peek k) : Sound ordered d' where
  toShaped := hd'
  cache f g h r hk := by
    rw [hc] at hk
    obtain ⟨hf, hg, hh, hr⟩ := hd.cache f g h r hk
    have hs := hd.toShaped
    exact ⟨hf.mono hs hx, hg.mono hs hx, hh.mono hs hx, hr.extends hf hg hh hs hd' hx⟩

/-! ## A new manager -/

theorem create_sound {bits : Nat} (hc : create bits = .ok d) : Sound ordered d := by
  unfold create at hc
  cases ht : (Table.create bits : Except Fault (Table Node)) with
  | error e =>
    rw [ht] at hc
    cases hc
  | ok t =>
    cases hk : (OpCache.create (min bits 16) : Except Fault (OpCache (Edge × Edge × Edge) Edge)) with
    | error e =>
      rw [ht, hk] at hc
      cases hc
    | ok c =>
      obtain ⟨hwf, hfree, hsize, hheads, -⟩ := Table.create_spec ht
      obtain ⟨t', hadd, ha⟩ := Table.add_spec hwf (default : Node)
      have hd : d = { nodes := t', cache := c } := by
        simp only [ht, hk, hadd, bind, Except.bind] at hc
        exact (Except.ok.inj hc).symm
      have hnext : t.nextIndex = 1 := by simp [Table.nextIndex, hfree, hsize]
      have hsize' : t'.cells.size = 2 := by rw [ha.size, hsize, if_pos hfree]
      rw [hnext] at ha
      have hvalue : ∀ i n, 2 ≤ i → t'.value? i ≠ some n := by
        intro i n hi hn
        have := Table.lt_size_of_value? hn
        omega
      subst hd
      refine ⟨⟨ha.wellFormed hwf, by rw [ha.free, hfree]; rfl, ha.value?_self,
        by rw [hsize']; decide, ⟨fun _ => [], (Table.hashed_nil hheads).added ha, ?_⟩, ?_⟩, ?_⟩
      · intro i hi hlt
        rw [hsize'] at hlt
        omega
      · intro i n hi hn
        exact absurd hn (hvalue i n hi)
      · intro f g h r hp
        rw [OpCache.peek_create hk] at hp
        cases hp

/-! ## Storing nodes -/

theorem store_eq {n : Node} {i : Nat} {t : Table Node} (hp : Table.put n d.nodes = .ok i t) :
    store n d = .ok (.ofIndex i) { nodes := t, cache := d.cache } := by
  obtain ⟨nodes, cache⟩ := d
  simp only [store, hp]

theorem size_put_le {n : Node} (hd : Shaped ordered d) {i : Nat} {t : Table Node}
    (hp : Table.Placed d.nodes n i t) : i = d.nodes.cells.size ∧
      t.cells.size = d.nodes.cells.size + 1 := by
  have hi := hp.index
  have hs := hp.size
  rw [Table.nextIndex, hd.free, List.headD_nil] at hi
  rw [if_pos hd.free] at hs
  exact ⟨hi, hs⟩

/-- A stored node is found, or becomes the last cell. -/
theorem store_spec {n : Node} (hd : Sound ordered d)
    (hn : NodeShaped ordered d d.nodes.cells.size n) :
    EnsuresFit (store n) d fun e d' => Grown ordered d e d' ∧ e.isComplemented = false ∧
      e.index ≠ 1 ∧ d'.nodes.value? e.index = some n := by
  obtain ⟨chain, hh, hall⟩ := hd.hashed
  obtain ⟨i, t, hput, hcase⟩ := Table.put_spec hd.wellFormed hh n
  have hrun := store_eq hput
  intro hfit
  rw [after_ok hrun] at hfit
  refine ⟨_, _, hrun, ?_⟩
  rcases hcase with ⟨rfl, hi, hin⟩ | ⟨hnew, hp, hh'⟩
  · have hlt : i < 2 ^ 31 := Nat.lt_of_lt_of_le (Table.lt_size_of_value? hin) hd.fits
    have hi1 : i ≠ 1 := by
      rintro rfl
      rw [hd.terminal, Option.some.injEq] at hin
      have := hn.var_pos
      rw [← hin] at this
      exact absurd this (by decide)
    rw [Edge.index_ofIndex hlt]
    refine ⟨.refl hd ?_, Edge.isComplemented_ofIndex hlt, hi1, hin⟩
    exact ⟨by rw [Edge.index_ofIndex hlt]; exact Table.pos_of_value? hin,
      by rw [Edge.index_ofIndex hlt]; exact Table.lt_size_of_value? hin⟩
  · obtain ⟨hi, hsize⟩ := size_put_le hd.toShaped hp
    have hlt : i < 2 ^ 31 := by
      have hfit' : t.cells.size - 1 < 2 ^ 31 := hfit
      omega
    have htwo := hd.two_le
    have hx : Extends d { nodes := t, cache := d.cache } := fun j m hj => hp.value?_mono hj
    have hshape : Shaped ordered { nodes := t, cache := d.cache } := by
      refine ⟨hp.wellFormed, by rw [hp.free, hd.free]; rfl, hp.value?_mono hd.terminal,
        by show t.cells.size ≤ _; omega, ⟨_, hh', ?_⟩, ?_⟩
      · intro j hj hlt
        replace hlt : j < t.cells.size := hlt
        by_cases hji : j = i
        · refine ⟨d.nodes.bucket n, ?_⟩
          rw [Function.update_self, hji]
          simp
        · obtain ⟨b, hb⟩ := hall j hj (by omega)
          refine ⟨b, ?_⟩
          by_cases hbn : b = d.nodes.bucket n
          · subst hbn
            rw [Function.update_self]
            exact List.mem_append_left _ hb
          · rwa [Function.update_of_ne hbn]
      · intro j m hj hm
        by_cases hji : j = i
        · subst hji
          replace hm : t.value? j = some m := hm
          rw [hp.self, Option.some.injEq] at hm
          subst hm
          rw [hi]
          exact hn.extends (Nat.le_refl _) hd.toShaped hx
        · replace hm : t.value? j = some m := hm
          rw [hp.frame j hji] at hm
          exact (hd.node j m hj hm).extends (Nat.le_of_lt (Table.lt_size_of_value? hm)) hd.toShaped
            hx
    rw [Edge.index_ofIndex hlt]
    refine ⟨⟨hd.extends hshape hx fun _ => rfl, hx, ?_⟩, Edge.isComplemented_ofIndex hlt, by omega,
      hp.self⟩
    unfold Stored
    rw [Edge.index_ofIndex hlt]
    exact ⟨by omega, by show i < t.cells.size; omega⟩

/-- Storing a node makes at most one cell. -/
theorem size_store_le (hd : Shaped ordered d) (n : Node) :
    ((store n).after d).nodes.cells.size ≤ d.nodes.cells.size + 1 := by
  obtain ⟨chain, hh, -⟩ := hd.hashed
  obtain ⟨i, t, hput, hcase⟩ := Table.put_spec hd.wellFormed hh n
  rw [after_ok (store_eq hput)]
  rcases hcase with ⟨rfl, -, -⟩ | ⟨-, hp, -⟩
  · exact Nat.le_succ _
  · exact Nat.le_of_eq (size_put_le hd hp).2

theorem size_node_le (hd : Shaped ordered d) (v : UInt32) (low high : Edge) :
    ((node v low high).after d).nodes.cells.size ≤ d.nodes.cells.size + 1 := by
  unfold node
  split
  · exact Nat.le_succ _
  split
  · exact Nat.le_succ _
  split
  · have hle := size_store_le hd ⟨v, -low, -high⟩
    cases hs : store ⟨v, -low, -high⟩ d with
    | ok e d' =>
      rw [after_ok hs] at hle
      rwa [after_bind_ok hs]
    | error e d' =>
      rw [after_error hs] at hle
      rwa [after_error (bind_error hs _)]
  · exact size_store_le hd _

/-- Different branches make a node on `v`. Its children are the branches, up to the sign of the edge. -/
theorem node_of_ne (hd : Sound ordered d) (hv : 0 < v.toNat) (hv' : v.toNat < 2 ^ 32 - 1)
    (hl : d.Stored low) (hh : d.Stored high) (hne : low ≠ high)
    (ho : ordered → v.toNat < d.rank low ∧ v.toNat < d.rank high) :
    EnsuresFit (node v low high) d fun e d' => Grown ordered d e d' ∧ e.index ≠ 1 ∧
      ∃ n, d'.nodes.value? e.index = some n ∧ n.var = v ∧
        ∀ b, signed e (child n b) = if b then high else low := by
  have hv0 : v ≠ 0 := by
    rintro rfl
    exact absurd hv (by decide)
  unfold node
  rw [if_neg hv0, if_neg hne]
  cases hc : high.isComplemented with
  | false =>
    have hn : NodeShaped ordered d d.nodes.cells.size ⟨v, low, high⟩ :=
      ⟨hv, hv', hl.1, hl.2, hh.1, hh.2, hc, hne, ho⟩
    rw [if_neg Bool.false_ne_true]
    refine (store_spec hd hn).mono fun e d' ⟨hgrown, hplain, h1, hval⟩ =>
      ⟨hgrown, h1, _, hval, rfl, fun b => ?_⟩
    unfold signed
    rw [hplain, if_neg Bool.false_ne_true]
    rfl
  | true =>
    have hcn : (-high).isComplemented = false := by
      rw [hh.isComplemented_neg hd.toShaped, hc]
      rfl
    have hn : NodeShaped ordered d d.nodes.cells.size ⟨v, -low, -high⟩ := by
      refine ⟨hv, hv', hl.neg.1, hl.neg.2, hh.neg.1, hh.neg.2, hcn, ?_, ?_⟩
      · exact fun heq => hne (Edge.neg_inj.1 heq)
      · simpa using ho
    rw [if_pos rfl]
    refine (store_spec hd hn).bind (fun _ => grows_pure _) fun e d' ⟨hgrown, hplain, h1, hval⟩ =>
      EnsuresFit.pure ⟨hgrown.neg, by rwa [Edge.index_neg], ⟨v, -low, -high⟩, ?_, rfl, fun b => ?_⟩
    · rwa [Edge.index_neg]
    · unfold signed
      rw [hgrown.stored.isComplemented_neg hgrown.sound.toShaped, hplain, Bool.not_false, if_pos rfl]
      cases b
      · exact Edge.neg_neg low
      · exact Edge.neg_neg high

/-- What `node` returns decides on `v` between the two branches. It is in order if these are, and both
are below `v`. -/
theorem node_spec (hd : Sound ordered d) (hv : 0 < v.toNat) (hv' : v.toNat < 2 ^ 32 - 1)
    (hl : d.Stored low) (hh : d.Stored high)
    (ho : ordered → v.toNat < d.rank low ∧ v.toNat < d.rank high) :
    EnsuresFit (node v low high) d fun e d' => Grown ordered d e d' ∧
      (∀ a, d'.value a e = if a v then d.value a high else d.value a low) ∧
      (d.Ordered (v.toNat + 1) low → d.Ordered (v.toNat + 1) high → d'.Ordered v.toNat e) := by
  by_cases hlh : low = high
  · subst hlh
    have hv0 : v ≠ 0 := by
      rintro rfl
      exact absurd hv (by decide)
    unfold node
    rw [if_neg hv0, if_pos rfl]
    exact EnsuresFit.pure ⟨.refl hd hl, fun a => by simp, fun hol _ => hol.anti (Nat.le_succ _)⟩
  refine (node_of_ne hd hv hv' hl hh hlh ho).mono fun e d' ⟨hgrown, h1, n, hn, hvar, hchild⟩ =>
    ⟨hgrown, fun a => ?_, fun hol hoh => ?_⟩
  · rw [value_node hgrown.sound.toShaped hgrown.stored h1 hn, hvar, hchild]
    split
    · exact value_extends hh hd.toShaped hgrown.sound.toShaped hgrown.extend
    · exact value_extends hl hd.toShaped hgrown.sound.toShaped hgrown.extend
  · subst hvar
    refine .node h1 hn (Nat.le_refl _) fun b => ?_
    have hindex := index_of_signed (hchild b)
    cases b
    · exact (hol.extends hgrown.extend).of_index hindex
    · exact (hoh.extends hgrown.extend).of_index hindex

/-- The function of a single variable. -/
theorem var_spec (hd : Sound ordered d) (hv : 0 < v.toNat) (hv' : v.toNat < 2 ^ 32 - 1) :
    EnsuresFit (var v) d fun e d' => Grown ordered d e d' ∧ (∀ a, d'.value a e = a v) ∧
      d'.Ordered v.toNat e := by
  refine (node_spec hd hv hv' hd.stored_zero hd.stored_one fun _ => ?_).mono fun e d'
    ⟨hgrown, hval, horder⟩ => ⟨hgrown, fun a => ?_, horder (ordered_zero d _) (ordered_one d _)⟩
  · rw [rank_terminal rfl, rank_terminal rfl]
    exact ⟨hv', hv'⟩
  · rw [hval]
    cases a v <;> rfl

/-! ## The cache -/

theorem lookUp_eq (d : Manager) (k : Edge × Edge × Edge) :
    lookUp k d = .ok (d.cache.peek k) { nodes := d.nodes, cache := (d.cache.get k).2 } := by
  rw [← OpCache.get_fst]
  rfl

theorem Sound.lookUp (hd : Sound ordered d) (k : Edge × Edge × Edge) :
    Sound ordered { nodes := d.nodes, cache := (d.cache.get k).2 } :=
  hd.extends (hd.toShaped.of_nodes rfl) (.of_nodes rfl) fun _ => OpCache.peek_get ..

theorem Sound.remember (hd : Sound ordered d) (hf : d.Stored f) (hg : d.Stored g)
    (hh : d.Stored h) (hr : IteOf d f g h r) :
    Sound ordered { nodes := d.nodes, cache := d.cache.insert (f, g, h) r } where
  toShaped := hd.toShaped.of_nodes rfl
  cache f' g' h' r' hk := by
    have hs := hd.toShaped
    have hs' : Shaped ordered { nodes := d.nodes, cache := d.cache.insert (f, g, h) r } :=
      hs.of_nodes rfl
    have hx : Extends d { nodes := d.nodes, cache := d.cache.insert (f, g, h) r } := .of_nodes rfl
    rcases OpCache.peek_insert hk with ⟨hkey, rfl⟩ | hk
    · cases hkey
      exact ⟨hf, hg, hh, hr.extends hf hg hh hs hs' hx⟩
    · obtain ⟨hf', hg', hh', hr'⟩ := hd.cache f' g' h' r' hk
      exact ⟨hf', hg', hh', hr'.extends hf' hg' hh' hs hs' hx⟩

end StateSpace.Manager
