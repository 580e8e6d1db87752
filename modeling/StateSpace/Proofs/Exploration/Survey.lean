import Mathlib.Data.List.Basic
import Mathlib.Data.List.Nodup
import Mathlib.Data.List.Infix

/-!
# Breadth-first surveys

What a breadth-first search finds, without handles, hashes and references: the states in the order of
their discovery, and the edges between their numbers. Without a limit, and with fuel for every state
that can be reached, a survey lists each of these once, nearer ones first, with all their edges.
-/

namespace StateSpace

variable {α : Type} {succ : α → List α} {start c : α} {k : Nat}

theorem getElem?_extend {l l' : List α} (h : l <+: l') {i : Nat} {x : α} (hx : l[i]? = some x) :
    l'[i]? = some x := by
  obtain ⟨hi, rfl⟩ := List.getElem?_eq_some_iff.1 hx
  exact List.prefix_iff_getElem?.1 h i hi

/-- So many steps lead from the start to the state. -/
inductive Leads (succ : α → List α) (start : α) : Nat → α → Prop where
  | start : Leads succ start 0 start
  | step {k : Nat} {b c : α} (h : Leads succ start k b) (hc : c ∈ succ b) :
      Leads succ start (k + 1) c

/-- The list has every state that can be reached, each once. It begins with the start, and whatever
number of steps leads to a state, no more are needed for those before it. -/
structure BreadthFirst (succ : α → List α) (start : α) (cs : List α) : Prop where
  nodup : cs.Nodup
  mem : ∀ c, c ∈ cs ↔ ∃ k, Leads succ start k c
  first : cs[0]? = some start
  nearer : ∀ (i j : Nat) (a b : α) (k : Nat), i ≤ j → cs[i]? = some a → cs[j]? = some b →
    Leads succ start k b → ∃ k', k' ≤ k ∧ Leads succ start k' a

/-- One step and no more leads to two states. -/
theorem BreadthFirst.eq_pair {a b : α} {cs : List α}
    (h : BreadthFirst succ a cs) (ha : succ a = [b]) (hb : succ b = []) (hne : a ≠ b) :
    cs = [a, b] := by
  have hmem : ∀ c, c ∈ cs ↔ c ∈ [a, b] := by
    intro c
    rw [h.mem]
    constructor
    · rintro ⟨k, hk⟩
      induction hk with
      | start => exact List.mem_cons_self
      | step _ hc ih =>
        rcases List.mem_pair.1 ih with rfl | rfl
        · rw [ha] at hc
          exact List.mem_cons_of_mem _ hc
        · rw [hb] at hc
          cases hc
    · rw [List.mem_pair]
      rintro (rfl | rfl)
      · exact ⟨0, .start⟩
      · exact ⟨1, .step .start (ha ▸ List.mem_singleton_self _)⟩
  have hperm := (List.perm_ext_iff_of_nodup h.nodup (List.nodup_cons.2 ⟨by simpa using hne,
    List.nodup_singleton b⟩)).2 hmem
  cases cs with
  | nil => cases h.first
  | cons c cs =>
    obtain rfl : c = a := Option.some.inj h.first
    rw [List.perm_singleton.1 (List.Perm.cons_inv hperm)]

/-! ## Loops -/

/-- The successors where a state without any is its own, if there are loops. -/
def withLoops (loops : Bool) (succ : α → List α) (c : α) : List α :=
  if loops && (succ c).isEmpty then [c] else succ c

theorem leads_withLoops (h : Leads succ start k c) (loops : Bool) :
    Leads (withLoops loops succ) start k c := by
  induction h with
  | start => exact .start
  | @step k b c _ hc ih =>
    refine .step ih ?_
    unfold withLoops
    rw [if_neg]
    · exact hc
    · cases hsucc : succ b with
      | nil => exact absurd (hsucc ▸ hc) List.not_mem_nil
      | cons _ _ => simp

/-- Loops lead nowhere new. -/
theorem leads_of_withLoops {loops : Bool} (h : Leads (withLoops loops succ) start k c) :
    ∃ k', k' ≤ k ∧ Leads succ start k' c := by
  induction h with
  | start => exact ⟨0, Nat.le_refl _, .start⟩
  | @step k b c _ hc ih =>
    obtain ⟨k', hle, hb⟩ := ih
    unfold withLoops at hc
    split at hc
    · rw [List.mem_singleton.1 hc]
      exact ⟨k', Nat.le_succ_of_le hle, hb⟩
    · exact ⟨k' + 1, Nat.succ_le_succ hle, .step hb hc⟩

/-- The same states can be reached with loops as without. -/
theorem exists_leads_withLoops {loops : Bool} :
    (∃ k, Leads (withLoops loops succ) start k c) ↔ ∃ k, Leads succ start k c := by
  constructor
  · rintro ⟨k, hk⟩
    obtain ⟨k', -, hk'⟩ := leads_of_withLoops hk
    exact ⟨k', hk'⟩
  · rintro ⟨k, hk⟩
    exact ⟨k, leads_withLoops hk loops⟩

theorem BreadthFirst.of_withLoops {loops : Bool} {cs : List α}
    (h : BreadthFirst (withLoops loops succ) start cs) : BreadthFirst succ start cs where
  nodup := h.nodup
  mem c := by rw [h.mem, exists_leads_withLoops]
  first := h.first
  nearer i j a b k hij ha hb hk := by
    obtain ⟨k₁, hle₁, h₁⟩ := h.nearer i j a b k hij ha hb (leads_withLoops hk loops)
    obtain ⟨k₂, hle₂, h₂⟩ := leads_of_withLoops h₁
    exact ⟨k₂, Nat.le_trans hle₂ hle₁, h₂⟩

/-! ## Surveys -/

/-- The states found so far and the edges between their numbers. -/
structure Survey (α : Type) where
  states : List α
  edges : List (Nat × Nat) := []
  /-- Whether the limit kept a state out. -/
  truncated : Bool := false

namespace Survey

variable [DecidableEq α] {limit : Option Nat} {s s' : Survey α} {v : Nat} {t : α} {ts : List α}

/-- The number of a state, which is new to the survey unless the limit keeps it out. -/
def enter (limit : Option Nat) (s : Survey α) (t : α) : Option Nat × Survey α :=
  if t ∈ s.states then (some (s.states.idxOf t), s)
  else if limit.any (· ≤ s.states.length) then (none, { s with truncated := true })
  else (some s.states.length, { s with states := s.states ++ [t] })

/-- Follows an edge from the state with number `i`. -/
def follow (limit : Option Nat) (i : Nat) (s : Survey α) (t : α) : Survey α :=
  match s.enter limit t with
  | (some j, s) => { s with edges := s.edges ++ [(i, j)] }
  | (none, s) => s

/-- Visits the states from number `i` on, at most `fuel` of them. -/
def visitFrom (limit : Option Nat) (succ : α → List α) : Nat → Nat → Survey α → Survey α
  | 0, _, s => s
  | fuel + 1, i, s =>
    match s.states[i]? with
    | none => s
    | some c => visitFrom limit succ fuel (i + 1) ((succ c).foldl (follow limit i) s)

/-! ## Edges -/

/-- The edges from a state to others, by number. -/
def links (cs : List α) (i : Nat) (ts : List α) : List (Nat × Nat) :=
  ts.map fun t => (i, cs.idxOf t)

/-- The numbers of states do not change. -/
theorem links_extend {cs cs' : List α} (h : cs <+: cs') (i : Nat) (hts : ∀ t ∈ ts, t ∈ cs) :
    links cs' i ts = links cs i ts := by
  obtain ⟨ds, rfl⟩ := h
  refine List.map_congr_left fun t ht => ?_
  rw [List.idxOf_append_of_mem (hts t ht)]

/-- Without a limit every edge is followed to a state with a number. -/
theorem follow_spec (i : Nat) (s : Survey α) (t : α) : s.states <+: (follow none i s t).states ∧
    t ∈ (follow none i s t).states ∧
    (follow none i s t).edges = s.edges ++ links (follow none i s t).states i [t] ∧
    (follow none i s t).truncated = s.truncated := by
  unfold follow enter
  by_cases ht : t ∈ s.states
  · rw [if_pos ht]
    exact ⟨List.prefix_rfl, ht, rfl, rfl⟩
  · rw [if_neg ht, if_neg (by simp)]
    refine ⟨List.prefix_append _ _, List.mem_append_right _ (List.mem_singleton_self t), ?_, rfl⟩
    show _ = s.edges ++ [(i, (s.states ++ [t]).idxOf t)]
    rw [List.idxOf_append_of_notMem ht, List.idxOf_cons_self, Nat.add_zero]

theorem foldl_follow_spec (i : Nat) (ts : List α) (s : Survey α) :
    s.states <+: (ts.foldl (follow none i) s).states ∧
    (∀ t ∈ ts, t ∈ (ts.foldl (follow none i) s).states) ∧
    (ts.foldl (follow none i) s).edges =
      s.edges ++ links (ts.foldl (follow none i) s).states i ts ∧
    (ts.foldl (follow none i) s).truncated = s.truncated := by
  induction ts generalizing s with
  | nil => exact ⟨List.prefix_rfl, fun _ ht => absurd ht List.not_mem_nil, (List.append_nil _).symm, rfl⟩
  | cons t ts ih =>
    rw [List.foldl_cons]
    obtain ⟨hpre, hmem, hedges, htrunc⟩ := follow_spec i s t
    obtain ⟨hpre', hmem', hedges', htrunc'⟩ := ih (follow none i s t)
    refine ⟨hpre.trans hpre', fun t' ht' => ?_, ?_, htrunc'.trans htrunc⟩
    · rcases List.mem_cons.1 ht' with rfl | ht'
      · exact hpre'.subset hmem
      · exact hmem' t' ht'
    · have hlink : links (ts.foldl (follow none i) (follow none i s t)).states i [t] =
          links (follow none i s t).states i [t] :=
        links_extend hpre' i fun t' ht' => List.mem_singleton.1 ht' ▸ hmem
      rw [hedges', hedges, ← hlink, List.append_assoc]
      rfl

/-- The edges of the first `v` states are found, and no limit kept a state out. -/
structure Linked (succ : α → List α) (s : Survey α) (v : Nat) : Prop where
  edges : s.edges =
    (s.states.take v).zipIdx.flatMap fun x => links s.states x.2 (succ x.1)
  closed : ∀ c ∈ s.states.take v, ∀ t ∈ succ c, t ∈ s.states
  truncated : s.truncated = false

theorem Linked.visit (h : Linked succ s v) (hc : s.states[v]? = some c) :
    Linked succ ((succ c).foldl (follow none v) s) (v + 1) := by
  obtain ⟨hpre, hmem, hedges, htrunc⟩ := foldl_follow_spec v (succ c) s
  generalize (succ c).foldl (follow none v) s = s' at hpre hmem hedges htrunc
  obtain ⟨hlt, rfl⟩ := List.getElem?_eq_some_iff.1 hc
  have htake : s'.states.take (v + 1) = s.states.take v ++ [s.states[v]] := by
    obtain ⟨ds, hds⟩ := hpre
    rw [← hds, List.take_append_of_le_length hlt, List.take_succ_eq_append_getElem hlt]
  refine ⟨?_, fun b hb t ht => ?_, htrunc.trans h.truncated⟩
  · rw [hedges, h.edges, htake, List.zipIdx_append, List.flatMap_append]
    congr 1
    · rw [List.flatMap_def, List.flatMap_def]
      congr 1
      refine List.map_congr_left fun x hx => (links_extend hpre x.2 ?_).symm
      exact h.closed x.1 (List.fst_mem_of_mem_zipIdx hx)
    · have hlen : (s.states.take v).length = v := List.length_take_of_le (Nat.le_of_lt hlt)
      simp [hlen]
  · rw [htake] at hb
    rcases List.mem_append.1 hb with hb | hb
    · exact hpre.subset (h.closed b hb t ht)
    · rw [List.mem_singleton.1 hb] at ht
      exact hmem t ht

/-! ## Layers -/

/-- States with the numbers of steps after which they were found. While state `v` is visited, all that
is found is at most one step farther; what was visited has its successors in the list. -/
structure Layered (succ : α → List α) (start : α) (ls : List (α × Nat)) (v : Nat) : Prop where
  first : ls[0]? = some (start, 0)
  nodup : (ls.map Prod.fst).Nodup
  sorted : ls.Pairwise fun x y => x.2 ≤ y.2
  leads : ∀ x ∈ ls, Leads succ start x.2 x.1
  near : ∀ x, ls[v]? = some x → ∀ y ∈ ls, y.2 ≤ x.2 + 1
  closed : ∀ x ∈ ls.take v, ∀ t ∈ succ x.1, ∃ k, (t, k) ∈ ls ∧ k ≤ x.2 + 1

variable {ls : List (α × Nat)} {x : α × Nat}

omit [DecidableEq α] in
theorem layered_start (succ : α → List α) (start : α) : Layered succ start [(start, 0)] 0 where
  first := rfl
  nodup := List.nodup_singleton _
  sorted := List.pairwise_singleton _ _
  leads x hx := by
    rw [List.mem_singleton.1 hx]
    exact .start
  near x _ y hy := by
    rw [List.mem_singleton.1 hy]
    exact Nat.zero_le _
  closed x hx := by cases hx

omit [DecidableEq α] in
/-- A new successor of the state that is visited goes to the end, in the next layer. -/
theorem Layered.append (h : Layered succ start ls v) (hx : ls[v]? = some x) (ht : t ∈ succ x.1)
    (hnew : t ∉ ls.map Prod.fst) : Layered succ start (ls ++ [(t, x.2 + 1)]) v := by
  have hlt : v < ls.length := (List.getElem?_eq_some_iff.1 hx).1
  have hmem : x ∈ ls := List.mem_of_getElem? hx
  refine ⟨?_, ?_, ?_, fun y hy => ?_, fun y hy z hz => ?_, fun y hy c hc => ?_⟩
  · rw [List.getElem?_append_left (Nat.zero_lt_of_lt hlt)]
    exact h.first
  · rw [List.map_append, List.nodup_append]
    refine ⟨h.nodup, List.nodup_singleton _, fun a ha b hb => ?_⟩
    rw [List.mem_singleton.1 hb]
    rintro rfl
    exact hnew ha
  · rw [List.pairwise_append]
    refine ⟨h.sorted, List.pairwise_singleton _ _, fun y hy z hz => ?_⟩
    rw [List.mem_singleton.1 hz]
    exact h.near x hx y hy
  · rcases List.mem_append.1 hy with hy | hy
    · exact h.leads y hy
    · rw [List.mem_singleton.1 hy]
      exact .step (h.leads x hmem) ht
  · rw [List.getElem?_append_left hlt, hx, Option.some.injEq] at hy
    subst hy
    rcases List.mem_append.1 hz with hz | hz
    · exact h.near x hx z hz
    · rw [List.mem_singleton.1 hz]
  · rw [List.take_append_of_le_length (Nat.le_of_lt hlt)] at hy
    obtain ⟨k, hk, hle⟩ := h.closed y hy c hc
    exact ⟨k, List.mem_append_left _ hk, hle⟩

theorem Layered.follow (h : Layered succ start ls v) (hx : ls[v]? = some x) (ht : t ∈ succ x.1)
    (i : Nat) (hs : s.states = ls.map Prod.fst) : ∃ ls', ls <+: ls' ∧
      (follow none i s t).states = ls'.map Prod.fst ∧ Layered succ start ls' v ∧
      ∃ k, (t, k) ∈ ls' ∧ k ≤ x.2 + 1 := by
  unfold Survey.follow enter
  by_cases hold : t ∈ s.states
  · rw [if_pos hold]
    refine ⟨ls, List.prefix_rfl, hs, h, ?_⟩
    obtain ⟨y, hy, rfl⟩ := List.mem_map.1 (hs ▸ hold)
    exact ⟨y.2, hy, h.near x hx y hy⟩
  · rw [if_neg hold, if_neg (by simp)]
    refine ⟨ls ++ [(t, x.2 + 1)], List.prefix_append _ _, ?_, h.append hx ht (hs ▸ hold),
      x.2 + 1, List.mem_append_right _ (List.mem_singleton_self _), Nat.le_refl _⟩
    rw [List.map_append, hs]
    rfl

theorem Layered.foldl_follow (h : Layered succ start ls v) (hx : ls[v]? = some x) (i : Nat)
    {ts : List α} (hts : ∀ t ∈ ts, t ∈ succ x.1) (hs : s.states = ls.map Prod.fst) :
    ∃ ls', ls <+: ls' ∧ (ts.foldl (Survey.follow none i) s).states = ls'.map Prod.fst ∧
      Layered succ start ls' v ∧ ∀ t ∈ ts, ∃ k, (t, k) ∈ ls' ∧ k ≤ x.2 + 1 := by
  induction ts generalizing s ls with
  | nil => exact ⟨ls, List.prefix_rfl, hs, h, fun t ht => absurd ht List.not_mem_nil⟩
  | cons t ts ih =>
    obtain ⟨ls₁, hpre₁, hs₁, h₁, k, hk, hle⟩ := h.follow hx (hts t List.mem_cons_self) i hs
    have hlt := (List.getElem?_eq_some_iff.1 hx).1
    have hx₁ : ls₁[v]? = some x := getElem?_extend hpre₁ hx
    obtain ⟨ls', hpre, hs', h', hall⟩ :=
      ih h₁ hx₁ (fun t' ht' => hts t' (List.mem_cons_of_mem _ ht')) hs₁
    refine ⟨ls', hpre₁.trans hpre, hs', h', fun t' ht' => ?_⟩
    rcases List.mem_cons.1 ht' with rfl | ht'
    · exact ⟨k, hpre.subset hk, hle⟩
    · exact hall t' ht'

omit [DecidableEq α] in
/-- When all successors of a state are found, the next state may be visited. -/
theorem Layered.next (h : Layered succ start ls v) (hx : ls[v]? = some x)
    (hall : ∀ t ∈ succ x.1, ∃ k, (t, k) ∈ ls ∧ k ≤ x.2 + 1) : Layered succ start ls (v + 1) := by
  obtain ⟨hlt, rfl⟩ := List.getElem?_eq_some_iff.1 hx
  refine ⟨h.first, h.nodup, h.sorted, h.leads, fun y hy z hz => ?_, fun y hy t ht => ?_⟩
  · obtain ⟨hlt', rfl⟩ := List.getElem?_eq_some_iff.1 hy
    have hle := List.pairwise_iff_getElem.1 h.sorted v (v + 1) hlt hlt' (Nat.lt_succ_self v)
    have := h.near _ hx z hz
    omega
  · rw [List.take_succ_eq_append_getElem hlt] at hy
    rcases List.mem_append.1 hy with hy | hy
    · exact h.closed y hy t ht
    · rw [List.mem_singleton.1 hy] at ht ⊢
      exact hall t ht

theorem visitFrom_spec (fuel : Nat) (h : Layered succ start ls v) (hl : Linked succ s v)
    (hs : s.states = ls.map Prod.fst) : ∃ ls' v',
      (visitFrom none succ fuel v s).states = ls'.map Prod.fst ∧ Layered succ start ls' v' ∧
      Linked succ (visitFrom none succ fuel v s) v' ∧ (v' = v + fuel ∨ ls'.length ≤ v') := by
  induction fuel generalizing ls s v with
  | zero => exact ⟨ls, v, hs, h, hl, .inl rfl⟩
  | succ fuel ih =>
    unfold visitFrom
    cases hx : ls[v]? with
    | none =>
      have hnone : s.states[v]? = none := by rw [hs, List.getElem?_map, hx]; rfl
      simp only [hnone]
      exact ⟨ls, v, hs, h, hl, .inr (List.getElem?_eq_none_iff.1 hx)⟩
    | some x =>
      have hsome : s.states[v]? = some x.1 := by rw [hs, List.getElem?_map, hx]; rfl
      simp only [hsome]
      obtain ⟨ls₁, hpre, hs₁, h₁, hall⟩ := h.foldl_follow hx v (fun t ht => ht) hs
      have hx₁ : ls₁[v]? = some x := getElem?_extend hpre hx
      obtain ⟨ls', v', hs', h', hl', hend⟩ := ih (h₁.next hx₁ hall) (hl.visit hsome) hs₁
      refine ⟨ls', v', hs', h', hl', ?_⟩
      rcases hend with hend | hend
      · exact .inl (by omega)
      · exact .inr hend

omit [DecidableEq α] in
/-- Where all states are visited, nothing that can be reached is missing, and no state is found after
more steps than needed. -/
theorem Layered.mem_of_leads (h : Layered succ start ls v) (hv : ls.length ≤ v) {k : Nat} {c : α}
    (hc : Leads succ start k c) : ∃ k', (c, k') ∈ ls ∧ k' ≤ k := by
  induction hc with
  | start => exact ⟨0, List.mem_of_getElem? h.first, Nat.le_refl _⟩
  | @step k b c _ hc ih =>
    obtain ⟨k', hk', hle⟩ := ih
    rw [← List.take_of_length_le hv] at hk'
    obtain ⟨k'', hk'', hle'⟩ := h.closed _ hk' c hc
    exact ⟨k'', hk'', by omega⟩

omit [DecidableEq α] in
theorem Layered.breadthFirst (h : Layered succ start ls v) (hv : ls.length ≤ v) :
    BreadthFirst succ start (ls.map Prod.fst) where
  nodup := h.nodup
  mem c := by
    constructor
    · intro hc
      obtain ⟨x, hx, rfl⟩ := List.mem_map.1 hc
      exact ⟨x.2, h.leads x hx⟩
    · rintro ⟨k, hk⟩
      obtain ⟨k', hk', -⟩ := h.mem_of_leads hv hk
      exact List.mem_map_of_mem hk'
  first := by
    rw [List.getElem?_map, h.first]
    rfl
  nearer i j a b k hij ha hb hk := by
    rw [List.getElem?_map, Option.map_eq_some_iff] at ha hb
    obtain ⟨x, hx, rfl⟩ := ha
    obtain ⟨y, hy, rfl⟩ := hb
    obtain ⟨k', hk', hle⟩ := h.mem_of_leads hv hk
    have hsame := List.inj_on_of_nodup_map h.nodup hk' (List.mem_of_getElem? hy) rfl
    refine ⟨x.2, ?_, h.leads x (List.mem_of_getElem? hx)⟩
    obtain ⟨hi, rfl⟩ := List.getElem?_eq_some_iff.1 hx
    obtain ⟨hj, rfl⟩ := List.getElem?_eq_some_iff.1 hy
    have hyk : ls[j].2 = k' := (congrArg Prod.snd hsame).symm
    rcases Nat.lt_or_eq_of_le hij with hlt | rfl
    · have := List.pairwise_iff_getElem.1 h.sorted i j hi hj hlt
      omega
    · omega

/-- A survey with fuel for every list of different states that can be reached. -/
theorem survey_spec (succ : α → List α) (start : α) {fuel : Nat}
    (hbound : ∀ cs : List α, cs.Nodup → (∀ c ∈ cs, ∃ k, Leads succ start k c) → cs.length ≤ fuel) :
    BreadthFirst succ start (visitFrom none succ fuel 0 ⟨[start], [], false⟩).states ∧
    Linked succ (visitFrom none succ fuel 0 ⟨[start], [], false⟩)
      (visitFrom none succ fuel 0 ⟨[start], [], false⟩).states.length := by
  have hlinked : Linked succ ⟨[start], [], false⟩ 0 := ⟨rfl, fun c hc => absurd hc List.not_mem_nil, rfl⟩
  obtain ⟨ls, v, hs, h, hl, hend⟩ := visitFrom_spec fuel (layered_start succ start) hlinked rfl
  have hlen := hbound (ls.map Prod.fst) h.nodup fun c hc => by
    obtain ⟨x, hx, rfl⟩ := List.mem_map.1 hc
    exact ⟨x.2, h.leads x hx⟩
  rw [List.length_map] at hlen
  have hv : ls.length ≤ v := by omega
  have hstates : (visitFrom none succ fuel 0 ⟨[start], [], false⟩).states.length ≤ v := by
    rw [hs, List.length_map]
    exact hv
  refine ⟨hs ▸ h.breadthFirst hv, ?_, fun c hc => hl.closed c ?_, hl.truncated⟩
  · rw [hl.edges, List.take_of_length_le hstates, List.take_length]
  · rw [List.take_of_length_le hstates]
    exact List.mem_of_mem_take hc

end Survey

end StateSpace
