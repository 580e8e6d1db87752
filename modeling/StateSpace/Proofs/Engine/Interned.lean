import Mathlib.Data.List.Nodup
import Mathlib.Data.List.Perm.Basic
import StateSpace.Proofs.Engine.Graph
import Std.Data.HashMap.Lemmas
import Std.Data.HashSet.Lemmas

/-!
# Interned objects

A graph keeps one object for each configuration that it has met, in the bucket of the configuration's
hash, whatever other configurations have the same hash. `Interns` says so, and that the counter is
exact. A search for successors adds objects and drops none, unless it reclaims some at its start; what
it answers is determined by the network and the state, up to the choice of the objects.
-/

namespace StateSpace

open StateSpace.Action

namespace Network

variable {n : Network}

/-- The configurations that candidates lead to, with the edges taken; a fault ends the search. -/
def taken (n : Network) (c : Configuration) :
    List (List Edge) → Except Fault (List (Configuration × Transition))
  | [] => .ok []
  | es :: rest => do
    match ← n.fire c es with
    | none => n.taken c rest
    | some target => do
      let steps ← n.taken c rest
      .ok ((target, es.map (·.id)) :: steps)

/-- The configurations that the steps of a state lead to, with the edges taken, or the fault of a state
that is none of the network's. -/
def successors (n : Network) (s : EngineState) :
    Except Fault (List (Configuration × Transition)) := do
  let c ← n.configurationOf s
  n.taken c (← n.candidates c)

end Network

namespace Graph

variable {α β : Type} {g g' g'' : Graph} {i j : Interned} {o : Shared} {c : Configuration}
  {n : Network}

/-! ## Buckets -/

/-- All interned objects, bucket by bucket. -/
def objects (g : Graph) : List Interned := g.interned.toList.flatMap (·.2)

theorem mem_objects : i ∈ g.objects ↔ ∃ h, i ∈ g.interned.getD h [] := by
  unfold objects
  rw [List.mem_flatMap]
  constructor
  · rintro ⟨⟨h, bucket⟩, hb, hi⟩
    refine ⟨h, ?_⟩
    rwa [Std.HashMap.getD_eq_getD_getElem?, Std.HashMap.mem_toList_iff_getElem?_eq_some.1 hb]
  · rintro ⟨h, hi⟩
    rw [Std.HashMap.getD_eq_getD_getElem?] at hi
    cases hb : g.interned[h]? with
    | none =>
      rw [hb] at hi
      cases hi
    | some bucket =>
      rw [hb] at hi
      exact ⟨(h, bucket), Std.HashMap.mem_toList_iff_getElem?_eq_some.2 hb, hi⟩

/-- The counter is exact, no configuration has two objects, every object is in the bucket of its hash,
and its token is its own. -/
structure Interns (g : Graph) : Prop where
  count : g.count = g.objects.length
  distinct : (g.objects.map (·.configuration)).Nodup
  hashed : ∀ h, ∀ i ∈ g.interned.getD h [], i.configuration.hash = h
  tokens : (g.objects.map (·.token)).Nodup
  token_lt : ∀ i ∈ g.objects, i.token < g.nextToken

theorem create_interns (n : Network) (s : ZoneSemantics) : (create n s).Interns where
  count := by simp [objects, create]
  distinct := by simp [objects, create]
  hashed h i hi := by simp [create] at hi
  tokens := by simp [objects, create]
  token_lt i hi := by simp [objects, create] at hi

/-- Thresholds and pauses are of no concern. -/
theorem Interns.withControl (hg : g.Interns) (threshold paused : Nat) :
    Interns { g with threshold, paused } :=
  ⟨hg.count, hg.distinct, hg.hashed, hg.tokens, hg.token_lt⟩

theorem Interns.mem_bucket (hg : g.Interns) :
    i ∈ g.objects ↔ i ∈ g.interned.getD i.configuration.hash [] := by
  rw [mem_objects]
  constructor
  · rintro ⟨h, hi⟩
    rwa [hg.hashed h i hi]
  · exact fun hi => ⟨_, hi⟩

theorem Interns.eq_of_configuration (hg : g.Interns) (hi : i ∈ g.objects) (hj : j ∈ g.objects)
    (h : i.configuration = j.configuration) : i = j :=
  List.inj_on_of_nodup_map hg.distinct hi hj h

theorem Interns.eq_of_token (hg : g.Interns) (hi : i ∈ g.objects) (hj : j ∈ g.objects)
    (h : i.token = j.token) : i = j := List.inj_on_of_nodup_map hg.tokens hi hj h

theorem nodup_toList (m : Std.HashMap UInt64 (List Interned)) : m.toList.Nodup :=
  Std.HashMap.distinct_keys_toList.imp fun hne heq => by simp [heq] at hne

/-- The entry of a hash, if there is one. -/
theorem filter_toList_perm (m : Std.HashMap UInt64 (List Interned)) (h : UInt64) :
    (m.toList.filter (h == ·.1)).Perm ((m[h]?).toList.map (h, ·)) := by
  refine (List.perm_ext_iff_of_nodup ((nodup_toList m).filter _) ?_).2 ?_
  · cases m[h]? with
    | none => exact List.nodup_nil
    | some b => exact List.nodup_singleton _
  · rintro ⟨k, b⟩
    rw [List.mem_filter, Std.HashMap.mem_toList_iff_getElem?_eq_some, beq_iff_eq]
    simp only [List.mem_map, Option.mem_toList, Prod.mk.injEq]
    constructor
    · rintro ⟨hb, rfl⟩
      exact ⟨b, hb, rfl, rfl⟩
    · rintro ⟨b, hb, rfl, rfl⟩
      exact ⟨hb, rfl⟩

/-- The objects of one bucket, and those of the others. -/
theorem flatMap_toList_perm (m : Std.HashMap UInt64 (List Interned)) (h : UInt64) :
    (m.toList.flatMap (·.2)).Perm
      (m.getD h [] ++ (m.toList.filter (!h == ·.1)).flatMap (·.2)) := by
  have hbucket : ((m.toList.filter (h == ·.1)).flatMap (·.2)).Perm (m.getD h []) := by
    refine ((filter_toList_perm m h).flatMap_right _).trans ?_
    rw [Std.HashMap.getD_eq_getD_getElem?]
    cases m[h]? <;> simp
  have hsplit := (List.filter_append_perm (fun b : UInt64 × List Interned => h == b.1) m.toList).symm
  refine (hsplit.flatMap_right (·.2)).trans ?_
  rw [List.flatMap_append]
  exact hbucket.append_right _

/-- A bucket that gets one more object brings it to the others. -/
theorem flatMap_insert_perm (m : Std.HashMap UInt64 (List Interned)) (h : UInt64) (i : Interned) :
    ((m.insert h (m.getD h [] ++ [i])).toList.flatMap (·.2)).Perm (i :: m.toList.flatMap (·.2)) := by
  refine (Std.HashMap.toList_insert_perm.flatMap_right _).trans ?_
  rw [List.flatMap_cons, List.append_assoc]
  simp only [decide_not, Bool.decide_eq_true]
  exact List.perm_middle.trans (.cons i (flatMap_toList_perm m h).symm)

/-! ## Interning -/

/-- The graph has got more objects at most, for the same network and with the same pauses. -/
structure Grown (g g' : Graph) : Prop where
  interns : g'.Interns
  objects : ∀ i ∈ g.objects, i ∈ g'.objects
  kept : g.Kept g'

theorem Grown.refl (hg : g.Interns) : Grown g g := ⟨hg, fun _ h => h, .refl g⟩

theorem Grown.trans (h : Grown g g') (h' : Grown g' g'') : Grown g g'' :=
  ⟨h'.interns, fun i hi => h'.objects i (h.objects i hi), h.kept.trans h'.kept⟩

/-- A configuration without an object gets a new one. -/
theorem interns_insert (hg : g.Interns) (hc : ∀ i ∈ g.objects, i.configuration ≠ c) :
    Interns { g with
      interned := g.interned.insert c.hash (g.interned.getD c.hash [] ++ [⟨g.nextToken, c⟩])
      count := g.count + 1
      nextToken := g.nextToken + 1 } := by
  have hperm := flatMap_insert_perm g.interned c.hash ⟨g.nextToken, c⟩
  refine ⟨?_, ?_, fun h i hi => ?_, ?_, fun i hi => ?_⟩
  · show g.count + 1 = _
    rw [hg.count]
    exact hperm.length_eq.symm
  · refine (hperm.map _).nodup_iff.2 (List.nodup_cons.2 ⟨fun hmem => ?_, hg.distinct⟩)
    obtain ⟨i, hi, heq⟩ := List.mem_map.1 hmem
    exact hc i hi heq
  · have hi' : i ∈ (g.interned.insert c.hash (g.interned.getD c.hash [] ++ [⟨g.nextToken, c⟩])).getD
      h [] := hi
    rw [Std.HashMap.getD_insert] at hi'
    split at hi'
    · rename_i heq
      rw [beq_iff_eq] at heq
      subst heq
      rcases List.mem_append.1 hi' with hi' | hi'
      · exact hg.hashed _ i hi'
      · rw [List.mem_singleton.1 hi']
    · exact hg.hashed h i hi'
  · refine (hperm.map _).nodup_iff.2 (List.nodup_cons.2 ⟨fun hmem => ?_, hg.tokens⟩)
    obtain ⟨i, hi, heq⟩ := List.mem_map.1 hmem
    exact absurd (hg.token_lt i hi) (by rw [heq]; exact Nat.lt_irrefl _)
  · show i.token < g.nextToken + 1
    rcases List.mem_cons.1 (hperm.mem_iff.1 hi) with rfl | hi
    · exact Nat.lt_succ_self _
    · exact Nat.lt_succ_of_lt (hg.token_lt i hi)

/-- A configuration has an object afterwards, which is answered. -/
theorem intern_grown (hg : g.Interns) (c : Configuration) : Ensures (intern c) g fun o g' =>
    Grown g g' ∧ ∃ i ∈ g'.objects, i.configuration = c ∧ o = i.shared := by
  obtain ⟨network, semantics, interned, count, threshold, paused, nextToken⟩ := g
  cases hf : (interned.getD c.hash []).find? (·.configuration = c) with
  | some i =>
    refine ⟨i.shared, ⟨network, semantics, interned, count, threshold, paused, nextToken⟩, ?_,
      .refl hg, i, mem_objects.2 ⟨_, List.mem_of_find?_eq_some hf⟩, ?_, rfl⟩
    · simp only [intern, hf]
    · simpa using List.find?_some hf
  | none =>
    have hrun : intern c ⟨network, semantics, interned, count, threshold, paused, nextToken⟩ =
        .ok (Interned.shared ⟨nextToken, c⟩)
          ⟨network, semantics, interned.insert c.hash (interned.getD c.hash [] ++ [⟨nextToken, c⟩]),
            count + 1, threshold, paused, nextToken + 1⟩ := by
      simp only [intern, hf]
    have hperm := flatMap_insert_perm interned c.hash ⟨nextToken, c⟩
    refine ⟨_, _, hrun, ⟨interns_insert hg fun i hi heq => ?_, fun i hi => ?_, ⟨rfl, rfl⟩⟩,
      ⟨nextToken, c⟩, hperm.mem_iff.2 List.mem_cons_self, rfl, rfl⟩
    · have hbucket := hg.mem_bucket.1 hi
      rw [heq] at hbucket
      simpa [heq] using List.find?_eq_none.1 hf i hbucket
    · exact hperm.mem_iff.2 (List.mem_cons_of_mem _ hi)

/-! ## Reclaiming -/

theorem foldl_length (l : List (UInt64 × List Interned)) (k : Nat) :
    l.foldl (fun k b => k + b.2.length) k = k + (l.flatMap (·.2)).length := by
  induction l generalizing k with
  | nil => rfl
  | cons b l ih =>
    rw [List.foldl_cons, ih, List.flatMap_cons, List.length_append]
    exact Nat.add_assoc ..

theorem getD_keepInUse (used : Std.HashSet Nat) (bucket : Option (List Interned)) :
    (bucket.bind (keepInUse used)).getD [] =
      (bucket.getD []).filter (used.contains ·.token) := by
  cases bucket with
  | none => rfl
  | some b =>
    show (keepInUse used b).getD [] = b.filter (used.contains ·.token)
    unfold keepInUse
    split
    · rename_i hnil
      exact hnil.symm
    · rfl

/-- The buckets without the objects that are not in use. -/
theorem flatMap_filterMap_perm (m : Std.HashMap UInt64 (List Interned)) (used : Std.HashSet Nat) :
    ((m.filterMap fun _ bucket => keepInUse used bucket).toList.flatMap (·.2)).Perm
      ((m.toList.flatMap (·.2)).filter (used.contains ·.token)) := by
  refine (Std.HashMap.toList_filterMap.flatMap_right _).trans (.of_eq ?_)
  induction m.toList with
  | nil => rfl
  | cons b l ih =>
    have hb := getD_keepInUse used (some b.2)
    simp only [Option.bind_some, Option.getD_some] at hb
    rw [List.filterMap_cons, List.flatMap_cons, List.filter_append, ← ih, ← hb]
    cases keepInUse used b.2 <;> rfl

/-- What reclaiming does with tokens in use: exactly the objects without one of them are dropped, and
counted. -/
structure Reclaimed (g : Graph) (tokens : List Nat) (k : Nat) (g' : Graph) : Prop where
  interns : g'.Interns
  kept : g.Kept g'
  objects : g'.objects.Perm (g.objects.filter fun i => i.token ∈ tokens)
  dropped : k = (g.objects.filter fun i => i.token ∉ tokens).length

theorem reclaim_spec (hg : g.Interns) (hp : g.isPaused = false) (tokens : List Nat) :
    Reclaimed g tokens (g.reclaim tokens).1 (g.reclaim tokens).2 := by
  have hkept := kept_reclaim tokens g
  unfold reclaim at hkept ⊢
  rw [hp, if_neg Bool.false_ne_true] at hkept ⊢
  have hused : ∀ i : Interned, (Std.HashSet.ofList tokens).contains i.token =
      decide (i.token ∈ tokens) := by
    intro i
    rw [Std.HashSet.contains_ofList, List.contains_eq_mem]
  have hperm := flatMap_filterMap_perm g.interned (.ofList tokens)
  simp only [hused] at hperm
  have hobjects : (g.interned.toList.flatMap (·.2)) = g.objects := rfl
  rw [hobjects] at hperm
  have hcount : (g.interned.filterMap fun _ bucket =>
      keepInUse (.ofList tokens) bucket).fold (fun n _ bucket => n + bucket.length) 0 =
      (g.objects.filter fun i => i.token ∈ tokens).length := by
    rw [Std.HashMap.fold_eq_foldl_toList, foldl_length, Nat.zero_add]
    exact hperm.length_eq
  refine ⟨⟨?_, ?_, fun h i hi => ?_, ?_, fun i hi => ?_⟩, hkept, hperm, ?_⟩
  · exact hcount.trans hperm.length_eq.symm
  · exact (hperm.map _).nodup_iff.2 (hg.distinct.sublist (List.filter_sublist.map _))
  · have hi' : i ∈ (g.interned.filterMap fun _ bucket =>
        keepInUse (.ofList tokens) bucket).getD h [] := hi
    rw [Std.HashMap.getD_eq_getD_getElem?, Std.HashMap.getElem?_filterMap', getD_keepInUse,
      ← Std.HashMap.getD_eq_getD_getElem?] at hi'
    exact hg.hashed h i (List.mem_of_mem_filter hi')
  · exact (hperm.map _).nodup_iff.2 (hg.tokens.sublist (List.filter_sublist.map _))
  · exact hg.token_lt i (List.mem_of_mem_filter (hperm.mem_iff.1 hi))
  · show g.count - _ = _
    rw [hcount, hg.count]
    rw [List.length_eq_countP_add_countP (fun i : Interned => i.token ∈ tokens),
      List.countP_eq_length_filter, List.countP_eq_length_filter, Nat.add_sub_cancel_left]
    simp only [decide_eq_true_eq]

theorem reclaim_paused (hp : g.isPaused = true) (tokens : List Nat) : g.reclaim tokens = (0, g) := by
  unfold reclaim
  rw [if_pos hp]

/-- Reclaiming that is due drops no object in use. -/
theorem reclaimIfDue_spec (hg : g.Interns) (inUse : InUse) :
    (g.reclaimIfDue inUse).Interns ∧ g.Kept (g.reclaimIfDue inUse) ∧
      ∀ i ∈ g.objects, i.token ∈ inUse () → i ∈ (g.reclaimIfDue inUse).objects := by
  unfold reclaimIfDue
  split
  · exact ⟨hg, .refl g, fun i hi _ => hi⟩
  · rename_i hdue
    have hp : g.isPaused = false := by
      cases hp : g.isPaused with
      | false => rfl
      | true => simp [hp] at hdue
    have h := reclaim_spec hg hp (inUse ())
    refine ⟨h.interns.withControl _ _, ⟨h.kept.network, h.kept.paused⟩, fun i hi hused => ?_⟩
    exact h.objects.mem_iff.2 (List.mem_filter.2 ⟨hi, decide_eq_true hused⟩)

/-! ## Searching -/

/-- The object is one of the graph's. -/
def Has (g : Graph) (o : Shared) : Prop := ∃ i ∈ g.objects, o = i.shared

theorem Grown.has (h : Grown g g') (ho : g.Has o) : g'.Has o := by
  obtain ⟨i, hi, rfl⟩ := ho
  exact ⟨i, h.objects i hi, rfl⟩

/-- The objects are the graph's, they have the configurations of the steps, and the edges are the same. -/
def Tells (g : Graph) (ps : List (Configuration × Transition))
    (items : List (Shared × Transition)) : Prop :=
  (∀ x ∈ items, g.Has x.1) ∧
    items.map (fun x => (x.1.state, x.2)) = ps.map fun p => (.configuration p.1, p.2)

/-- The outcome of an action has objects of the steps, or it is the same fault; either way the graph has
grown at most. -/
inductive Answers (g : Graph) : Except Fault (List (Configuration × Transition)) →
    EStateM.Result Fault Graph (List (Shared × Transition)) → Prop
  | told {g' : Graph} {ps : List (Configuration × Transition)}
      {items : List (Shared × Transition)} (hg : Grown g g') (h : g'.Tells ps items) :
      Answers g (.ok ps) (.ok items g')
  | faulted {g' : Graph} {e : Fault} (hg : Grown g g') : Answers g (.error e) (.error e g')

theorem Tells.nil (g : Graph) : g.Tells [] [] := ⟨by simp, rfl⟩

theorem Tells.cons {ps : List (Configuration × Transition)} {items : List (Shared × Transition)}
    (h : g.Tells ps items) (hi : i ∈ g.objects) (t : Transition) :
    g.Tells ((i.configuration, t) :: ps) ((i.shared, t) :: items) := by
  refine ⟨List.forall_mem_cons.2 ⟨⟨i, hi, rfl⟩, h.1⟩, ?_⟩
  rw [List.map_cons, List.map_cons, h.2]
  rfl

theorem fireAll_answers (hg : g.Interns) (n : Network) (c : Configuration)
    (ess : List (List Network.Edge)) : g.Answers (n.taken c ess) (fireAll n c ess g) := by
  induction ess generalizing g with
  | nil => exact .told (.refl hg) (.nil g)
  | cons es ess ih =>
    unfold fireAll Network.taken
    cases hfire : n.fire c es with
    | error e => exact .faulted (.refl hg)
    | ok target =>
      rw [bind_ok (ofExcept_ok rfl g)]
      cases target with
      | none => exact ih hg
      | some target =>
        obtain ⟨o, g₁, hintern, hgrown, i, hi, rfl, rfl⟩ := intern_grown hg target
        have h := ih hgrown.interns
        show g.Answers (n.taken c ess >>= _) ((intern i.configuration >>= _) g)
        rw [bind_ok hintern]
        generalize n.taken c ess = r at h ⊢
        generalize hrest : fireAll n c ess g₁ = out at h
        cases h with
        | told hgrown' htells =>
          rw [bind_ok hrest]
          exact .told (hgrown.trans hgrown') (htells.cons (hgrown'.objects i hi) _)
        | faulted hgrown' =>
          rw [bind_error hrest]
          exact .faulted (hgrown.trans hgrown')

/-- A search for successors reclaims first, if that is due; what it answers depends on the network and
the state only. -/
theorem outgoing_answers (hg : g.Interns) (inUse : InUse) (s : EngineState) :
    (g.reclaimIfDue inUse).Answers (g.network.successors s) (outgoing inUse s g) := by
  obtain ⟨hinterns, hkept, -⟩ := reclaimIfDue_spec hg inUse
  unfold outgoing Network.successors
  rw [bind_ok (modify_apply _ _), bind_ok (get_apply _), hkept.network]
  cases hc : g.network.configurationOf s with
  | error e => exact .faulted (.refl hinterns)
  | ok c =>
    rw [bind_ok (ofExcept_ok rfl _)]
    show (g.reclaimIfDue inUse).Answers (g.network.candidates c >>= _) _
    cases hess : g.network.candidates c with
    | error e => exact .faulted (.refl hinterns)
    | ok ess =>
      rw [bind_ok (ofExcept_ok rfl _)]
      exact fireAll_answers hinterns g.network c ess

/-- A search for initial states adds objects at most, and answers with objects of the graph. -/
theorem startObjects_grown (hg : g.Interns) (n : Network) (vs : List (List Nat)) :
    Grown g ((startObjects n vs).after g) ∧
      ∀ ss g', startObjects n vs g = .ok ss g' → ∀ o ∈ ss, g'.Has o := by
  induction vs generalizing g with
  | nil =>
    refine ⟨.refl hg, fun ss g' h => ?_⟩
    cases h
    simp
  | cons ls vs ih =>
    unfold startObjects
    cases hinv : n.invariantsHold n.startValues ls with
    | error e =>
      have hrun : (Action.ofExcept (.error e : Except Fault Bool) : Action Graph Bool) g =
          .error e g := rfl
      rw [after_error (bind_error hrun _), bind_error hrun]
      exact ⟨.refl hg, fun ss g' h => by cases h⟩
    | ok b =>
      have hrun : (Action.ofExcept (.ok b : Except Fault Bool) : Action Graph Bool) g = .ok b g := rfl
      rw [after_bind_ok hrun, bind_ok hrun]
      cases b with
      | false => exact ih hg
      | true =>
        obtain ⟨o, g₁, hintern, hgrown, i, hi, -, rfl⟩ := intern_grown hg ⟨ls, n.startValues⟩
        obtain ⟨hrest, hss⟩ := ih hgrown.interns
        rw [if_pos rfl, after_bind_ok hintern, bind_ok hintern]
        cases h : startObjects n vs g₁ with
        | error e g₂ =>
          rw [after_error h] at hrest
          rw [after_error (bind_error h _), bind_error h]
          exact ⟨hgrown.trans hrest, fun ss g' h => by cases h⟩
        | ok ss g₂ =>
          rw [after_ok h] at hrest
          rw [after_bind_ok h, bind_ok h]
          refine ⟨hgrown.trans hrest, fun ss' g' h' => ?_⟩
          cases h'
          exact List.forall_mem_cons.2 ⟨⟨i, hrest.objects i hi, rfl⟩, hss ss g₂ h⟩

end Graph

end StateSpace
