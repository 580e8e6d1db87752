import Mathlib.Data.List.Forall2
import Mathlib.Data.List.Induction
import Mathlib.Data.List.Nodup
import StateSpace.Proofs.Network.Synchronized
import StateSpace.Proofs.Step.Fire

/-!
# What may be taken together

`Offers` says which edges processes may take together: one edge whose event no synchronisation names,
or for each process of a synchronisation, in order, one edge with the event that it names there. The
candidates are exactly these edges, less those that a committed location forbids. They come from a
list without the early exits of the search (`candidates_eq`), in which single edges occur once and a
joint choice occurs once for each declaration of its synchronisation.
-/

namespace StateSpace.Network

variable {n : Network} {c : Configuration} {ls : List Nat} {es : List Edge} {e : Edge} {p l : Nat}

/-! ## Edges of a location -/

theorem filterMap_range_getElem? {α : Type} (xs : List α) :
    ((List.range xs.length).filterMap fun i => xs[i]?) = xs := by
  induction xs using List.reverseRecOn with
  | nil => rfl
  | append_singleton xs x ih =>
    have hold : ∀ i ∈ List.range xs.length, (xs ++ [x])[i]? = xs[i]? := by
      intro i hi
      exact List.getElem?_append_left (List.mem_range.1 hi)
    rw [List.length_append, List.length_singleton, List.range_succ, List.filterMap_append,
      List.filterMap_congr hold, ih]
    simp

/-- A list of partial results that are all there is a list of results. -/
theorem mapM_eq_some_filterMap {α β : Type} {f : α → Option β} {as : List α}
    (h : ∀ a ∈ as, (f a).isSome) : as.mapM f = some (as.filterMap f) := by
  induction as with
  | nil => rfl
  | cons a as ih =>
    obtain ⟨b, hb⟩ := Option.isSome_iff_exists.1 (h a List.mem_cons_self)
    rw [List.mapM_cons, hb, ih fun a' ha' => h a' (List.mem_cons_of_mem _ ha'),
      List.filterMap_cons_some hb]
    rfl

theorem hasEdge_iff : n.HasEdge e ↔ e ∈ n.edges.toList := by
  unfold HasEdge
  rw [List.mem_iff_getElem?]
  simp

theorem Valid.edges_nodup (hv : n.Valid) : n.edges.toList.Nodup := by
  rw [List.Nodup, List.pairwise_iff_getElem]
  intro i j hi hj hij heq
  have hid : ∀ (k : Nat) (hk : k < n.edges.toList.length), n.edges.toList[k].id = k := by
    intro k hk
    apply (hv.edge k _ _).id
    rw [← Array.getElem?_toList, List.getElem?_eq_getElem hk]
  have hsame := congrArg Edge.id heq
  rw [hid i hi, hid j hj] at hsame
  omega

/-- An edge is found under its number. -/
theorem HasEdge.getElem?_id (hv : n.Valid) (h : n.HasEdge e) : n.edges[e.id]? = some e := by
  obtain ⟨i, hi⟩ := h
  rw [(hv.edge i e hi).id, hi]

/-- The edges that leave a location, in the order of their declaration. -/
def departing (n : Network) (l : Nat) : List Edge := n.edges.toList.filter (·.source == l)

theorem Coherent.edgesFrom?_eq (h : n.Coherent) (hl : l < n.locations.size) :
    n.edgesFrom? l = some (n.departing l) := by
  have hlt : l < n.leaving.size := by
    rw [h.leaving_size]
    exact hl
  have hids : n.leaving[l]? = some n.leaving[l] := Array.getElem?_eq_getElem hlt
  have hdeclared : ∀ i ∈ n.leaving[l], (n.edges[i]?).isSome := by
    intro i hi
    rw [h.leaving l _ hids, List.mem_filter, List.mem_range] at hi
    rw [Array.getElem?_eq_getElem hi.1]
    rfl
  have hfind : (n.leaving[l].filterMap fun id => n.edges[id]?) = n.departing l := by
    rw [h.leaving l _ hids, List.filterMap_filter, departing]
    conv_rhs => rw [← filterMap_range_getElem? n.edges.toList, List.filter_filterMap]
    rw [Array.length_toList]
    congr 1
    funext i
    rw [Array.getElem?_toList]
    cases n.edges[i]? with
    | none => rfl
    | some e => cases h : e.source == l <;> simp [Option.filter, h]
  unfold edgesFrom?
  rw [hids, Option.bind_some, mapM_eq_some_filterMap hdeclared, hfind]

theorem edgesFrom_eq (hv : n.Valid) (hl : l < n.locations.size) :
    n.edgesFrom l = .ok (n.departing l) := by
  unfold edgesFrom
  rw [hv.edgesFrom?_eq hl]

/-! ## Offers -/

/-- The process of an edge with its event. -/
def Edge.action (e : Edge) : Nat × Nat := (e.process, e.event)

/-- The edge is declared and leaves the location in which the process is. -/
structure Leaves (n : Network) (ls : List Nat) (p : Nat) (e : Edge) : Prop where
  declared : n.HasEdge e
  source : ls[p]? = some e.source

/-- What processes may take together: an edge that needs no other, or an edge for each process of a
synchronisation. -/
inductive Offers (n : Network) (ls : List Nat) : List Edge → Prop
  | solo {p : Nat} {e : Edge} (h : n.Leaves ls p e) (hs : ∀ s ∈ n.syncs, (p, e.event) ∉ s) :
      Offers n ls [e]
  | joint {s : List (Nat × Nat)} {es : List Edge} (hs : s ∈ n.syncs)
      (h : List.Forall₂ (fun a e => n.Leaves ls a.1 e ∧ e.event = a.2) s es) : Offers n ls es

/-- While a process is in a committed location, some edge has to leave a committed location. -/
def Permits (n : Network) (ls : List Nat) (es : List Edge) : Prop :=
  (∃ l ∈ ls, n.isCommitted l = true) → ∃ e ∈ es, n.isCommitted e.source = true

/-- An edge that leaves the location of a process is one of that process. -/
theorem Leaves.process_eq (h : n.Leaves ls p e) (hv : n.Valid) (hls : n.IsVector ls) :
    e.process = p := by
  obtain ⟨i, hi⟩ := h.declared
  obtain ⟨loc, hloc, hp⟩ := belongs_iff.1 (hv.edge i e hi).source
  obtain ⟨loc', hloc', hp'⟩ := belongs_iff.1 (hls.location p _ h.source)
  rw [hloc] at hloc'
  cases hloc'
  rw [← hp, ← hp']

/-- The edges chosen for a synchronisation tell which one it is. -/
theorem action_of_joint (hv : n.Valid) (hls : n.IsVector ls) {s : List (Nat × Nat)}
    (h : List.Forall₂ (fun a e => n.Leaves ls a.1 e ∧ e.event = a.2) s es) :
    es.map Edge.action = s := by
  induction h with
  | nil => rfl
  | cons hae _ ih =>
    rw [List.map_cons, ih, Edge.action, hae.1.process_eq hv hls, hae.2]

theorem Offers.hasEdge (h : n.Offers ls es) : ∀ e ∈ es, n.HasEdge e := by
  cases h with
  | solo h _ =>
    intro e he
    rw [List.mem_singleton.1 he]
    exact h.declared
  | joint _ h =>
    clear * - h
    induction h with
    | nil => simp
    | cons hae _ ih => exact List.forall_mem_cons.2 ⟨hae.1.declared, ih⟩

/-- No process takes two of the edges. -/
theorem Offers.processes_nodup (h : n.Offers ls es) (hv : n.Valid) (hm : n.SyncsMatch)
    (hls : n.IsVector ls) : (es.map (·.process)).Nodup := by
  cases h with
  | solo => exact List.nodup_singleton _
  | joint hs h =>
    have hd := hm.distinct _ hs
    rw [← action_of_joint hv hls h, List.map_map] at hd
    exact hd

/-! ## Joint choices -/

/-- The edges with which a process can do its part of a synchronisation. -/
def choices (n : Network) (ls : List Nat) (a : Nat × Nat) : List Edge :=
  n.edges.toList.filter fun e => ls[a.1]? == some e.source && e.event == a.2

/-- Every way to choose an edge for each process of a synchronisation. -/
def picks (n : Network) (ls : List Nat) : List (Nat × Nat) → List (List Edge)
  | [] => [[]]
  | a :: s => (n.choices ls a).flatMap fun e => (n.picks ls s).map (e :: ·)

theorem mem_choices {a : Nat × Nat} : e ∈ n.choices ls a ↔ n.Leaves ls a.1 e ∧ e.event = a.2 := by
  unfold choices
  rw [List.mem_filter, ← hasEdge_iff, Bool.and_eq_true, beq_iff_eq, beq_iff_eq, ← and_assoc]
  constructor
  · rintro ⟨⟨he, hl⟩, hev⟩
    exact ⟨⟨he, hl⟩, hev⟩
  · rintro ⟨⟨he, hl⟩, hev⟩
    exact ⟨⟨he, hl⟩, hev⟩

theorem mem_picks {s : List (Nat × Nat)} :
    es ∈ n.picks ls s ↔ List.Forall₂ (fun a e => n.Leaves ls a.1 e ∧ e.event = a.2) s es := by
  induction s generalizing es with
  | nil => simp [picks]
  | cons a s ih =>
    rw [picks, List.mem_flatMap, List.forall₂_cons_left_iff]
    constructor
    · rintro ⟨e, he, hes⟩
      obtain ⟨es', hes', rfl⟩ := List.mem_map.1 hes
      exact ⟨e, es', mem_choices.1 he, ih.1 hes', rfl⟩
    · rintro ⟨e, es', he, hes', rfl⟩
      exact ⟨e, mem_choices.2 he, List.mem_map.2 ⟨es', ih.2 hes', rfl⟩⟩

theorem picks_nodup (hv : n.Valid) (ls : List Nat) (s : List (Nat × Nat)) : (n.picks ls s).Nodup := by
  induction s with
  | nil => exact List.nodup_singleton _
  | cons a s ih =>
    rw [picks, List.nodup_flatMap]
    constructor
    · intro e _
      exact ih.map (List.cons_injective)
    · have hnd : (n.choices ls a).Nodup := hv.edges_nodup.filter _
      refine hnd.imp fun hne es h₁ h₂ => hne ?_
      obtain ⟨es₁, -, rfl⟩ := List.mem_map.1 h₁
      obtain ⟨es₂, -, heq⟩ := List.mem_map.1 h₂
      exact (List.cons.inj heq).1.symm

theorem extendEach_flatMap {α : Type} (lists : List (List α)) (choices : List α)
    (rest : List (List α)) :
    ((extendEach lists choices).flatMap fun xs => rest.map (xs ++ ·)) =
      lists.flatMap fun xs => (choices.flatMap fun x => rest.map (x :: ·)).map (xs ++ ·) := by
  unfold extendEach
  rw [List.flatMap_assoc]
  congr 1
  funext xs
  simp [List.flatMap_map, List.map_flatMap, List.map_map, Function.comp_def]

/-- The search for joint choices, without its early exit. -/
theorem jointEdges_eq (hv : n.Valid) (hls : n.IsVector ls) {s : List (Nat × Nat)}
    (hs : ∀ a ∈ s, a.1 < n.processes.size) (chosen : List (List Edge)) :
    n.jointEdges ls chosen s = .ok (chosen.flatMap fun es => (n.picks ls s).map (es ++ ·)) := by
  induction s generalizing chosen with
  | nil => simp [jointEdges, picks]
  | cons a s ih =>
    obtain ⟨process, event⟩ := a
    obtain ⟨hp, hs⟩ := List.forall_mem_cons.1 hs
    rw [← hls.length] at hp
    have hat : ls[process]? = some ls[process] := List.getElem?_eq_getElem hp
    obtain ⟨loc, hloc⟩ := hls.exists_location (List.getElem_mem hp)
    have hes := edgesFrom_eq hv (Array.getElem?_eq_some_iff.1 hloc).1
    have hchoices : (n.departing ls[process]).filter (·.event == event) =
        n.choices ls (process, event) := by
      unfold departing choices
      rw [List.filter_filter]
      refine List.filter_congr fun e _ => ?_
      rw [hat, Bool.and_comm, Option.some_beq_some, BEq.comm]
    simp only [jointEdges, item, hat, hes, hchoices, bind, Except.bind, picks, ← extendEach_flatMap]
    split
    · rename_i hnil
      rw [hnil]
      rfl
    · exact ih hs _

theorem syncEdges_eq (hv : n.Valid) (hls : n.IsVector ls) {ss : List (List (Nat × Nat))}
    (hss : ∀ s ∈ ss, ∀ a ∈ s, a.1 < n.processes.size ∧ a.2 < n.events.size) :
    n.syncEdges ls ss = .ok (ss.flatMap (n.picks ls)) := by
  induction ss with
  | nil => rfl
  | cons s ss ih =>
    obtain ⟨hs, hss⟩ := List.forall_mem_cons.1 hss
    have hjoint := jointEdges_eq hv hls (fun a ha => (hs a ha).1) [[]]
    simp [syncEdges, hjoint, ih hss, bind, Except.bind]

/-! ## Single edges -/

/-- The edges that the processes may take on their own, process by process. -/
def solos (n : Network) (ls : List (Nat × Nat)) : List (List Edge) :=
  ls.flatMap fun x => ((n.departing x.1).filter fun e => !n.isSynchronized x.2 e.event).map ([·])

theorem soloEdges_eq (hv : n.Valid) (process : Nat) (hls : ∀ l ∈ ls, l < n.locations.size) :
    n.soloEdges process ls = .ok (n.solos (ls.zipIdx process)) := by
  induction ls generalizing process with
  | nil => rfl
  | cons l ls ih =>
    obtain ⟨hl, hls⟩ := List.forall_mem_cons.1 hls
    simp [soloEdges, edgesFrom_eq hv hl, ih (process + 1) hls, bind, Except.bind, solos]

theorem mem_solos : es ∈ n.solos ls.zipIdx ↔
    ∃ p e, n.Leaves ls p e ∧ n.isSynchronized p e.event = false ∧ es = [e] := by
  unfold solos departing
  simp only [List.mem_flatMap, List.mem_map, List.mem_filter, ← hasEdge_iff, Prod.exists,
    List.mem_zipIdx_iff_getElem?, beq_iff_eq, Bool.not_eq_true']
  constructor
  · rintro ⟨l, p, hl, e, ⟨⟨he, rfl⟩, hs⟩, rfl⟩
    exact ⟨p, e, ⟨he, hl⟩, hs, rfl⟩
  · rintro ⟨p, e, ⟨he, hl⟩, hs, rfl⟩
    exact ⟨e.source, p, hl, e, ⟨⟨he, rfl⟩, hs⟩, rfl⟩

theorem solos_nodup (hv : n.Valid) (hls : n.IsVector ls) : (n.solos ls.zipIdx).Nodup := by
  unfold solos
  rw [List.nodup_flatMap]
  constructor
  · intro x _
    exact ((hv.edges_nodup.filter _).filter _).map fun e e' h => List.singleton_inj.1 h
  · have hlt : ls.zipIdx.Pairwise fun x y => x.2 < y.2 := by
      have hrange : (ls.zipIdx.map Prod.snd).Pairwise (· < ·) := by
        rw [List.zipIdx_map_snd]
        exact List.pairwise_lt_range'
      exact List.pairwise_map.1 hrange
    -- an edge tells its process, so different processes have no edge in common
    have hprocess : ∀ x ∈ ls.zipIdx, ∀ es ∈ ((n.departing x.1).filter fun e =>
        !n.isSynchronized x.2 e.event).map ([·]), es.map (·.process) = [x.2] := by
      intro x hx es hes
      obtain ⟨e, he, rfl⟩ := List.mem_map.1 hes
      obtain ⟨hdecl, hsource⟩ := List.mem_filter.1 (List.mem_of_mem_filter he)
      have hleaves : n.Leaves ls x.2 e := by
        refine ⟨hasEdge_iff.2 hdecl, ?_⟩
        rw [beq_iff_eq.1 hsource]
        exact List.mem_zipIdx_iff_getElem?.1 hx
      rw [List.map_singleton, hleaves.process_eq hv hls]
    refine hlt.imp_of_mem fun {x y} hx hy hxy es h₁ h₂ => ?_
    have hsame := (hprocess x hx es h₁).symm.trans (hprocess y hy es h₂)
    exact Nat.ne_of_lt hxy (List.singleton_inj.1 hsame)

/-! ## Candidates -/

/-- All edges that may be taken together but for committed locations. -/
def offered (n : Network) (ls : List Nat) : List (List Edge) :=
  n.solos ls.zipIdx ++ n.syncs.flatMap (n.picks ls)

theorem candidates_eq (hv : n.Valid) (hls : n.IsVector c.locations) :
    n.candidates c = .ok (if c.locations.any n.isCommitted then
      (n.offered c.locations).filter fun es => es.any fun e => n.isCommitted e.source
      else n.offered c.locations) := by
  have hsolo := soloEdges_eq hv 0 fun l hl => by
    obtain ⟨loc, hloc⟩ := hls.exists_location hl
    exact (Array.getElem?_eq_some_iff.1 hloc).1
  simp only [candidates, hsolo, syncEdges_eq hv hls hv.sync, bind, Except.bind, offered]
  split <;> rfl

theorem mem_offered (hm : n.SyncsMatch) : es ∈ n.offered ls ↔ n.Offers ls es := by
  have hsync : ∀ p e, n.isSynchronized p e = false ↔ ∀ s ∈ n.syncs, (p, e) ∉ s := by
    intro p e
    rw [← Bool.not_eq_true, hm.isSynchronized_iff]
    simp
  unfold offered
  rw [List.mem_append, mem_solos, List.mem_flatMap]
  constructor
  · rintro (⟨p, e, he, hs, rfl⟩ | ⟨s, hs, hes⟩)
    · exact .solo he ((hsync _ _).1 hs)
    · exact .joint hs (mem_picks.1 hes)
  · intro h
    cases h with
    | solo h hs => exact .inl ⟨_, _, h, (hsync _ _).2 hs, rfl⟩
    | joint hs h => exact .inr ⟨_, hs, mem_picks.2 h⟩

theorem exists_candidates (hv : n.Valid) (hm : n.SyncsMatch) (hls : n.IsVector c.locations) :
    ∃ ess, n.candidates c = .ok ess ∧
      ∀ es, es ∈ ess ↔ n.Offers c.locations es ∧ n.Permits c.locations es := by
  refine ⟨_, candidates_eq hv hls, fun es => ?_⟩
  unfold Permits
  split
  · rename_i hany
    rw [List.any_eq_true] at hany
    simp [List.mem_filter, mem_offered hm, hany]
  · rename_i hany
    rw [List.any_eq_true] at hany
    simp [mem_offered hm, hany]

/-! ## Multiplicities -/

/-- A joint choice occurs once for each declaration of its synchronisation. -/
theorem count_picks (hv : n.Valid) (hls : n.IsVector ls) {s : List (Nat × Nat)}
    (h : es ∈ n.picks ls s) (ss : List (List (Nat × Nat))) :
    (ss.flatMap (n.picks ls)).count es = ss.count s := by
  have hs := action_of_joint hv hls (mem_picks.1 h)
  induction ss with
  | nil => rfl
  | cons s' ss ih =>
    rw [List.flatMap_cons, List.count_append, ih, List.count_cons, Nat.add_comm]
    congr 1
    split
    · rename_i heq
      rw [beq_iff_eq.1 heq]
      exact List.count_eq_one_of_mem (picks_nodup hv ls s) h
    · rename_i hne
      rw [List.count_eq_zero]
      intro hmem
      apply hne
      rw [beq_iff_eq, ← hs, action_of_joint hv hls (mem_picks.1 hmem)]

/-- How often edges are offered together: a single edge once, and a joint choice as often as its
synchronisation is declared. -/
theorem count_offered (hv : n.Valid) (hm : n.SyncsMatch) (hls : n.IsVector ls) (h : n.Offers ls es) :
    (n.offered ls).count es =
      if es.length = 1 then 1 else n.syncs.count (es.map Edge.action) := by
  have hmem := (mem_offered hm).2 h
  unfold offered at hmem ⊢
  rw [List.count_append]
  cases h with
  | @solo p e he hs =>
    have hjoint : ∀ es' ∈ n.syncs.flatMap (n.picks ls), 2 ≤ es'.length := by
      intro es' hes'
      obtain ⟨s, hs, hpick⟩ := List.mem_flatMap.1 hes'
      rw [← (mem_picks.1 hpick).length_eq]
      exact hm.joint s hs
    have hnot : [e] ∉ n.syncs.flatMap (n.picks ls) := by
      intro hin
      have := hjoint _ hin
      simp at this
    rcases List.mem_append.1 hmem with hin | hin
    · rw [List.count_eq_one_of_mem (solos_nodup hv hls) hin, List.count_eq_zero.2 hnot]
      simp
    · exact absurd hin hnot
  | joint hs h =>
    have hlen := h.length_eq ▸ hm.joint _ hs
    have hnot : es ∉ n.solos ls.zipIdx := by
      intro hin
      obtain ⟨p, e, -, -, rfl⟩ := mem_solos.1 hin
      simp at hlen
    rw [List.count_eq_zero.2 hnot, count_picks hv hls (mem_picks.2 h), action_of_joint hv hls h,
      if_neg (by omega), Nat.zero_add]

end StateSpace.Network
