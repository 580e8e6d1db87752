import StateSpace.Proofs.Network.Additions
import StateSpace.Proofs.Network.Bound

/-!
# Consistent networks

What is looked up in a network does not depend on the table in which it is looked up: names and numbers
are inverse to each other, a location is found under its name, and the edges that leave a location are
those that start there. This is so for every network that is built by additions and for every network
that is read from a text; in the latter all numbers that expressions and synchronisations mention are
in range as well.
-/

namespace StateSpace

/-- Names and numbers are inverse to each other, and the numbers are those below the size. -/
structure NameTable.Dense (t : NameTable) : Prop where
  inverse : ∀ name id, t.find? name = some id ↔ t.get? id = some name
  named : ∀ id, (∃ name, t.get? id = some name) ↔ id < t.size

theorem NameTable.dense (t : NameTable) : t.Dense where
  inverse := t.inverse
  named id := by
    unfold get? size
    rw [← Option.isSome_iff_exists, isSome_getElem?]

namespace Network

variable {n : Network}

/-- The tables agree in all that is looked up in them. -/
structure Consistent (n : Network) : Prop where
  names : ∀ t ∈ [n.events, n.processes, n.ints, n.clocks], t.Dense
  apart : ∀ name, n.ints.find? name = none ∨ n.clocks.find? name = none
  domains_size : n.domains.size = n.ints.size
  initial : ∀ d ∈ n.domains, d.min ≤ d.initial ∧ d.initial ≤ d.max
  location_id : ∀ (i : Nat) (l : Location), n.locations[i]? = some l → l.id = i
  edge_id : ∀ (i : Nat) (e : Edge), n.edges[i]? = some e → e.id = i
  found : ∀ p name i, n.findLocation? p name = some i ↔
    ∃ l, n.locations[i]? = some l ∧ l.process = p ∧ l.name = name
  ends : ∀ e ∈ n.edges, n.belongs e.process e.source = true ∧ n.belongs e.process e.target = true
  departing : ∀ l < n.locations.size, ∃ es, n.edgesFrom? l = some es ∧
    (∀ e, e ∈ es ↔ e ∈ n.edges ∧ e.source = l) ∧ es.Pairwise fun e e' => e.id < e'.id

theorem Coherent.pairwise_id (h : n.Coherent) : n.edges.toList.Pairwise fun e e' => e.id < e'.id := by
  rw [List.pairwise_iff_getElem]
  intro i j hi hj hij
  rw [Array.length_toList] at hi hj
  rw [Array.getElem_toList, Array.getElem_toList, (h.edge i _ (Array.getElem?_eq_getElem hi)).id,
    (h.edge j _ (Array.getElem?_eq_getElem hj)).id]
  exact hij

theorem Coherent.consistent (h : n.Coherent) : n.Consistent where
  names t _ := t.dense
  apart name := by
    cases hfind : n.ints.find? name with
    | none => exact .inl rfl
    | some i => exact .inr (h.apart name i hfind)
  domains_size := h.domains_size
  initial d hd := by
    obtain ⟨i, hi⟩ := Array.mem_iff_getElem?.1 hd
    have hcontains := contains_iff.1 (h.domain i d hi)
    exact ⟨Int32.le_iff_toInt_le.2 hcontains.1, Int32.le_iff_toInt_le.2 hcontains.2⟩
  location_id i l hl := (h.location i l hl).id
  edge_id i e he := (h.edge i e he).id
  found p name i := h.findLocation?_eq_some_iff
  ends e he := by
    obtain ⟨i, hi⟩ := Array.mem_iff_getElem?.1 he
    exact ⟨(h.edge i e hi).source, (h.edge i e hi).target⟩
  departing l hl := by
    refine ⟨_, h.edgesFrom?_eq hl, fun e => ?_, h.pairwise_id.filter _⟩
    unfold Network.departing
    rw [List.mem_filter, beq_iff_eq, Array.mem_toList_iff]

/-- However a network is built, what is looked up in its tables agrees. The same is true of every
network that is read from a text; there each synchronisation names two or more different processes
with events, an event is only taken in a synchronisation exactly if one names it, and expressions
mention nothing that is not declared. -/
theorem tables_consistent :
    (∀ (name : String) (as : List Addition), (build name as).Consistent) ∧
    ∀ (text : String) (n : Network) (ws : List Warning), parse text = .ok (n, ws) →
      n.Consistent ∧
      (∀ s ∈ n.syncs, 2 ≤ s.length ∧ (s.map Prod.fst).Nodup ∧
        ∀ c ∈ s, c.1 < n.processes.size ∧ c.2 < n.events.size) ∧
      (∀ p e, n.isSynchronized p e = true ↔ ∃ s ∈ n.syncs, (p, e) ∈ s) ∧
      (∀ l ∈ n.locations, l.invariant.Within n.ints.size n.clocks.size) ∧
      ∀ e ∈ n.edges, e.guard.Within n.ints.size n.clocks.size ∧
        ∀ u ∈ e.updates, u.Within n.ints.size n.clocks.size := by
  refine ⟨fun name as => (build_coherent name as).consistent, fun text n ws hparse => ?_⟩
  have hv := parse_valid hparse
  have hm := parse_syncsMatch hparse
  refine ⟨hv.consistent, fun s hs => ⟨hm.joint s hs, hm.distinct s hs, hv.sync s hs⟩,
    fun p e => hm.isSynchronized_iff, fun l hl => ?_, fun e he => ?_⟩
  · obtain ⟨i, hi⟩ := Array.mem_iff_getElem?.1 hl
    exact hv.invariant i l hi
  · obtain ⟨i, hi⟩ := Array.mem_iff_getElem?.1 he
    exact hv.edgeInScope i e hi

/-- Additions of which four are refused, and a text with a synchronisation. -/
theorem tables_consistent_mixed : ∃ (as : List Addition) (n : Network) (ws : List Warning),
    as = [.process "P", .location { id := 7, process := 0, name := "a" }, .process "P", .event "e",
      .int "v" ⟨0, 1, 0⟩, .clock "v", .location { id := 0, process := 0, name := "a" },
      .edge { id := 7, process := 0, source := 0, target := 0, event := 0 }, .sync [(0, 0), (0, 0)]] ∧
    (build "m" as).Consistent ∧ (build "m" as).findLocation? 0 "a" = some 0 ∧
    (build "m" as).edgesFrom? 0 =
      some [{ id := 0, process := 0, source := 0, target := 0, event := 0 }] ∧
    parse ("system:s\nevent:e\nprocess:P\nprocess:Q\nlocation:P:a\nlocation:Q:a\n" ++
      "int:1:0:1:0:v\nedge:P:a:a:e\x7bprovided: v<1 : do: v=1\x7d\nsync:P@e:Q@e") = .ok (n, ws) ∧
    n.Consistent ∧ n.syncs = [[(0, 0), (1, 0)]] ∧ ∃ s ∈ n.syncs, (1, 0) ∈ s := by
  obtain ⟨⟨n, ws⟩, hparse, hread⟩ := exists_ok_of_any (x := parse
    ("system:s\nevent:e\nprocess:P\nprocess:Q\nlocation:P:a\nlocation:Q:a\n" ++
      "int:1:0:1:0:v\nedge:P:a:a:e\x7bprovided: v<1 : do: v=1\x7d\nsync:P@e:Q@e"))
    (p := fun y => y.1.syncs = [[(0, 0), (1, 0)]] ∧ y.1.isSynchronized 1 0 = true)
    (by decide +kernel)
  obtain ⟨hsyncs, hmarked⟩ := of_decide_eq_true hread
  obtain ⟨hconsistent, -, hsync, -⟩ := tables_consistent.2 _ n ws hparse
  exact ⟨_, n, ws, rfl, tables_consistent.1 "m" _, by decide +kernel, by decide +kernel, hparse,
    hconsistent, hsyncs, (hsync 1 0).1 hmarked⟩

end Network

end StateSpace
