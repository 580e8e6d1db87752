import StateSpace.Proofs.Diagram.Path
import StateSpace.Proofs.Exploration.Ledger
import StateSpace.Proofs.Exploration.Steady
import StateSpace.Proofs.Exploration.Survey
import StateSpace.Proofs.Kripke.Moves

/-!
# Searches that track surveys

A search finds what a survey of the engine's chart finds. For every state of the survey it has an entry:
the handle that it recognises the state by. The entry is in the queue, among the handles held and in the
bucket of its hash, and the pool has the references that these account for. Equal hashes do no harm:
a bucket is searched by comparing states.
-/

namespace StateSpace

open StateSpace.Action World

/-! ## The chart of a world -/

section Chart

variable {ε κ : Type} [Engine ε] [LawfulEngine ε] [PausingEngine ε] [ChartedEngine ε κ]

/-- The chart of the engine. -/
def World.chart (w : World ε) : Chart κ := ChartedEngine.chart w.kripke.engine

end Chart

/-! ## What is found -/

/-- Where edges of a state are allowed: the assignment tells the truth about the state, also about its
being dead. -/
def Profile.Allows {κ : Type} (p : Profile) (r : Registry) (m : Chart κ) (c : κ)
    (a : UInt32 → Bool) : Prop :=
  p.props.Agrees (m.state c) a ∧ p.Tells r (m.targets c).isEmpty a

/-- What is found is what the survey has: states with their labels and conditions, of which the first
`v` are known to be dead or not, and edges with the conditions of their sources. -/
structure Found {κ : Type} (m : Chart κ) (p : Profile) (r : Registry) (f : Exploration)
    (sv : Survey κ) (v : Nat) : Prop where
  size : f.states.size = sv.states.length
  label : ∀ (i : Nat) (c : κ) (st : ExploredState), sv.states[i]? = some c →
    f.states[i]? = some st → m.label c = .ok st.label
  condition : ∀ (i : Nat) (c : κ) (st : ExploredState), sv.states[i]? = some c →
    f.states[i]? = some st → r.Writes (p.props.Agrees (m.state c)) st.condition
  dead : ∀ (i : Nat) (c : κ) (st : ExploredState), sv.states[i]? = some c →
    f.states[i]? = some st → st.dead = (decide (i < v) && (m.targets c).isEmpty)
  edges : f.edges.toList.map (fun e => (e.source, e.target)) = sv.edges
  allows : ∀ e ∈ f.edges.toList, ∃ c, sv.states[e.source]? = some c ∧
    r.Writes (p.Allows r m c) e.condition
  truncated : f.truncated = sv.truncated

namespace Found

variable {κ : Type} {m : Chart κ} {p : Profile} {r : Registry} {f : Exploration} {sv : Survey κ}
  {v : Nat} {c : κ}

theorem empty (m : Chart κ) (p : Profile) (r : Registry) (name : String) :
    Found m p r { name } ⟨[], [], false⟩ 0 where
  size := rfl
  label i c st h := by cases h
  condition i c st h := by cases h
  dead i c st h := by cases h
  edges := rfl
  allows e h := by cases h
  truncated := rfl

/-- A state is added that is not visited yet. -/
theorem push (h : Found m p r f sv v) (hv : v ≤ sv.states.length) {label condition : String}
    (hl : m.label c = .ok label)
    (hc : r.Writes (p.props.Agrees (m.state c)) condition) :
    Found m p r { f with states := f.states.push { label, condition, dead := false } }
      { sv with states := sv.states ++ [c] } v := by
  have hcases : ∀ (i : Nat) (c' : κ) (st : ExploredState), (sv.states ++ [c])[i]? = some c' →
      (f.states.push { label, condition, dead := false })[i]? = some st →
      (sv.states[i]? = some c' ∧ f.states[i]? = some st) ∨
        (i = sv.states.length ∧ c' = c ∧ st = { label, condition, dead := false }) := by
    intro i c' st hc hst
    rw [Array.getElem?_push, h.size] at hst
    by_cases hi : i = sv.states.length
    · subst hi
      rw [List.getElem?_append_right (Nat.le_refl _), Nat.sub_self] at hc
      rw [if_pos rfl] at hst
      exact .inr ⟨rfl, (Option.some.inj hc).symm, (Option.some.inj hst).symm⟩
    · rw [if_neg hi] at hst
      have hlt : i < sv.states.length := h.size ▸ (Array.getElem?_eq_some_iff.1 hst).1
      rw [List.getElem?_append_left hlt] at hc
      exact .inl ⟨hc, hst⟩
  refine ⟨?_, fun i c' st hc hst => ?_, fun i c' st hc' hst => ?_, fun i c' st hc hst => ?_, h.edges,
    fun e he => ?_, h.truncated⟩
  · rw [Array.size_push, h.size, List.length_append]
    rfl
  · rcases hcases i c' st hc hst with ⟨hc, hst⟩ | ⟨-, rfl, rfl⟩
    · exact h.label i c' st hc hst
    · exact hl
  · rcases hcases i c' st hc' hst with ⟨hc', hst⟩ | ⟨-, rfl, rfl⟩
    · exact h.condition i c' st hc' hst
    · exact hc
  · rcases hcases i c' st hc hst with ⟨hc, hst⟩ | ⟨rfl, rfl, rfl⟩
    · exact h.dead i c' st hc hst
    · simp [Nat.not_lt.2 hv]
  · obtain ⟨c', hc', hwrites⟩ := h.allows e he
    exact ⟨c', getElem?_extend (List.prefix_append _ _) hc', hwrites⟩

/-- The next state is known to be dead or not. -/
theorem mark (h : Found m p r f sv v) (hc : sv.states[v]? = some c) :
    Found m p r { f with states := f.states.modify v fun st =>
      { st with dead := (m.targets c).isEmpty } } sv (v + 1) := by
  have hcases : ∀ (i : Nat) (st : ExploredState), (f.states.modify v fun st =>
      { st with dead := (m.targets c).isEmpty })[i]? = some st → ∃ st₀, f.states[i]? = some st₀ ∧
        st.label = st₀.label ∧ st.condition = st₀.condition ∧
        st.dead = if i = v then (m.targets c).isEmpty else st₀.dead := by
    intro i st hst
    rw [Array.getElem?_modify] at hst
    split at hst
    · rename_i hvi
      obtain ⟨st₀, hst₀, rfl⟩ := Option.map_eq_some_iff.1 hst
      exact ⟨st₀, hst₀, rfl, rfl, (if_pos hvi.symm).symm⟩
    · rename_i hvi
      exact ⟨st, hst, rfl, rfl, (if_neg fun h => hvi h.symm).symm⟩
  refine ⟨?_, fun i c' st hc' hst => ?_, fun i c' st hc' hst => ?_, fun i c' st hc' hst => ?_, h.edges,
    h.allows, h.truncated⟩
  · rw [Array.size_modify]
    exact h.size
  · obtain ⟨st₀, hst₀, hlabel, -⟩ := hcases i st hst
    rw [hlabel]
    exact h.label i c' st₀ hc' hst₀
  · obtain ⟨st₀, hst₀, -, hcondition, -⟩ := hcases i st hst
    rw [hcondition]
    exact h.condition i c' st₀ hc' hst₀
  · obtain ⟨st₀, hst₀, -, -, hdead⟩ := hcases i st hst
    rw [hdead]
    by_cases hi : i = v
    · subst hi
      rw [hc, Option.some.injEq] at hc'
      rw [if_pos rfl, hc', decide_eq_true (Nat.lt_succ_self i), Bool.true_and]
    · rw [if_neg hi, h.dead i c' st₀ hc' hst₀]
      congr 1
      rw [decide_eq_decide]
      omega

/-- An edge is added under the condition of its source. -/
theorem edge (h : Found m p r f sv v) {source : Nat} (hc : sv.states[source]? = some c)
    {condition : String} (hwrites : r.Writes (p.Allows r m c) condition) (target : Nat) :
    Found m p r { f with edges := f.edges.push { source, target, condition } }
      { sv with edges := sv.edges ++ [(source, target)] } v where
  size := h.size
  label := h.label
  condition := h.condition
  dead := h.dead
  edges := by simp [h.edges]
  allows e he := by
    rw [Array.toList_push] at he
    rcases List.mem_append.1 he with he | he
    · exact h.allows e he
    · rw [List.mem_singleton.1 he]
      exact ⟨c, hc, hwrites⟩
  truncated := h.truncated

theorem truncate (h : Found m p r f sv v) :
    Found m p r { f with truncated := true } { sv with truncated := true } v where
  size := h.size
  label := h.label
  condition := h.condition
  dead := h.dead
  edges := h.edges
  allows := h.allows
  truncated := rfl

end Found

/-! ## Entries -/

namespace Search

variable {ε κ : Type} {w₀ w : World ε} {x x' : Search ε} {m : Chart κ}
  {base base' : Handle → Option Slot} {es : List (Handle × κ)} {refs : Nat → Nat} {sv : Survey κ}
  {v : Nat} {c : κ} {d : Handle} {o : Shared} {p : Pool}

/-- The entries are in the queue, in their order, among the handles held, and in the buckets of their
hashes. -/
structure Catalogue (m : Chart κ) (x : Search ε) (es : List (Handle × κ)) : Prop where
  queue : x.queue.toList = es.map Prod.fst
  held : x.held = (es.map Prod.fst).reverse
  known : ∀ (h : UInt64) (t : Handle) (i : Nat),
    (t, i) ∈ x.known.getD h [] ↔ ∃ c : κ, es[i]? = some (t, c) ∧ (m.state c).hash = h

theorem Catalogue.frame (h : Catalogue m x es) (w : World ε) (f : Exploration) :
    Catalogue m { x with world := w, found := f } es := ⟨h.queue, h.held, h.known⟩

/-- A new entry is catalogued. -/
theorem Catalogue.append (h : Catalogue m x es) (d : Handle) (c : κ) :
    Catalogue m { x with
        known := x.known.alter (m.state c).hash fun b => some (b.getD [] ++ [(d, es.length)])
        held := d :: x.held
        queue := x.queue.push d } (es ++ [(d, c)]) where
  queue := by
    show (x.queue.push d).toList = _
    rw [Array.toList_push, h.queue, List.map_append]
    rfl
  held := by
    show d :: x.held = _
    rw [h.held, List.map_append, List.reverse_append]
    rfl
  known k t i := by
    have hold : ∀ c' : κ, es[i]? = some (t, c') → i ≠ es.length :=
      fun c' hc' => Nat.ne_of_lt (List.getElem?_eq_some_iff.1 hc').1
    have hentry : (∃ c' : κ, (es ++ [(d, c)])[i]? = some (t, c') ∧ (m.state c').hash = k) ↔
        (∃ c' : κ, es[i]? = some (t, c') ∧ (m.state c').hash = k) ∨
          (t = d ∧ i = es.length ∧ (m.state c).hash = k) := by
      rcases Nat.lt_trichotomy i es.length with hi | rfl | hi
      · rw [List.getElem?_append_left hi]
        exact ⟨.inl, fun h => h.resolve_right fun h' => absurd h'.2.1 (Nat.ne_of_lt hi)⟩
      · rw [List.getElem?_append_right (Nat.le_refl _), Nat.sub_self]
        constructor
        · rintro ⟨c', hc', rfl⟩
          cases hc'
          exact .inr ⟨rfl, rfl, rfl⟩
        · rintro (⟨c', hc', -⟩ | ⟨rfl, -, rfl⟩)
          · exact absurd rfl (hold c' hc')
          · exact ⟨c, rfl, rfl⟩
      · have hnone : (es ++ [(d, c)])[i]? = none := List.getElem?_eq_none_iff.2 (by simp; omega)
        have hnone' : es[i]? = none := List.getElem?_eq_none_iff.2 (Nat.le_of_lt hi)
        rw [hnone, hnone']
        constructor
        · rintro ⟨c', hc', -⟩
          cases hc'
        · rintro (⟨c', hc', -⟩ | ⟨-, rfl, -⟩)
          · cases hc'
          · exact absurd hi (Nat.lt_irrefl _)
    rw [hentry, ← h.known k t i]
    show (t, i) ∈ (x.known.alter (m.state c).hash _).getD k [] ↔ _
    rw [Std.HashMap.getD_alter]
    by_cases hk : (m.state c).hash = k
    · subst hk
      rw [if_pos (by simp), Option.getD_some, List.mem_append, List.mem_singleton, Prod.mk.injEq,
        ← Std.HashMap.getD_eq_getD_getElem?]
      simp
    · rw [if_neg (by simpa using hk)]
      simp [hk]

/-- The search of a bucket finds an entry for the state, unless the bucket has none. -/
theorem findIn_spec (hd : p.Has d o) (ho : o.state = m.state c) {b : List (Handle × Nat)}
    (hb : ∀ y ∈ b, ∃ (c' : κ) (o' : Shared), es[y.2]? = some (y.1, c') ∧
      o'.state = m.state c' ∧ p.Has y.1 o') :
    ∃ r, findIn p d b = .ok r ∧ (∀ i, r = some i → ∃ t, es[i]? = some (t, c)) ∧
      (r = none → ∀ y ∈ b, es[y.2]? ≠ some (y.1, c)) := by
  induction b with
  | nil => exact ⟨none, rfl, (fun _ hi => nomatch hi), fun _ y hy => absurd hy List.not_mem_nil⟩
  | cons y b ih =>
    obtain ⟨c', o', hy, ho', hhas⟩ := hb y List.mem_cons_self
    obtain ⟨r, hcmp, hr⟩ := m.compare_spec hd hhas ho ho'
    obtain ⟨r', hfind, hsome, hnone⟩ := ih fun z hz => hb z (List.mem_cons_of_mem _ hz)
    unfold findIn
    rw [hcmp]
    by_cases heq : r = .eq
    · refine ⟨some y.2, if_pos heq, fun i hi => ?_, fun h => by cases h⟩
      cases hi
      exact ⟨y.1, by rw [hy, hr.1 heq]⟩
    · refine ⟨r', (if_neg heq).trans hfind, hsome, fun hr' z hz => ?_⟩
      rcases List.mem_cons.1 hz with rfl | hz
      · rw [hy]
        intro h
        have hcc : c' = c := congrArg Prod.snd (Option.some.inj h)
        exact heq (hr.2 hcc.symm)
      · exact hnone hr' z hz

theorem updateFound_ok (f : Exploration → Exploration) (x : Search ε) :
    updateFound f x = .ok () { x with found := f x.found } := rfl

/-- Recognising a state takes a second reference to it. -/
theorem recognise_ok (hs : x.world.kripke.pool.slot? d = some (.ofShared o 1))
    (hp : x.world.kripke.pool.Sound) (i : Nat) : ∃ p,
      Pool.Updated x.world.kripke.pool d (some (.ofShared o 2)) p ∧
      recognise d i x = .ok () { x with
        world := { x.world with kripke := { x.world.kripke with pool := p } }
        known := x.known.alter o.state.hash fun b => some (b.getD [] ++ [(d, i)])
        held := d :: x.held } := by
  obtain ⟨d', p, hclone, hd', hupd⟩ := Pool.clone_spec hp hs
  subst hd'
  refine ⟨p, hupd, ?_⟩
  refine (bind_ok (onWorld_ok (onPool_ok hclone)) _).trans ?_
  refine (bind_ok (a := o.state.hash) (reading_ok ?_) _).trans rfl
  exact Pool.hash_eq hupd.self

/-! ## Tracks -/

variable [Engine ε] [LawfulEngine ε] [PausingEngine ε] [ChartedEngine ε κ]

/-- What no search changes of its structure. -/
structure Within (w₀ w : World ε) : Prop extends w₀.Kept w where
  chart : w.chart = w₀.chart
  paused : PausingEngine.paused w.kripke.engine = PausingEngine.paused w₀.kripke.engine
  registry : w.dict.registry = w₀.dict.registry
  sessions : w.kripke.sessions = w₀.kripke.sessions

/-- The search tracks the survey by its entries; the first `v` states were visited. -/
structure Tracks (w₀ : World ε) (base : Handle → Option Slot) (x : Search ε)
    (es : List (Handle × κ)) (refs : Nat → Nat) (sv : Survey κ) (v : Nat) : Prop where
  within : Within w₀ x.world
  ledger : Ledger w₀.chart x.world.kripke.pool base es refs
  catalogue : Catalogue w₀.chart x es
  states : sv.states = es.map Prod.snd
  nodup : sv.states.Nodup
  visited : v ≤ es.length
  found : Found w₀.chart w₀.kripke.profile w₀.dict.registry x.found sv v

theorem Within.withPool (h : Within w₀ w)
    (hs : World.Sound { w with kripke := { w.kripke with pool := p } }) :
    Within w₀ { w with kripke := { w.kripke with pool := p } } :=
  ⟨⟨hs, h.network, h.profile⟩, h.chart, h.paused, h.registry, h.sessions⟩

theorem Tracks.length (h : Tracks w₀ base x es refs sv v) : sv.states.length = es.length := by
  rw [h.states, List.length_map]

/-- The references may be spelt otherwise. -/
theorem Tracks.congr {refs' : Nat → Nat} (h : Tracks w₀ base x es refs sv v)
    (hr : ∀ i, i < es.length → refs' i = refs i) : Tracks w₀ base x es refs' sv v :=
  { h with ledger := h.ledger.congr hr }

/-- What is found may change together with the survey. -/
theorem Tracks.withFound {f : Exploration} {sv' : Survey κ} {v' : Nat}
    (h : Tracks w₀ base x es refs sv v) (hs : sv'.states = sv.states) (hv : v' ≤ es.length)
    (hf : Found w₀.chart w₀.kripke.profile w₀.dict.registry f sv' v') :
    Tracks w₀ base { x with found := f } es refs sv' v' :=
  ⟨h.within, h.ledger, h.catalogue.frame _ _, hs.trans h.states, hs ▸ h.nodup, hv, hf⟩

/-- The world may change if its pool is as the ledger says. -/
theorem Tracks.withWorld {refs' : Nat → Nat} (h : Tracks w₀ base x es refs sv v) (hw : Within w₀ w)
    (hl : Ledger w₀.chart w.kripke.pool base' es refs') :
    Tracks w₀ base' { x with world := w } es refs' sv v :=
  ⟨hw, hl, h.catalogue.frame _ _, h.states, h.nodup, h.visited, h.found⟩

theorem Tracks.withPool {refs' : Nat → Nat} (h : Tracks w₀ base x es refs sv v)
    (hs : World.Sound { x.world with kripke := { x.world.kripke with pool := p } })
    (hl : Ledger w₀.chart p base' es refs') : Tracks w₀ base'
      { x with world := { x.world with kripke := { x.world.kripke with pool := p } } } es refs' sv v :=
  h.withWorld (h.within.withPool hs) hl

/-! ## Giving references back -/

/-- A handle with the only reference to a state vacates its slot. -/
theorem release_last (h : Tracks w₀ base x es refs sv v)
    (hs : x.world.kripke.pool.slot? d = some (.ofShared o 1)) (hd : d ∉ es.map Prod.fst)
    (hb : ∀ t, t ≠ d → base t = base' t) (hv : base' d = none) :
    ∃ x', onWorld (onPool (Pool.release d)) x = .ok true x' ∧ x'.world.dict = x.world.dict ∧
      Tracks w₀ base' x' es refs sv v := by
  obtain ⟨last, p, hrel, rfl, hupd⟩ := Pool.release_spec (k := 0) h.ledger.sound hs (by decide)
  rw [if_pos rfl] at hupd
  refine ⟨_, onWorld_ok (onPool_ok hrel), rfl, ?_⟩
  refine h.withPool (h.within.sound.withPool hupd fun o' ho' => ?_)
    (h.ledger.other hd hb (hv ▸ hupd))
  obtain ⟨k, hk⟩ := ho'
  cases hupd.self.symm.trans hk

/-- An entry has other references left. -/
theorem release_entry {i k : Nat} (h : Tracks w₀ base x es refs sv v) (hi : es[i]? = some (d, c))
    (hr : refs i = k + 2) (hroom : k + 2 < 2 ^ 32) :
    ∃ x', onWorld (onPool (Pool.release d)) x = .ok false x' ∧ x'.world.dict = x.world.dict ∧
      Tracks w₀ base x' es (Function.update refs i (k + 1)) sv v := by
  obtain ⟨o, ho, hs⟩ := h.ledger.slot i _ hi
  rw [hr] at hs
  have hhas : x.world.kripke.pool.Has d o := ⟨k + 2, hs⟩
  obtain ⟨last, p, hrel, rfl, hupd⟩ := Pool.release_spec (k := k + 1) h.ledger.sound hs hroom
  rw [if_neg (Nat.succ_ne_zero k)] at hupd
  refine ⟨_, onWorld_ok (onPool_ok hrel), rfl, ?_⟩
  exact h.withPool (h.within.sound.withShared (h.within.sound.proper d o hhas) hupd)
    (h.ledger.count hi (hr ▸ hs) hupd)

/-! ## Discovering states -/

/-- A state that is new to the survey becomes its last one. -/
theorem discover_spec (h : Tracks w₀ base x es refs sv v)
    (hs : x.world.kripke.pool.slot? d = some (.ofShared o 1)) (hd : d ∉ es.map Prod.fst)
    (hb : ∀ t, t ≠ d → base t = base' t) (hv : base' d = none)
    (ho : o.state = w₀.chart.state c) (hnew : c ∉ sv.states) (hr : refs es.length = 2) :
    EnsuresFit (discover d) x fun i x' => i = es.length ∧
      Manager.Extends x.world.dict.diagram x'.world.dict.diagram ∧
      Tracks w₀ base' x' (es ++ [(d, c)]) refs { sv with states := sv.states ++ [c] } v := by
  have hhas : x.world.kripke.pool.Has d o := ⟨1, hs⟩
  have hproper := h.within.sound.proper d o hhas
  have hsize : x.found.states.size = es.length := h.found.size.trans h.length
  obtain ⟨p, hupd, hrec⟩ := recognise_ok hs h.ledger.sound x.found.states.size
  have hsound := h.within.sound.withShared hproper hupd
  have hwithin := h.within.withPool hsound
  have hledger := h.ledger.append hd hb hv ho (hr ▸ hupd)
  obtain ⟨label, hlabel⟩ := LawfulEngine.formatState h.within.sound.good hproper
  unfold discover
  refine .of_ok (get_apply _) (.of_ok hrec ?_)
  have hhas' : p.Has d o := ⟨2, hupd.self⟩
  have hformat : Kripke.formatState
      { x.world with kripke := { x.world.kripke with pool := p } } d = .ok label :=
    except_bind_eq_ok.2 ⟨o, hhas'.get_eq, hlabel⟩
  replace hlabel : w₀.chart.label c = .ok label := by
    rw [ho, ← h.within.chart] at hlabel
    rw [← hlabel, ← h.within.chart]
    exact (ChartedEngine.formatState x.world.kripke.engine c).symm
  refine .of_ok (reading_ok hformat) ?_
  refine (onWorld_spec (Kripke.stateCondition_spec hsound hhas')).bind (fun e => ?_)
    fun e x₂ ⟨⟨hsound₂, hgrown, hreg, hk, horder, hval⟩, hx₂⟩ => ?_
  · exact grows_bind (grows_reading _) fun _ => grows_bind (fun _ => Nat.le_refl _) fun _ =>
      grows_bind (fun _ => Nat.le_refl _) fun _ => grows_pure _
  · obtain ⟨text, htext, hwrites⟩ := hsound₂.dict.exists_writes ⟨⟨hgrown.stored, horder⟩, hval⟩
    rw [ho, hreg.trans h.within.registry] at hwrites
    obtain ⟨w₂, known, held, queue, found⟩ := x₂
    cases hx₂
    obtain ⟨d₂, k₂⟩ := w₂
    obtain rfl : k₂ = _ := hk
    refine .of_ok (reading_ok htext) (.of_ok (updateFound_ok _ _) (.of_ok (modify_apply _ _)
      (EnsuresFit.pure ⟨hsize, hgrown.extend, ?_⟩)))
    have hcat := h.catalogue.append d c
    refine ⟨⟨⟨hsound₂, hwithin.network, hwithin.profile⟩, hwithin.chart, hwithin.paused,
      hreg.trans hwithin.registry, hwithin.sessions⟩, hledger,
      ⟨hcat.queue, hcat.held, ?_⟩, ?_, ?_, ?_, ?_⟩
    · rw [ho, hsize]
      exact hcat.known
    · rw [h.states, List.map_append]
      rfl
    · rw [List.nodup_append]
      refine ⟨h.nodup, List.nodup_singleton _, fun a ha b hb => ?_⟩
      rw [List.mem_singleton.1 hb]
      rintro rfl
      exact hnew ha
    · rw [List.length_append]
      exact Nat.le_trans h.visited (Nat.le_add_right _ _)
    · exact h.found.push (h.length ▸ h.visited) hlabel (h.within.profile ▸ hwrites)

/-! ## Recognising states -/

variable [DecidableEq κ]

theorem Tracks.idxOf_eq {i : Nat} (h : Tracks w₀ base x es refs sv v)
    (hi : es[i]? = some (d, c)) : c ∈ sv.states ∧ sv.states.idxOf c = i := by
  have hi' : sv.states[i]? = some c := by rw [h.states, List.getElem?_map, hi]; rfl
  refine ⟨List.mem_of_getElem? hi', ?_⟩
  obtain ⟨hlt, hc⟩ := List.getElem?_eq_some_iff.1 hi'
  rw [← hc]
  exact h.nodup.idxOf_getElem i hlt

/-- A state is found under its number in the survey, whatever the hashes of the others are. -/
theorem find_spec (h : Tracks w₀ base x es refs sv v) (hd : x.world.kripke.pool.Has d o)
    (ho : o.state = w₀.chart.state c) :
    find d x = .ok (if c ∈ sv.states then some (sv.states.idxOf c) else none) x := by
  have hhash : x.world.kripke.pool.hash d = .ok (w₀.chart.state c).hash := by
    rw [hd.hash_eq, ho]
  have hb : ∀ y ∈ x.known.getD (w₀.chart.state c).hash [], ∃ (c' : κ) (o' : Shared),
      es[y.2]? = some (y.1, c') ∧ o'.state = w₀.chart.state c' ∧
        x.world.kripke.pool.Has y.1 o' := by
    intro y hy
    obtain ⟨c', hc', -⟩ := (h.catalogue.known (w₀.chart.state c).hash y.1 y.2).1 hy
    obtain ⟨o', ho', hhas⟩ := h.ledger.has hc'
    exact ⟨c', o', hc', ho', hhas⟩
  obtain ⟨r, hfind, hsome, hnone⟩ := findIn_spec hd ho hb
  refine reading_ok (except_bind_eq_ok.2 ⟨_, hhash, hfind.trans (congrArg Except.ok ?_)⟩)
  cases r with
  | some i =>
    obtain ⟨t, hi⟩ := hsome i rfl
    obtain ⟨hmem, hidx⟩ := h.idxOf_eq hi
    rw [if_pos hmem, hidx]
  | none =>
    rw [if_neg]
    intro hmem
    rw [h.states] at hmem
    obtain ⟨⟨t, c'⟩, hx, rfl⟩ := List.mem_map.1 hmem
    obtain ⟨i, hi⟩ := List.mem_iff_getElem?.1 hx
    exact hnone rfl (t, i) ((h.catalogue.known _ t i).2 ⟨_, hi, rfl⟩) hi

/-! ## Placing destinations -/

/-- A fresh destination is placed as the survey enters its state. -/
theorem place_spec (limit : Option Nat) (h : Tracks w₀ base x es refs sv v)
    (hs : x.world.kripke.pool.slot? d = some (.ofShared o 1)) (hd : d ∉ es.map Prod.fst)
    (hb : ∀ t, t ≠ d → base t = base' t) (hv : base' d = none)
    (ho : o.state = w₀.chart.state c) (hr : refs es.length = 2) :
    EnsuresFit (place limit d) x fun r x' => r = (sv.enter limit c).1 ∧
      Manager.Extends x.world.dict.diagram x'.world.dict.diagram ∧
      ∃ es', es <+: es' ∧ Tracks w₀ base' x' es' refs (sv.enter limit c).2 v := by
  unfold place Survey.enter
  refine .of_ok (find_spec h ⟨1, hs⟩ ho) ?_
  by_cases hold : c ∈ sv.states
  · rw [if_pos hold, if_pos hold]
    obtain ⟨x', hrel, hdict, h'⟩ := release_last h hs hd hb hv
    refine .of_ok hrel (EnsuresFit.pure ⟨rfl, ?_, es, List.prefix_rfl, h'⟩)
    rw [hdict]
    exact .refl _
  · rw [if_neg hold, if_neg hold]
    refine .of_ok (get_apply _) ?_
    have hsize : x.found.states.size = sv.states.length := h.found.size
    unfold isFull
    rw [hsize]
    by_cases hfull : limit.any (· ≤ sv.states.length) = true
    · rw [if_pos hfull, if_pos hfull]
      have h₁ : Tracks w₀ base { x with found := { x.found with truncated := true } } es refs
          { sv with truncated := true } v := h.withFound rfl h.visited h.found.truncate
      obtain ⟨x', hrel, hdict, h'⟩ := release_last h₁ hs hd hb hv
      refine .of_ok (updateFound_ok _ _) (.of_ok hrel
        (EnsuresFit.pure ⟨rfl, ?_, es, List.prefix_rfl, h'⟩))
      rw [hdict]
      exact .refl _
    · rw [if_neg hfull, if_neg hfull]
      refine (discover_spec h hs hd hb hv ho hold hr).bind (fun _ => grows_pure _)
        fun i x' ⟨hi, hx, h'⟩ => EnsuresFit.pure ⟨?_, hx, _, List.prefix_append _ _, h'⟩
      rw [hi, h.length]

/-- A destination that is an entry already is placed there. -/
theorem place_entry {i k : Nat} (limit : Option Nat) (h : Tracks w₀ base x es refs sv v)
    (hi : es[i]? = some (d, c)) (hr : refs i = k + 2) (hroom : k + 2 < 2 ^ 32) :
    ∃ x', place limit d x = .ok (some i) x' ∧ x'.world.dict = x.world.dict ∧
      Tracks w₀ base x' es (Function.update refs i (k + 1)) sv v := by
  obtain ⟨o, ho, hhas⟩ := h.ledger.has hi
  obtain ⟨x', hrel, hdict, h'⟩ := release_entry h hi hr hroom
  obtain ⟨hmem, hidx⟩ := h.idxOf_eq hi
  refine ⟨x', ?_, hdict, h'⟩
  unfold place
  refine (bind_ok (find_spec h hhas ho) _).trans ?_
  rw [if_pos hmem, hidx]
  exact (bind_ok hrel _).trans rfl

end Search

end StateSpace
