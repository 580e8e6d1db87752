import StateSpace.Proofs.Exploration.Cut
import StateSpace.Proofs.Exploration.Visit
import StateSpace.Proofs.Network.Bound
import StateSpace.Proofs.Network.Parse

/-!
# Explorations

The visits of a search reach every state that it finds if there are no more of them than the engine's
bound. What the search took is given back in the end: the slots of the pool are as before, and so are
the pauses of the engine and the sessions. The bound of a graph is always enough, so that without a
limit every configuration is found.
-/

namespace StateSpace

open StateSpace.Action World

section Charted

variable {ε κ : Type} [Engine ε] [LawfulEngine ε] {w : World ε} {base : Handle → Option Slot}
  {es : List (Handle × κ)} {sv : Survey κ} {c₀ : κ} {limit : Option Nat}

/-! ## The end of a search -/

/-- The references to entries are given back, in any order. -/
theorem Search.releaseAll_spec {m : Chart κ} {order : List Handle} (hw : w.Sound)
    (hl : Ledger m w.kripke.pool base es fun _ => 1) (horder : order.Perm (es.map Prod.fst)) : ∃ p,
    releaseAll order w = .ok () { w with kripke := { w.kripke with pool := p } } ∧
    Sound { w with kripke := { w.kripke with pool := p } } ∧ p.slot? = base := by
  induction order generalizing w es with
  | nil =>
    obtain rfl : es = [] := List.map_eq_nil_iff.1 (List.nil_perm.1 horder)
    exact ⟨w.kripke.pool, rfl, hw, funext fun t => hl.frame t List.not_mem_nil⟩
  | cons s order ih =>
    obtain ⟨⟨s, c⟩, hmem, rfl⟩ := List.mem_map.1 (horder.mem_iff.1 List.mem_cons_self)
    obtain ⟨before, after, rfl⟩ := List.append_of_mem hmem
    -- the entry may as well be the last one
    have hlast := hl.perm ((List.perm_append_singleton (s, c) (before ++ after)).trans
      List.perm_middle.symm)
    obtain ⟨o, -, hslot⟩ := hlast.slot _ (s, c) (List.getElem?_concat_length ..)
    obtain ⟨last, p₁, hrel, rfl, hupd⟩ := Pool.release_spec (k := 0) hl.sound hslot (by decide)
    rw [if_pos rfl] at hupd
    have hw₁ := hw.withPool hupd fun o' ho' => by
      obtain ⟨k, hk⟩ := ho'
      cases hupd.self.symm.trans hk
    have hrest := (horder.trans (List.perm_middle.map _)).cons_inv
    obtain ⟨p, hrun, hsound, hbase⟩ := ih hw₁ (hlast.dropLast hupd) hrest
    exact ⟨p, (bind_ok (onPool_ok hrel) _).trans hrun, hsound, hbase⟩

variable [PausingEngine ε] [ChartedEngine ε κ]

/-- A session is closed if the engine is paused. -/
theorem Kripke.closeSession_ok (h : PausingEngine.paused w.kripke.engine ≠ 0) : ∃ e,
    closeSession w = .ok ()
      { w with kripke := { w.kripke with engine := e, sessions := w.kripke.sessions - 1 } } ∧
    PausingEngine.paused w.kripke.engine = PausingEngine.paused e + 1 ∧
    ChartedEngine.chart e = w.chart := by
  obtain ⟨_, e, hresume, hchart⟩ := ChartedEngine.resume h
  exact ⟨e, (bind_ok (onEngine_ok hresume) _).trans rfl, PausingEngine.resume hresume, hchart⟩

/-- What opening a session does to the pauses and the chart of the engine. -/
theorem World.opened_engine (w : World ε) :
    PausingEngine.paused w.opened.kripke.engine = PausingEngine.paused w.kripke.engine + 1 ∧
      w.opened.chart = w.chart :=
  ⟨PausingEngine.pause w.kripke.engine, ChartedEngine.pause w.kripke.engine⟩

namespace Search

/-- The end of a search takes its references and its session back. -/
theorem finish_spec {x : Search ε} {v : Nat} (hw : w.Sound)
    (h : Tracks w.opened base x es (queueRefs v) sv v) (hv : v = es.length) :
    ∃ w', finish x.held x.world = .ok () w' ∧ Within w w' ∧ w'.kripke.pool.slot? = base := by
  have hone : Ledger w.opened.chart x.world.kripke.pool base es fun _ => 1 :=
    h.ledger.congr fun i hi => (if_pos (hv ▸ hi)).symm
  have hheld : x.held.Perm (es.map Prod.fst) := by
    rw [h.catalogue.held]
    exact List.reverse_perm _
  obtain ⟨p, hrel, hsound, hbase⟩ := releaseAll_spec h.within.sound hone hheld
  obtain ⟨hpaused, hchart⟩ := w.opened_engine
  replace hpaused := h.within.paused.trans hpaused
  obtain ⟨e, hclose, hresumed, hchart'⟩ := Kripke.closeSession_ok
    (w := { x.world with kripke := { x.world.kripke with pool := p } })
    (hpaused.trans_ne (Nat.succ_ne_zero _))
  have hkept := Move.kept_closeSession hsound hclose
  refine ⟨_, (bind_ok hrel _).trans hclose, ⟨⟨hkept.sound, ?_, h.within.profile⟩, ?_, ?_,
    h.within.registry, ?_⟩, hbase⟩
  · exact (hkept.network.trans h.within.network).trans (LawfulEngine.pause hw.good).2
  · exact hchart'.trans (h.within.chart.trans hchart)
  · exact Nat.succ.inj (hresumed.symm.trans hpaused)
  · show x.world.kripke.sessions - 1 = _
    rw [h.within.sessions]
    rfl

/-! ## Whole searches -/

/-- Without an initial state, or with several, there is nothing to visit. -/
theorem run_unstarted (h : w.Sound) (hstart : w.chart.starts.length ≠ 1) (limit : Option Nat) :
    ∃ e g, run limit (start w) = .ok (.error e)
        { start w with world := { w with kripke := { w.kripke with engine := g } } } ∧
      PausingEngine.paused g = PausingEngine.paused w.kripke.engine := by
  obtain ⟨r, w₂, hinit, -, ss, g, hg, hstarted⟩ := initialState_spec h
  obtain ⟨ss', g', hg', -, hss⟩ := ChartedEngine.initial h.good
  cases hg.symm.trans hg'
  have hpaused := PausingEngine.initial _ w.kripke.engine rfl
  rw [after_ok hg] at hpaused
  have hlength : ss.length ≠ 1 := by
    rw [← List.length_map (·.state), hss, List.length_map]
    exact hstart
  obtain ⟨e, rfl, rfl⟩ := hstarted.error hlength
  exact ⟨e, g, (bind_ok (onWorld_ok hinit) _).trans rfl, hpaused⟩

variable [DecidableEq κ]

/-- The survey of an exploration. -/
def survey (w : World ε) (limit : Option Nat) (c₀ : κ) : Survey κ :=
  Survey.visitFrom limit (next w) w.chart.bound 0 ⟨[c₀], [], false⟩

/-- A search from the only initial state tracks the survey from there, to the end, if the engine's bound
is enough for what the survey finds. -/
theorem run_spec (h : w.Sound) (hstart : w.chart.starts = [c₀])
    (hbound : (survey w limit c₀).states.length ≤ w.chart.bound) :
    EnsuresFit (run limit) (start w) fun r x => r = .ok () ∧
      ∃ es, Tracks w w.kripke.pool.slot? x es (queueRefs es.length) (survey w limit c₀)
        es.length := by
  obtain ⟨r, w₂, hinit, hk₂, ss, g, hg, hstarted⟩ := initialState_spec h
  obtain ⟨ss', g', hg', hchart, hss⟩ := ChartedEngine.initial h.good
  cases hg.symm.trans hg'
  have hpaused := PausingEngine.initial _ w.kripke.engine rfl
  rw [after_ok hg] at hpaused
  rw [show (ChartedEngine.chart w.kripke.engine).starts = _ from hstart] at hss
  obtain ⟨o, rfl, ho⟩ := List.map_eq_singleton_iff.1 hss
  obtain ⟨s, rfl, hvacant, hupd, hw₂⟩ := hstarted
  have hwithin : Within w w₂ := by
    rw [hw₂] at hk₂ ⊢
    exact ⟨hk₂, hchart, hpaused, rfl, rfl⟩
  have hempty : Tracks w w₂.kripke.pool.slot? { start w with world := w₂ } [] (queueRefs 0)
      ⟨[], [], false⟩ 0 :=
    ⟨hwithin, .empty hwithin.sound.pool, ⟨rfl, rfl, fun k t i => by simp [start]⟩, rfl, List.nodup_nil,
      Nat.le_refl _, .empty _ _ _ _⟩
  unfold run
  refine .of_ok (onWorld_ok hinit) ?_
  refine (discover_spec hempty hupd.self List.not_mem_nil (fun t ht => hupd.frame t ht) hvacant ho
    List.not_mem_nil (queueRefs_of_le (Nat.le_refl 0))).bind (fun _ => grows_of_keeps fun hI => ?_)
    fun i x₁ ⟨_, _, h₁⟩ => .of_ok (get_apply _) ?_
  · exact keeps_bind keeps_get fun x => keeps_bind (keeps_visitFrom hI _ _ _) fun _ => keeps_pure _
  · rw [ChartedEngine.bound, show ChartedEngine.chart x₁.world.kripke.engine = w.chart from
      h₁.within.chart]
    refine (visitFrom_spec limit _ h₁ (Nat.le_trans hbound (Nat.le_add_left ..))).bind
      (fun _ => grows_pure _) fun _ x₂ ⟨_, es, _, h₂⟩ => EnsuresFit.pure ⟨rfl, es, h₂⟩

end Search

namespace Kripke

/-- An exploration ends with everything that the survey has, and the structure is as it was: the engine
as often paused, the slots of the pool the same, and no session more. -/
theorem explore_found [DecidableEq κ] (h : w.Sound) (hstart : w.chart.starts = [c₀])
    (hbound : (Search.survey w limit c₀).states.length ≤ w.chart.bound) :
    EnsuresFit (explore limit) w fun r w' => ∃ x, r = .ok x ∧
      Found w.chart w.kripke.profile w.dict.registry x (Search.survey w limit c₀)
        (Search.survey w limit c₀).states.length ∧
      Search.Within w w' ∧ w'.kripke.pool.slot? = w.kripke.pool.slot? := by
  have hchart : w.opened.chart = w.chart := w.opened_engine.2
  have hsurvey : Search.survey w.opened limit c₀ = Search.survey w limit c₀ := by
    unfold Search.survey Search.next
    rw [hchart]
    rfl
  refine .of_ok (openSession_ok w) ?_
  intro hfit
  rw [Search.within_after] at hfit
  have hfit' : Fits ((Search.run limit).after (Search.start _)) := Nat.lt_of_le_of_lt
    (grows_of_keeps (fun hI => Search.keeps_finish hI _) _) hfit
  obtain ⟨r, x, hrun, rfl, es, ht⟩ := Search.run_spec h.opened (hchart ▸ hstart)
    (by rwa [hsurvey, hchart]) hfit'
  obtain ⟨w', hfin, hwithin, hpool⟩ := Search.finish_spec h ht rfl
  have hfound := ht.found
  rw [← ht.length, hsurvey, hchart] at hfound
  exact ⟨_, w', Search.within_ok hrun hfin, x.found, rfl, hfound, hwithin, hpool⟩

/-- Without an initial state, or with several, an exploration ends at once. -/
theorem explore_unstarted (h : w.Sound) (hstart : w.chart.starts.length ≠ 1) (limit : Option Nat) :
    Ensures (explore limit) w fun r _ => ∃ e, r = .error e := by
  obtain ⟨hpaused, hchart⟩ := w.opened_engine
  obtain ⟨e, g, hrun, hg⟩ := Search.run_unstarted h.opened (hchart ▸ hstart) limit
  obtain ⟨g', hclose, -⟩ := closeSession_ok
    (w := { w.opened with kripke := { w.opened.kripke with engine := g } })
    ((hg.trans hpaused).trans_ne (Nat.succ_ne_zero _))
  exact .of_ok (openSession_ok w) ⟨_, _, Search.within_ok hrun hclose, e, rfl⟩

end Kripke

end Charted

variable {w w' : World Graph} {sv : Survey Configuration} {c c₀ : Configuration} {n : Network}
  {x : Exploration}

/-! ## Surveys of networks -/

namespace Search

/-- What leads from an admitted configuration is admitted. -/
theorem admits_of_leads (hv : n.Valid) (hc₀ : n.Admits c₀) {k : Nat} (h : Leads n.targets c₀ k c) :
    n.Admits c := by
  induction h with
  | start => exact hc₀
  | step _ hc ih =>
    obtain ⟨y, hy, rfl⟩ := List.mem_map.1 hc
    exact Network.admits_of_steps hv ih hy

/-- The bound of a network has room for all that steps lead to. -/
theorem length_le_of_leads (hv : n.Valid) (hc₀ : n.Admits c₀) {cs : List Configuration}
    (hnd : cs.Nodup) (hcs : ∀ c ∈ cs, ∃ k, Leads n.targets c₀ k c) :
    cs.length ≤ n.configurationBound :=
  Network.length_le_configurationBound hv hnd fun c hc =>
    (hcs c hc).elim fun _ => admits_of_leads hv hc₀

/-- The engine's bound is enough for the survey of an exploration. -/
theorem survey_next (hv : w.kripke.engine.network.Valid)
    (hc₀ : w.kripke.engine.network.Admits c₀) :
    BreadthFirst (next w) c₀ (survey w none c₀).states ∧
      Survey.Linked (next w) (survey w none c₀) (survey w none c₀).states.length ∧
      (survey w none c₀).states.length ≤ w.kripke.engine.network.configurationBound := by
  have hle : ∀ cs : List Configuration, cs.Nodup → (∀ c ∈ cs, ∃ k, Leads (next w) c₀ k c) →
      cs.length ≤ w.kripke.engine.network.configurationBound := fun cs hnd hcs =>
    length_le_of_leads hv hc₀ hnd fun c hc => exists_leads_withLoops.1 (hcs c hc)
  obtain ⟨hbf, hl⟩ := Survey.survey_spec (next w) c₀ hle
  exact ⟨hbf, hl, hle _ hbf.nodup fun c => (hbf.mem c).1⟩

theorem length_survey_le (h : w.Sound) (hstart : w.kripke.engine.network.starts = [c₀])
    (limit : Option Nat) : (survey w limit c₀).states.length ≤ w.chart.bound := by
  have hle := (survey_next h.good (Network.admits_of_starts h.good
    (hstart ▸ List.mem_singleton_self c₀))).2.2
  cases limit with
  | none => exact hle
  | some n =>
    unfold survey
    rw [Survey.survey_cut]
    exact Nat.le_trans (List.length_take_le' ..) hle

end Search

/-! ## Complete explorations -/

/-- The states of the exploration are the configurations `cs`: all that steps lead to, each once and
nearer ones first. Those without a step are dead. The edges are all steps, state by state and in the
engine's order, and one loop for each dead state if the policy has loops. -/
structure Exploration.Complete (x : Exploration) (n : Network) (policy : DeadPolicy)
    (start : Configuration) (cs : List Configuration) : Prop where
  breadthFirst : BreadthFirst n.targets start cs
  size : x.states.size = cs.length
  label : ∀ (i : Nat) (c : Configuration) (st : ExploredState), cs[i]? = some c →
    x.states[i]? = some st → n.formatState (.configuration c) = .ok st.label
  dead : ∀ (i : Nat) (c : Configuration) (st : ExploredState), cs[i]? = some c →
    x.states[i]? = some st → (st.dead = true ↔ n.targets c = [])
  edges : x.edges.toList.map (fun e => (e.source, e.target)) = cs.zipIdx.flatMap fun c =>
    (n.targets c.1).map (fun t => (c.2, cs.idxOf t)) ++
      if n.targets c.1 = [] ∧ policy ≠ .ignore then [(c.2, c.2)] else []
  truncated : x.truncated = false

/-- The edges of a state with its loop, if there is one. -/
theorem Survey.links_withLoops {succ : Configuration → List Configuration}
    {cs : List Configuration} {policy : DeadPolicy} {i : Nat} (hi : cs.idxOf c = i) :
    Survey.links cs i (withLoops (decide (policy ≠ .ignore)) succ c) =
      (succ c).map (fun t => (i, cs.idxOf t)) ++
        if succ c = [] ∧ policy ≠ .ignore then [(i, i)] else [] := by
  unfold Survey.links withLoops
  cases hs : succ c with
  | nil =>
    by_cases hp : policy = .ignore
    · simp [hp]
    · simp [hp, hi]
  | cons t ts => simp

/-- What is found is complete if the survey is. -/
theorem Found.complete {r : Registry} (h : Found w.chart w.kripke.profile r x sv sv.states.length)
    (hbf : BreadthFirst (Search.next w) c₀ sv.states)
    (hl : Survey.Linked (Search.next w) sv sv.states.length) :
    x.Complete w.kripke.engine.network w.kripke.profile.policy c₀ sv.states where
  breadthFirst := hbf.of_withLoops
  size := h.size
  label := h.label
  dead i c st hc hst := by
    have hi : i < sv.states.length := (List.getElem?_eq_some_iff.1 hc).1
    rw [h.dead i c st hc hst, decide_eq_true hi, Bool.true_and, List.isEmpty_iff]
    exact Iff.rfl
  edges := by
    rw [h.edges, hl.edges, List.take_length]
    refine List.flatMap_congr fun y hy => ?_
    obtain ⟨c, i⟩ := y
    have hci : sv.states[i]? = some c := List.mem_zipIdx_iff_getElem?.1 hy
    obtain ⟨hlt, rfl⟩ := List.getElem?_eq_some_iff.1 hci
    exact Survey.links_withLoops (hbf.nodup.idxOf_getElem i hlt)
  truncated := h.truncated.trans hl.truncated

namespace Kripke

/-- An exploration returns, with a result exactly if there is one initial state. -/
theorem explore_returns (h : w.Sound) (limit : Option Nat) : EnsuresFit (explore limit) w fun r _ =>
    (∃ x, r = .ok x) ↔ w.kripke.engine.network.starts.length = 1 := by
  by_cases hstart : w.kripke.engine.network.starts.length = 1
  · obtain ⟨c₀, hc₀⟩ := List.length_eq_one_iff.1 hstart
    exact (explore_found h hc₀ (Search.length_survey_le h hc₀ limit)).mono
      fun r w' ⟨x, hr, _⟩ => iff_of_true ⟨x, hr⟩ hstart
  · refine (explore_unstarted h hstart limit).fit.mono fun r w' ⟨e, hr⟩ => iff_of_false ?_ hstart
    rintro ⟨x, hx⟩
    cases hr.symm.trans hx

/-- An exploration without a limit ends with everything, and the structure is as it was: the engine as
often paused, the slots of the pool the same, and no session more. -/
theorem explore_spec (h : w.Sound) (hstart : w.kripke.engine.network.starts = [c₀]) :
    EnsuresFit (explore none) w fun r w' => ∃ x cs, r = .ok x ∧
      x.Complete w.kripke.engine.network w.kripke.profile.policy c₀ cs ∧ w'.Sound ∧
      w'.kripke.pool.slot? = w.kripke.pool.slot? ∧
      w'.kripke.engine.network = w.kripke.engine.network ∧
      w'.kripke.engine.paused = w.kripke.engine.paused ∧
      w'.kripke.sessions = w.kripke.sessions ∧ w'.kripke.profile = w.kripke.profile := by
  obtain ⟨hbf, hl, -⟩ := Search.survey_next h.good
    (Network.admits_of_starts h.good (hstart ▸ List.mem_singleton_self c₀))
  refine (explore_found h hstart (Search.length_survey_le h hstart none)).mono
    fun r w' ⟨x, hr, hx, hw, hpool⟩ => ?_
  exact ⟨x, _, hr, hx.complete hbf hl, hw.sound, hpool, hw.network, hw.paused, hw.sessions, hw.profile⟩

/-- A structure over the graph of a text's network, with any propositions, policy and dictionary, is
explored completely at any time, if the network has one initial state and the cells fit. The steps
between configurations are what an engine for the network tells, whatever it interned before. -/
theorem explore_correct {text : String} {ws : List Network.Warning} {sem : ZoneSemantics} {o₀ : Shared}
    {g₀ : Graph} {d d' : Dictionary} {id : Nat} {names : List String} {o : Options} {k : Kripke Graph}
    (hparse : Network.parse text = .ok (n, ws))
    (hinit : Engine.initial (Graph.create n sem) = .ok [o₀] g₀) (hd : d.Reached)
    (hroom : d.registry.nextVar.toNat + names.length + 1 < 2 ^ 32) (hbits : o.poolBits ≤ 31)
    (hcreate : create id (Graph.create n sem) names o d = .ok (.ok k) d') (hfit' : Fits d')
    (hw : Later ⟨d', k⟩ w) (hfit : Fits ((explore none).after w)) :
    ∃ x w' c₀ cs, explore none w = .ok (.ok x) w' ∧ o₀.state = .configuration c₀ ∧
      x.Complete n o.dead c₀ cs ∧
      ∀ c ∈ cs, ∀ (inUse : InUse) (g : Graph), g.network = n → ∃ items g',
        Engine.outgoing inUse (.configuration c) g = .ok items g' ∧
        items.map (fun y => y.1.state) = (n.targets c).map .configuration := by
  have hv := Network.parse_valid hparse
  obtain ⟨_, _, hcreate', hd', hnew⟩ :=
    create_spec hd.sound id (Graph.create n sem) hroom hbits (by rwa [after_ok hcreate])
  cases hcreate.symm.trans hcreate'
  have hk := hnew k rfl
  have hkept := hw.kept (sound_of_new hd' hv hk)
  have hnet : w.kripke.engine.network = n := hkept.network.trans (by rw [hk.engine]; rfl)
  have hpolicy : w.kripke.profile.policy = o.dead := by rw [hkept.profile, hk.policy]
  obtain ⟨ss, g, hrun, -, hss⟩ := Graph.initial_spec (g := Graph.create n sem) hv
  cases hinit.symm.trans hrun
  obtain ⟨c₀, hstart, hc₀⟩ := List.map_eq_singleton_iff.1 hss.symm
  obtain ⟨_, w', hexplore, x, cs, rfl, hx, -⟩ := explore_spec hkept.sound (hnet ▸ hstart) hfit
  rw [hnet, hpolicy] at hx
  refine ⟨x, w', c₀, cs, hexplore, hc₀.symm, hx, fun c hc inUse g hg => ?_⟩
  obtain ⟨j, hj⟩ := (hx.breadthFirst.mem c).1 hc
  have hadm := Search.admits_of_leads hv (Network.admits_of_starts hv
    (hstart ▸ List.mem_singleton_self c₀)) hj
  subst hg
  obtain ⟨items, g', hout, -, hitems⟩ := Graph.outgoing_targets hv hadm inUse
  exact ⟨items, g', hout, hitems⟩

/-- A process with one step has two states, and the second one has a loop. -/
theorem explore_correct_step : ∃ (n : Network) (ws : List Network.Warning) (d d' : Dictionary)
    (k : Kripke Graph) (x : Exploration) (w' : World Graph),
    Network.parse ("system:s\nprocess:P\nlocation:P:a\x7binitial:\x7d\nlocation:P:b\nevent:e\n" ++
      "edge:P:a:b:e") = .ok (n, ws) ∧
    d.Reached ∧ create 1 (Graph.create n .standard) [] {} d = .ok (.ok k) d' ∧
    explore none ⟨d', k⟩ = .ok (.ok x) w' ∧
    x.Complete n .loop ⟨[0], []⟩ [⟨[0], []⟩, ⟨[1], []⟩] := by
  obtain ⟨⟨n, ws⟩, hparse, hread⟩ := exists_ok_of_any (x := Network.parse
    ("system:s\nprocess:P\nlocation:P:a\x7binitial:\x7d\nlocation:P:b\nevent:e\n" ++
      "edge:P:a:b:e")) (p := fun y => y.1.starts = [⟨[0], []⟩] ∧
    y.1.targets ⟨[0], []⟩ = [⟨[1], []⟩] ∧ y.1.targets ⟨[1], []⟩ = []) (by decide +kernel)
  obtain ⟨hstarts, hfirst, hsecond⟩ := of_decide_eq_true hread
  obtain ⟨d, k, d', hd, hnext, hcreate, -, hplain, -, hfit'⟩ := exists_plain n
  have hafter : Fits ((explore none).after (⟨d', k⟩ : World Graph)) :=
    fits_explore_plain hplain hfit' none
  obtain ⟨ss, g, hinit, -, hss⟩ := Graph.initial_spec (g := Graph.create n .standard)
    (Network.parse_valid hparse)
  rw [show (Graph.create n .standard).network.starts = _ from hstarts] at hss
  obtain ⟨o₀, rfl, ho₀⟩ := List.map_eq_singleton_iff.1 hss
  obtain ⟨x, w', c₀, cs, hexplore, hc₀, hx, -⟩ := explore_correct hparse hinit (.create hd)
    (by rw [hnext]; decide) (by decide) hcreate hfit' .refl hafter
  obtain rfl : ⟨[0], []⟩ = c₀ := EngineState.configuration.inj (ho₀.symm.trans hc₀)
  obtain rfl := hx.breadthFirst.eq_pair hfirst hsecond (by decide)
  exact ⟨n, ws, d, d', k, x, w', hparse, .create hd, hcreate, hexplore, hx⟩

end Kripke

end StateSpace
