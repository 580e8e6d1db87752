import Mathlib
import StateSpace.Proofs.Pool.History

/-!
# Pools keep their accounts

1. A call faults if a slot that it reads is vacant (`Call.run_vacant`). If none is, only a comparison can
   fault, that of a configuration with a state of another engine that lacks what it asks for
   (`Call.run_occupied`).
2. What a pool answers about a handle is what its account says, whatever was asked before
   (`past_accounted`): a handle is live until it was given back as often as it was taken, and so long its
   slot holds the state that was wrapped last.
-/

namespace StateSpace

open StateSpace.Action

/-! ## Comparing states -/

/-- States that cannot be compared lack parts that are asked for. -/
theorem EngineState.readsOtherwise_error {α : Type} [DecidableEq α] {xs : List α} {as : List α} {i : Nat}
    {e : Fault} (h : readsOtherwise (item xs) i as = .error e) : e = .outOfRange := by
  induction as generalizing i with
  | nil => cases h
  | cons a as ih =>
    unfold readsOtherwise item at h
    cases hx : xs[i]? with
    | none =>
      simp only [hx] at h
      cases h
      rfl
    | some x =>
      simp only [hx] at h
      by_cases hxa : x = a
      · exact ih ((if_pos hxa).symm.trans h)
      · cases (if_neg hxa).symm.trans h

theorem EngineState.differs_error {x y : EngineState} {e : Fault} (h : x.differs y = .error e) :
    e = .outOfRange ∧ ∃ a b, x = .configuration a ∧ y = .foreign b := by
  cases x with
  | configuration a =>
    cases y with
    | configuration b => cases h
    | foreign b =>
      refine ⟨?_, a, b, rfl, rfl⟩
      replace h : (readsOtherwise (item b.locations) 0 a.locations >>= fun d =>
        if d = true then .ok true else readsOtherwise (item b.ints) 0 a.ints) = .error e := h
      cases hl : readsOtherwise (item b.locations) 0 a.locations with
      | error e' =>
        rw [hl] at h
        cases h
        exact readsOtherwise_error hl
      | ok d =>
        rw [hl] at h
        cases d with
        | true => cases h
        | false => exact readsOtherwise_error h
  | foreign a =>
    cases y with
    | configuration b => cases h
    | foreign b => cases h

/-- How two states compare: different hashes decide, and of states with the same hash the one is greater
unless they do not differ. -/
def EngineState.compare (x y : EngineState) : Except Fault Ordering :=
  if x.hash < y.hash then .ok .lt
  else if y.hash < x.hash then .ok .gt
  else (x.differs y).map fun d => if d then .gt else .eq

theorem EngineState.differs_of_compare {x y : EngineState} {e : Fault} (h : x.compare y = .error e) :
    x.differs y = .error e := by
  unfold compare at h
  split at h
  · cases h
  split at h
  · cases h
  · cases hd : x.differs y with
    | ok d =>
      rw [hd] at h
      cases h
    | error e' =>
      rw [hd] at h
      cases h
      rfl

namespace Pool

variable {p p' p₀ : Pool} {s t : Handle} {o o' : Shared} {e : Fault} {id bits : Nat}

/-! ## Reading slots -/

theorem hash_vacant (hs : p.slot? s = none) : p.hash s = .error (unoccupied s) := by
  unfold hash
  rw [get_vacant hs]
  rfl

theorem refCount_vacant (hs : p.slot? s = none) : p.refCount s = .error (unoccupied s) := by
  unfold refCount
  rw [get_vacant hs]
  rfl

theorem stored_vacant (hs : p.slot? s = none) : p.get s = .error (unoccupied s) := by
  unfold get
  rw [get_vacant hs]
  rfl

theorem compare_of_has (hst : s ≠ t) (hs : p.Has s o) (ht : p.Has t o') :
    p.compare s t = o.state.compare o'.state := by
  unfold compare EngineState.compare
  rw [if_neg hst, hs.hash_eq, ht.hash_eq, hs.get_eq, ht.get_eq]
  show (if o.state.hash < o'.state.hash then _ else if o'.state.hash < o.state.hash then _ else
    (o.state.differs o'.state >>= _)) = _
  cases o.state.differs o'.state with
  | error e => rfl
  | ok d => cases d <;> rfl

theorem compare_vacant_left (hst : s ≠ t) (hs : p.slot? s = none) :
    p.compare s t = .error (unoccupied s) := by
  unfold compare
  rw [if_neg hst, hash_vacant hs]
  rfl

theorem compare_vacant_right (hst : s ≠ t) (hs : p.Has s o) (ht : p.slot? t = none) :
    p.compare s t = .error (unoccupied t) := by
  unfold compare
  rw [if_neg hst, hs.hash_eq, hash_vacant ht]
  rfl

/-! ## Faults of calls -/

namespace Call

variable {c : Call}

/-- The call compares a configuration with a state of another engine that lacks what it asks for. -/
def Unanswerable (p : Pool) (c : Call) : Prop :=
  ∃ s t o o' a b, c = compare s t ∧ p.Has s o ∧ p.Has t o' ∧ o.state = .configuration a ∧
    o'.state = .foreign b ∧ o.state.compare o'.state = .error .outOfRange

theorem run_reading_error {f : Pool → Except Fault Answer} (hrun : c.run = reading f)
    (h : f p = .error e) : c.run p = .error e p := by
  rw [hrun]
  simp only [reading, h]

theorem run_reading_ok {f : Pool → Except Fault Answer} {a : Answer} (hrun : c.run = reading f)
    (h : f p = .ok a) : c.run p = .ok a p := hrun ▸ reading_ok h

/-- A call that reads a vacant slot faults at one, and the pool stays as it is. -/
theorem run_vacant (hp : p.Sound) (hs : s ∈ c.reads) (hvacant : p.slot? s = none) :
    ∃ t ∈ c.reads, p.slot? t = none ∧ c.run p = .error (unoccupied t) p := by
  cases c with
  | wrap o => cases hs
  | isLive t => cases hs
  | clone t =>
    cases List.mem_singleton.1 hs
    exact ⟨s, hs, hvacant, bind_error (clone_vacant hvacant) _⟩
  | release t =>
    cases List.mem_singleton.1 hs
    exact ⟨s, hs, hvacant, bind_error (release_vacant hvacant) _⟩
  | hash t =>
    cases List.mem_singleton.1 hs
    exact ⟨s, hs, hvacant, run_reading_error rfl (by rw [hash_vacant hvacant]; rfl)⟩
  | get t =>
    cases List.mem_singleton.1 hs
    exact ⟨s, hs, hvacant, run_reading_error rfl (by rw [stored_vacant hvacant]; rfl)⟩
  | refCount t =>
    cases List.mem_singleton.1 hs
    exact ⟨s, hs, hvacant, run_reading_error rfl (by rw [refCount_vacant hvacant]; rfl)⟩
  | compare a b =>
    by_cases hab : a = b
    · rw [reads, if_pos hab] at hs
      cases hs
    have hreads : (compare a b).reads = [a, b] := if_neg hab
    rw [hreads] at hs ⊢
    cases ha : p.slot? a with
    | none =>
      exact ⟨a, List.mem_cons_self, ha, run_reading_error rfl (by rw [compare_vacant_left hab ha]; rfl)⟩
    | some x =>
      obtain ⟨o, k, -, rfl⟩ := hp.slot a x ha
      -- the vacant slot is the second one then
      have hb : p.slot? b = none := by
        rcases List.mem_cons.1 hs with rfl | hs
        · cases ha.symm.trans hvacant
        · cases List.mem_singleton.1 hs
          exact hvacant
      exact ⟨b, List.mem_cons_of_mem _ List.mem_cons_self, hb,
        run_reading_error rfl (by rw [compare_vacant_right hab ⟨k, ha⟩ hb]; rfl)⟩

/-- If no slot that a call reads is vacant, the call is answered, or it compares states that cannot be
compared. -/
theorem run_occupied (hp : p.Sound) (hrefs : p.Referenced) (h : ∀ s ∈ c.reads, p.slot? s ≠ none) :
    (∃ a p', c.run p = .ok a p') ∨ c.Unanswerable p ∧ c.run p = .error .outOfRange p := by
  have hslot := fun s hs => hrefs.exists_slot hp (h s hs)
  cases c with
  | wrap o =>
    obtain ⟨s, p', hrun, -⟩ := wrap_spec hp o
    exact .inl ⟨_, p', bind_ok hrun _⟩
  | isLive s => exact .inl ⟨_, p, rfl⟩
  | clone s =>
    obtain ⟨o, k, -, hs⟩ := hslot s List.mem_cons_self
    obtain ⟨_, p', hrun, -⟩ := clone_spec hp hs
    exact .inl ⟨_, p', bind_ok hrun _⟩
  | release s =>
    obtain ⟨o, k, hk, hs⟩ := hslot s List.mem_cons_self
    obtain ⟨_, p', hrun, -⟩ := release_spec hp hs hk
    exact .inl ⟨_, p', bind_ok hrun _⟩
  | hash s =>
    obtain ⟨o, k, -, hs⟩ := hslot s List.mem_cons_self
    exact .inl ⟨_, p, run_reading_ok rfl (by rw [hash_eq hs]; rfl)⟩
  | get s =>
    obtain ⟨o, k, -, hs⟩ := hslot s List.mem_cons_self
    exact .inl ⟨_, p, run_reading_ok rfl (by rw [Pool.get_eq hs]; rfl)⟩
  | refCount s =>
    obtain ⟨o, k, hk, hs⟩ := hslot s List.mem_cons_self
    exact .inl ⟨_, p, run_reading_ok rfl (by rw [refCount_eq hs hk]; rfl)⟩
  | compare s t =>
    by_cases hst : s = t
    · exact .inl ⟨_, p, run_reading_ok rfl (by rw [Pool.compare, if_pos hst]; rfl)⟩
    have hreads : (compare s t).reads = [s, t] := if_neg hst
    rw [hreads] at hslot
    obtain ⟨o, k, -, hs⟩ := hslot s List.mem_cons_self
    obtain ⟨o', k', -, ht⟩ := hslot t (List.mem_cons_of_mem _ List.mem_cons_self)
    have hcompare : p.compare s t = o.state.compare o'.state := compare_of_has hst ⟨_, hs⟩ ⟨_, ht⟩
    cases hr : o.state.compare o'.state with
    | ok r => exact .inl ⟨_, p, run_reading_ok rfl (by rw [hcompare, hr]; rfl)⟩
    | error e =>
      obtain ⟨rfl, a, b, ha, hb⟩ := EngineState.differs_error (EngineState.differs_of_compare hr)
      exact .inr ⟨⟨s, t, o, o', a, b, rfl, ⟨_, hs⟩, ⟨_, ht⟩, ha, hb, hr⟩,
        run_reading_error rfl (by rw [hcompare, hr]; rfl)⟩

end Call

/-! ## What is observed -/

/-- What the pool answers about a handle with this account. -/
structure Observed (p : Pool) (s : Handle) (a : Account) : Prop where
  releases_le : a.releases ≤ a.clones + 1
  isLive_iff : p.isLive s = true ↔ a.releases < a.clones + 1
  refCount : a.releases < a.clones + 1 → p.refCount s = .ok (a.clones + 1 - a.releases)
  hash : a.releases < a.clones + 1 → p.hash s = .ok a.object.state.hash
  get : a.releases < a.clones + 1 → p.get s = .ok a.object
  /-- The release that makes up for the wrap and the clones is told to be the last one. -/
  release : a.releases < a.clones + 1 →
    ∃ p', release s p = .ok (decide (a.releases + 1 = a.clones + 1)) p'

theorem Reconciled.observed {es : List Entry} {a : Account} (h : Reconciled p es) (hp : p.Sound)
    (ha : account s es = some a) (hroom : a.clones + 1 - a.releases < 2 ^ 32 - 1) :
    Observed p s a := by
  have hle := h.releases_le s a ha
  have hslot : p.slot? s = a.slot? := by
    rw [h.slot, ha]
    rfl
  by_cases hlt : a.releases < a.clones + 1
  · obtain ⟨k, hk⟩ : ∃ k, a.clones + 1 = a.releases + (k + 1) :=
      ⟨a.clones - a.releases, by omega⟩
    have hs : p.slot? s = some (.ofShared a.object (k + 1)) := by
      rw [hslot, Account.slot?_eq hk]
      rfl
    have hcount : a.clones + 1 - a.releases = k + 1 := by omega
    have hk' : k + 1 < 2 ^ 32 := by omega
    have hrefs : p.refCount s = .ok (a.clones + 1 - a.releases) := by
      rw [refCount_eq hs hk', hcount]
    have hlive : p.isLive s = true := Has.isLive ⟨_, hs⟩
    obtain ⟨last, p', hrun, rfl, -⟩ := release_spec hp hs hk'
    have hlast : decide (k = 0) = decide (a.releases + 1 = a.clones + 1) :=
      decide_eq_decide.2 (by omega)
    exact ⟨hle, iff_of_true hlive hlt, fun _ => hrefs, fun _ => hash_eq hs, fun _ => Pool.get_eq hs,
      fun _ => ⟨p', hlast ▸ hrun⟩⟩
  · have hvacant : p.slot? s = none := by
      rw [hslot, Account.slot?, if_neg hlt]
    have hlive : ¬p.isLive s = true := by
      rw [isLive_eq, hvacant]
      exact Bool.false_ne_true
    exact ⟨hle, iff_of_false hlive hlt, fun h => absurd h hlt, fun h => absurd h hlt,
      fun h => absurd h hlt, fun h => absurd h hlt⟩

/-- A slot that is in use according to its account has references. -/
theorem Reconciled.referenced {es : List Entry} (h : Reconciled p es) (hes : Moderate es) :
    p.Referenced := by
  intro s o hs
  obtain ⟨m, n, ha, hle, hcount⟩ := h.exists_account hs
  have hroom : m + 1 - n < 2 ^ 32 - 1 := hes es List.suffix_rfl s _ ha
  have hnat := congrArg (fun x => x.refs.toNat) hcount
  rw [Slot.refs_ofShared (by omega), Slot.refs_ofShared (by decide)] at hnat
  omega

/-- How a call on the pool ends. -/
structure Call.Ends (p : Pool) (c : Call) : Prop where
  /-- Only the slot of the handle that the call deals with changes. -/
  frame : ∀ t, Entry.handle? (c, (c.run.outcome p).1) ≠ some t →
    (c.run.after p).slot? t = p.slot? t
  faults_iff : (∃ e p', c.run p = .error e p') ↔
    (∃ s ∈ c.reads, p.isLive s = false) ∨ c.Unanswerable p
  unchanged : ∀ e p', c.run p = .error e p' → p' = p
  message : ∀ e p', c.run p = .error e p' → ¬c.Unanswerable p →
    ∃ s ∈ c.reads, p.isLive s = false ∧ (s.slot ≠ 0 → e.message? = some s!"Index {s.slot} is not occupied")
  never : ∀ e p' i, c.run p = .error e p' → e ≠ .overReleased i ∧ e ≠ .stateless i

theorem isLive_eq_false_iff : p.isLive s = false ↔ p.slot? s = none := by
  rw [isLive_eq, Option.isSome_eq_false_iff, Option.isNone_iff_eq_none]

theorem unoccupied_message (h : s.slot ≠ 0) :
    (unoccupied s).message? = some s!"Index {s.slot} is not occupied" := by
  unfold unoccupied
  rw [if_neg h]
  rfl

theorem unoccupied_ne (s : Handle) (i : Nat) :
    unoccupied s ≠ .overReleased i ∧ unoccupied s ≠ .stateless i := by
  unfold unoccupied
  split <;> exact ⟨nofun, nofun⟩

theorem Call.Unanswerable.run {c : Call} (h : c.Unanswerable p) : c.run p = .error .outOfRange p := by
  obtain ⟨s, t, o, o', a, b, rfl, hs, ht, ha, hb, hr⟩ := h
  have hst : s ≠ t := by
    rintro rfl
    cases hs.unique ht
    cases ha.symm.trans hb
  exact run_reading_error rfl (by rw [compare_of_has hst hs ht, hr]; rfl)

theorem Call.ends (hp : p.Sound) (hrefs : p.Referenced) (c : Call) : Ends p c := by
  have hframe := fun t => (c.effect hp).frame (t := t)
  by_cases hvacant : ∃ s ∈ c.reads, p.isLive s = false
  · obtain ⟨s, hs, hlive⟩ := hvacant
    obtain ⟨t, ht, htvacant, hrun⟩ := run_vacant hp hs (isLive_eq_false_iff.1 hlive)
    refine ⟨hframe, iff_of_true ⟨_, _, hrun⟩ (.inl ⟨s, hs, hlive⟩), ?_, ?_, ?_⟩ <;>
      intro e p' he
    · cases he.symm.trans hrun
      rfl
    · intro _
      cases he.symm.trans hrun
      exact ⟨t, ht, isLive_eq_false_iff.2 htvacant, unoccupied_message⟩
    · intro h
      cases h.symm.trans hrun
      exact unoccupied_ne t he
  · have hoccupied : ∀ s ∈ c.reads, p.slot? s ≠ none := fun s hs hnone =>
      hvacant ⟨s, hs, isLive_eq_false_iff.2 hnone⟩
    rcases run_occupied hp hrefs hoccupied with ⟨a, q, hrun⟩ | ⟨hu, hrun⟩
    · have hok : ∀ e p', c.run p ≠ .error e p' := fun e p' he => nomatch he.symm.trans hrun
      refine ⟨hframe, iff_of_false (fun ⟨e, p', he⟩ => hok e p' he) ?_, fun e p' he => absurd he (hok e p'),
        fun e p' he => absurd he (hok e p'), fun e p' _ he => absurd he (hok e p')⟩
      rintro (h | h)
      · exact hvacant h
      · exact hok _ _ h.run
    · refine ⟨hframe, iff_of_true ⟨_, _, hrun⟩ (.inr hu), ?_, ?_, ?_⟩ <;> intro e p' he
      · cases he.symm.trans hrun
        rfl
      · exact fun h => absurd hu h
      · intro h
        cases h.symm.trans hrun
        exact ⟨nofun, nofun⟩

/-- Whatever was asked of a pool since it was made, also by calls that faulted, if there were never
`2 ^ 32 - 1` references to a state at once: its counters agree with each other and with its slots; each
handle stands as its account says; a state is wrapped under a handle that has no references; and a call
changes no slot but that of its handle, and faults if and only if a slot that it reads is vacant, unless
it compares states of two engines that cannot be compared. -/
theorem past_accounted {es : List Entry} (hcreate : create id bits = .ok p₀) (h : Past p₀ es p)
    (hes : Moderate es) :
    p.wrapped = p.live + p.freed ∧ p.live = p.slots.occupiedIndices.length ∧
      (∀ s a, account s es = some a → Observed p s a) ∧
      (∀ s, account s es = none → p.isLive s = false) ∧
      (∀ o, ∃ s p', wrap o p = .ok s p' ∧ s.slot ≠ 0 ∧ p.isLive s = false) ∧
      ∀ c : Call, c.Ends p := by
  obtain ⟨hp₀, -, hnone⟩ := create_sound hcreate
  obtain ⟨hp, hc⟩ := h.sound hp₀ (create_counted hcreate)
  have hr := h.reconciled hes hp₀ (create_counted hcreate) hnone
  refine ⟨hc.wrapped, hc.slots.live_eq hp.wellFormed,
    fun s a ha => hr.observed hp ha (hes es List.suffix_rfl s a ha), ?_, ?_,
    fun c => c.ends hp (hr.referenced hes)⟩
  · intro s ha
    rw [isLive_eq_false_iff, hr.slot, ha]
    rfl
  · intro o
    obtain ⟨s, p', hrun, hvacant, hu⟩ := wrap_spec hp o
    refine ⟨s, p', hrun, Nat.ne_of_gt (Table.pos_of_value? hu.self), isLive_eq_false_iff.2 hvacant⟩

/-- The slot of a state that is given back once too often is taken by another state. -/
theorem past_accounted_rewrapped :
    let a : Shared := ⟨0, .foreign ⟨[0], [3], 7, 0, 0⟩⟩
    let b : Shared := ⟨1, .foreign ⟨[1], [4], 9, 1, 1⟩⟩
    let s : Handle := ⟨1⟩
    ∃ p₀ p, create 0 4 = .ok p₀ ∧
      Past p₀ [(.clone s, .ok (.handle s)), (.wrap b, .ok (.handle s)),
        (.release s, .error (.vacant 1)), (.release s, .ok (.flag true)),
        (.release s, .ok (.flag false)), (.clone s, .ok (.handle s)), (.wrap a, .ok (.handle s))] p ∧
      p.refCount s = .ok 2 ∧ p.get s = .ok b ∧ p.wrapped = p.live + p.freed := by
  intro a b s
  obtain ⟨p₀, hcreate⟩ : ∃ p, create 0 4 = .ok p := exists_create (by decide)
  have hnew : Past p₀ [] p₀ := .nil
  have hpool := hcreate
  cases hcreate
  have hwrap := hnew.of_outcome (c := .wrap a) (r := .ok (.handle s)) rfl
  have hclone := hwrap.of_outcome (c := .clone s) (r := .ok (.handle s)) rfl
  have hfirst := hclone.of_outcome (c := .release s) (r := .ok (.flag false)) (by cbv)
  have hlast := hfirst.of_outcome (c := .release s) (r := .ok (.flag true)) (by cbv)
  have hfault := hlast.of_outcome (c := .release s) (r := .error (.vacant 1)) (by cbv)
  have hagain := hfault.of_outcome (c := .wrap b) (r := .ok (.handle s)) (by cbv)
  have hcalls := hagain.of_outcome (c := .clone s) (r := .ok (.handle s)) (by cbv)
  obtain ⟨hcount, -, hobserved, -⟩ := past_accounted hpool hcalls (moderate_of_length (by decide))
  refine ⟨_, _, rfl, hcalls, ?_⟩
  have hs := hobserved s ⟨b, 1, 0⟩ (by decide +kernel)
  exact ⟨hs.refCount (by decide), hs.get (by decide), hcount⟩

end Pool

end StateSpace
