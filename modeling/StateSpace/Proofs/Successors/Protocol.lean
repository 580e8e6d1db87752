import StateSpace.Proofs.Pool.Accounted
import StateSpace.Proofs.Successors.History

/-!
# How iterators are used

A consumer sets an iterator back and asks for a destination as long as there is one. It may do with each
handle what it likes before it goes on (`Loop`). Whatever happened to the iterator before:

1. Without a self-loop, every successor is wrapped under a vacant handle, in order (`loop_walk`); a
   consumer that keeps them all has as many handles (`Kept`).
2. With a self-loop, the state itself is the only successor, with one more reference as far as its slot
   can count (`loop_selfLoop`).
3. To recycle an iterator is to drop it and to make another one, where the reference to a self-loop is
   given back once (`exists_renewed`).
-/

namespace StateSpace

open StateSpace.Action

/-! ## References that pools report -/

namespace Pool

/-- The only reference to an object. -/
structure Single (p : Pool) (s : Handle) (o : Shared) : Prop where
  refCount : p.refCount s = .ok 1
  hash : p.hash s = .ok o.state.hash
  get : p.get s = .ok o

/-- `p'` is `p` without one reference, that to a self-loop if there is one. -/
structure Released (p : Pool) (loop : Option Handle) (p' : Pool) : Prop where
  refs : ∀ s, p.refs s = p'.refs s + if loop = some s then 1 else 0
  kept : ∀ s o, p.Has s o → 0 < p'.refs s → p'.Has s o
  frame : ∀ s, loop ≠ some s → p'.slot? s = p.slot? s
  unchanged : loop = none → p' = p

/-- The pool after calls whose outcomes nobody looks at. -/
def asked (p : Pool) (cs : List Call) : Pool := cs.foldl (fun p c => c.run.after p) p

variable {p p' : Pool} {s : Handle} {o : Shared}

theorem single_of_slot (hs : p.slot? s = some (.ofShared o 1)) : Single p s o :=
  ⟨refCount_eq hs (by decide), hash_eq hs, Pool.get_eq hs⟩

/-- A slot in use without references is one whose number of references has started over. -/
theorem slot_of_over (hp : p.Sound) (hs : p.isLive s = true) (hzero : p.refs s = 0) :
    ∃ o, p.slot? s = some (.ofShared o 0) := by
  obtain ⟨o, k, hk, hs⟩ := hp.slot_of_live hs
  rw [refs_ofShared hs hk] at hzero
  exact ⟨o, hzero ▸ hs⟩

theorem asked_sound (hp : p.Sound) (cs : List Call) : (p.asked cs).Sound := by
  induction cs generalizing p with
  | nil => exact hp
  | cons c cs ih => exact ih ((c.effect hp).sound hp)

end Pool

namespace Iterator

variable {p p' : Pool} {x y z : Session} {g : Source} {it : Iterator} {s : Handle} {cond : Edge}
  {items rest : List (Shared × Transition)} {visit : Handle → List Pool.Call}

/-! ## The loop of a consumer -/

/-- What a consumer has when it was given a successor. -/
structure Turn where
  before : Pool
  handle : Handle
  cond : Edge
  transition : Option Transition
  after : Pool

/-- A consumer that was told whether there is a successor asks for its handle, does with it what it likes
(`visit`), goes to the next one, and so on until there is none. -/
inductive Loop (visit : Handle → List Pool.Call) : Bool × Session → List Turn → Session → Prop where
  | stop (x : Session) : Loop visit (false, x) [] x
  | turn {p p' : Pool} {it : Iterator} {s : Handle} {ts : List Turn} {z : Session}
      (hs : it.destination p = .ok s p')
      (h : Loop visit (Session.next ⟨p'.asked (visit s), it⟩) ts z) :
      Loop visit (true, ⟨p, it⟩) (⟨p, s, it.cond, it.transition?, p'⟩ :: ts) z

/-- There is only one way to go through the successors. -/
theorem Loop.unique {a : Bool × Session} {ts ts' : List Turn} {z z' : Session}
    (h : Loop visit a ts z) (h' : Loop visit a ts' z') : ts = ts' ∧ z = z' := by
  induction h generalizing ts' with
  | stop x =>
    cases h'
    exact ⟨rfl, rfl⟩
  | turn hs _ ih =>
    cases h' with
    | turn hs' h' =>
      cases hs.symm.trans hs'
      obtain ⟨rfl, rfl⟩ := ih h'
      exact ⟨rfl, rfl⟩

/-- In this turn the successor was wrapped under a handle that was not in use. -/
structure Turn.Wraps (cond : Edge) (t : Turn) (o : Shared × Transition) : Prop where
  cond : t.cond = cond
  transition : t.transition = some o.2
  vacant : t.before.isLive t.handle = false
  single : t.after.Single t.handle o.1
  frame : ∀ s, s ≠ t.handle → t.after.slot? s = t.before.slot? s

/-- In this turn one more reference to the state was taken from the pool. The number of references starts
over with the one that cannot be counted. -/
structure Turn.Repeats (p : Pool) (cond : Edge) (s : Handle) (t : Turn) : Prop where
  cond : t.cond = cond
  transition : t.transition = none
  handle : t.handle = s
  before : t.before = p
  refCount : ∃ k, p.refCount s = .ok k ∧ (k + 1 < 2 ^ 32 → t.after.refCount s = .ok (k + 1)) ∧
    (k + 1 = 2 ^ 32 → t.after.refCount s = .ok 0)
  hash : t.after.hash s = p.hash s
  get : t.after.get s = p.get s
  frame : ∀ r, r ≠ s → t.after.slot? r = p.slot? r

/-- A consumer that keeps all the handles has the only reference to each successor, under as many handles
that were not in use before. -/
structure Kept (p : Pool) (ts : List Turn) (items : List (Shared × Transition)) (p' : Pool) : Prop where
  nodup : (ts.map Turn.handle).Nodup
  vacant : ∀ t ∈ ts, p.slot? t.handle = none
  slot : List.Forall₂ (fun t o => p'.slot? t.handle = some (.ofShared o.1 1)) ts items
  frame : ∀ s, s ∉ ts.map Turn.handle → p'.slot? s = p.slot? s

/-! ## Going through the successors -/

theorem Turn.wraps {s : Handle} {o : Shared × Transition} (hs : p.slot? s = none)
    (hu : Pool.Updated p s (some (.ofShared o.1 1)) p') : Wraps cond ⟨p, s, cond, some o.2, p'⟩ o :=
  ⟨rfl, rfl, Pool.isLive_eq_false_iff.2 hs, Pool.single_of_slot hu.self, hu.frame⟩

theorem Kept.nil : Kept p [] [] p := ⟨List.nodup_nil, fun _ h => (nomatch h), .nil, fun _ _ => rfl⟩

theorem Kept.cons {q : Pool} {t : Turn} {ts : List Turn} {o : Shared × Transition}
    (ht : p.slot? t.handle = none) (hu : Pool.Updated p t.handle (some (.ofShared o.1 1)) p')
    (h : Kept p' ts rest q) : Kept p (t :: ts) (o :: rest) q := by
  -- the slot of the first handle is taken when the others are wrapped
  have hnot : t.handle ∉ ts.map Turn.handle := by
    intro hmem
    obtain ⟨t', ht', heq⟩ := List.mem_map.1 hmem
    have hvacant := h.vacant t' ht'
    rw [heq, hu.self] at hvacant
    cases hvacant
  refine ⟨List.nodup_cons.2 ⟨hnot, h.nodup⟩, ?_, .cons ((h.frame _ hnot).trans hu.self) h.slot, ?_⟩
  · intro t' ht'
    rcases List.mem_cons.1 ht' with rfl | ht'
    · exact ht
    · rw [← hu.frame, h.vacant t' ht']
      intro heq
      exact hnot (heq ▸ List.mem_map_of_mem ht')
  · intro s hs
    obtain ⟨hne, hs⟩ := List.ne_and_not_mem_of_not_mem_cons hs
    rw [h.frame s hs, hu.frame s hne]

/-- From the successors that are not yet passed, each is wrapped in its turn. -/
theorem loop_walk (hp : p.Sound) (home : Nat) (items rest : List (Shared × Transition)) (cond : Edge)
    (looped : Bool) (visit : Handle → List Pool.Call) :
    ∃ ts z, Loop visit (!rest.isEmpty, ⟨p, ⟨home, ⟨items, rest⟩, cond, none, looped⟩⟩) ts z ∧
      List.Forall₂ (Turn.Wraps cond) ts rest ∧ z.iterator.done = true ∧
      ((∀ s, visit s = []) → Kept p ts rest z.pool) := by
  induction rest generalizing p with
  | nil => exact ⟨[], _, .stop _, .nil, rfl, fun _ => .nil⟩
  | cons o rest ih =>
    obtain ⟨s, p', hwrap, hs, hu⟩ := Pool.wrap_spec hp o.1
    obtain ⟨ts, z, hloop, hwraps, hdone, hkept⟩ := ih (Pool.asked_sound hu.sound (visit s))
    refine ⟨_, z, .turn hwrap hloop, .cons (Turn.wraps hs hu) hwraps, hdone, fun hvisit => ?_⟩
    have hrest := hkept hvisit
    rw [hvisit] at hrest
    exact .cons hs hu hrest

/-- The state itself is yielded once. -/
theorem loop_selfLoop (hp : p.Sound) (hs : p.isLive s = true) (home : Nat) (cursor : Cursor)
    (cond : Edge) (visit : Handle → List Pool.Call) :
    ∃ t z, Loop visit (true, ⟨p, .fresh home cursor cond (some s)⟩) [t] z ∧ t.Repeats p cond s ∧
      z.iterator.done = true := by
  obtain ⟨o, k, hlt, hs⟩ := hp.slot_of_live hs
  obtain ⟨s', p', hclone, rfl, hu⟩ := Pool.clone_spec hp hs
  refine ⟨_, _, .turn hclone (.stop _), ⟨rfl, rfl, rfl, rfl, ?_, ?_, ?_, hu.frame⟩, rfl⟩
  · refine ⟨k, Pool.refCount_eq hs hlt, Pool.refCount_eq hu.self, fun hfull => ?_⟩
    have hself := hu.self
    rw [hfull] at hself
    exact Pool.refCount_eq (k := 0) hself (by decide)
  · rw [Pool.hash_eq hs, Pool.hash_eq hu.self]
  · rw [Pool.get_eq hs, Pool.get_eq hu.self]

/-! ## Recycling -/

theorem exists_released (hp : p.Sound) (it : Iterator)
    (hs : ∀ s, it.selfLoop = some s → 0 < p.refs s) :
    ∃ p', it.close p = .ok () p' ∧ p.Released it.selfLoop p' := by
  unfold close
  cases hloop : it.selfLoop with
  | none =>
    exact ⟨p, rfl, fun s => by simp, fun _ _ h _ => h, fun _ _ => rfl, fun _ => rfl⟩
  | some s =>
    obtain ⟨o, k, hroom, hk, hrefs⟩ := hp.slot_of_refs (hs s hloop)
    obtain ⟨last, p', hrelease, -, hu⟩ := Pool.release_spec hp hk hroom
    have hframe : ∀ t, some s ≠ some t → p'.slot? t = p.slot? t :=
      fun t ht => hu.frame t fun heq => ht (congrArg some heq.symm)
    have hself : p'.refs s = k := by
      by_cases hzero : k = 0
      · rw [Pool.refs_eq hu.self, if_pos hzero, hzero]
        rfl
      · exact Pool.refs_ofShared (hu.self.trans (if_neg hzero)) (Nat.lt_of_succ_lt hroom)
    refine ⟨p', bind_ok hrelease _, fun t => ?_, fun t o' ho hpos => ?_, hframe, nofun⟩
    · by_cases ht : some s = some t
      · cases ht
        rw [if_pos rfl, hrefs, hself]
      · rw [if_neg ht, Pool.refs_congr (hframe t ht)]
        rfl
    · by_cases ht : some s = some t
      · cases ht
        cases ho.unique ⟨_, hk⟩
        rw [hself] at hpos
        exact ⟨k, hu.self.trans (if_neg (Nat.ne_of_gt hpos))⟩
      · obtain ⟨k', hk'⟩ := ho
        exact ⟨k', (hframe t ht).trans hk'⟩

/-- To recycle the iterator is to drop it, which leaves the pool `p'`, and to make another one. -/
structure Renewed (x : Session) (g : Source) (p' : Pool) : Prop where
  dropped : x.iterator.close x.pool = .ok () p'
  released : x.pool.Released x.iterator.selfLoop p'
  recycled : (Call.recycle g).run x = .ok .unit (.new p' g)
  /-- Calls after that have the same outcomes, and lead to the same pool and iterator. -/
  past_iff : ∀ (es : List Entry) (y : Session),
    Past Call.run x (es ++ [(.recycle g, .ok .unit)]) y ↔ Past Call.run (.new p' g) es y

theorem Follows.exists_renewed {g : Source} (h : Follows x g)
    (hs : ∀ s, x.iterator.selfLoop = some s → 0 < x.pool.refs s) (g' : Source) :
    ∃ p', Renewed x g' p' := by
  obtain ⟨p', hclose, hreleased⟩ := exists_released h.sound x.iterator hs
  have hhome : x.iterator.home = p'.id := by
    have hclosed := (h.onPool x.iterator.orderly_close).home
    rwa [after_ok hclose] at hclosed
  have hrun : (Call.recycle g').run x = .ok .unit (.new p' g') := by
    rw [Session.new, ← hhome]
    exact recycle_ok hclose g'
  refine ⟨p', hclose, hreleased, hrun, fun es y => ?_⟩
  rw [past_concat, outcome, hrun, after_ok hrun]
  exact and_iff_right rfl

/-! ## The protocol -/

/-- The iterator is exhausted, and stays so whatever is called until it is set back or recycled. -/
def Session.Ended (z : Session) : Prop :=
  ∀ es y, Past Call.run z es y → (∀ e ∈ es, ¬e.1.Restarts) → Exhausted y

theorem ended_of_done (hz : z.iterator.done = true) : z.Ended :=
  fun _ _ h hes => exhausted_of_past h hz hes

/-- How an iterator that goes over `g` is used. With a self-loop it relies on its reference to the
state. -/
structure Protocol (x : Session) (g : Source) : Prop where
  walk : g.selfLoop = none → ∀ visit, ∃ ts z, Loop visit x.first ts z ∧
    List.Forall₂ (Turn.Wraps g.cond) ts g.cursor.items ∧ z.Ended ∧
    ((∀ s, visit s = []) → Kept x.pool ts g.cursor.items z.pool)
  loop : ∀ s, g.selfLoop = some s → x.pool.isLive s = true → ∀ visit, ∃ t z,
    Loop visit x.first [t] z ∧ t.Repeats x.pool g.cond s ∧ z.Ended
  /-- The iterator has its reference until it is recycled, if others give back no more than is theirs. -/
  live : ∀ s, g.selfLoop = some s → x.pool.isLive s = true → ∀ c : Call, (∀ g', c ≠ .recycle g') →
    (c = .pool (.release s) → 1 < x.pool.refs s) → (c.run.after x).pool.isLive s = true
  renewed : (∀ s, g.selfLoop = some s → 0 < x.pool.refs s) → ∀ g', ∃ p', Renewed x g' p'
  /-- Where they gave back more, there is no destination, and to recycle the iterator is as wrong as to
  drop it. -/
  lost : ∀ s, g.selfLoop = some s → x.pool.isLive s = false →
    x.first.2.iterator.destination x.pool = .error (Pool.unoccupied s) x.pool ∧
    x.iterator.close x.pool = .error (Pool.unoccupied s) x.pool ∧
    ∀ g', (Call.recycle g').run x = .error (Pool.unoccupied s) ⟨x.pool, x.iterator.withoutLoop⟩
  /-- Where the number of references has started over, none can be given back, be it to recycle the
  iterator or to drop it. -/
  uncounted : ∀ s, g.selfLoop = some s → x.pool.isLive s = true → x.pool.refs s = 0 →
    x.iterator.close x.pool = .error (.overReleased s.slot) x.pool ∧
    ∀ g', (Call.recycle g').run x = .error (.overReleased s.slot) ⟨x.pool, x.iterator.withoutLoop⟩

theorem Follows.protocol (h : Follows x g) : Protocol x g where
  walk hloop visit := by
    obtain ⟨p, home, ⟨items, rest⟩, cond, selfLoop, looped⟩ := x
    obtain rfl : selfLoop = none := h.selfLoop.trans hloop
    obtain ⟨ts, z, hrun, hwraps, hdone, hkept⟩ := loop_walk h.sound home items items cond looped visit
    rw [← h.items, ← h.cond]
    exact ⟨ts, z, hrun, hwraps, ended_of_done hdone, hkept⟩
  loop s hloop hs visit := by
    obtain ⟨p, home, cursor, cond, selfLoop, looped⟩ := x
    obtain rfl : selfLoop = some s := h.selfLoop.trans hloop
    obtain ⟨t, z, hrun, hrepeats, hdone⟩ := loop_selfLoop h.sound hs home cursor cond visit
    rw [← h.cond]
    exact ⟨t, z, hrun, hrepeats, ended_of_done hdone⟩
  live _ _ hs _ := Call.keeps_live h.sound hs
  renewed hs := h.exists_renewed fun s hloop => hs s (h.selfLoop.symm.trans hloop)
  lost s hloop hs := by
    obtain ⟨p, home, cursor, cond, selfLoop, looped⟩ := x
    obtain rfl : selfLoop = some s := h.selfLoop.trans hloop
    have hvacant : p.slot? s = none := Pool.isLive_eq_false_iff.1 hs
    have hclose := bind_error (Pool.release_vacant hvacant) fun _ => pure ()
    exact ⟨Pool.clone_vacant hvacant, hclose, recycle_error hclose⟩
  uncounted s hloop hs hzero := by
    obtain ⟨p, home, cursor, cond, selfLoop, looped⟩ := x
    obtain rfl : selfLoop = some s := h.selfLoop.trans hloop
    obtain ⟨o, hover⟩ := Pool.slot_of_over h.sound hs hzero
    have hclose := bind_error (Pool.release_over hover) fun _ => pure ()
    exact ⟨hclose, recycle_error hclose⟩

/-- Whatever was called on an iterator since it was made in a pool in use, and whatever others asked the
pool meanwhile: the iterator is used as the protocol says, with what it was recycled with last. -/
theorem past_protocol {id bits : Nat} {p₁ p₀ : Pool} {ps : List Pool.Entry} {g₀ : Source}
    {es : List Entry} (hcreate : Pool.create id bits = .ok p₁) (hpool : Pool.Past p₁ ps p₀)
    (h : Past Call.run (.new p₀ g₀) es x) : Protocol x (source g₀ es) := by
  have hp₁ := (Pool.create_sound hcreate).1
  obtain ⟨hp₀, hc₀⟩ := hpool.sound hp₁ (Pool.create_counted hcreate)
  exact (Follows.of_past h hp₀ hc₀).protocol

/-- An iterator that passed a self-loop is recycled, and read beyond the end before it is used. -/
theorem past_protocol_recycled :
    let a : Shared := ⟨0, .foreign ⟨[0], [3], 7, 0, 0⟩⟩
    let b : Shared := ⟨1, .foreign ⟨[1], [4], 9, 1, 1⟩⟩
    let s : Handle := ⟨1⟩
    let items : List (Shared × Transition) := [(b, [5]), (a, [2, 3])]
    let g₀ : Source := ⟨.ofList [(b, [])], ⟨3⟩, some s⟩
    let g : Source := ⟨.ofList items, ⟨-2⟩, none⟩
    ∃ p₁ p₀ x, Pool.create 0 4 = .ok p₁ ∧
      Pool.Past p₁ [(.clone s, .ok (.handle s)), (.wrap a, .ok (.handle s))] p₀ ∧
      Past Call.run (.new p₀ g₀) [(.destination, .error .exhausted), (.next, .ok (.flag false)),
        (.next, .ok (.flag true)), (.first, .ok (.flag true)), (.recycle g, .ok .unit),
        (.next, .ok (.flag false)), (.destination, .ok (.handle s)), (.first, .ok (.flag true))] x ∧
      x.pool.refCount s = .ok 2 ∧
      ∃ ts z, Loop (fun _ => []) x.first ts z ∧ List.Forall₂ (Turn.Wraps ⟨-2⟩) ts items := by
  intro a b s items g₀ g
  obtain ⟨p₁, hcreate⟩ : ∃ p, Pool.create 0 4 = .ok p := Pool.exists_create (by decide)
  have hnew : Pool.Past p₁ [] p₁ := .nil
  have hpool := hcreate
  cases hcreate
  have hwrap := hnew.of_outcome (c := .wrap a) (r := .ok (.handle s)) rfl
  have hclone := hwrap.of_outcome (c := .clone s) (r := .ok (.handle s)) rfl
  have hmade : ∀ {p₁ p : Pool} {ps : List Pool.Entry}, Pool.Past p₁ ps p →
      Past Call.run (.new p g₀) [] (.new p g₀) := fun _ => .nil
  have hfirst := (hmade hclone).of_outcome (c := .first) (r := .ok (.flag true)) rfl
  have hdestination := hfirst.of_outcome (c := .destination) (r := .ok (.handle s)) rfl
  have hlooped := hdestination.of_outcome (c := .next) (r := .ok (.flag false)) rfl
  have hrecycled := hlooped.of_outcome (c := .recycle g) (r := .ok .unit) rfl
  have hagain := hrecycled.of_outcome (c := .first) (r := .ok (.flag true)) rfl
  have hsecond := hagain.of_outcome (c := .next) (r := .ok (.flag true)) rfl
  have hend := hsecond.of_outcome (c := .next) (r := .ok (.flag false)) rfl
  have hbeyond := hend.of_outcome (c := .destination) (r := .error .exhausted) rfl
  have hprotocol := past_protocol hpool hclone hbeyond
  obtain ⟨ts, z, hloop, hwraps, -⟩ := hprotocol.walk rfl fun _ => []
  refine ⟨_, _, _, rfl, hclone, hbeyond, by decide +kernel, ts, z, hloop, hwraps⟩

end Iterator

end StateSpace
