import StateSpace.Proofs.Pool

/-!
# The past of a pool

A pool is asked for references, for what its slots hold and to compare them, also through handles whose
slots were freed; such calls fault and change nothing. What the slot of a handle holds is told by the
calls and outcomes so far: since a state was last wrapped under the handle, the references to it were
taken and given back so many times (`Account`).

1. A call changes one slot, that of the handle that it deals with, or it changes nothing
   (`Call.effect`).
2. So slots and accounts go together after every past in which there were never too many references to
   count (`Past.reconciled`).
-/

namespace StateSpace

open StateSpace.Action

namespace Pool

variable {p p' p₀ : Pool} {s t : Handle} {o o' : Shared} {e : Fault} {id bits : Nat}

/-! ## Calls -/

/-- What is asked of a pool. -/
inductive Call where
  | wrap (o : Shared)
  | clone (s : Handle)
  | release (s : Handle)
  | hash (s : Handle)
  | get (s : Handle)
  | refCount (s : Handle)
  | isLive (s : Handle)
  | compare (s t : Handle)

/-- What it answers. -/
inductive Answer where
  | handle (s : Handle)
  | flag (b : Bool)
  | hash (h : UInt64)
  | object (o : Shared)
  | count (n : Nat)
  | order (r : Ordering)

namespace Call

variable {c : Call}

/-- The call on a pool. -/
def run : Call → Action Pool Answer
  | wrap o => return .handle (← Pool.wrap o)
  | clone s => return .handle (← Pool.clone s)
  | release s => return .flag (← Pool.release s)
  | hash s => reading fun p => (p.hash s).map .hash
  | get s => reading fun p => (p.get s).map .object
  | refCount s => reading fun p => (p.refCount s).map .count
  | isLive s => reading fun p => .ok (.flag (p.isLive s))
  | compare s t => reading fun p => (p.compare s t).map .order

/-- The handles whose slots the call reads. To ask whether a handle is live is to read no slot, and a
handle equals itself whatever its slot holds. -/
def reads : Call → List Handle
  | wrap _ => []
  | clone s => [s]
  | release s => [s]
  | hash s => [s]
  | get s => [s]
  | refCount s => [s]
  | isLive _ => []
  | compare s t => if s = t then [] else [s, t]

end Call

/-! ## Accounts -/

/-- A call with its outcome. -/
abbrev Entry := Call × Except Fault Answer

/-- The handle that an entry deals with: the one that a state was wrapped under, or to which a reference
was taken or given back. A fault deals with none. -/
def Entry.handle? : Entry → Option Handle
  | (.wrap _, .ok (.handle s)) => some s
  | (.clone s, .ok _) => some s
  | (.release s, .ok _) => some s
  | _ => none

/-- What happened under a handle since a state was last wrapped there. -/
structure Account where
  object : Shared
  /-- How often another reference was taken. -/
  clones : Nat
  /-- How often a reference was given back. -/
  releases : Nat
deriving DecidableEq

namespace Account

/-- The account after one more call on the handle. -/
def next : Call → Option Account → Option Account
  | .wrap o, _ => some ⟨o, 0, 0⟩
  | .clone _, a => a.map fun a => { a with clones := a.clones + 1 }
  | .release _, a => a.map fun a => { a with releases := a.releases + 1 }
  | _, a => a

/-- What the slot holds according to the account. -/
def slot? (a : Account) : Option Slot :=
  if a.releases < a.clones + 1 then some (.ofShared a.object (a.clones + 1 - a.releases)) else none

theorem slot?_eq {a : Account} {k : Nat} (h : a.clones + 1 = a.releases + k) :
    a.slot? = if k = 0 then none else some (.ofShared a.object k) := by
  unfold slot?
  by_cases hk : k = 0
  · rw [if_pos hk, if_neg (by omega)]
  · rw [if_neg hk, if_pos (by omega), show a.clones + 1 - a.releases = k by omega]

end Account

/-- The account of a handle, where the latest entry comes first. -/
def account (s : Handle) : List Entry → Option Account
  | [] => none
  | x :: es => if x.handle? = some s then Account.next x.1 (account s es) else account s es

/-- Calls with these outcomes lead from one pool to another, the latest one first. Calls that fault are
among them. -/
inductive Past (p₀ : Pool) : List Entry → Pool → Prop where
  | nil : Past p₀ [] p₀
  | call {es : List Entry} {p : Pool} (h : Past p₀ es p) (c : Call) :
      Past p₀ ((c, (c.run.outcome p).1) :: es) (c.run.after p)

theorem Past.of_outcome {es : List Entry} {c : Call} {r : Except Fault Answer} (h : Past p₀ es p)
    (hc : (c.run.outcome p).1 = r) : Past p₀ ((c, r) :: es) (c.run.after p) := hc ▸ h.call c

/-! ## Vacant slots -/

/-- The fault of what reads the vacant slot of a handle. No state is kept in slot 0. -/
def unoccupied (s : Handle) : Fault := if s.slot = 0 then .zeroIndex else .vacant s.slot

theorem get_vacant (hs : p.slot? s = none) : p.slots.get s.slot = .error (unoccupied s) := by
  unfold slot? Table.value? at hs
  unfold Table.get unoccupied
  by_cases h0 : s.slot = 0
  · rw [if_pos h0, if_pos h0]
  · rw [if_neg h0] at hs
    rw [if_neg h0, if_neg h0]
    cases hc : p.slots.cells[s.slot]? with
    | none => rfl
    | some c =>
      obtain ⟨x, j, occupied⟩ := c
      cases occupied with
      | false => rfl
      | true =>
        rw [hc] at hs
        cases hs

theorem clone_vacant (hs : p.slot? s = none) : clone s p = .error (unoccupied s) p := by
  have hmodify : ∀ f, Table.modify s.slot f p.slots = .error (unoccupied s) p.slots := fun f => by
    simp only [Table.modify, get_vacant hs]
  exact bind_error (onSlots_error (hmodify _)) _

theorem release_vacant (hs : p.slot? s = none) : release s p = .error (unoccupied s) p := by
  refine bind_error ?_ _
  simp only [reading, get_vacant hs, Except.map]

/-! ## What a call does -/

/-- A call changes one slot, which it deals with, or nothing. -/
inductive Call.Effect (p : Pool) : Call → Except Fault Answer → Pool → Prop where
  | wrap {s : Handle} {o : Shared} {p' : Pool} (hs : p.slot? s = none)
      (hu : Updated p s (some (.ofShared o 1)) p') : Effect p (.wrap o) (.ok (.handle s)) p'
  | clone {s : Handle} {o : Shared} {k : Nat} {p' : Pool} (hs : p.slot? s = some (.ofShared o k))
      (hu : Updated p s (some (.ofShared o (k + 1))) p') : Effect p (.clone s) (.ok (.handle s)) p'
  | release {s : Handle} {o : Shared} {k : Nat} {p' : Pool}
      (hs : p.slot? s = some (.ofShared o (k + 1))) (hk : k + 1 < 2 ^ 32)
      (hu : Updated p s (if k = 0 then none else some (.ofShared o k)) p') :
      Effect p (.release s) (.ok (.flag (decide (k = 0)))) p'
  | none {c : Call} {r : Except Fault Answer} (h : Entry.handle? (c, r) = none) : Effect p c r p

namespace Call

variable {c : Call} {r : Except Fault Answer}

theorem effect_of_ok {a : Answer} (hrun : c.run p = .ok a p') (h : Effect p c (.ok a) p') :
    Effect p c (c.run.outcome p).1 (c.run.after p) := by
  unfold after outcome
  rwa [hrun]

theorem effect_of_error (hrun : c.run p = .error e p) :
    Effect p c (c.run.outcome p).1 (c.run.after p) := by
  unfold after outcome
  rw [hrun]
  refine .none ?_
  cases c <;> rfl

/-- What is read is no concern of any slot. -/
theorem effect_of_reading {f : Pool → Except Fault Answer} (hrun : c.run = reading f)
    (h : ∀ r, Entry.handle? (c, r) = Option.none) :
    Effect p c (c.run.outcome p).1 (c.run.after p) := by
  cases hf : f p with
  | ok a => exact effect_of_ok (hrun ▸ reading_ok hf) (.none (h _))
  | error e =>
    refine effect_of_error (e := e) ?_
    rw [hrun]
    simp only [reading, hf]

theorem effect (hp : p.Sound) (c : Call) : Effect p c (c.run.outcome p).1 (c.run.after p) := by
  cases c with
  | wrap o =>
    obtain ⟨s, p', hrun, hs, hu⟩ := wrap_spec hp o
    exact effect_of_ok (bind_ok hrun _) (.wrap hs hu)
  | clone s =>
    cases hs : p.slot? s with
    | none =>
      exact effect_of_error (bind_error (clone_vacant hs) _)
    | some x =>
      obtain ⟨o, k, -, rfl⟩ := hp.slot s x hs
      obtain ⟨t, p', hrun, rfl, hu⟩ := clone_spec hp hs
      exact effect_of_ok (bind_ok hrun _) (.clone hs hu)
  | release s =>
    cases hs : p.slot? s with
    | none =>
      exact effect_of_error (bind_error (release_vacant hs) _)
    | some x =>
      obtain ⟨o, k, hk, rfl⟩ := hp.slot s x hs
      cases k with
      | zero => exact effect_of_error (bind_error (release_over hs) _)
      | succ k =>
        obtain ⟨last, p', hrun, rfl, hu⟩ := release_spec hp hs hk
        exact effect_of_ok (bind_ok hrun _) (.release hs hk hu)
  | hash s => exact effect_of_reading rfl fun _ => rfl
  | get s => exact effect_of_reading rfl fun _ => rfl
  | refCount s => exact effect_of_reading rfl fun _ => rfl
  | isLive s => exact effect_of_ok rfl (.none rfl)
  | compare s t => exact effect_of_reading rfl fun _ => rfl

namespace Effect

theorem sound (h : Effect p c r p') (hp : p.Sound) : p'.Sound := by
  cases h with
  | wrap _ hu => exact hu.sound
  | clone _ hu => exact hu.sound
  | release _ _ hu => exact hu.sound
  | none _ => exact hp

theorem counted (h : Effect p c r p') (hp : p.Counted) : p'.Counted := by
  cases h with
  | wrap _ hu => exact hu.counted hp
  | clone _ hu => exact hu.counted hp
  | release _ _ hu => exact hu.counted hp
  | none _ => exact hp

theorem id_eq (h : Effect p c r p') : p'.id = p.id := by
  cases h with
  | wrap _ hu => exact hu.id
  | clone _ hu => exact hu.id
  | release _ _ hu => exact hu.id
  | none _ => rfl

/-- The slots of other handles stay as they are. -/
theorem frame (h : Effect p c r p') (ht : Entry.handle? (c, r) ≠ some t) :
    p'.slot? t = p.slot? t := by
  cases h with
  | wrap _ hu => exact hu.frame t fun hts => ht (congrArg some hts.symm)
  | clone _ hu => exact hu.frame t fun hts => ht (congrArg some hts.symm)
  | release _ _ hu => exact hu.frame t fun hts => ht (congrArg some hts.symm)
  | none _ => rfl

/-- A handle stays live unless the last reference to it is given back. -/
theorem keeps_live (h : Effect p c r p') (hs : p.isLive s = true)
    (hc : c = .release s → 1 < p.refs s) : p'.isLive s = true := by
  rw [isLive_eq] at hs ⊢
  cases h with
  | @wrap t o _ ht hu =>
    rw [hu.frame s, hs]
    rintro rfl
    rw [ht] at hs
    cases hs
  | @clone t o k _ ht hu =>
    by_cases hst : s = t
    · subst hst
      rw [hu.self]
      rfl
    · rw [hu.frame s hst, hs]
  | @release t o k _ ht hk hu =>
    by_cases hst : s = t
    · subst hst
      have hne : k ≠ 0 := by
        have hrefs := refs_ofShared ht hk
        have := hc rfl
        omega
      rw [hu.self, if_neg hne]
      rfl
    · rw [hu.frame s hst, hs]
  | none _ => exact hs

end Effect

theorem orderly (c : Call) : Orderly c.run := fun _ _ ⟨hp, hc, hid⟩ =>
  have heffect := c.effect hp
  ⟨heffect.sound hp, heffect.counted hc, heffect.id_eq.trans hid⟩

end Call

/-! ## Slots and accounts -/

/-- The slots hold what the accounts say. -/
structure Reconciled (p : Pool) (es : List Entry) : Prop where
  slot : ∀ s, p.slot? s = (account s es).bind Account.slot?
  releases_le : ∀ s a, account s es = some a → a.releases ≤ a.clones + 1

theorem account_of_ne {x : Entry} {es : List Entry} (h : x.handle? ≠ some s) :
    account s (x :: es) = account s es := if_neg h

theorem account_of_eq {x : Entry} {es : List Entry} (h : x.handle? = some s) :
    account s (x :: es) = Account.next x.1 (account s es) := if_pos h

/-- The account of a live handle, with as many references as its slot counts. -/
theorem Reconciled.exists_account {es : List Entry} (h : Reconciled p es) {k : Nat}
    (hs : p.slot? s = some (.ofShared o k)) : ∃ m n, account s es = some ⟨o, m, n⟩ ∧ n ≤ m ∧
      Slot.ofShared o (m + 1 - n) = .ofShared o k := by
  rw [h.slot] at hs
  obtain ⟨⟨o', m, n⟩, ha, hslot⟩ := Option.bind_eq_some_iff.1 hs
  unfold Account.slot? at hslot
  split at hslot
  · rename_i hlt
    have hx := Option.some.inj hslot
    obtain rfl : o' = o := Option.some.inj (congrArg Slot.state hx)
    exact ⟨m, n, ha, Nat.le_of_lt_succ hlt, hx⟩
  · cases hslot

/-- At no time were there `2 ^ 32 - 1` references to a state. -/
def Moderate (es : List Entry) : Prop := ∀ es', es' <:+ es → ∀ s a, account s es' = some a →
  a.clones + 1 - a.releases < 2 ^ 32 - 1

/-- There are no more references than there were calls. -/
theorem clones_lt_length {es : List Entry} {a : Account} (h : account s es = some a) :
    a.clones < es.length := by
  induction es generalizing a with
  | nil => cases h
  | cons x es ih =>
    unfold account at h
    split at h
    · obtain ⟨c, r⟩ := x
      cases c with
      | wrap o =>
        cases h
        exact Nat.succ_pos _
      | clone t =>
        obtain ⟨b, hb, rfl⟩ := Option.map_eq_some_iff.1 h
        have hlt : b.clones < es.length := ih hb
        exact Nat.succ_lt_succ hlt
      | release t =>
        obtain ⟨b, hb, rfl⟩ := Option.map_eq_some_iff.1 h
        have hlt : b.clones < es.length := ih hb
        exact Nat.lt_succ_of_lt hlt
      | _ => exact Nat.lt_succ_of_lt (ih h)
    · exact Nat.lt_succ_of_lt (ih h)

theorem moderate_of_length {es : List Entry} (h : es.length < 2 ^ 32 - 1) : Moderate es := by
  intro es' hes s a ha
  have := clones_lt_length ha
  have := hes.length_le
  omega

/-- The account that a handle has after a call tells what its slot holds then. -/
theorem Reconciled.call {es : List Entry} {c : Call} {r : Except Fault Answer} (h : Reconciled p es)
    (hes : Moderate es) (hc : Call.Effect p c r p') : Reconciled p' ((c, r) :: es) := by
  -- only the account of the handle that the call deals with has changed
  have hother : ∀ s, Entry.handle? (c, r) ≠ some s →
      p'.slot? s = (account s ((c, r) :: es)).bind Account.slot? ∧
        ∀ a, account s ((c, r) :: es) = some a → a.releases ≤ a.clones + 1 := by
    intro s hs
    rw [hc.frame hs, account_of_ne hs]
    exact ⟨h.slot s, h.releases_le s⟩
  suffices hself : ∀ s, Entry.handle? (c, r) = some s → ∃ a, account s ((c, r) :: es) = some a ∧
      p'.slot? s = a.slot? ∧ a.releases ≤ a.clones + 1 by
    constructor
    · intro s
      by_cases hs : Entry.handle? (c, r) = some s
      · obtain ⟨a, ha, hslot, -⟩ := hself s hs
        rw [ha, hslot]
        rfl
      · exact (hother s hs).1
    · intro s a ha
      by_cases hs : Entry.handle? (c, r) = some s
      · obtain ⟨b, hb, -, hle⟩ := hself s hs
        cases hb.symm.trans ha
        exact hle
      · exact (hother s hs).2 a ha
  intro s hs
  rw [account_of_eq hs]
  cases hc with
  | wrap _ hu =>
    cases hs
    exact ⟨_, rfl, hu.self, Nat.zero_le _⟩
  | @clone _ o k _ hold hu =>
    cases hs
    obtain ⟨m, n, ha, hle, hcount⟩ := h.exists_account hold
    refine ⟨⟨o, m + 1, n⟩, by rw [ha]; rfl, ?_, show n ≤ m + 1 + 1 by omega⟩
    have hslot : Account.slot? ⟨o, m + 1, n⟩ = some (.ofShared o (m + 1 - n + 1)) :=
      Account.slot?_eq (a := ⟨o, m + 1, n⟩) (k := m + 1 - n + 1)
        (show m + 1 + 1 = n + (m + 1 - n + 1) by omega)
    rw [hu.self, hslot, Slot.ofShared_succ_congr hcount]
  | @release _ o k _ hold hk hu =>
    cases hs
    obtain ⟨m, n, ha, hle, hcount⟩ := h.exists_account hold
    have hroom : m + 1 - n < 2 ^ 32 - 1 := hes es List.suffix_rfl _ _ ha
    -- both numbers are small enough to be told apart
    have hrefs : m + 1 - n = k + 1 := by
      have hnat := congrArg (fun x => x.refs.toNat) hcount
      rwa [Slot.refs_ofShared (by omega), Slot.refs_ofShared hk] at hnat
    refine ⟨⟨o, m, n + 1⟩, by rw [ha]; rfl, ?_, show n + 1 ≤ m + 1 by omega⟩
    rw [hu.self, Account.slot?_eq (k := k) (show m + 1 = n + 1 + k by omega)]
  | none hnone => cases hnone.symm.trans hs

/-- Whatever was asked of a sound pool, it is sound. -/
theorem Past.sound {es : List Entry} (h : Past p₀ es p) (hp₀ : p₀.Sound) (hc₀ : p₀.Counted) :
    p.Sound ∧ p.Counted := by
  induction h with
  | nil => exact ⟨hp₀, hc₀⟩
  | call _ c ih => exact ⟨(c.effect ih.1).sound ih.1, (c.effect ih.1).counted ih.2⟩

/-- Whatever was asked of a new pool, its slots hold what the accounts say. -/
theorem Past.reconciled {es : List Entry} (h : Past p₀ es p) (hes : Moderate es) (hp₀ : p₀.Sound)
    (hc₀ : p₀.Counted) (hnone : ∀ s, p₀.slot? s = none) : Reconciled p es := by
  induction h with
  | nil => exact ⟨hnone, fun s a ha => nomatch ha⟩
  | @call es p hpast c ih =>
    have hmoderate : Moderate es := fun es' hes' => hes es' (hes'.trans (List.suffix_cons _ _))
    exact (ih hmoderate).call hmoderate (c.effect (hpast.sound hp₀ hc₀).1)

end Pool

end StateSpace
