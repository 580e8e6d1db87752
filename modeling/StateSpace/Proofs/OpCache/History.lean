import Mathlib.Data.List.Infix
import StateSpace.Proofs.Action
import StateSpace.Proofs.OpCache
import StateSpace.Proofs.Pairing

/-!
# What a cache remembers

Results are inserted into a cache and looked up, in any order, under keys that may share their slots. A
look-up finds the value of the last insertion of its key, unless another key of the same slot was inserted
after that (`Kept`), and the counters tell how many look-ups found something (`past_truthful`).
-/

namespace StateSpace.OpCache

open StateSpace.Action

variable {κ ν : Type}

/-! ## Calls -/

/-- What is asked of a cache. -/
inductive Call (κ ν : Type) where
  | insert (k : κ) (v : ν)
  | get (k : κ)

/-- What it answers. -/
inductive Answer (ν : Type) where
  | done
  | found (r : Option ν)
deriving DecidableEq

/-- A call with its outcome. -/
abbrev Entry (κ ν : Type) := Call κ ν × Except Fault (Answer ν)

/-- A key was looked up. -/
def Entry.isLookUp : Entry κ ν → Bool
  | (.get _, _) => true
  | _ => false

/-- A key was looked up, and something was found. -/
def Entry.isHit : Entry κ ν → Bool
  | (.get _, .ok (.found (some _))) => true
  | _ => false

theorem Entry.isHit_get (k : κ) (r : Option ν) : Entry.isHit (.get k, .ok (.found r)) = r.isSome := by
  cases r <;> rfl

variable [WordHash κ] [DecidableEq κ]

/-- The call on a cache. -/
def Call.run : Call κ ν → Action (OpCache κ ν) (Answer ν)
  | insert k v => total fun c => (.done, c.insert k v)
  | get k => total fun c => (.found (c.get k).1, (c.get k).2)

@[simp] theorem after_insert (c : OpCache κ ν) (k : κ) (v : ν) :
    (Call.insert k v).run.after c = c.insert k v := rfl

@[simp] theorem after_get (c : OpCache κ ν) (k : κ) :
    (Call.get (ν := ν) k).run.after c = (c.get k).2 := rfl

@[simp] theorem outcome_get (c : OpCache κ ν) (k : κ) :
    ((Call.get k).run.outcome c).1 = .ok (.found (c.peek k)) := by
  rw [← get_fst]
  rfl

/-! ## What is kept -/

section Kept

omit [DecidableEq κ]

variable {bits : Nat} {cs : List (Call κ ν)} {k k' : κ} {v w : ν}

/-- The number of a key's slot among `2^bits`. -/
def slotNumber (bits : Nat) (k : κ) : Nat := (wordHash k).toNat % 2 ^ bits

/-- Among the calls, the latest one first, is an insertion of `k`. The last one had the value `v`, and after
it no other key of the same slot was inserted. -/
def Kept (bits : Nat) (cs : List (Call κ ν)) (k : κ) (v : ν) : Prop :=
  ∃ later earlier, cs = later ++ .insert k v :: earlier ∧ (∀ w, .insert k w ∉ later) ∧
    ∀ k' w, .insert k' w ∈ later → k' ≠ k → slotNumber bits k' ≠ slotNumber bits k

theorem kept_cons {c : Call κ ν} : Kept bits (c :: cs) k v ↔ c = .insert k v ∨
    (∀ k' w, c = .insert k' w → slotNumber bits k' ≠ slotNumber bits k) ∧ Kept bits cs k v := by
  constructor
  · rintro ⟨later, earlier, heq, hkey, hslot⟩
    rcases List.cons_eq_append_iff.1 heq with ⟨rfl, heq⟩ | ⟨later, rfl, rfl⟩
    · exact .inl (List.cons.inj heq).1
    · refine .inr ⟨?_, later, earlier, rfl, fun w hw => hkey w (List.mem_cons_of_mem _ hw),
        fun k' w hw => hslot k' w (List.mem_cons_of_mem _ hw)⟩
      rintro k' w rfl
      refine hslot k' w List.mem_cons_self ?_
      rintro rfl
      exact hkey w List.mem_cons_self
  · rintro (rfl | ⟨hc, later, earlier, rfl, hkey, hslot⟩)
    · exact ⟨[], cs, rfl, nofun, nofun⟩
    · refine ⟨c :: later, earlier, rfl, fun w hw => ?_, fun k' w hw hne => ?_⟩
      · rcases List.mem_cons.1 hw with rfl | hw
        · exact hc k w rfl rfl
        · exact hkey w hw
      · rcases List.mem_cons.1 hw with rfl | hw
        · exact hc k' w rfl
        · exact hslot k' w hw hne

@[simp] theorem not_kept_nil : ¬Kept bits ([] : List (Call κ ν)) k v := by
  rintro ⟨later, earlier, heq, -⟩
  simp at heq

/-- A look-up displaces nothing. -/
@[simp] theorem kept_get : Kept bits (.get k' :: cs) k v ↔ Kept bits cs k v := by
  simp [kept_cons]

theorem kept_insert_of_slot_eq (h : slotNumber bits k' = slotNumber bits k) :
    Kept bits (.insert k' w :: cs) k v ↔ k' = k ∧ w = v := by
  simp [kept_cons, h]

theorem kept_insert_of_slot_ne (h : slotNumber bits k' ≠ slotNumber bits k) :
    Kept bits (.insert k' w :: cs) k v ↔ Kept bits cs k v := by
  rw [kept_cons]
  constructor
  · rintro (heq | ⟨-, hkept⟩)
    · cases heq
      exact absurd rfl h
    · exact hkept
  · intro hkept
    refine .inr ⟨?_, hkept⟩
    rintro _ _ ⟨⟩
    exact h

end Kept

/-! ## Histories -/

section Past

variable {bits : Nat} {es : List (Entry κ ν)} {c c₀ : OpCache κ ν} {k k' : κ} {v : ν}

/-- A cache of `2^bits` slots is in step with what was asked of it. -/
structure Tracks (bits : Nat) (es : List (Entry κ ν)) (c : OpCache κ ν) : Prop where
  mask : c.mask = lowBits bits
  peek : ∀ k v, c.peek k = some v ↔ Kept bits (es.map Prod.fst) k v
  lookUps : c.hits + c.misses = es.countP Entry.isLookUp
  hits : c.hits = es.countP Entry.isHit
  /-- Every look-up was answered with what was kept at that time. -/
  answers : ∀ k r earlier, (.get k, r) :: earlier <:+ es → ∃ found, r = .ok (.found found) ∧
    ∀ v, found = some v ↔ Kept bits (earlier.map Prod.fst) k v

theorem create_tracks (h : create bits = .ok c) : Tracks bits [] c := by
  have hpeek : ∀ k, c.peek k = none := fun k => peek_create h
  unfold create at h
  split at h
  · cases h
    refine ⟨rfl, fun k v => ?_, rfl, rfl, fun k r earlier hsuffix => ?_⟩
    · rw [hpeek k]
      exact iff_of_false nofun not_kept_nil
    · exact absurd (List.suffix_nil.1 hsuffix) (List.cons_ne_nil _ _)
  · cases h

namespace Tracks

/-- The mask selects the slot by the low bits of the hash. -/
theorem slot_eq_iff (h : Tracks bits es c) (hbits : bits ≤ 31) :
    c.slot k = c.slot k' ↔ slotNumber bits k = slotNumber bits k' := by
  unfold slot slotNumber
  rw [← UInt64.toNat_inj, h.mask, toNat_and_lowBits _ hbits, toNat_and_lowBits _ hbits]

theorem insert (h : Tracks bits es c) (hbits : bits ≤ 31) (k : κ) (v : ν) (r : Except Fault (Answer ν)) :
    Tracks bits ((.insert k v, r) :: es) (c.insert k v) where
  mask := h.mask
  peek k' v' := by
    rw [List.map_cons]
    by_cases hs : slotNumber bits k = slotNumber bits k'
    · rw [peek_insert_of_slot_eq v ((h.slot_eq_iff hbits).2 hs), kept_insert_of_slot_eq hs,
        Option.ite_none_right_eq_some, Option.some.injEq]
    · rw [peek_insert_of_slot_ne v (mt (h.slot_eq_iff hbits).1 hs), kept_insert_of_slot_ne hs]
      exact h.peek k' v'
  lookUps := h.lookUps
  hits := h.hits
  answers k' r' earlier hsuffix := by
    rcases List.suffix_cons_iff.1 hsuffix with heq | hsuffix
    · cases heq
    · exact h.answers k' r' earlier hsuffix

theorem get (h : Tracks bits es c) (k : κ) :
    Tracks bits ((.get k, .ok (.found (c.get k).1)) :: es) (c.get k).2 where
  mask := (mask_get c k).trans h.mask
  peek k' v := by
    rw [peek_get, List.map_cons, kept_get]
    exact h.peek k' v
  lookUps := by rw [lookUps_get, h.lookUps, List.countP_cons_of_pos rfl]
  hits := by rw [hits_get, h.hits, List.countP_cons, Entry.isHit_get, get_fst]
  answers k' r earlier hsuffix := by
    rcases List.suffix_cons_iff.1 hsuffix with heq | hsuffix
    · cases heq
      refine ⟨_, rfl, fun v => ?_⟩
      rw [get_fst]
      exact h.peek k v
    · exact h.answers k' r earlier hsuffix

theorem of_past (hbits : bits ≤ 31) (hcreate : create bits = .ok c₀) (h : Past Call.run c₀ es c) :
    Tracks bits es c := by
  induction h with
  | nil => exact create_tracks hcreate
  | call _ call ih =>
    cases call with
    | insert k v => exact ih.insert hbits k v _
    | get k => exact ih.get k

end Tracks

/-- Whatever was inserted into a cache of `2^bits` slots and looked up since it was made: a look-up found `v`
if and only if its key had been inserted, the last time with the value `v`, and no other key of the same slot
after that, and else it found nothing. The counters add up to the number of look-ups, and the hits are
those that found something. -/
theorem past_truthful (hbits : bits ≤ 31) : ∃ c₀ : OpCache κ ν, create bits = .ok c₀ ∧
    ∀ es c, Past Call.run c₀ es c →
      (∀ k r earlier, (.get k, r) :: earlier <:+ es → ∃ found, r = .ok (.found found) ∧
        ∀ v, found = some v ↔ Kept bits (earlier.map Prod.fst) k v) ∧
      c.hits + c.misses = es.countP Entry.isLookUp ∧ c.hits = es.countP Entry.isHit := by
  obtain ⟨c₀, hcreate⟩ : ∃ c₀ : OpCache κ ν, create bits = .ok c₀ := ⟨_, if_pos hbits⟩
  refine ⟨c₀, hcreate, fun es c h => ?_⟩
  have htracks := Tracks.of_past hbits hcreate h
  exact ⟨htracks.answers, htracks.lookUps, htracks.hits⟩

end Past

/-- The keys 1 and 3 share a slot: 3 displaces what was inserted under 1, and is displaced itself. -/
theorem past_truthful_displaced : ∃ c₀ c : OpCache UInt64 Nat, create 1 = .ok c₀ ∧
    Past Call.run c₀ [(.get 2, .ok (.found (some 20))), (.get 3, .ok (.found none)),
      (.get 1, .ok (.found (some 11))), (.insert 1 11, .ok .done), (.insert 3 30, .ok .done),
      (.insert 2 20, .ok .done), (.insert 1 10, .ok .done)] c ∧
    (∀ v, ¬Kept 1 [.get 1, .insert 1 11, .insert 3 30, .insert 2 20, .insert 1 10] (3 : UInt64) v) ∧
    Kept 1 [.get 3, .get 1, .insert 1 11, .insert 3 30, .insert 2 20, .insert 1 10] (2 : UInt64) 20 ∧
    c.hits + c.misses = 3 ∧ c.hits = 2 := by
  obtain ⟨c₀, hcreate, htruthful⟩ := @past_truthful UInt64 Nat _ _ 1 (by decide)
  have hnew : Past Call.run c₀ [] c₀ := .nil
  cases hcreate
  have hone := hnew.of_outcome (c := .insert 1 10) (r := .ok .done) rfl
  have htwo := hone.of_outcome (c := .insert 2 20) (r := .ok .done) rfl
  have hthree := htwo.of_outcome (c := .insert 3 30) (r := .ok .done) rfl
  have hagain := hthree.of_outcome (c := .insert 1 11) (r := .ok .done) rfl
  have hfound := hagain.of_outcome (c := .get 1) (r := .ok (.found (some 11))) (by
    simp (disch := decide) [peek_insert_of_slot_eq])
  have hlost := hfound.of_outcome (c := .get 3) (r := .ok (.found none)) (by
    simp (disch := decide) [peek_insert_of_slot_eq])
  have hstays := hlost.of_outcome (c := .get 2) (r := .ok (.found (some 20))) (by
    simp (disch := decide) [peek_insert_of_slot_eq, peek_insert_of_slot_ne])
  obtain ⟨hanswers, hlookUps, hhits⟩ := htruthful _ _ hstays
  refine ⟨_, _, rfl, hstays, fun v hkept => ?_, ?_, hlookUps, hhits⟩
  · obtain ⟨_, ⟨⟩, hiff⟩ := hanswers 3 _ _ ⟨[_], rfl⟩
    exact absurd ((hiff v).2 hkept) nofun
  · obtain ⟨_, ⟨⟩, hiff⟩ := hanswers 2 _ _ List.suffix_rfl
    exact (hiff 20).1 rfl

end StateSpace.OpCache
