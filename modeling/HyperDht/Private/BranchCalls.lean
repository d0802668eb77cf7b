import HyperDht.Private.BranchSlots

/-!
# Calls on branch slots

What every call does to the branches: none leaves its pool or gets other roots,
and the books stay sound (`Sound.call`).
-/

namespace HyperDht.Private

namespace BranchSlots

/-! ## Taking and deferring -/

theorem foldl_createRoot (rows : BranchKind → Row) {log : List (Nat × Row)} :
    ∀ (kinds : List BranchKind) {t : Ledgers} (r : BranchKind → Nat), kinds.Nodup →
      (∀ kind ∈ kinds, (rows kind).valid = true) → t.Conserved log →
      (kinds.foldl (createRoot rows) (t, r)).1.Conserved log ∧
      t.Later (kinds.foldl (createRoot rows) (t, r)).1 ∧
      (∀ kind, kind ∉ kinds → (kinds.foldl (createRoot rows) (t, r)).2 kind = r kind) ∧
      ∀ kind ∈ kinds, t.states.length ≤ (kinds.foldl (createRoot rows) (t, r)).2 kind ∧
        ∃ l : Ledger, (kinds.foldl (createRoot rows) (t, r)).1.states[
          (kinds.foldl (createRoot rows) (t, r)).2 kind]? = some l ∧ l.parent = none := by
  intro kinds
  induction kinds with
  | nil =>
    intro t r _ _ hc
    exact ⟨hc, .refl t, fun _ _ => rfl, fun _ hk => (List.not_mem_nil hk).elim⟩
  | cons kind kinds ih =>
    intro t r hn hv hc
    obtain ⟨hout, hn⟩ := List.nodup_cons.mp hn
    have he : t.createPeerLedger (rows kind) = (t.add (.new none (rows kind)), .ok t.states.length) := by
      unfold Ledgers.createPeerLedger
      rw [if_neg (by simp [hv kind List.mem_cons_self])]
    have hstep : createRoot rows (t, r) kind =
        (t.add (.new none (rows kind)), Function.update r kind t.states.length) := by
      unfold createRoot
      rw [he]
    have hc₁ : (t.add (.new none (rows kind))).Conserved log := by
      have := hc.step (.create (rows kind))
      rw [Ledgers.apply, he] at this
      exact this
    obtain ⟨hcons, hlater, hkeep, hnew⟩ := ih (t := t.add (.new none (rows kind)))
      (r := Function.update r kind t.states.length) hn (fun k hk => hv k (List.mem_cons_of_mem kind hk)) hc₁
    rw [List.foldl_cons, hstep]
    refine ⟨hcons, (Ledgers.later_add t _).trans hlater, fun k hk => ?_, fun k hk => ?_⟩
    · rw [List.mem_cons, not_or] at hk
      rw [hkeep k hk.2, Function.update_of_ne hk.1]
    · by_cases hkk : k ∈ kinds
      · obtain ⟨hle, hl⟩ := hnew k hkk
        rw [Ledgers.length_add] at hle
        exact ⟨by omega, hl⟩
      · obtain rfl : k = kind := (List.mem_cons.mp hk).resolve_right hkk
        have hroot : (kinds.foldl (createRoot rows)
            (t.add (.new none (rows k)), Function.update r k t.states.length)).2 k = t.states.length := by
          rw [hkeep k hkk, Function.update_self]
        have hthere : (t.add (.new none (rows k))).states[t.states.length]? =
            some (.new none (rows k)) := by
          rw [Ledgers.get_add, if_pos rfl]
        obtain ⟨l, hl, hp, -⟩ := hlater.kept hthere
        rw [hroot]
        exact ⟨le_rfl, l, hl, hp⟩

theorem Sound.admits {s : BranchSlots} {log : List (Nat × Row)} (h : s.Sound log) {pool : Nat}
    {p₀ : SlotPool} (hp₀ : s.pools[pool]? = some p₀) (hroom : (p₀.live.length : Int) < p₀.capacity)
    {roots : BranchKind → Nat}
    (hroots : ∀ kind, ∃ l : Ledger, s.ledgers.states[roots kind]? = some l ∧ l.parent = none)
    (hfresh : ∀ state ∈ s.authorities, ∀ kind, state.roots kind ≠ roots kind) :
    Sound { s with
      pools := s.pools.modify pool fun p => { p with live := p.live ++ [s.authorities.length] }
      authorities := s.authorities ++ [⟨pool, roots, false, false⟩] } log := by
  have hpool : ∀ {i : Nat} {p' : SlotPool}, (s.pools.modify pool fun p => { p with
      live := p.live ++ [s.authorities.length] })[i]? = some p' → ∃ p, s.pools[i]? = some p ∧
      p' = if pool = i then { p with live := p.live ++ [s.authorities.length] } else p :=
    fun hp' => exists_of_modify hp'
  have hnew : ∀ {i : Nat} {p : SlotPool}, s.pools[i]? = some p → s.authorities.length ∉ p.live := by
    intro i p hp hm
    obtain ⟨st, hst, -⟩ := (h.live hp _).mp hm
    exact absurd (List.getElem?_eq_some_iff.mp hst).1 (lt_irrefl _)
  refine ⟨h.ledgers, fun state hs kind => ?_, ?_, fun state hs => ?_, fun {i p'} hp' => ?_,
    fun {i p'} hp' j => ?_, fun {i p'} hp' => ?_, fun {i p'} hp' => ?_, fun {i p'} hp' kind => ?_⟩
  · rcases List.mem_append.mp hs with hs | hs
    · exact h.roots state hs kind
    · obtain rfl := List.mem_singleton.mp hs
      obtain ⟨l, hl, hp⟩ := hroots kind
      exact ⟨l, hl, hp, fun hr => by cases hr⟩
  · refine List.pairwise_append.mpr ⟨h.distinct, List.pairwise_singleton _ _, fun state hs state' hs' => ?_⟩
    obtain rfl := List.mem_singleton.mp hs'
    exact hfresh state hs
  · show state.pool < (s.pools.modify _ _).length
    rw [List.length_modify]
    rcases List.mem_append.mp hs with hs | hs
    · exact h.known state hs
    · obtain rfl := List.mem_singleton.mp hs
      exact (List.getElem?_eq_some_iff.mp hp₀).1
  · obtain ⟨p, hp, rfl⟩ := hpool hp'
    split
    · simpa using List.Nodup.concat (hnew hp) (h.nodup hp)
    · exact h.nodup hp
  · obtain ⟨p, hp, rfl⟩ := hpool hp'
    have hsome : ∀ st, (s.authorities ++ [⟨pool, roots, false, false⟩])[j]? = some st ↔
        s.authorities[j]? = some st ∨ j = s.authorities.length ∧ st = ⟨pool, roots, false, false⟩ :=
      fun st => getElem?_concat_iff
    simp only [hsome]
    have hlive := h.live hp j
    by_cases hi : pool = i
    · rw [if_pos hi]
      show j ∈ p.live ++ [_] ↔ _
      rw [List.mem_append, List.mem_singleton, hlive]
      constructor
      · rintro (⟨st, hst, hsi, hsr⟩ | rfl)
        · exact ⟨st, .inl hst, hsi, hsr⟩
        · exact ⟨_, .inr ⟨rfl, rfl⟩, hi, rfl⟩
      · rintro ⟨st, hst | ⟨hj, -⟩, hsi, hsr⟩
        · exact .inl ⟨st, hst, hsi, hsr⟩
        · exact .inr hj
    · rw [if_neg hi, hlive]
      constructor
      · rintro ⟨st, hst, hsi, hsr⟩
        exact ⟨st, .inl hst, hsi, hsr⟩
      · rintro ⟨st, hst | ⟨-, rfl⟩, hsi, hsr⟩
        · exact ⟨st, hst, hsi, hsr⟩
        · exact absurd hsi hi
  · obtain ⟨p, hp, rfl⟩ := hpool hp'
    by_cases hi : pool = i
    · subst hi
      obtain rfl := Option.some.inj (hp₀.symm.trans hp)
      rw [if_pos rfl]
      show ((p₀.live ++ [_]).length : Int) ≤ p₀.capacity
      rw [List.length_append, List.length_singleton]
      omega
    · rw [if_neg hi]
      exact h.few hp
  · obtain ⟨p, hp, rfl⟩ := hpool hp'
    have htaken := h.taken hp
    show _ = (s.authorities ++ [_]).countP (inPool i)
    rw [List.countP_append, List.countP_singleton]
    by_cases hi : pool = i
    · rw [if_pos hi, if_pos (by simp [inPool, hi])]
      show (p.live ++ [_]).length + p.retired = _
      rw [List.length_append, List.length_singleton]
      omega
    · rw [if_neg hi, if_neg (by simp [inPool, hi])]
      exact htaken
  · obtain ⟨p, hp, rfl⟩ := hpool hp'
    have hspent : (if pool = i then { p with live := p.live ++ [s.authorities.length] } else p).retiredSpent =
        p.retiredSpent := by
      split <;> rfl
    rw [hspent]
    convert h.spent hp kind using 1
    funext a
    unfold spentIn
    show ((s.authorities ++ [_]).map _).sum = _
    rw [List.map_append, List.sum_append, List.map_singleton, List.sum_singleton,
      if_neg (by simp [retiredIn])]
    exact Int.add_zero _

theorem Sound.remark {s : BranchSlots} {log : List (Nat × Row)} (h : s.Sound log) (authority : Nat) :
    Sound { s with authorities := s.authorities.modify authority fun state => { state with
      joinDeferred := true } } log := by
  have hauth : ∀ {j : Nat} {b : BranchAuthority}, (s.authorities.modify authority fun state => { state with
      joinDeferred := true })[j]? = some b → ∃ a, s.authorities[j]? = some a ∧ b.pool = a.pool ∧
        b.roots = a.roots ∧ b.released = a.released := by
    intro j b hb
    obtain ⟨a, ha, rfl⟩ := exists_of_modify hb
    refine ⟨a, ha, ?_⟩
    split <;> exact ⟨rfl, rfl, rfl⟩
  have hmem : ∀ {b : BranchAuthority}, b ∈ (s.authorities.modify authority fun state => { state with
      joinDeferred := true }) → ∃ a ∈ s.authorities, b.pool = a.pool ∧ b.roots = a.roots ∧
        b.released = a.released := by
    intro b hb
    obtain ⟨j, hj⟩ := List.mem_iff_getElem?.mp hb
    obtain ⟨a, ha, hs⟩ := hauth hj
    exact ⟨a, List.mem_of_getElem? ha, hs⟩
  refine ⟨h.ledgers, fun b hb kind => ?_, distinct_modify (fun _ => rfl) h.distinct, fun b hb => ?_,
    h.nodup, fun {i p} hp j => ?_, h.few, fun {i p} hp => ?_, fun {i p} hp kind => ?_⟩
  · obtain ⟨a, ha, -, hr, hrel⟩ := hmem hb
    obtain ⟨l, hl, hp, hreleased⟩ := (h.roots a ha kind).there
    exact ⟨l, hr ▸ hl, hp, fun h' => hreleased (hrel ▸ h')⟩
  · obtain ⟨a, ha, hp, -⟩ := hmem hb
    exact hp ▸ h.known a ha
  · rw [h.live hp j]
    constructor
    · rintro ⟨st, hst, hsi, hsr⟩
      refine ⟨if authority = j then { st with joinDeferred := true } else st, ?_, ?_, ?_⟩
      · show (s.authorities.modify _ _)[j]? = _
        rw [List.getElem?_modify, hst]
        rfl
      · split <;> exact hsi
      · split <;> exact hsr
    · rintro ⟨b, hb, hbi, hbr⟩
      obtain ⟨a, ha, hp, -, hrel⟩ := hauth hb
      exact ⟨a, ha, hp ▸ hbi, hrel ▸ hbr⟩
  · have hcount : (s.authorities.modify authority fun state => { state with
        joinDeferred := true }).countP (inPool i) = s.authorities.countP (inPool i) :=
      countP_modify_pool fun _ => rfl
    exact (h.taken hp).trans hcount.symm
  · convert h.spent hp kind using 1
    funext a
    unfold spentIn
    congr 1
    have hsame : (s.authorities.modify authority fun state => { state with joinDeferred := true }).map
        (fun state => if retiredIn i state then (s.ledgers.spentOf (state.roots kind)).get a else 0) =
        s.authorities.map fun state =>
          if retiredIn i state then (s.ledgers.spentOf (state.roots kind)).get a else 0 :=
      map_modify_of_same fun state _ => rfl
    exact hsame

theorem Sound.flag {s : BranchSlots} {log : List (Nat × Row)} (h : s.Sound log) (pool : Nat) :
    (s.modifyPool pool fun p => { p with closed := true }).Sound log := by
  have hpool : ∀ {i : Nat} {p' : SlotPool},
      (s.pools.modify pool fun p => { p with closed := true })[i]? = some p' →
        ∃ p, s.pools[i]? = some p ∧ p'.capacity = p.capacity ∧ p'.live = p.live ∧
          p'.retired = p.retired ∧ p'.retiredSpent = p.retiredSpent := by
    intro i p' hp'
    obtain ⟨p, hp, rfl⟩ := exists_of_modify hp'
    refine ⟨p, hp, ?_⟩
    split <;> exact ⟨rfl, rfl, rfl, rfl⟩
  refine ⟨h.ledgers, h.roots, h.distinct, fun state hs => ?_, fun {i p'} hp' => ?_,
    fun {i p'} hp' j => ?_, fun {i p'} hp' => ?_, fun {i p'} hp' => ?_, fun {i p'} hp' kind => ?_⟩
  · show state.pool < (s.pools.modify _ _).length
    rw [List.length_modify]
    exact h.known state hs
  · obtain ⟨p, hp, -, hl, -⟩ := hpool hp'
    exact hl ▸ h.nodup hp
  · obtain ⟨p, hp, -, hl, -⟩ := hpool hp'
    exact hl ▸ h.live hp j
  · obtain ⟨p, hp, hc, hl, -⟩ := hpool hp'
    exact hc ▸ hl ▸ h.few hp
  · obtain ⟨p, hp, -, hl, hr, -⟩ := hpool hp'
    exact hl ▸ hr ▸ h.taken hp
  · obtain ⟨p, hp, -, -, -, hsp⟩ := hpool hp'
    exact hsp ▸ h.spent hp kind

theorem Sound.opens {s : BranchSlots} {log : List (Nat × Row)} (h : s.Sound log) {capacity : Int}
    (hcap : 0 ≤ capacity) :
    Sound { s with pools := s.pools ++ [⟨capacity, [], 0, false, fun _ => 0⟩] } log := by
  have hpool : ∀ {i : Nat} {p' : SlotPool},
      (s.pools ++ [⟨capacity, [], 0, false, fun _ => 0⟩])[i]? = some p' →
        s.pools[i]? = some p' ∨ i = s.pools.length ∧ p' = ⟨capacity, [], 0, false, fun _ => 0⟩ :=
    fun hp' => getElem?_concat_iff.mp hp'
  have hother : ∀ state ∈ s.authorities, state.pool ≠ s.pools.length :=
    fun state hs => (h.known state hs).ne
  refine ⟨h.ledgers, h.roots, h.distinct, fun state hs => ?_, fun {i p'} hp' => ?_,
    fun {i p'} hp' j => ?_, fun {i p'} hp' => ?_, fun {i p'} hp' => ?_, fun {i p'} hp' kind => ?_⟩
  · show state.pool < (s.pools ++ [_]).length
    rw [List.length_append]
    exact (h.known state hs).trans_le (Nat.le_add_right _ _)
  · rcases hpool hp' with hp | ⟨-, rfl⟩
    · exact h.nodup hp
    · exact List.nodup_nil
  · rcases hpool hp' with hp | ⟨rfl, rfl⟩
    · exact h.live hp j
    · refine ⟨fun hm => (List.not_mem_nil hm).elim, ?_⟩
      rintro ⟨state, hs, hsi, -⟩
      exact absurd hsi (hother state (List.mem_of_getElem? hs))
  · rcases hpool hp' with hp | ⟨-, rfl⟩
    · exact h.few hp
    · exact hcap
  · rcases hpool hp' with hp | ⟨rfl, rfl⟩
    · exact h.taken hp
    · exact (List.countP_eq_zero.mpr fun state hs => by simpa [inPool] using hother state hs).symm
  · rcases hpool hp' with hp | ⟨rfl, rfl⟩
    · exact h.spent hp kind
    · convert RowTotal.tells_zero using 1
      funext a
      refine List.sum_eq_zero fun x hx => ?_
      obtain ⟨state, hs, rfl⟩ := List.mem_map.mp hx
      exact if_neg (by simp [retiredIn, hother state hs])

/-! ## What a call keeps -/

/-- `s'` is `s` after any number of calls. -/
structure Kept (s s' : BranchSlots) : Prop where
  ledgers : s.ledgers.Later s'.ledgers
  authorities : ∀ {j : Nat} {a : BranchAuthority}, s.authorities[j]? = some a →
    ∃ a', s'.authorities[j]? = some a' ∧ a'.pool = a.pool ∧ a'.roots = a.roots ∧
      (a.joinDeferred = true → a'.joinDeferred = true)
  pools : ∀ {i : Nat} {p : SlotPool}, s.pools[i]? = some p →
    ∃ p', s'.pools[i]? = some p' ∧ (p.closed = true → p'.closed = true)

theorem Kept.refl (s : BranchSlots) : s.Kept s :=
  ⟨.refl _, fun ha => ⟨_, ha, rfl, rfl, id⟩, fun hp => ⟨_, hp, id⟩⟩

theorem Kept.trans {s s' s'' : BranchSlots} (h : s.Kept s') (h' : s'.Kept s'') : s.Kept s'' := by
  refine ⟨h.ledgers.trans h'.ledgers, fun ha => ?_, fun hp => ?_⟩
  · obtain ⟨a', ha', hp, hr, hd⟩ := h.authorities ha
    obtain ⟨a'', ha'', hp', hr', hd'⟩ := h'.authorities ha'
    exact ⟨a'', ha'', hp'.trans hp, hr'.trans hr, hd' ∘ hd⟩
  · obtain ⟨p', hp', hc⟩ := h.pools hp
    obtain ⟨p'', hp'', hc'⟩ := h'.pools hp'
    exact ⟨p'', hp'', hc' ∘ hc⟩

theorem Retires.kept {authority : Nat} {state : BranchAuthority} {log : List (Nat × Row)}
    {s s' : BranchSlots} (hr : Retires authority state log s s') : s.Kept s' := by
  refine ⟨hr.later, fun {j a} ha => ?_, fun {i p} hp => ?_⟩
  · refine ⟨if authority = j then { a with released := true } else a, ?_, ?_, ?_, ?_⟩
    · rw [hr.authorities, List.getElem?_modify, ha]
      rfl
    all_goals split
    all_goals first | rfl | exact id
  · refine ⟨if state.pool = i then retire s.ledgers authority state p else p, ?_, ?_⟩
    · rw [hr.pools, List.getElem?_modify, hp]
      rfl
    · split <;> exact id

/-! ## Closing -/

/-- A branch when the pool of `xs` is closed. -/
def whenClosed (xs : List Nat) (j : Nat) (a : BranchAuthority) : BranchAuthority :=
  if j ∈ xs ∧ a.joinDeferred = false then { a with released := true } else a

theorem closeBranch_spec {s : BranchSlots} {log : List (Nat × Row)} (h : s.Sound log)
    (authority : Nat) : (s.closeBranch authority).Sound log ∧ s.Kept (s.closeBranch authority) ∧
      ∀ j : Nat, (s.closeBranch authority).authorities[j]? =
        (s.authorities[j]?).map (whenClosed [authority] j) := by
  have hid : (∀ a, s.authorities[authority]? = some a → a.joinDeferred = true ∨ a.released = true) →
      ∀ j : Nat, s.authorities[j]? = (s.authorities[j]?).map (whenClosed [authority] j) := by
    intro hsame j
    cases ha : s.authorities[j]? with
    | none => rfl
    | some a =>
      rw [Option.map_some]
      congr 1
      unfold whenClosed
      split
      · next hc =>
        obtain ⟨hj, hd⟩ := hc
        obtain rfl := List.mem_singleton.mp hj
        have hr : a.released = true := (hsame a ha).resolve_left (by simp [hd])
        obtain ⟨pool, roots, released, joinDeferred⟩ := a
        obtain rfl : released = true := hr
        rfl
      · rfl
  unfold closeBranch
  by_cases hd : (s.authorities[authority]?).any BranchAuthority.joinDeferred = true
  · rw [if_pos hd]
    refine ⟨h, .refl s, hid fun a ha => .inl ?_⟩
    rw [ha] at hd
    exact hd
  · rw [if_neg hd]
    rcases s.release_cases authority with ⟨⟨e, he⟩, hnone⟩ | ⟨he, state, hs, hr⟩ |
      ⟨state, hs, hlive, -, hret⟩
    · rw [he]
      refine ⟨h, .refl s, hid fun a ha => ?_⟩
      rw [hnone] at ha
      cases ha
    · rw [he]
      refine ⟨h, .refl s, hid fun a ha => .inr ?_⟩
      obtain rfl := Option.some.inj (hs.symm.trans ha)
      exact hr
    · have hr := hret log h
      refine ⟨hr.sound h hs hlive, hr.kept, fun j => ?_⟩
      rw [hr.authorities, List.getElem?_modify]
      cases ha : s.authorities[j]? with
      | none => rfl
      | some a =>
        show some _ = some _
        congr 1
        unfold whenClosed
        dsimp only
        by_cases hj : authority = j
        · subst hj
          have hnd : a.joinDeferred = false := by
            rw [ha] at hd
            simpa using hd
          rw [if_pos rfl, if_pos ⟨List.mem_singleton_self _, hnd⟩]
        · rw [if_neg hj, if_neg fun hc => hj (List.mem_singleton.mp hc.1).symm]

theorem foldl_closeBranch {log : List (Nat × Row)} : ∀ (xs : List Nat) {s : BranchSlots},
    s.Sound log → (xs.foldl closeBranch s).Sound log ∧ s.Kept (xs.foldl closeBranch s) ∧
      ∀ j : Nat, (xs.foldl closeBranch s).authorities[j]? =
        (s.authorities[j]?).map (whenClosed xs j) := by
  intro xs
  induction xs with
  | nil =>
    intro s h
    refine ⟨h, .refl s, fun j => ?_⟩
    have hid : whenClosed [] j = id := by
      funext a
      simp [whenClosed]
    rw [hid, Option.map_id]
    rfl
  | cons x xs ih =>
    intro s h
    obtain ⟨h₁, hk₁, ha₁⟩ := closeBranch_spec h x
    obtain ⟨h₂, hk₂, ha₂⟩ := ih h₁
    refine ⟨h₂, hk₁.trans hk₂, fun j => ?_⟩
    rw [List.foldl_cons, ha₂ j, ha₁ j, Option.map_map]
    congr 1
    funext a
    show whenClosed xs j (whenClosed [x] j a) = whenClosed (x :: xs) j a
    unfold whenClosed
    by_cases hj : j = x <;> by_cases hm : j ∈ xs <;> by_cases hd : a.joinDeferred = false <;>
      simp [hj, hm, hd]

/-! ## Calls -/

end BranchSlots

/-- A call on branch slots, or an operation on the ledgers below or beside them. -/
inductive BranchCall where
  | create (capacity : Int)
  | take (pool : Nat) (rows : BranchKind → Row)
  | defer (authority : Nat)
  | release (authority : Nat)
  | close (pool : Nat)
  | ledger (op : LedgerOp)

namespace BranchSlots

def call (s : BranchSlots) : BranchCall → BranchSlots
  | .create capacity => (s.createPeerBranchSlots capacity).1
  | .take pool rows => (s.takePeerBranchAuthority pool rows).1
  | .defer authority => (s.deferPeerBranchAuthorityJoin authority).1
  | .release authority => (s.releasePeerBranchAuthority authority).1
  | .close pool => (s.closePeerBranchSlots pool).1
  | .ledger op => { s with ledgers := (s.ledgers.apply op).1 }

def charged (s : BranchSlots) (log : List (Nat × Row)) : BranchCall → List (Nat × Row)
  | .ledger op => s.ledgers.record log op
  | _ => log

/-- The pools of the takes that succeeded, after a call. -/
def taking (s : BranchSlots) (taken : List Nat) : BranchCall → List Nat
  | .take pool rows =>
    match (s.takePeerBranchAuthority pool rows).2 with
    | .ok _ => pool :: taken
    | .error _ => taken
  | _ => taken

theorem take_cases (s : BranchSlots) (pool : Nat) (rows : BranchKind → Row) :
    (∃ e, s.takePeerBranchAuthority pool rows = (s, .error e)) ∨
      ∃ p, s.pools[pool]? = some p ∧ p.closed = false ∧ (p.live.length : Int) < p.capacity ∧
        (∀ kind, (rows kind).valid = true) ∧
        s.takePeerBranchAuthority pool rows =
          ({ ledgers := (createRoots s.ledgers rows).1
             pools := s.pools.modify pool fun p => { p with live := p.live ++ [s.authorities.length] }
             authorities := s.authorities ++ [⟨pool, (createRoots s.ledgers rows).2, false, false⟩] },
            .ok s.authorities.length) := by
  unfold takePeerBranchAuthority
  cases hp : s.pools[pool]? with
  | none => exact .inl ⟨_, rfl⟩
  | some p =>
    dsimp only
    split
    · exact .inl ⟨_, rfl⟩
    · next hv =>
      split
      · exact .inl ⟨_, rfl⟩
      · next hc =>
        split
        · exact .inl ⟨_, rfl⟩
        · next hroom =>
          refine .inr ⟨p, rfl, by simpa using hc, by omega, fun kind => ?_, rfl⟩
          rw [Bool.not_eq_false, List.all_eq_true] at hv
          exact hv kind (mem_branchKinds kind)

theorem defer_cases (s : BranchSlots) (authority : Nat) :
    (s.deferPeerBranchAuthorityJoin authority).1 = s ∨
      (s.deferPeerBranchAuthorityJoin authority).1 =
        { s with authorities := s.authorities.modify authority fun state => { state with
          joinDeferred := true } } := by
  unfold deferPeerBranchAuthorityJoin
  split
  · exact .inl rfl
  · split
    · exact .inl rfl
    · split
      · exact .inl rfl
      · exact .inr rfl

theorem close_cases (s : BranchSlots) (pool : Nat) :
    (s.closePeerBranchSlots pool).1 = s ∧ (∀ p, s.pools[pool]? = some p → p.closed = true) ∨
      ∃ p, s.pools[pool]? = some p ∧ p.closed = false ∧
        (s.closePeerBranchSlots pool).1 =
          p.live.foldl closeBranch (s.modifyPool pool fun p => { p with closed := true }) := by
  unfold closePeerBranchSlots
  cases hp : s.pools[pool]? with
  | none => exact .inl ⟨rfl, fun p h => by cases h⟩
  | some p =>
    dsimp only
    split
    · next hc => exact .inl ⟨rfl, fun p' h => Option.some.inj h ▸ hc⟩
    · next hc => exact .inr ⟨p, rfl, by simpa using hc, rfl⟩

theorem kept_flag (s : BranchSlots) (pool : Nat) :
    s.Kept (s.modifyPool pool fun p => { p with closed := true }) := by
  refine ⟨.refl _, fun ha => ⟨_, ha, rfl, rfl, id⟩, fun {i p} hp =>
    ⟨if pool = i then { p with closed := true } else p, ?_, ?_⟩⟩
  · show (s.pools.modify _ _)[i]? = _
    rw [List.getElem?_modify, hp]
    rfl
  · split
    · exact fun _ => rfl
    · exact id

theorem Sound.take {s : BranchSlots} {log : List (Nat × Row)} (h : s.Sound log) (pool : Nat)
    (rows : BranchKind → Row) : (s.takePeerBranchAuthority pool rows).1.Sound log ∧
      s.Kept (s.takePeerBranchAuthority pool rows).1 := by
  rcases s.take_cases pool rows with ⟨e, he⟩ | ⟨p, hp, -, hroom, hv, he⟩
  · rw [he]
    exact ⟨h, .refl s⟩
  · rw [he]
    obtain ⟨hcons, hlater, -, hroots⟩ := foldl_createRoot rows branchKinds
      (fun _ => 0) (by decide) (fun kind _ => hv kind) h.ledgers
    have h₁ := h.later hlater hcons
    refine ⟨h₁.admits hp hroom (fun kind => (hroots kind (mem_branchKinds kind)).2)
      fun state hs kind he => ?_, hlater, fun {j a} ha => ⟨a, ?_, rfl, rfl, id⟩,
      fun {i p} hp => ⟨if pool = i then { p with live := p.live ++ [s.authorities.length] } else p, ?_, ?_⟩⟩
    · obtain ⟨l, hl, -⟩ := (h.roots state hs kind).there
      have hlt := (List.getElem?_eq_some_iff.mp hl).1
      have hge := (hroots kind (mem_branchKinds kind)).1
      have he' : state.roots kind = (branchKinds.foldl (createRoot rows) (s.ledgers, fun _ => 0)).2 kind := he
      omega
    · exact getElem?_concat_iff.mpr (.inl ha)
    · show (s.pools.modify _ _)[i]? = _
      rw [List.getElem?_modify, hp]
      rfl
    · split <;> exact id

theorem Sound.call {s : BranchSlots} {log : List (Nat × Row)} (h : s.Sound log) (c : BranchCall) :
    (s.call c).Sound (s.charged log c) ∧ s.Kept (s.call c) := by
  cases c with
  | create capacity =>
    show (s.createPeerBranchSlots capacity).1.Sound log ∧ s.Kept (s.createPeerBranchSlots capacity).1
    unfold createPeerBranchSlots
    split
    · exact ⟨h, .refl s⟩
    · exact ⟨h.opens (by omega), .refl _, fun ha => ⟨_, ha, rfl, rfl, id⟩,
        fun hp => ⟨_, getElem?_concat_iff.mpr (.inl hp), id⟩⟩
  | take pool rows => exact h.take pool rows
  | defer authority =>
    show (s.deferPeerBranchAuthorityJoin authority).1.Sound log ∧
      s.Kept (s.deferPeerBranchAuthorityJoin authority).1
    rcases s.defer_cases authority with he | he
    · rw [he]
      exact ⟨h, .refl s⟩
    · rw [he]
      refine ⟨h.remark authority, .refl _, fun {j a} ha =>
        ⟨if authority = j then { a with joinDeferred := true } else a, ?_, ?_⟩, fun hp => ⟨_, hp, id⟩⟩
      · show (s.authorities.modify _ _)[j]? = _
        rw [List.getElem?_modify, ha]
        rfl
      · split
        · exact ⟨rfl, rfl, fun _ => rfl⟩
        · exact ⟨rfl, rfl, id⟩
  | release authority =>
    show (s.releasePeerBranchAuthority authority).1.Sound log ∧
      s.Kept (s.releasePeerBranchAuthority authority).1
    rcases s.release_cases authority with ⟨⟨e, he⟩, -⟩ | ⟨he, -⟩ | ⟨state, hs, hlive, -, hret⟩
    · rw [he]
      exact ⟨h, .refl s⟩
    · rw [he]
      exact ⟨h, .refl s⟩
    · exact ⟨(hret log h).sound h hs hlive, (hret log h).kept⟩
  | close pool =>
    show (s.closePeerBranchSlots pool).1.Sound log ∧ s.Kept (s.closePeerBranchSlots pool).1
    rcases s.close_cases pool with ⟨he, -⟩ | ⟨p, -, -, he⟩
    · rw [he]
      exact ⟨h, .refl s⟩
    · rw [he]
      obtain ⟨hs, hk, -⟩ := foldl_closeBranch p.live (h.flag pool)
      exact ⟨hs, (kept_flag s pool).trans hk⟩
  | ledger op =>
    have hlater := h.ledgers.later op
    exact ⟨h.later hlater (h.ledgers.step op), hlater, fun ha => ⟨_, ha, rfl, rfl, id⟩,
      fun hp => ⟨_, hp, id⟩⟩

end BranchSlots

end HyperDht.Private
