import HyperDht.Private.BranchCalls

/-!
# Runs of branch slots

What the branches of a pool have spent is the sum over all branches it ever had,
whether it stands in their ledgers or in the totals of the pool, and that sum is
the one of the charges made below their roots. A reading tells that sum as far as
doubles can. In a closed pool a branch ends by its own release only
(`branch_spending_kept`).
-/

namespace HyperDht.Private

namespace BranchSlots

/-! ## What the branches of a pool have spent -/

def liveIn (i : Nat) (state : BranchAuthority) : Bool := state.pool = i ∧ state.released = false

theorem spentIn_split (s : BranchSlots) (i : Nat) (kind : BranchKind) (a : Axis) :
    s.spentIn (inPool i) kind a = s.spentIn (retiredIn i) kind a + s.spentIn (liveIn i) kind a := by
  unfold spentIn
  rw [← List.sum_map_add]
  congr 1
  refine List.map_congr_left fun state _ => ?_
  by_cases hp : state.pool = i <;> cases hr : state.released <;> simp [inPool, retiredIn, liveIn, hp, hr]

theorem sum_map_filter {l : List Nat} (q : Nat → Bool) (g : Nat → Int) :
    ((l.filter q).map g).sum = (l.map fun x => if q x then g x else 0).sum := by
  induction l with
  | nil => rfl
  | cons x l ih =>
    by_cases hq : q x = true
    · rw [List.filter_cons_of_pos hq, List.map_cons, List.sum_cons, ih, List.map_cons, List.sum_cons,
        if_pos hq]
    · rw [List.filter_cons_of_neg hq, ih, List.map_cons, List.sum_cons, if_neg hq, Int.zero_add]

theorem map_range_getElem? {α β : Type} (l : List α) (f : Option α → β) :
    (List.range l.length).map (fun j => f l[j]?) = l.map fun x => f (some x) := by
  apply List.ext_getElem?
  intro j
  rw [List.getElem?_map, List.getElem?_map]
  by_cases hj : j < l.length
  · rw [List.getElem?_range hj, List.getElem?_eq_getElem hj]
    exact congrArg (some ∘ f) (List.getElem?_eq_getElem hj)
  · rw [List.getElem?_eq_none (by simpa using hj), List.getElem?_eq_none (by simpa using hj)]
    rfl

theorem Sound.sum_live {s : BranchSlots} {log : List (Nat × Row)} (h : s.Sound log) {i : Nat}
    {p : SlotPool} (hp : s.pools[i]? = some p) (kind : BranchKind) (a : Axis) :
    (p.live.map fun authority => (s.ledgers.spentOf (s.rootOf kind authority)).get a).sum =
      s.spentIn (liveIn i) kind a := by
  have hperm : p.live.Perm ((List.range s.authorities.length).filter fun j =>
      (s.authorities[j]?).any (liveIn i)) := by
    rw [List.perm_ext_iff_of_nodup (h.nodup hp) (List.nodup_range.filter _)]
    intro j
    rw [h.live hp j, List.mem_filter, List.mem_range]
    constructor
    · rintro ⟨state, hs, hsi, hsr⟩
      refine ⟨(List.getElem?_eq_some_iff.mp hs).1, ?_⟩
      rw [hs]
      simp [liveIn, hsi, hsr]
    · rintro ⟨hlt, hl⟩
      have hs := List.getElem?_eq_getElem hlt
      rw [hs] at hl
      exact ⟨_, hs, of_decide_eq_true hl⟩
  rw [(hperm.map _).sum_eq, sum_map_filter]
  exact congrArg List.sum (map_range_getElem? s.authorities fun o => if o.any (liveIn i) then
    (s.ledgers.spentOf ((o.map fun state : BranchAuthority => state.roots kind).getD 0)).get a else 0)

theorem Sound.reading {s : BranchSlots} {log : List (Nat × Row)} (h : s.Sound log) {i : Nat}
    {r : SlotsReading} (hr : s.readPeerBranchSlots i = .ok r) :
    (r.live : Int) ≤ r.capacity ∧ r.live + r.retired = s.authorities.countP (inPool i) ∧
      ∀ kind, (r.spent kind).Tells (s.spentIn (inPool i) kind) := by
  unfold readPeerBranchSlots at hr
  cases hp : s.pools[i]? with
  | none =>
    rw [hp] at hr
    cases hr
  | some p =>
    rw [hp] at hr
    obtain rfl := Except.ok.inj hr
    refine ⟨h.few hp, h.taken hp, fun kind => ?_⟩
    have hnonneg : ∀ authority ∈ p.live, ∀ a,
        0 ≤ (s.ledgers.spentOf (s.rootOf kind authority)).get a := by
      intro authority hm a
      obtain ⟨state, hs, -⟩ := (h.live hp authority).mp hm
      have hroot : s.rootOf kind authority = state.roots kind := by
        unfold rootOf
        rw [hs]
        rfl
      rw [hroot]
      exact h.spentOf_nonneg hs kind a
    have hall : s.spentIn (inPool i) kind = fun a => s.spentIn (retiredIn i) kind a +
        (p.live.map fun authority => (s.ledgers.spentOf (s.rootOf kind authority)).get a).sum := by
      funext a
      rw [h.sum_live hp kind a, s.spentIn_split]
    rw [hall]
    exact (h.spent hp kind).foldl _ p.live hnonneg

/-- A charge is made in a branch of pool `i` if the branch's root is at or above the ledger. -/
def chargedIn (s : BranchSlots) (i : Nat) (kind : BranchKind) (handle : Nat) : Bool :=
  s.authorities.any fun state => inPool i state && (lineage s.ledgers.parentOf handle).contains
    (state.roots kind)

/-- The sum of the charges made in the branches of pool `i`. -/
def branchCharges (s : BranchSlots) (log : List (Nat × Row)) (i : Nat) (kind : BranchKind) (a : Axis) :
    Int :=
  (log.map fun e => if s.chargedIn i kind e.1 then e.2.get a else 0).sum

theorem Sound.spentIn_eq {s : BranchSlots} {log : List (Nat × Row)} (h : s.Sound log) (i : Nat)
    (kind : BranchKind) (a : Axis) : s.spentIn (inPool i) kind a = s.branchCharges log i kind a := by
  -- a root has spent what was charged at or below it
  have hroot : ∀ state ∈ s.authorities, (s.ledgers.spentOf (state.roots kind)).get a =
      (log.map fun e => if state.roots kind ∈ lineage s.ledgers.parentOf e.1 then e.2.get a else 0).sum := by
    intro state hs
    obtain ⟨l, hl, -⟩ := (h.roots state hs kind).there
    rw [Ledgers.spentOf_of_some hl, h.ledgers.logged.spent hl a]
    unfold Ledgers.directSum Ledgers.belowSum
    rw [← List.sum_map_add]
    congr 1
    refine List.map_congr_left fun e _ => ?_
    by_cases he : e.1 = state.roots kind
    · rw [if_pos he, if_neg (fun hc => hc.1 he), if_pos (he ▸ mem_lineage_self _ _), Int.add_zero]
    · rw [if_neg he, Int.zero_add]
      simp [he]
  -- and a ledger is below one root only
  have hone : ∀ e : Nat × Row, (s.authorities.map fun state =>
      if (inPool i state && (lineage s.ledgers.parentOf e.1).contains (state.roots kind)) then e.2.get a
      else 0).sum = if s.chargedIn i kind e.1 then e.2.get a else 0 := by
    intro e
    refine sum_map_exclusive _ (h.distinct.imp_of_mem fun {state state'} hs hs' hne => ?_) _
    rintro ⟨hq, hq'⟩
    simp only [Bool.and_eq_true, List.contains_iff_mem] at hq hq'
    obtain ⟨l, hl, hlp, -⟩ := (h.roots state hs kind).there
    obtain ⟨l', hl', hlp', -⟩ := (h.roots state' hs' kind).there
    exact hne kind (root_unique h.ledgers.tree.rooted ((Ledgers.parentOf_of_some hl).trans hlp)
      ((Ledgers.parentOf_of_some hl').trans hlp') hq.2 hq'.2)
  unfold spentIn branchCharges
  simp only [← hone]
  rw [← sum_map_sum_comm]
  congr 1
  refine List.map_congr_left fun state hs => ?_
  by_cases hp : inPool i state = true
  · rw [if_pos hp, hroot state hs]
    simp [hp]
  · rw [if_neg hp]
    simp [hp]

theorem Kept.spentIn_le {s s' : BranchSlots} {log log' : List (Nat × Row)} (hk : s.Kept s')
    (h : s.Sound log) (h' : s'.Sound log') (i : Nat) (kind : BranchKind) (a : Axis) :
    s.spentIn (inPool i) kind a ≤ s'.spentIn (inPool i) kind a := by
  unfold spentIn
  refine sum_le_of_getElem? (fun j x hx => ?_) fun x hx => ?_
  · rw [List.getElem?_map] at hx ⊢
    obtain ⟨state, hs, rfl⟩ := Option.map_eq_some_iff.mp hx
    obtain ⟨state', hs', hp, hr, -⟩ := hk.authorities hs
    refine ⟨_, congrArg (Option.map _) hs', ?_⟩
    obtain ⟨l, hl, -⟩ := (h.roots state (List.mem_of_getElem? hs) kind).there
    obtain ⟨l', hl', -, hle, -⟩ := hk.ledgers.kept hl
    have hin : inPool i state' = inPool i state := by
      unfold inPool
      rw [hp]
    beta_reduce
    rw [hin, hr]
    split
    · rw [Ledgers.spentOf_of_some hl, Ledgers.spentOf_of_some hl']
      exact hle a
    · exact le_rfl
  · obtain ⟨state, hs, rfl⟩ := List.mem_map.mp hx
    split
    · obtain ⟨l, hl, -⟩ := (h'.roots state hs kind).there
      rw [Ledgers.spentOf_of_some hl]
      exact (h'.ledgers.funded.spent hl a).1
    · exact le_rfl

/-! ## After a close -/

/-- Branch `authority` is live in pool `i`. -/
def Live (s : BranchSlots) (i authority : Nat) : Prop :=
  ∃ state : BranchAuthority, s.authorities[authority]? = some state ∧ state.pool = i ∧
    state.released = false

/-- Pool `i` is closed, and its live branches wait for their join barrier. -/
structure Joining (i : Nat) (s : BranchSlots) : Prop where
  closed : ∃ p, s.pools[i]? = some p ∧ p.closed = true
  deferred : ∀ {authority : Nat} {state : BranchAuthority}, s.authorities[authority]? = some state →
    state.pool = i → state.released = false → state.joinDeferred = true

theorem live_iff {s s' : BranchSlots} {i authority : Nat} {q : Prop}
    {f : BranchAuthority → BranchAuthority}
    (hget : s'.authorities[authority]? = (s.authorities[authority]?).map f)
    (hpool : ∀ state, (f state).pool = state.pool)
    (hrel : ∀ state, s.authorities[authority]? = some state → state.pool = i →
      ((f state).released = false ↔ state.released = false ∧ q)) :
    s'.Live i authority ↔ s.Live i authority ∧ q := by
  unfold Live
  rw [hget]
  constructor
  · rintro ⟨state', hs', hp, hr⟩
    obtain ⟨state, hs, rfl⟩ := Option.map_eq_some_iff.mp hs'
    obtain ⟨hlive, hq⟩ := (hrel state hs ((hpool state).symm.trans hp)).mp hr
    exact ⟨⟨state, hs, (hpool state).symm.trans hp, hlive⟩, hq⟩
  · rintro ⟨⟨state, hs, hp, hr⟩, hq⟩
    exact ⟨f state, congrArg (Option.map f) hs, (hpool state).trans hp,
      (hrel state hs hp).mpr ⟨hr, hq⟩⟩

theorem Joining.kept {s s' : BranchSlots} {i : Nat} (hj : s.Joining i) (hk : s.Kept s')
    (hlive : ∀ authority, s'.Live i authority → s.Live i authority) : s'.Joining i := by
  obtain ⟨p, hp, hc⟩ := hj.closed
  obtain ⟨p', hp', hc'⟩ := hk.pools hp
  refine ⟨⟨p', hp', hc' hc⟩, fun {authority state'} hs' hpool hr => ?_⟩
  obtain ⟨state, hs, hpool', hr'⟩ := hlive authority ⟨state', hs', hpool, hr⟩
  obtain ⟨a, ha, -, -, hd⟩ := hk.authorities hs
  obtain rfl := Option.some.inj (hs'.symm.trans ha)
  exact hd (hj.deferred hs hpool' hr')

/-- The branches of `xs` that are not deferred are released when they are closed. -/
theorem live_closed {s s' : BranchSlots} {i : Nat} {xs : List Nat} {authority : Nat}
    (hget : s'.authorities[authority]? = (s.authorities[authority]?).map (whenClosed xs authority)) :
    s'.Live i authority ↔ s.Live i authority ∧ ∀ state, s.authorities[authority]? = some state →
      authority ∈ xs → state.joinDeferred = true := by
  refine live_iff hget (fun state => ?_) fun state hs _ => ?_
  · unfold whenClosed
    split <;> rfl
  · rw [hs]
    unfold whenClosed
    by_cases hm : authority ∈ xs <;> cases hd : state.joinDeferred <;> simp [hm, hd]

theorem Joining.live_take {s : BranchSlots} {i : Nat} (hj : s.Joining i) (pool : Nat)
    (rows : BranchKind → Row) (authority : Nat) :
    (s.takePeerBranchAuthority pool rows).1.Live i authority ↔ s.Live i authority := by
  rcases s.take_cases pool rows with ⟨e, he⟩ | ⟨p, hp, hopen, -, -, he⟩
  · rw [he]
  · rw [he]
    have hne : pool ≠ i := by
      rintro rfl
      obtain ⟨p', hp', hc⟩ := hj.closed
      obtain rfl := Option.some.inj (hp.symm.trans hp')
      rw [hopen] at hc
      cases hc
    constructor
    · rintro ⟨state, hs, hpool, hr⟩
      rcases getElem?_concat_iff.mp hs with hs | ⟨-, rfl⟩
      · exact ⟨state, hs, hpool, hr⟩
      · exact absurd hpool hne
    · rintro ⟨state, hs, hpool, hr⟩
      exact ⟨state, getElem?_concat_iff.mpr (.inl hs), hpool, hr⟩

/-- In a closed pool a branch ends by its own release only. -/
theorem Joining.live_call {s : BranchSlots} {log : List (Nat × Row)} {i : Nat} (hj : s.Joining i)
    (h : s.Sound log) (c : BranchCall) (authority : Nat) :
    (s.call c).Live i authority ↔ s.Live i authority ∧ c ≠ .release authority := by
  cases c with
  | create capacity =>
    have he : (s.createPeerBranchSlots capacity).1.authorities = s.authorities := by
      unfold createPeerBranchSlots
      split <;> rfl
    simp [call, Live, he]
  | take pool rows =>
    rw [call, hj.live_take pool rows authority]
    simp
  | defer other =>
    rcases s.defer_cases other with he | he
    · simp [call, he]
    · rw [call, he]
      refine (live_iff (q := BranchCall.defer other ≠ .release authority)
        (f := fun state => if other = authority then { state with joinDeferred := true } else state)
        ?_ (fun state => ?_) fun state _ _ => ?_)
      · exact List.getElem?_modify _ _ _ _
      · split <;> rfl
      · split <;> simp
  | release other =>
    rcases s.release_cases other with ⟨⟨e, he⟩, hnone⟩ | ⟨he, state, hs, hr⟩ |
      ⟨state, hs, hlive, -, hret⟩
    · rw [call, he]
      refine ⟨fun hl => ⟨hl, fun heq => ?_⟩, And.left⟩
      obtain rfl := BranchCall.release.inj heq
      obtain ⟨state, hs, -⟩ := hl
      rw [hnone] at hs
      cases hs
    · rw [call, he]
      refine ⟨fun hl => ⟨hl, fun heq => ?_⟩, And.left⟩
      obtain rfl := BranchCall.release.inj heq
      obtain ⟨state', hs', -, hr'⟩ := hl
      obtain rfl := Option.some.inj (hs.symm.trans hs')
      rw [hr] at hr'
      cases hr'
    · rw [call]
      refine live_iff (f := fun state => if other = authority then { state with released := true } else state)
        ?_ (fun state => ?_) fun state _ _ => ?_
      · rw [(hret log h).authorities]
        exact List.getElem?_modify _ _ _ _
      · split <;> rfl
      · split
        · next heq => simp [heq]
        · next heq => simp [heq]
  | close pool =>
    rw [call]
    rcases s.close_cases pool with ⟨he, -⟩ | ⟨p, hp, -, he⟩
    · simp [he]
    · rw [he]
      obtain ⟨-, -, hget⟩ := foldl_closeBranch p.live (h.flag pool)
      rw [live_closed (hget authority)]
      refine and_congr_right fun hl => iff_of_true (fun state hs _ => ?_) (by simp)
      obtain ⟨state', hs', hpool, hr⟩ := hl
      obtain rfl := Option.some.inj (hs.symm.trans hs')
      exact hj.deferred hs hpool hr
  | ledger op => simp [call, Live]

end BranchSlots

/-! ## Runs -/

/-- Branch slots with what a run has charged and taken so far. -/
structure SlotsRun where
  slots : BranchSlots
  charges : List (Nat × Row)
  taken : List Nat

namespace BranchSlots

theorem countP_of_pools {s s' : BranchSlots} (i : Nat)
    (h : ∀ j : Nat, (s'.authorities[j]?).map BranchAuthority.pool =
      (s.authorities[j]?).map BranchAuthority.pool) :
    s'.authorities.countP (inPool i) = s.authorities.countP (inPool i) := by
  have hmap : s'.authorities.map BranchAuthority.pool = s.authorities.map BranchAuthority.pool := by
    apply List.ext_getElem?
    intro j
    rw [List.getElem?_map, List.getElem?_map, h j]
  have hcount : ∀ l : List BranchAuthority, l.countP (inPool i) =
      (l.map BranchAuthority.pool).countP (fun pool => decide (pool = i)) := fun l => by
    rw [List.countP_map]
    rfl
  rw [hcount, hcount, hmap]

theorem Sound.count_taking {s : BranchSlots} {log : List (Nat × Row)} (h : s.Sound log)
    {taken : List Nat} {i : Nat} (ht : taken.count i = s.authorities.countP (inPool i))
    (c : BranchCall) : (s.taking taken c).count i = (s.call c).authorities.countP (inPool i) := by
  cases c with
  | create capacity =>
    have he : (s.createPeerBranchSlots capacity).1.authorities = s.authorities := by
      unfold createPeerBranchSlots
      split <;> rfl
    show taken.count i = (s.createPeerBranchSlots capacity).1.authorities.countP (inPool i)
    rw [he]
    exact ht
  | take pool rows =>
    simp only [taking, BranchSlots.call]
    rcases s.take_cases pool rows with ⟨e, he⟩ | ⟨p, -, -, -, -, he⟩
    · rw [he]
      exact ht
    · rw [he]
      show (pool :: taken).count i = (s.authorities ++ [_]).countP (inPool i)
      rw [List.count_cons, List.countP_append, List.countP_singleton, ht]
      simp [inPool]
  | defer authority =>
    show taken.count i = (s.deferPeerBranchAuthorityJoin authority).1.authorities.countP (inPool i)
    rcases s.defer_cases authority with he | he
    · rw [he]
      exact ht
    · rw [he]
      exact ht.trans (countP_modify_pool (f := fun state => { state with joinDeferred := true })
        fun _ => rfl).symm
  | release authority =>
    show taken.count i = (s.releasePeerBranchAuthority authority).1.authorities.countP (inPool i)
    rcases s.release_cases authority with ⟨⟨e, he⟩, -⟩ | ⟨he, -⟩ | ⟨state, -, -, -, hret⟩
    · rw [he]
      exact ht
    · rw [he]
      exact ht
    · rw [(hret log h).authorities]
      exact ht.trans (countP_modify_pool (f := fun state => { state with released := true })
        fun _ => rfl).symm
  | close pool =>
    show taken.count i = (s.closePeerBranchSlots pool).1.authorities.countP (inPool i)
    rcases s.close_cases pool with ⟨he, -⟩ | ⟨p, -, -, he⟩
    · rw [he]
      exact ht
    · rw [he]
      obtain ⟨-, -, hget⟩ := foldl_closeBranch p.live (h.flag pool)
      refine ht.trans (countP_of_pools i fun j => ?_).symm
      rw [hget j, Option.map_map]
      show Option.map _ (s.authorities[j]?) = _
      congr 1
      funext state
      show (whenClosed p.live j state).pool = state.pool
      unfold whenClosed
      split <;> rfl
  | ledger op => exact ht

def liveBranches (s : BranchSlots) (pool : Nat) : List Nat :=
  ((s.pools[pool]?).map SlotPool.live).getD []

def isJoinDeferred (s : BranchSlots) (authority : Nat) : Bool :=
  (s.authorities[authority]?).any BranchAuthority.joinDeferred

theorem Sound.mem_liveBranches {s : BranchSlots} {log : List (Nat × Row)} (h : s.Sound log)
    {i authority : Nat} : authority ∈ s.liveBranches i ↔ s.Live i authority := by
  unfold liveBranches
  cases hp : s.pools[i]? with
  | none =>
    refine ⟨fun hm => (List.not_mem_nil hm).elim, ?_⟩
    rintro ⟨state, hs, hpool, -⟩
    have hlt := h.known state (List.mem_of_getElem? hs)
    have hge := List.getElem?_eq_none_iff.mp hp
    omega
  | some p => exact h.live hp authority

/-! ## A pool that fills up -/

/-- Roots as large as they can be on cells. -/
def fullRow : Row := ⟨maxU32, maxU32, 0⟩

/-- A branch is taken, and `row` is charged to its first root. -/
def branchCalls (n : Nat) (row : Row) : List BranchCall :=
  [.take 0 fun _ => fullRow, .ledger (.charge (4 * n) row)]

/-- `n` branches, one after the other, each charged all it has. -/
def filling : Nat → List BranchCall
  | 0 => [.create 2]
  | n + 1 => filling n ++ (branchCalls n fullRow ++ [.release n])

/-- Pool 0 after `n` takes: its retired total of `sendLedger`, and its live branches with
what they have spent there. -/
structure Shows (s : BranchSlots) (n : Nat) (total : RowTotal) (live : List (Nat × Row)) : Prop where
  count : s.authorities.length = n
  ledgers : s.ledgers.states.length = 4 * n
  pool : ∃ p, s.pools[0]? = some p ∧ p.capacity = 2 ∧ p.closed = false ∧
    p.live = live.map Prod.fst ∧ p.retiredSpent .sendLedger = total
  branch : ∀ e ∈ live, ∃ state : BranchAuthority, s.authorities[e.1]? = some state ∧ state.pool = 0 ∧
    state.released = false ∧ state.roots .sendLedger = 4 * e.1 ∧ s.ledgers.spentOf (4 * e.1) = e.2

variable {s : BranchSlots} {log : List (Nat × Row)} {n : Nat} {total : RowTotal}
  {live : List (Nat × Row)}

theorem Shows.reading (h : s.Shows n total live) : ∃ reading,
    s.readPeerBranchSlots 0 = .ok reading ∧
      reading.spent .sendLedger = live.foldl (fun t e => t.add e.2) total := by
  obtain ⟨p, hp, -, -, hlive, htotal⟩ := h.pool
  unfold readPeerBranchSlots
  rw [hp]
  refine ⟨_, rfl, ?_⟩
  show p.live.foldl _ (p.retiredSpent .sendLedger) = _
  rw [htotal, hlive, List.foldl_map]
  refine List.foldl_ext _ _ _ fun t e he => ?_
  obtain ⟨state, hs, -, -, hroot, hspent⟩ := h.branch e he
  have hof : s.rootOf .sendLedger e.1 = 4 * e.1 := by
    unfold rootOf
    rw [hs]
    exact hroot
  rw [hof, hspent]

/-- Four new roots, the first of them charged. -/
def withRoots (t : Ledgers) (row : Row) : Ledgers :=
  Ledgers.modify { t with states := t.states ++ List.replicate 4 (.new none fullRow) }
    t.states.length (·.charge row)

theorem createRoots_full (t : Ledgers) :
    (createRoots t fun _ => fullRow).1 =
        { t with states := t.states ++ List.replicate 4 (.new none fullRow) } ∧
      (createRoots t fun _ => fullRow).2 .sendLedger = t.states.length := by
  have hrow : fullRow.valid = true := by decide
  simp [createRoots, branchKinds, createRoot, Ledgers.createPeerLedger, hrow, Ledgers.add,
    List.replicate, Function.update]

theorem charge_newRoot (t : Ledgers) {row : Row} (hrow : row.valid = true)
    (hfits : row.fits fullRow = true) :
    (Ledgers.chargePeerLedger { t with states := t.states ++ List.replicate 4 (.new none fullRow) }
      t.states.length row).1 = withRoots t row := by
  have hnew : (t.states ++ List.replicate 4 (Ledger.new none fullRow))[t.states.length]? =
      some (.new none fullRow) := by
    rw [List.getElem?_append_right le_rfl, Nat.sub_self]
    rfl
  have hleft : (Ledger.new none fullRow).remaining = fullRow := by decide
  have habove : ∀ (fuel : Nat) (t : Ledgers), Ledgers.chargeAbove row fuel none t = t := by
    intro fuel t
    cases fuel <;> rfl
  unfold Ledgers.chargePeerLedger
  rw [hnew]
  dsimp only
  rw [if_neg (by decide), if_neg (by simp [hrow]), hleft, if_neg (by simp [hfits])]
  exact habove _ _

theorem spentOf_withRoots (t : Ledgers) (row : Row) :
    (withRoots t row).spentOf t.states.length = row ∧
      ∀ x < t.states.length, (withRoots t row).spentOf x = t.spentOf x := by
  unfold withRoots Ledgers.spentOf
  constructor
  · rw [Ledgers.get_modify, List.getElem?_append_right le_rfl, Nat.sub_self]
    show (if t.states.length = t.states.length then _ else _ : Ledger).spent = row
    rw [if_pos rfl]
    show (0 : Row) + row = row
    obtain ⟨cells, bytes, commands⟩ := row
    show (⟨0 + cells, 0 + bytes, 0 + commands⟩ : Row) = _
    simp only [Int.zero_add]
  · intro x hx
    rw [Ledgers.get_modify, List.getElem?_append_left hx]
    cases t.states[x]? with
    | none => rfl
    | some l =>
      show (if t.states.length = x then _ else l : Ledger).spent = l.spent
      rw [if_neg hx.ne']

theorem Shows.join (h : s.Shows n total live) (hroom : live.length < 2) {row : Row}
    (hrow : row.valid = true) (hfits : row.fits fullRow = true) :
    ((branchCalls n row).foldl call s).Shows (n + 1) total (live ++ [(n, row)]) := by
  obtain ⟨p, hp, hcap, hopen, hlive, htotal⟩ := h.pool
  obtain ⟨hstates, hroot⟩ := createRoots_full s.ledgers
  obtain ⟨hnew, hold⟩ := spentOf_withRoots s.ledgers row
  have hcalls : (branchCalls n row).foldl call s =
      { ledgers := withRoots s.ledgers row
        pools := s.pools.modify 0 fun p => { p with live := p.live ++ [n] }
        authorities := s.authorities ++ [⟨0, (createRoots s.ledgers fun _ => fullRow).2, false, false⟩] } := by
    have hfew : ¬p.capacity ≤ p.live.length := by
      rw [hcap, hlive, List.length_map]
      omega
    rw [← charge_newRoot s.ledgers hrow hfits, ← hstates, h.ledgers, ← h.count]
    show call (s.takePeerBranchAuthority 0 _).1 (.ledger (.charge (4 * s.authorities.length) row)) = _
    unfold takePeerBranchAuthority
    rw [hp]
    dsimp only
    rw [if_neg (by decide), hopen, if_neg (by decide), if_neg hfew]
    rfl
  rw [hcalls]
  refine ⟨?_, ?_, ⟨{ p with live := p.live ++ [n] }, ?_, hcap, hopen, ?_, htotal⟩, fun e he => ?_⟩
  · rw [List.length_append, h.count]
    rfl
  · show (List.modify _ _ _).length = _
    rw [List.length_modify, List.length_append, h.ledgers, List.length_replicate]
    omega
  · show (s.pools.modify 0 _)[0]? = _
    rw [List.getElem?_modify_eq, hp]
    rfl
  · rw [List.map_append, ← hlive]
    rfl
  · rw [h.ledgers] at hroot hnew hold
    rcases List.mem_append.mp he with he | he
    · obtain ⟨state, hs, hpool, hlive, hroot', hspent⟩ := h.branch e he
      have hlt : e.1 < n := h.count ▸ (List.getElem?_eq_some_iff.mp hs).1
      exact ⟨state, getElem?_concat_iff.mpr (.inl hs), hpool, hlive, hroot',
        (hold _ (by omega)).trans hspent⟩
    · obtain rfl := List.mem_singleton.mp he
      exact ⟨_, getElem?_concat_iff.mpr (.inr ⟨h.count.symm, rfl⟩), rfl, rfl, hroot, hnew⟩

theorem Shows.leave (h : s.Shows n total live) (hs : s.Sound log) {e : Nat × Row} (he : e ∈ live) :
    (s.call (.release e.1)).Shows n (total.add e.2) (live.filter (·.1 ≠ e.1)) := by
  obtain ⟨state, hstate, hpool, hlive, hroot, hspent⟩ := h.branch e he
  rcases s.release_cases e.1 with ⟨-, hnone⟩ | ⟨-, state', hstate', hr⟩ | ⟨state', hstate', -, -, hret⟩
  · rw [hstate] at hnone
    cases hnone
  · obtain rfl := Option.some.inj (hstate.symm.trans hstate')
    rw [hlive] at hr
    cases hr
  · obtain rfl := Option.some.inj (hstate.symm.trans hstate')
    have hr := hret log hs
    obtain ⟨p, hp, hcap, hopen, hplive, htotal⟩ := h.pool
    refine ⟨?_, hr.same.length.trans h.ledgers, ?_, fun e' he' => ?_⟩
    · show (s.releasePeerBranchAuthority e.1).1.authorities.length = n
      rw [hr.authorities, List.length_modify, h.count]
    · refine ⟨retire s.ledgers e.1 state p, ?_, hcap, hopen, ?_, ?_⟩
      · show (s.releasePeerBranchAuthority e.1).1.pools[0]? = _
        rw [hr.pools, hpool, List.getElem?_modify_eq, hp]
        rfl
      · show p.live.filter _ = _
        rw [hplive, List.filter_map]
        rfl
      · rw [retiredSpent_retire, htotal, hroot, hspent]
    · obtain ⟨hm, hne⟩ := List.mem_filter.mp he'
      obtain ⟨state', hstate', hpool', hlive', hroot', hspent'⟩ := h.branch e' hm
      have hne : e.1 ≠ e'.1 := fun heq => (of_decide_eq_true hne) heq.symm
      refine ⟨state', ?_, hpool', hlive', hroot', (spentOf_same hr.same _).trans hspent'⟩
      show (s.releasePeerBranchAuthority e.1).1.authorities[e'.1]? = _
      rw [hr.authorities, List.getElem?_modify, hstate']
      exact congrArg some (if_neg hne)

end BranchSlots

namespace SlotsRun

open BranchSlots

def start (memory : MemoryTree) : SlotsRun := ⟨.empty memory, [], []⟩

def step (r : SlotsRun) (c : BranchCall) : SlotsRun :=
  ⟨r.slots.call c, r.slots.charged r.charges c, r.slots.taking r.taken c⟩

def run (r : SlotsRun) (calls : List BranchCall) : SlotsRun := calls.foldl step r

structure Sound (r : SlotsRun) : Prop where
  slots : r.slots.Sound r.charges
  taken : ∀ i, r.taken.count i = r.slots.authorities.countP (inPool i)

theorem Sound.step {r : SlotsRun} (h : r.Sound) (c : BranchCall) : (r.step c).Sound :=
  ⟨(h.slots.call c).1, fun i => h.slots.count_taking (h.taken i) c⟩

theorem Sound.run {r : SlotsRun} (h : r.Sound) (calls : List BranchCall) :
    (r.run calls).Sound ∧ r.slots.Kept (r.run calls).slots := by
  induction calls generalizing r with
  | nil => exact ⟨h, .refl _⟩
  | cons c calls ih =>
    obtain ⟨hs, hk⟩ := ih (h.step c)
    exact ⟨hs, (h.slots.call c).2.trans hk⟩

theorem sound_start (memory : MemoryTree) : (start memory).Sound :=
  ⟨sound_empty memory, fun _ => rfl⟩

theorem Sound.live_run {r : SlotsRun} {i : Nat} (h : r.Sound) (hj : r.slots.Joining i)
    (calls : List BranchCall) (authority : Nat) : (r.run calls).slots.Live i authority ↔
      r.slots.Live i authority ∧ .release authority ∉ calls := by
  induction calls generalizing r with
  | nil => exact ⟨fun hl => ⟨hl, List.not_mem_nil⟩, And.left⟩
  | cons c calls ih =>
    have hj' : (r.step c).slots.Joining i :=
      hj.kept (h.slots.call c).2 fun authority hl => ((hj.live_call h.slots c authority).mp hl).1
    show ((r.step c).run calls).slots.Live i authority ↔ _
    rw [ih (h.step c) hj', List.mem_cons, not_or]
    have hcall : (r.step c).slots.Live i authority ↔ _ := hj.live_call h.slots c authority
    rw [hcall, and_assoc]
    exact and_congr_right fun _ => and_congr_left fun _ => ne_comm

theorem Sound.reading_le {r : SlotsRun} (h : r.Sound) {i : Nat} {reading : SlotsReading}
    (hr : r.slots.readPeerBranchSlots i = .ok reading) (more : List BranchCall) :
    ∃ reading', (r.run more).slots.readPeerBranchSlots i = .ok reading' ∧
      ∀ kind a, a = .bytes ∨ r.slots.branchCharges r.charges i kind a < 2 ^ 53 →
        (reading.spent kind).get a ≤ (reading'.spent kind).get a := by
  obtain ⟨hs, hk⟩ := h.run more
  cases hp : r.slots.pools[i]? with
  | none =>
    unfold readPeerBranchSlots at hr
    rw [hp] at hr
    cases hr
  | some p =>
    obtain ⟨p', hp', -⟩ := hk.pools hp
    have hr' : ∃ reading', (r.run more).slots.readPeerBranchSlots i = .ok reading' := by
      unfold readPeerBranchSlots
      rw [hp']
      exact ⟨_, rfl⟩
    obtain ⟨reading', hr'⟩ := hr'
    refine ⟨reading', hr', fun kind a ha => ?_⟩
    rw [← h.slots.spentIn_eq i kind a] at ha
    exact ((h.slots.reading hr).2.2 kind).mono ((hs.slots.reading hr').2.2 kind)
      (hk.spentIn_le h.slots hs.slots i kind a) ha

theorem closed_of_close {s : BranchSlots} {i : Nat} {b : Bool}
    (hc : (s.closePeerBranchSlots i).2 = .ok b) {log : List (Nat × Row)} (h : s.Sound log) :
    ∃ p, (s.closePeerBranchSlots i).1.pools[i]? = some p ∧ p.closed = true := by
  unfold closePeerBranchSlots at hc ⊢
  cases hp : s.pools[i]? with
  | none =>
    rw [hp] at hc
    cases hc
  | some p =>
    dsimp only
    split
    · next hclosed => exact ⟨p, hp, hclosed⟩
    · obtain ⟨-, hk, -⟩ := foldl_closeBranch p.live (h.flag i)
      have hflag : (s.modifyPool i fun p => { p with closed := true }).pools[i]? =
          some { p with closed := true } := by
        show (s.pools.modify i _)[i]? = _
        rw [List.getElem?_modify_eq, hp]
        rfl
      obtain ⟨p', hp', hc'⟩ := hk.pools hflag
      exact ⟨p', hp', hc' rfl⟩

theorem take_closed {s : BranchSlots} {i : Nat} {p : SlotPool} (hp : s.pools[i]? = some p)
    (hc : p.closed = true) (rows : BranchKind → Row) :
    ∃ e, (s.takePeerBranchAuthority i rows).2 = .error e := by
  rcases s.take_cases i rows with ⟨e, he⟩ | ⟨p', hp', hopen, -⟩
  · exact ⟨e, by rw [he]⟩
  · obtain rfl := Option.some.inj (hp.symm.trans hp')
    rw [hc] at hopen
    cases hopen

/-- The first close of a pool leaves its deferred branches. -/
theorem joining_close {s : BranchSlots} {i : Nat} {log : List (Nat × Row)} (h : s.Sound log)
    (hc : (s.closePeerBranchSlots i).2 = .ok true) : (s.closePeerBranchSlots i).1.Joining i ∧
      ∀ authority, (s.closePeerBranchSlots i).1.Live i authority ↔
        s.Live i authority ∧ s.isJoinDeferred authority = true := by
  have hclosed := closed_of_close hc h
  rcases s.close_cases i with ⟨-, hall⟩ | ⟨p, hp, -, he⟩
  · unfold closePeerBranchSlots at hc
    cases hp : s.pools[i]? with
    | none =>
      rw [hp] at hc
      cases hc
    | some p =>
      rw [hp] at hc
      dsimp only at hc
      rw [if_pos (hall p hp)] at hc
      cases hc
  · obtain ⟨-, hk, hget⟩ := foldl_closeBranch p.live (h.flag i)
    rw [he] at hclosed ⊢
    have hlive : ∀ authority, (p.live.foldl closeBranch
        (s.modifyPool i fun p => { p with closed := true })).Live i authority ↔
          s.Live i authority ∧ s.isJoinDeferred authority = true := by
      intro authority
      rw [live_closed (hget authority)]
      refine and_congr_right fun hl => ?_
      obtain ⟨state, hs, hpool, hr⟩ := hl
      have hmem : authority ∈ p.live := (h.live hp authority).mpr ⟨state, hs, hpool, hr⟩
      have hdef : s.isJoinDeferred authority = state.joinDeferred := by
        exact congrArg (Option.any BranchAuthority.joinDeferred) hs
      rw [hdef]
      exact ⟨fun hall => hall state hs hmem, fun hd state' hs' _ =>
        Option.some.inj (hs.symm.trans hs') ▸ hd⟩
    refine ⟨⟨hclosed, fun {authority state'} hs' hpool hr => ?_⟩, hlive⟩
    obtain ⟨⟨state, hs, -⟩, hd⟩ := (hlive authority).mp ⟨state', hs', hpool, hr⟩
    obtain ⟨a, ha, -, -, hdef⟩ := hk.authorities (a := state) hs
    obtain rfl := Option.some.inj (hs'.symm.trans ha)
    unfold isJoinDeferred at hd
    rw [hs] at hd
    exact hdef hd

/-! ## More than a double can hold -/

theorem slots_run (r : SlotsRun) (calls : List BranchCall) :
    (r.run calls).slots = calls.foldl call r.slots := by
  induction calls generalizing r with
  | nil => rfl
  | cons c calls ih => exact ih (r.step c)

theorem run_append (r : SlotsRun) (calls more : List BranchCall) :
    r.run (calls ++ more) = (r.run calls).run more := List.foldl_append

/-- A run that charges as many bytes as cells. -/
theorem even_run {r : SlotsRun} (hr : ∀ e ∈ r.charges, e.2.get .cells = e.2.get .bytes)
    {calls : List BranchCall} (hc : ∀ handle row, .ledger (.charge handle row) ∈ calls →
      row.cells = row.bytes) :
    ∀ e ∈ (r.run calls).charges, e.2.get .cells = e.2.get .bytes := by
  induction calls generalizing r with
  | nil => exact hr
  | cons c calls ih =>
    refine ih (r := r.step c) (fun e he => ?_) fun handle row hm => hc handle row (List.mem_cons_of_mem c hm)
    cases c with
    | ledger op =>
      change e ∈ r.slots.ledgers.record r.charges op at he
      unfold Ledgers.record at he
      split at he
      · rcases List.mem_cons.mp he with rfl | he
        · exact hc _ _ List.mem_cons_self
        · exact hr e he
      · exact hr e he
    | create | take | defer | release | close => exact hr e he

theorem branchCharges_even {s : BranchSlots} {log : List (Nat × Row)}
    (hlog : ∀ e ∈ log, e.2.get .cells = e.2.get .bytes) (i : Nat) (kind : BranchKind) :
    s.branchCharges log i kind .cells = s.branchCharges log i kind .bytes := by
  unfold branchCharges
  exact congrArg List.sum (List.map_congr_left fun e he => by rw [hlog e he])

theorem even_filling (n handle : Nat) (row : Row)
    (h : .ledger (.charge handle row) ∈ filling n) : row.cells = row.bytes := by
  induction n with
  | zero => simp [filling] at h
  | succ n ih =>
    simp only [filling, branchCalls, List.mem_append, List.mem_cons, List.not_mem_nil,
      BranchCall.ledger.injEq, LedgerOp.charge.injEq, reduceCtorEq, false_or, or_false] at h
    rcases h with h | ⟨-, rfl⟩
    · exact ih h
    · rfl

theorem shows_filling (memory : MemoryTree) (n : Nat) : ∃ total,
    ((start memory).run (filling n)).slots.Shows n total [] ∧
      total.Tells fun a => if a = .commands then 0 else n * maxU32 := by
  induction n with
  | zero =>
    refine ⟨0, ⟨rfl, rfl, ⟨_, rfl, rfl, rfl, rfl, rfl⟩, fun e he => (List.not_mem_nil he).elim⟩, ?_⟩
    convert RowTotal.tells_zero using 2
    simp
  | succ n ih =>
    obtain ⟨total, hshows, htells⟩ := ih
    have hsound := ((sound_start memory).run (filling n ++ branchCalls n fullRow)).1
    have hjoin := hshows.join (by decide) (show fullRow.valid = true by decide) (by decide)
    rw [← slots_run, ← run_append] at hjoin
    have hleave := hjoin.leave hsound.slots (List.mem_singleton_self _)
    refine ⟨total.add fullRow, ?_, ?_⟩
    · have hrun : (start memory).run (filling (n + 1)) =
          ((start memory).run (filling n ++ branchCalls n fullRow)).step (.release n) := by
        rw [filling, ← List.append_assoc, run_append]
        rfl
      have hnone : [(n, fullRow)].filter (·.1 ≠ n) = [] := by simp
      rw [hrun]
      exact hnone ▸ hleave
    · have hfull : ∀ a, 0 ≤ fullRow.get a := Row.get_nonneg (by decide)
      convert htells.add hfull using 2 with a
      cases a <;> simp [fullRow, Row.get] <;> ring

/-- Two more branches after `n`, the last of them released. -/
theorem shows_crowded (n : Nat) {row row' : Row} (hrow : row.valid = true) (hrow' : row'.valid = true)
    (hfits : row.fits fullRow = true) (hfits' : row'.fits fullRow = true) :
    let r := (start .empty).run
      (filling n ++ (branchCalls n row ++ branchCalls (n + 1) row'))
    ∃ total, (total.Tells fun a => if a = .commands then 0 else n * maxU32) ∧
      r.slots.Shows (n + 2) total [(n, row), (n + 1, row')] ∧
      (r.step (.release (n + 1))).slots.Shows (n + 2) (total.add row') [(n, row)] := by
  intro r
  obtain ⟨total, hshows, htells⟩ := shows_filling .empty n
  have h : r.Sound := ((sound_start _).run _).1
  have hr : r.slots.Shows (n + 2) total [(n, row), (n + 1, row')] := by
    have htwo := (hshows.join Nat.zero_lt_two hrow hfits).join Nat.one_lt_two hrow' hfits'
    rw [← slots_run, ← slots_run, ← run_append, ← run_append] at htwo
    exact htwo
  have hleave := hr.leave h.slots (List.mem_cons_of_mem _ (List.mem_singleton_self _))
  have hone : [(n, row), (n + 1, row')].filter (·.1 ≠ n + 1) = [(n, row)] := by simp
  exact ⟨total, htells, hr, hone ▸ hleave⟩

theorem even_crowded (n : Nat) {row row' : Row} (heven : row.cells = row.bytes)
    (heven' : row'.cells = row'.bytes) (memory : MemoryTree) :
    ∀ e ∈ ((start memory).run (filling n ++ (branchCalls n row ++ branchCalls (n + 1) row'))).charges,
      e.2.get .cells = e.2.get .bytes := by
  refine even_run (fun e he => (List.not_mem_nil he).elim) fun handle charged hm => ?_
  simp only [branchCalls, List.mem_append, List.mem_cons, List.not_mem_nil, reduceCtorEq,
    BranchCall.ledger.injEq, LedgerOp.charge.injEq, false_or, or_false] at hm
  rcases hm with hm | ⟨-, rfl⟩ | ⟨-, rfl⟩
  · exact even_filling n handle charged hm
  · exact heven
  · exact heven'

/-! ## Branch spending -/

/-- Branch slots never forget spending. In every state of every run: a reading has at most
`capacity` live branches and counts every take that succeeded; its spending is the sum of
the charges made in the branches of the pool and never goes down, on cells and commands as
long as that sum is below `2 ^ 53`, and it does not read less than that afterwards; after a
close no take succeeds, and the branches deferred before it, and no others, are live until
their release; a refused take changes nothing. -/
theorem branch_spending_kept (memory : MemoryTree) (calls : List BranchCall) :
    let r := (start memory).run calls
    (∀ (i : Nat) (reading : SlotsReading), r.slots.readPeerBranchSlots i = .ok reading →
      (reading.live : Int) ≤ reading.capacity ∧
      reading.live = (r.slots.liveBranches i).length ∧
      reading.live + reading.retired = r.taken.count i ∧
      (∀ kind a, a = .bytes ∨ r.slots.branchCharges r.charges i kind a < 2 ^ 53 →
        (reading.spent kind).get a = r.slots.branchCharges r.charges i kind a) ∧
      (∀ kind a, 2 ^ 53 ≤ r.slots.branchCharges r.charges i kind a →
        2 ^ 53 ≤ (reading.spent kind).get a) ∧
      ∀ more, ∃ reading', (r.run more).slots.readPeerBranchSlots i = .ok reading' ∧
        ∀ kind a, a = .bytes ∨ r.slots.branchCharges r.charges i kind a < 2 ^ 53 →
          (reading.spent kind).get a ≤ (reading'.spent kind).get a) ∧
    (∀ (i : Nat) (b : Bool), (r.slots.closePeerBranchSlots i).2 = .ok b → ∀ more rows,
      ∃ e, (((r.step (.close i)).run more).slots.takePeerBranchAuthority i rows).2 = .error e) ∧
    (∀ i, (r.slots.closePeerBranchSlots i).2 = .ok true → ∀ more authority,
      authority ∈ ((r.step (.close i)).run more).slots.liveBranches i ↔
        authority ∈ r.slots.liveBranches i ∧ r.slots.isJoinDeferred authority = true ∧
          .release authority ∉ more) ∧
    ∀ i rows e, (r.slots.takePeerBranchAuthority i rows).2 = .error e →
      (r.slots.takePeerBranchAuthority i rows).1 = r.slots := by
  intro r
  have h : r.Sound := ((sound_start memory).run calls).1
  refine ⟨fun i reading hr => ?_, fun i b hc more rows => ?_, fun i hc more authority => ?_,
    fun i rows e he => ?_⟩
  · obtain ⟨hfew, htaken, hspent⟩ := h.slots.reading hr
    refine ⟨hfew, ?_, htaken.trans (h.taken i).symm, fun kind a ha => ?_, fun kind a ha => ?_,
      h.reading_le hr⟩
    · unfold readPeerBranchSlots at hr
      unfold liveBranches
      cases hp : r.slots.pools[i]? with
      | none =>
        rw [hp] at hr
        cases hr
      | some p =>
        rw [hp] at hr
        obtain rfl := Except.ok.inj hr
        rfl
    · rw [← h.slots.spentIn_eq i kind a] at ha ⊢
      exact (hspent kind).eq_of_lt ha
    · rw [← h.slots.spentIn_eq i kind a] at ha
      exact (hspent kind).le_get ha
  · obtain ⟨p, hp, hclosed⟩ := closed_of_close hc h.slots
    obtain ⟨-, hk⟩ := (h.step (.close i)).run more
    obtain ⟨p', hp', hclosed'⟩ := hk.pools hp
    exact take_closed hp' (hclosed' hclosed) rows
  · obtain ⟨hj, hlive⟩ := joining_close h.slots hc
    have hclose := h.step (.close i)
    rw [(hclose.run more).1.slots.mem_liveBranches, hclose.live_run hj more authority,
      h.slots.mem_liveBranches]
    have hstep : (r.step (.close i)).slots.Live i authority ↔ _ := hlive authority
    rw [hstep, and_assoc]
  · rcases r.slots.take_cases i rows with ⟨e', he'⟩ | ⟨p, -, -, -, -, he'⟩
    · rw [he']
    · rw [he'] at he
      cases he

-- The readings are `2 ^ 53 + 2` and `2 ^ 53`: added one by one, in the order of the release,
-- the last two charges are rounded down.
theorem spending_crowded {n : Nat} (hn : n = 2 ^ 21) :
    let r := (start .empty).run (filling n ++
      (branchCalls n ⟨1, 1, 0⟩ ++ branchCalls (n + 1) ⟨2097153, 2097153, 0⟩))
    let r' := r.step (.release (n + 1))
    ∃ reading reading', r.slots.readPeerBranchSlots 0 = .ok reading ∧
      r'.slots.readPeerBranchSlots 0 = .ok reading' ∧
      (reading.spent .sendLedger).get .cells = 9007199254740994 ∧
      (reading'.spent .sendLedger).get .cells = 9007199254740992 ∧
      r'.slots.branchCharges r'.charges 0 .sendLedger .cells = 9007199254740994 := by
  intro r r'
  obtain ⟨total, htells, hr, hr'⟩ := shows_crowded n
    (show Row.valid ⟨1, 1, 0⟩ = true by decide)
    (show Row.valid ⟨2097153, 2097153, 0⟩ = true by decide) (by decide) (by decide)
  obtain ⟨reading, hread, hspent⟩ := hr.reading
  obtain ⟨reading', hread', hspent'⟩ := hr'.reading
  have hall : (n : Int) * maxU32 = 9007199252643840 := by
    subst hn
    decide
  have hcells : total.cells.val = 9007199252643840 := by
    have he : (total.cells.val : Int) = if Axis.cells = .commands then 0 else n * maxU32 :=
      htells.eq_of_lt (a := .cells) (.inr (by simp [hall]))
    rw [if_neg (by decide), hall] at he
    omega
  have hbytes : total.bytes = 9007199252643840 := by simpa [hall] using htells.bytes
  have hs' : r'.Sound := ((sound_start _).run _).1.step _
  refine ⟨reading, reading', hread, hread', ?_, ?_, ?_⟩
  · rw [hspent]
    show ((((total.add _).add _).cells.val : Nat) : Int) = _
    rw [RowTotal.cells_add, RowTotal.cells_add, hcells]
    dsimp only
    decide +kernel
  · rw [hspent']
    show ((((total.add _).add _).cells.val : Nat) : Int) = _
    rw [RowTotal.cells_add, RowTotal.cells_add, hcells]
    dsimp only
    decide +kernel
  · have hlog : ∀ e ∈ r'.charges, e.2.get .cells = e.2.get .bytes := even_crowded n rfl rfl _
    have hb := ((hs'.slots.reading hread').2.2 .sendLedger).bytes
    rw [branchCharges_even hlog, ← hs'.slots.spentIn_eq, ← hb, hspent']
    show total.bytes + 2097153 + 1 = 9007199254740994
    rw [hbytes]
    decide

/-- The spending read of a pool goes down: after `2 ^ 21` full branches, of which
`2 ^ 53 - 2 ^ 21` cells are kept, a release only moves a charge into the total. -/
theorem branch_spending_falls :
    let r := (start .empty).run (filling (2 ^ 21) ++
      (branchCalls (2 ^ 21) ⟨1, 1, 0⟩ ++ branchCalls (2 ^ 21 + 1) ⟨2097153, 2097153, 0⟩))
    let r' := r.step (.release (2 ^ 21 + 1))
    ∃ reading reading', r.slots.readPeerBranchSlots 0 = .ok reading ∧
      r'.slots.readPeerBranchSlots 0 = .ok reading' ∧
      (reading.spent .sendLedger).get .cells = 9007199254740994 ∧
      (reading'.spent .sendLedger).get .cells = 9007199254740992 ∧
      r'.slots.branchCharges r'.charges 0 .sendLedger .cells = 9007199254740994 :=
  spending_crowded rfl

-- Two branches of a pool of two are charged, one is deferred, and the pool is closed.
example :
    let rows : BranchKind → Row := fun _ => ⟨10, 100, 1⟩
    let r := (start .empty).run [.create 2, .take 0 rows, .take 0 rows, .take 0 rows,
      .ledger (.reserve 0 ⟨5, 50, 0⟩), .ledger (.charge 8 ⟨3, 30, 0⟩), .ledger (.charge 4 ⟨2, 20, 1⟩),
      .defer 1, .close 0]
    r.slots.liveBranches 0 = [1] ∧ r.taken = [0, 0] ∧
      (r.slots.readPeerBranchSlots 0).toOption.map (fun reading =>
        (reading.live, reading.retired,
          [Axis.cells, .bytes, .commands].map (reading.spent .sendLedger).get)) =
        some (1, 1, [5, 50, 1]) := by
  decide +kernel

end SlotsRun

end HyperDht.Private
