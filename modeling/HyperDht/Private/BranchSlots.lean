import HyperDht.Lib.Double
import HyperDht.Lib.Modify
import HyperDht.Private.LedgerHistory

/-!
# Branch slots

A branch-slot pool holds at most `capacity` live branches, and each branch holds
four root ledgers. Releasing a branch releases its roots with all below them and
adds what they spent to the totals of the pool; closing the pool releases every
branch that is not deferred to its join barrier. Nothing bounds a total: one of bytes
is a bigint, one of cells or commands a double.

A pool and a branch are the numbers of their creation. The ledgers are shared
with everything else that uses them, so operations on them may come between.
-/

namespace HyperDht.Private

inductive BranchKind where
  | sendLedger
  | receiveLedger
  | teardownSendLedger
  | teardownReceiveLedger
  deriving DecidableEq, Repr

def branchKinds : List BranchKind :=
  [.sendLedger, .receiveLedger, .teardownSendLedger, .teardownReceiveLedger]

theorem mem_branchKinds (kind : BranchKind) : kind ∈ branchKinds := by cases kind <;> decide

inductive SlotError where
  | invalidRoute
  | quotaExceeded
  deriving DecidableEq, Repr

/-- A sum of rows: `cells` and `commands` are numbers, `bytes` is a bigint. -/
structure RowTotal where
  cells : Double
  bytes : Int
  commands : Double

namespace RowTotal

instance : Zero RowTotal := ⟨⟨0, 0, 0⟩⟩

def get (t : RowTotal) : Axis → Int
  | .cells => t.cells.val
  | .bytes => t.bytes
  | .commands => t.commands.val

def add (t : RowTotal) (row : Row) : RowTotal :=
  ⟨t.cells + .ofNat row.cells.toNat, t.bytes + row.bytes, t.commands + .ofNat row.commands.toNat⟩

theorem cells_add (t : RowTotal) (row : Row) : (t.add row).cells.val =
    roundDouble (t.cells.val + roundDouble row.cells.toNat) := rfl

/-- `t` tells the sum `n`: on cells and commands as far as doubles can. -/
structure Tells (t : RowTotal) (n : Axis → Int) : Prop where
  nonneg : ∀ a, 0 ≤ n a
  cells : t.cells.Near (n .cells).toNat
  bytes : t.bytes = n .bytes
  commands : t.commands.Near (n .commands).toNat

variable {t t' : RowTotal} {n n' : Axis → Int} {a : Axis}

theorem tells_zero : (0 : RowTotal).Tells fun _ => 0 :=
  ⟨fun _ => le_rfl, Double.near_ofNat 0, rfl, Double.near_ofNat 0⟩

theorem Tells.add (h : t.Tells n) {row : Row} (hrow : ∀ a, 0 ≤ row.get a) :
    (t.add row).Tells fun a => n a + row.get a := by
  refine ⟨fun a => Int.add_nonneg (h.nonneg a) (hrow a), ?_, ?_, ?_⟩
  · rw [Int.toNat_add (h.nonneg .cells) (hrow .cells)]
    exact h.cells.add (Double.near_ofNat _)
  · exact congrArg (· + row.bytes) h.bytes
  · rw [Int.toNat_add (h.nonneg .commands) (hrow .commands)]
    exact h.commands.add (Double.near_ofNat _)

theorem Tells.foldl (f : Nat → Row) : ∀ (xs : List Nat) {t : RowTotal} {n : Axis → Int}, t.Tells n →
    (∀ x ∈ xs, ∀ a, 0 ≤ (f x).get a) →
    (xs.foldl (fun t x => t.add (f x)) t).Tells fun a => n a + (xs.map fun x => (f x).get a).sum := by
  intro xs
  induction xs with
  | nil =>
    intro t n h _
    simpa using h
  | cons x xs ih =>
    intro t n h hf
    have htail := ih (h.add (hf x List.mem_cons_self)) fun y hy => hf y (List.mem_cons_of_mem x hy)
    simp only [List.foldl_cons, List.map_cons, List.sum_cons, ← Int.add_assoc]
    exact htail

/-- On one axis: exact below `2 ^ 53`, and not below it otherwise. -/
theorem Tells.axis (h : t.Tells n) (a : Axis) :
    t.get a = n a ∨ a ≠ .bytes ∧ 2 ^ 53 ≤ t.get a ∧ 2 ^ 53 ≤ n a := by
  have hnear : ∀ {x : Double} {m : Int}, 0 ≤ m → x.Near m.toNat →
      (x.val : Int) = m ∨ (2 : Int) ^ 53 ≤ x.val ∧ 2 ^ 53 ≤ m := by
    intro x m hm hx
    unfold Double.Near at hx
    omega
  cases a with
  | cells => exact (hnear (h.nonneg .cells) h.cells).imp_right fun hle => ⟨by decide, hle⟩
  | bytes => exact .inl h.bytes
  | commands => exact (hnear (h.nonneg .commands) h.commands).imp_right fun hle => ⟨by decide, hle⟩

theorem Tells.eq_of_lt (h : t.Tells n) (ha : a = .bytes ∨ n a < 2 ^ 53) : t.get a = n a := by
  rcases h.axis a with he | ⟨hne, -, hle⟩
  · exact he
  · exact absurd (ha.resolve_left hne) hle.not_gt

theorem Tells.le_get (h : t.Tells n) (ha : 2 ^ 53 ≤ n a) : 2 ^ 53 ≤ t.get a := by
  rcases h.axis a with he | ⟨-, hle, -⟩
  · exact he ▸ ha
  · exact hle

theorem Tells.mono (h : t.Tells n) (h' : t'.Tells n') (hn : n a ≤ n' a)
    (ha : a = .bytes ∨ n a < 2 ^ 53) : t.get a ≤ t'.get a := by
  rw [h.eq_of_lt ha]
  rcases h'.axis a with he | ⟨hne, hle, -⟩
  · exact he ▸ hn
  · exact (ha.resolve_left hne).le.trans hle

end RowTotal

structure SlotPool where
  capacity : Int
  live : List Nat
  retired : Nat
  closed : Bool
  retiredSpent : BranchKind → RowTotal

/-- A branch authority: its root ledgers, and what is kept about it. -/
structure BranchAuthority where
  pool : Nat
  roots : BranchKind → Nat
  released : Bool
  joinDeferred : Bool

structure BranchSlots where
  ledgers : Ledgers
  pools : List SlotPool
  authorities : List BranchAuthority

/-- What `readPeerBranchSlots` gives. -/
structure SlotsReading where
  capacity : Int
  live : Nat
  retired : Nat
  closed : Bool
  reserved : BranchKind → RowTotal
  spent : BranchKind → RowTotal

namespace Ledgers

def spentOf (t : Ledgers) (h : Nat) : Row := ((t.states[h]?).map Ledger.spent).getD 0

def allocatedOf (t : Ledgers) (h : Nat) : Row := ((t.states[h]?).map Ledger.allocated).getD 0

theorem spentOf_of_some {t : Ledgers} {h : Nat} {l : Ledger} (hl : t.states[h]? = some l) :
    t.spentOf h = l.spent := by
  rw [spentOf, hl]
  rfl

end Ledgers

namespace BranchSlots

def empty (memory : MemoryTree) : BranchSlots := ⟨.empty memory, [], []⟩

def modifyPool (s : BranchSlots) (i : Nat) (f : SlotPool → SlotPool) : BranchSlots :=
  { s with pools := s.pools.modify i f }

def createPeerBranchSlots (s : BranchSlots) (capacity : Int) : BranchSlots × Except SlotError Nat :=
  if capacity < 1 ∨ maxU32 < capacity then (s, .error .invalidRoute)
  else ({ s with pools := s.pools ++ [⟨capacity, [], 0, false, fun _ => 0⟩] }, .ok s.pools.length)

/-- One root of a new branch; its row is checked before, so the creation does not throw. -/
def createRoot (rows : BranchKind → Row) (acc : Ledgers × (BranchKind → Nat)) (kind : BranchKind) :
    Ledgers × (BranchKind → Nat) :=
  match acc.1.createPeerLedger (rows kind) with
  | (t, .ok root) => (t, Function.update acc.2 kind root)
  | (t, .error _) => (t, acc.2)

def createRoots (t : Ledgers) (rows : BranchKind → Row) : Ledgers × (BranchKind → Nat) :=
  branchKinds.foldl (createRoot rows) (t, fun _ => 0)

def takePeerBranchAuthority (s : BranchSlots) (pool : Nat) (rows : BranchKind → Row) :
    BranchSlots × Except SlotError Nat :=
  match s.pools[pool]? with
  | none => (s, .error .invalidRoute)
  | some p =>
    if branchKinds.all (fun kind => (rows kind).valid) = false then (s, .error .invalidRoute)
    else if p.closed then (s, .error .invalidRoute)
    else if p.capacity ≤ p.live.length then (s, .error .quotaExceeded)
    else
      let (ledgers, roots) := createRoots s.ledgers rows
      ({ ledgers
         pools := s.pools.modify pool fun p => { p with live := p.live ++ [s.authorities.length] }
         authorities := s.authorities ++ [⟨pool, roots, false, false⟩] },
        .ok s.authorities.length)

def deferPeerBranchAuthorityJoin (s : BranchSlots) (authority : Nat) :
    BranchSlots × Except SlotError Bool :=
  match s.authorities[authority]? with
  | none => (s, .error .invalidRoute)
  | some state =>
    if state.released then (s, .error .invalidRoute)
    else if state.joinDeferred then (s, .ok false)
    else
      ({ s with authorities := s.authorities.modify authority fun state => { state with
          joinDeferred := true } }, .ok true)

/-- One round of the loop of `releasePeerBranchAuthority`. -/
def retireRoot (state : BranchAuthority) (s : BranchSlots) (kind : BranchKind) : BranchSlots :=
  { s.modifyPool state.pool fun p => { p with
      retiredSpent := Function.update p.retiredSpent kind
        ((p.retiredSpent kind).add (s.ledgers.spentOf (state.roots kind))) } with
    ledgers := (s.ledgers.releasePeerLedger (state.roots kind)).1 }

def releasePeerBranchAuthority (s : BranchSlots) (authority : Nat) :
    BranchSlots × Except SlotError Bool :=
  match s.authorities[authority]? with
  | none => (s, .error .invalidRoute)
  | some state =>
    if state.released then (s, .ok false)
    else
      let s := { s with authorities := s.authorities.modify authority fun state => { state with
        released := true } }
      let s := branchKinds.foldl (retireRoot state) s
      (s.modifyPool state.pool fun p => { p with
        live := p.live.filter (· ≠ authority)
        retired := p.retired + 1 }, .ok true)

/-- One round of the loop of `closePeerBranchSlots`. -/
def closeBranch (s : BranchSlots) (authority : Nat) : BranchSlots :=
  if (s.authorities[authority]?).any BranchAuthority.joinDeferred then s
  else (s.releasePeerBranchAuthority authority).1

def closePeerBranchSlots (s : BranchSlots) (pool : Nat) : BranchSlots × Except SlotError Bool :=
  match s.pools[pool]? with
  | none => (s, .error .invalidRoute)
  | some p =>
    if p.closed then (s, .ok false)
    else (p.live.foldl closeBranch (s.modifyPool pool fun p => { p with closed := true }), .ok true)

def rootOf (s : BranchSlots) (kind : BranchKind) (authority : Nat) : Nat :=
  ((s.authorities[authority]?).map fun state => state.roots kind).getD 0

def readPeerBranchSlots (s : BranchSlots) (pool : Nat) : Except SlotError SlotsReading :=
  match s.pools[pool]? with
  | none => .error .invalidRoute
  | some p => .ok {
      capacity := p.capacity
      live := p.live.length
      retired := p.retired
      closed := p.closed
      reserved := fun kind => p.live.foldl (fun held authority =>
        held.add (s.ledgers.allocatedOf (s.rootOf kind authority))) 0
      spent := fun kind => p.live.foldl (fun total authority =>
        total.add (s.ledgers.spentOf (s.rootOf kind authority))) (p.retiredSpent kind) }

/-! ## What every state keeps -/

/-- The sum over the branches of a pool, all or the released ones, of what a kind of root
has spent. -/
def spentIn (s : BranchSlots) (p : BranchAuthority → Bool) (kind : BranchKind) (a : Axis) : Int :=
  (s.authorities.map fun state =>
    if p state then (s.ledgers.spentOf (state.roots kind)).get a else 0).sum

def inPool (i : Nat) (state : BranchAuthority) : Bool := state.pool = i

def retiredIn (i : Nat) (state : BranchAuthority) : Bool := state.pool = i ∧ state.released = true

/-- The root of a kind is a ledger of its own, released with its branch. -/
structure Root (t : Ledgers) (state : BranchAuthority) (kind : BranchKind) : Prop where
  there : ∃ l : Ledger, t.states[state.roots kind]? = some l ∧ l.parent = none ∧
    (state.released = true → l.released = true)

structure Sound (s : BranchSlots) (log : List (Nat × Row)) : Prop where
  ledgers : s.ledgers.Conserved log
  roots : ∀ state ∈ s.authorities, ∀ kind, Root s.ledgers state kind
  distinct : s.authorities.Pairwise fun state state' => ∀ kind, state.roots kind ≠ state'.roots kind
  known : ∀ state ∈ s.authorities, state.pool < s.pools.length
  nodup : ∀ {i : Nat} {p : SlotPool}, s.pools[i]? = some p → p.live.Nodup
  live : ∀ {i : Nat} {p : SlotPool}, s.pools[i]? = some p → ∀ authority, authority ∈ p.live ↔
    ∃ state : BranchAuthority, s.authorities[authority]? = some state ∧ state.pool = i ∧
      state.released = false
  few : ∀ {i : Nat} {p : SlotPool}, s.pools[i]? = some p → (p.live.length : Int) ≤ p.capacity
  taken : ∀ {i : Nat} {p : SlotPool}, s.pools[i]? = some p →
    p.live.length + p.retired = s.authorities.countP (inPool i)
  spent : ∀ {i : Nat} {p : SlotPool}, s.pools[i]? = some p → ∀ kind,
    (p.retiredSpent kind).Tells (s.spentIn (retiredIn i) kind)

theorem sound_empty (memory : MemoryTree) : (empty memory).Sound [] where
  ledgers := Ledgers.conserved_empty memory
  roots := fun _ h => (List.not_mem_nil h).elim
  distinct := List.Pairwise.nil
  known := fun _ h => (List.not_mem_nil h).elim
  nodup := fun h => by cases h
  live := fun h => by cases h
  few := fun h => by cases h
  taken := fun h => by cases h
  spent := fun h => by cases h

theorem Root.later {t t' : Ledgers} {state : BranchAuthority} {kind : BranchKind}
    (h : Root t state kind) (ht : t.Later t') : Root t' state kind := by
  obtain ⟨l, hl, hp, hr⟩ := h.there
  obtain ⟨l', hl', hp', -, hr'⟩ := ht.kept hl
  exact ⟨l', hl', hp'.trans hp, fun hrel => (hr' (hr hrel)).1⟩

theorem Root.spentOf_later {t t' : Ledgers} {state : BranchAuthority} {kind : BranchKind}
    (h : Root t state kind) (ht : t.Later t') (hrel : state.released = true) :
    t'.spentOf (state.roots kind) = t.spentOf (state.roots kind) := by
  obtain ⟨l, hl, -, hr⟩ := h.there
  obtain ⟨l', hl', -, -, hr'⟩ := ht.kept hl
  rw [Ledgers.spentOf_of_some hl, Ledgers.spentOf_of_some hl', (hr' (hr hrel)).2]

theorem Sound.spentOf_nonneg {s : BranchSlots} {log : List (Nat × Row)} (h : s.Sound log)
    {authority : Nat} {state : BranchAuthority} (hs : s.authorities[authority]? = some state)
    (kind : BranchKind) (a : Axis) : 0 ≤ (s.ledgers.spentOf (state.roots kind)).get a := by
  obtain ⟨l, hl, -⟩ := (h.roots state (List.mem_of_getElem? hs) kind).there
  rw [Ledgers.spentOf_of_some hl]
  exact (h.ledgers.funded.spent hl a).1

theorem Sound.later {s : BranchSlots} {log log' : List (Nat × Row)} (h : s.Sound log) {t : Ledgers}
    (ht : s.ledgers.Later t) (hc : t.Conserved log') : ({ s with ledgers := t } : BranchSlots).Sound log' where
  ledgers := hc
  roots := fun state hs kind => (h.roots state hs kind).later ht
  distinct := h.distinct
  known := h.known
  nodup := h.nodup
  live := h.live
  few := h.few
  taken := h.taken
  spent := fun {i p} hp kind => by
    convert h.spent hp kind using 1
    funext a
    unfold spentIn
    congr 1
    refine List.map_congr_left fun state hs => ?_
    split
    · next hret =>
      have hrel : state.released = true := (of_decide_eq_true hret).2
      rw [(h.roots state hs kind).spentOf_later ht hrel]
    · rfl

/-! ## Releasing a branch -/

theorem same_release {t : Ledgers} {log : List (Nat × Row)} (hc : t.Conserved log) (root : Nat) :
    t.Same (t.releasePeerLedger root).1 := by
  rcases t.releasePeerLedger_cases root with he | he | ⟨l, hl, hlive, he⟩
  · exact he ▸ .refl t
  · exact he ▸ .refl t
  · rw [he]
    exact (Ledgers.release_spec t.states.length root t l (hc.tree.below root) hl hlive
      (Nat.sub_le _ _)).same

theorem spentOf_same {t t' : Ledgers} (h : t.Same t') (x : Nat) : t'.spentOf x = t.spentOf x := by
  unfold Ledgers.spentOf
  cases hx : t.states[x]? with
  | none =>
    have hnone : t'.states[x]? = none := by
      rw [List.getElem?_eq_none_iff, h.length]
      exact List.getElem?_eq_none_iff.mp hx
    rw [hnone]
  | some l =>
    obtain ⟨l', hl', hs⟩ := h.exists hx
    rw [hl', Option.map_some, Option.map_some, hs.spent]

/-- A pool after the roots of some kinds of a branch have been added to its totals. -/
def addSpent (t : Ledgers) (state : BranchAuthority) (kinds : List BranchKind) (p : SlotPool) :
    SlotPool :=
  { p with retiredSpent := fun kind =>
      if kind ∈ kinds then (p.retiredSpent kind).add (t.spentOf (state.roots kind))
      else p.retiredSpent kind }

theorem foldl_retireRoot (state : BranchAuthority) {log : List (Nat × Row)} :
    ∀ (kinds : List BranchKind) {s : BranchSlots}, kinds.Nodup → s.ledgers.Conserved log →
      (∀ kind, Root s.ledgers state kind) →
      (kinds.foldl (retireRoot state) s).authorities = s.authorities ∧
      (kinds.foldl (retireRoot state) s).pools =
        s.pools.modify state.pool (addSpent s.ledgers state kinds) ∧
      (kinds.foldl (retireRoot state) s).ledgers.Conserved log ∧
      s.ledgers.Later (kinds.foldl (retireRoot state) s).ledgers ∧
      s.ledgers.Same (kinds.foldl (retireRoot state) s).ledgers ∧
      ∀ kind ∈ kinds, ∃ l : Ledger,
        (kinds.foldl (retireRoot state) s).ledgers.states[state.roots kind]? = some l ∧
          l.released = true := by
  intro kinds
  induction kinds with
  | nil =>
    intro s _ hc _
    refine ⟨rfl, ?_, hc, .refl _, .refl _, fun _ hk => (List.not_mem_nil hk).elim⟩
    have hid : addSpent s.ledgers state [] = id := by
      funext p
      simp [addSpent]
    rw [hid, List.modify_id]
    rfl
  | cons kind kinds ih =>
    intro s hn hc hroots
    obtain ⟨hout, hn⟩ := List.nodup_cons.mp hn
    have hlater : s.ledgers.Later (s.ledgers.releasePeerLedger (state.roots kind)).1 :=
      hc.later (.release (state.roots kind))
    obtain ⟨hauth, hpools, hcons, hlater', hsame', hreleased⟩ := ih (s := retireRoot state s kind) hn
      (hc.step (.release (state.roots kind))) fun k => (hroots k).later hlater
    have hsame : s.ledgers.Same (retireRoot state s kind).ledgers := same_release hc (state.roots kind)
    refine ⟨hauth, ?_, hcons, hlater.trans hlater', hsame.trans hsame', fun k hk => ?_⟩
    · rw [List.foldl_cons, hpools]
      show (s.pools.modify state.pool _).modify state.pool _ = _
      rw [List.modify_modify_eq]
      congr 1
      funext p
      show addSpent _ state kinds _ = addSpent s.ledgers state (kind :: kinds) p
      unfold addSpent
      congr 1
      funext k
      rw [spentOf_same hsame]
      by_cases hk : k = kind
      · subst hk
        simp [hout]
      · simp [hk]
    · rcases List.mem_cons.mp hk with rfl | hk
      · obtain ⟨l, hl, -, -⟩ := (hroots k).there
        obtain ⟨l', hl', hr', -⟩ := hc.released hl
        obtain ⟨l'', hl'', -, -, hr''⟩ := hlater'.kept hl'
        exact ⟨l'', hl'', (hr'' hr').1⟩
      · exact hreleased k hk

def retire (t : Ledgers) (authority : Nat) (state : BranchAuthority) (p : SlotPool) : SlotPool :=
  { addSpent t state branchKinds p with
    live := p.live.filter (· ≠ authority)
    retired := p.retired + 1 }

theorem retiredSpent_retire (t : Ledgers) (authority : Nat) (state : BranchAuthority) (p : SlotPool)
    (kind : BranchKind) : (retire t authority state p).retiredSpent kind =
      (p.retiredSpent kind).add (t.spentOf (state.roots kind)) := if_pos (mem_branchKinds kind)

/-- What releasing a live branch does. -/
structure Retires (authority : Nat) (state : BranchAuthority) (log : List (Nat × Row))
    (s s' : BranchSlots) : Prop where
  authorities : s'.authorities = s.authorities.modify authority fun state => { state with
    released := true }
  pools : s'.pools = s.pools.modify state.pool (retire s.ledgers authority state)
  conserved : s'.ledgers.Conserved log
  later : s.ledgers.Later s'.ledgers
  same : s.ledgers.Same s'.ledgers
  released : ∀ kind, ∃ l : Ledger, s'.ledgers.states[state.roots kind]? = some l ∧ l.released = true

theorem release_cases (s : BranchSlots) (authority : Nat) :
    ((∃ e, s.releasePeerBranchAuthority authority = (s, .error e)) ∧
        s.authorities[authority]? = none) ∨
      (s.releasePeerBranchAuthority authority = (s, .ok false) ∧
        ∃ state, s.authorities[authority]? = some state ∧ state.released = true) ∨
      ∃ state, s.authorities[authority]? = some state ∧ state.released = false ∧
        (s.releasePeerBranchAuthority authority).2 = .ok true ∧
        ∀ log, s.Sound log → Retires authority state log s (s.releasePeerBranchAuthority authority).1 := by
  unfold releasePeerBranchAuthority
  cases hs : s.authorities[authority]? with
  | none => exact .inl ⟨⟨_, rfl⟩, rfl⟩
  | some state =>
    dsimp only
    split
    · next hr => exact .inr (.inl ⟨rfl, state, rfl, hr⟩)
    · next hr =>
      refine .inr (.inr ⟨state, rfl, by simpa using hr, rfl, fun log h => ?_⟩)
      have hroots : ∀ kind, Root s.ledgers state kind :=
        h.roots state (List.mem_of_getElem? hs)
      obtain ⟨hauth, hpools, hcons, hlater, hsame, hreleased⟩ := foldl_retireRoot state branchKinds
        (s := { s with authorities := s.authorities.modify authority fun state => { state with
          released := true } }) (by decide) h.ledgers hroots
      refine ⟨hauth, ?_, hcons, hlater, hsame, fun kind => hreleased kind (mem_branchKinds kind)⟩
      show List.modify _ _ _ = _
      rw [hpools, List.modify_modify_eq]
      rfl

theorem exists_of_modify {α : Type} {l : List α} {i j : Nat} {f : α → α} {b : α}
    (h : (l.modify i f)[j]? = some b) : ∃ a, l[j]? = some a ∧ b = if i = j then f a else a := by
  rw [List.getElem?_modify] at h
  obtain ⟨a, ha, rfl⟩ := Option.map_eq_some_iff.mp h
  exact ⟨a, ha, by split <;> rfl⟩

/-- An authority that changes in neither its pool nor its roots. -/
theorem distinct_modify {authorities : List BranchAuthority} {authority : Nat}
    {f : BranchAuthority → BranchAuthority} (hf : ∀ state, (f state).roots = state.roots)
    (h : authorities.Pairwise fun state state' => ∀ kind, state.roots kind ≠ state'.roots kind) :
    (authorities.modify authority f).Pairwise
      fun state state' => ∀ kind, state.roots kind ≠ state'.roots kind := by
  have hmap : (authorities.modify authority f).map BranchAuthority.roots =
      authorities.map BranchAuthority.roots := map_modify_of_same fun state _ => hf state
  have h₁ := List.pairwise_map (f := BranchAuthority.roots) (l := authorities)
    (R := fun r r' => ∀ kind, r kind ≠ r' kind)
  have h₂ := List.pairwise_map (f := BranchAuthority.roots) (l := authorities.modify authority f)
    (R := fun r r' => ∀ kind, r kind ≠ r' kind)
  exact h₂.mp (hmap ▸ h₁.mpr h)

theorem countP_modify_pool {authorities : List BranchAuthority} {authority i : Nat}
    {f : BranchAuthority → BranchAuthority} (hf : ∀ state, (f state).pool = state.pool) :
    (authorities.modify authority f).countP (inPool i) = authorities.countP (inPool i) := by
  have hmap : (authorities.modify authority f).map BranchAuthority.pool =
      authorities.map BranchAuthority.pool := map_modify_of_same fun state _ => hf state
  have hcount : ∀ l : List BranchAuthority, l.countP (inPool i) =
      (l.map BranchAuthority.pool).countP (fun pool => decide (pool = i)) := fun l => by
    rw [List.countP_map]
    rfl
  rw [hcount, hcount, hmap]

theorem Retires.authority {authority : Nat} {state : BranchAuthority} {log : List (Nat × Row)}
    {s s' : BranchSlots} (hr : Retires authority state log s s') {j : Nat} {b : BranchAuthority}
    (hb : s'.authorities[j]? = some b) : ∃ a, s.authorities[j]? = some a ∧
      b = if authority = j then { a with released := true } else a := by
  rw [hr.authorities] at hb
  exact exists_of_modify hb

theorem Retires.pool {authority : Nat} {state : BranchAuthority} {log : List (Nat × Row)}
    {s s' : BranchSlots} (hr : Retires authority state log s s') {i : Nat} {p' : SlotPool}
    (hp' : s'.pools[i]? = some p') : ∃ p, s.pools[i]? = some p ∧
      p' = if state.pool = i then retire s.ledgers authority state p else p := by
  rw [hr.pools] at hp'
  exact exists_of_modify hp'

theorem Retires.root {authority : Nat} {state : BranchAuthority} {log : List (Nat × Row)}
    {s s' : BranchSlots} (h : s.Sound log) (hs : s.authorities[authority]? = some state)
    (hr : Retires authority state log s s') {b : BranchAuthority} (hb : b ∈ s'.authorities)
    (kind : BranchKind) : Root s'.ledgers b kind := by
  obtain ⟨j, hj⟩ := List.mem_iff_getElem?.mp hb
  obtain ⟨a, ha, he⟩ := hr.authority hj
  have hroot := (h.roots a (List.mem_of_getElem? ha) kind).later hr.later
  by_cases hja : authority = j
  · subst hja
    obtain rfl := Option.some.inj (hs.symm.trans ha)
    rw [if_pos rfl] at he
    obtain ⟨l, hl, hp, -⟩ := hroot.there
    obtain ⟨l', hl', hrel⟩ := hr.released kind
    obtain rfl := Option.some.inj (hl.symm.trans hl')
    subst he
    exact ⟨l, hl, hp, fun _ => hrel⟩
  · rw [if_neg hja] at he
    exact he ▸ hroot

theorem mem_live_retire {t : Ledgers} {authority : Nat} {state : BranchAuthority} {p : SlotPool}
    {j : Nat} : j ∈ (retire t authority state p).live ↔ j ∈ p.live ∧ j ≠ authority := by
  show j ∈ p.live.filter _ ↔ _
  rw [List.mem_filter]
  simp

theorem length_live_retire {t : Ledgers} {authority : Nat} {state : BranchAuthority} {p : SlotPool}
    (hn : p.live.Nodup) (hmem : authority ∈ p.live) :
    (retire t authority state p).live.length + 1 = p.live.length := by
  have he : p.live.filter (· ≠ authority) = p.live.erase authority := by
    rw [hn.erase_eq_filter]
    exact List.filter_congr fun x _ => by by_cases hx : x = authority <;> simp [hx]
  have hpos := List.length_pos_of_mem hmem
  show (p.live.filter _).length + 1 = _
  rw [he, List.length_erase_of_mem hmem]
  omega

/-- The branch leaves the live ones of its pool, and no other does. -/
theorem Retires.live {authority : Nat} {state : BranchAuthority} {log : List (Nat × Row)}
    {s s' : BranchSlots} (h : s.Sound log) (hs : s.authorities[authority]? = some state)
    (hr : Retires authority state log s s') {i : Nat} {p' : SlotPool}
    (hp' : s'.pools[i]? = some p') (j : Nat) :
    j ∈ p'.live ↔ ∃ b, s'.authorities[j]? = some b ∧ b.pool = i ∧ b.released = false := by
  obtain ⟨p, hp, rfl⟩ := hr.pool hp'
  have hmem : j ∈ (if state.pool = i then retire s.ledgers authority state p else p).live ↔
      j ∈ p.live ∧ j ≠ authority := by
    split
    · exact mem_live_retire
    · next hi =>
      refine ⟨fun hj => ⟨hj, fun e => hi ?_⟩, And.left⟩
      obtain ⟨a, ha, hai, -⟩ := (h.live hp j).mp hj
      obtain rfl := Option.some.inj (hs.symm.trans (e ▸ ha))
      exact hai
  rw [hmem, h.live hp j]
  constructor
  · rintro ⟨⟨a, ha, hai, har⟩, hne⟩
    refine ⟨a, ?_, hai, har⟩
    rw [hr.authorities, List.getElem?_modify, ha]
    exact congrArg some (if_neg (Ne.symm hne))
  · rintro ⟨b, hb, hbi, hbr⟩
    obtain ⟨a, ha, he⟩ := hr.authority hb
    by_cases hja : authority = j
    · rw [if_pos hja] at he
      rw [he] at hbr
      cases hbr
    · rw [if_neg hja] at he
      subst he
      exact ⟨⟨b, ha, hbi, hbr⟩, Ne.symm hja⟩

/-- What is retired in a pool grows by the roots of the branch. -/
theorem Retires.spentIn {authority : Nat} {state : BranchAuthority} {log : List (Nat × Row)}
    {s s' : BranchSlots} (hs : s.authorities[authority]? = some state)
    (hlive : state.released = false) (hr : Retires authority state log s s') (i : Nat)
    (kind : BranchKind) (a : Axis) : s'.spentIn (retiredIn i) kind a =
      s.spentIn (retiredIn i) kind a +
        if state.pool = i then (s.ledgers.spentOf (state.roots kind)).get a else 0 := by
  have hsum := sum_map_modify hs (f := fun state => { state with released := true })
    fun state : BranchAuthority =>
      if retiredIn i state then (s.ledgers.spentOf (state.roots kind)).get a else 0
  have hbefore : retiredIn i state = false := by simp [retiredIn, hlive]
  have hafter : retiredIn i { state with released := true } = decide (state.pool = i) := by
    simp [retiredIn]
  simp only [hbefore, hafter, Bool.false_eq_true, ↓reduceIte, decide_eq_true_eq] at hsum
  unfold BranchSlots.spentIn
  rw [hr.authorities]
  simp only [spentOf_same hr.same]
  omega

theorem Retires.sound {authority : Nat} {state : BranchAuthority} {log : List (Nat × Row)}
    {s s' : BranchSlots} (h : s.Sound log) (hs : s.authorities[authority]? = some state)
    (hlive : state.released = false) (hr : Retires authority state log s s') : s'.Sound log := by
  refine ⟨hr.conserved, fun b hb kind => Retires.root h hs hr hb kind, ?_, fun b hb => ?_,
    fun {i p'} hp' => ?_, fun {i p'} hp' j => Retires.live h hs hr hp' j, fun {i p'} hp' => ?_,
    fun {i p'} hp' => ?_, fun {i p'} hp' kind => ?_⟩
  · rw [hr.authorities]
    exact distinct_modify (fun _ => rfl) h.distinct
  · obtain ⟨j, hj⟩ := List.mem_iff_getElem?.mp hb
    obtain ⟨a, ha, rfl⟩ := hr.authority hj
    have := h.known a (List.mem_of_getElem? ha)
    rw [hr.pools, List.length_modify]
    split <;> exact this
  · obtain ⟨p, hp, rfl⟩ := hr.pool hp'
    have := h.nodup hp
    split
    · exact this.filter _
    · exact this
  · obtain ⟨p, hp, rfl⟩ := hr.pool hp'
    have := h.few hp
    split
    · have hle : (p.live.filter (· ≠ authority)).length ≤ p.live.length := List.length_filter_le _ _
      show ((p.live.filter _).length : Int) ≤ p.capacity
      omega
    · exact this
  · obtain ⟨p, hp, rfl⟩ := hr.pool hp'
    have htaken := h.taken hp
    have hcount : s'.authorities.countP (inPool i) = s.authorities.countP (inPool i) := by
      rw [hr.authorities]
      exact countP_modify_pool fun _ => rfl
    rw [hcount]
    split
    · next hi =>
      have hlen : (retire s.ledgers authority state p).live.length + 1 = p.live.length :=
        length_live_retire (h.nodup hp) ((h.live hp authority).mpr ⟨state, hs, hi, hlive⟩)
      show (retire s.ledgers authority state p).live.length + (p.retired + 1) = _
      omega
    · exact htaken
  · obtain ⟨p, hp, rfl⟩ := hr.pool hp'
    have hspent : s'.spentIn (retiredIn i) kind = fun a => s.spentIn (retiredIn i) kind a +
        if state.pool = i then (s.ledgers.spentOf (state.roots kind)).get a else 0 :=
      funext fun a => hr.spentIn hs hlive i kind a
    rw [hspent]
    by_cases hi : state.pool = i
    · rw [if_pos hi, retiredSpent_retire]
      simp only [if_pos hi]
      exact (h.spent hp kind).add (h.spentOf_nonneg hs kind)
    · simp only [if_neg hi, add_zero]
      exact h.spent hp kind

end BranchSlots

end HyperDht.Private
