import HyperDht.Lib.Modify
import Mathlib.Logic.Relation

/-!
# Memory pools

A memory pool is divided into reservations, and a reservation that is taken
carries a pool of its own: pools and reservations alternate in a tree. Releasing
either kind of node releases what is below it; releasing a pool that a
reservation carries releases that reservation as well. A handle is the number of
its pool or reservation in the order of their creation.

A release only ever reaches nodes below the one it starts from, and it leaves no
node live below one it has released: `memory_tree_accounted` puts the two
together over every run.
-/

namespace HyperDht.Private

def maxU32 : Int := 0xffffffff
def maxU64 : Int := 0xffffffffffffffff

inductive LedgerError where
  | invalidRoute
  deriving DecidableEq, Repr

structure MemoryPool where
  capacityBytes : Int
  reservedBytes : Int
  takenBytes : Int
  released : Bool
  reservations : List Nat
  parentReservation : Option Nat
  deriving DecidableEq, Repr

structure PoolReservation where
  pool : Nat
  kind : String
  capacityBytes : Int
  taken : Bool
  childPool : Option Nat
  released : Bool
  deriving DecidableEq, Repr

inductive MemoryHandle where
  | pool (i : Nat)
  | reservation (j : Nat)
  deriving DecidableEq, Repr

/-- All pools and all reservations, live or released. -/
structure MemoryTree where
  pools : List MemoryPool
  reservations : List PoolReservation
  deriving DecidableEq, Repr

/-- A memory row of `narrowPeerReservations`: a reservation and its new capacity. -/
structure MemoryPlan where
  handle : Nat
  capacityBytes : Int
  deriving DecidableEq, Repr

def checkU32 (v : Int) : Bool := 0 ≤ v && v ≤ maxU32

namespace MemoryTree

def empty : MemoryTree := ⟨[], []⟩

def modifyPool (t : MemoryTree) (i : Nat) (f : MemoryPool → MemoryPool) : MemoryTree :=
  { t with pools := t.pools.modify i f }

def modifyReservation (t : MemoryTree) (j : Nat) (f : PoolReservation → PoolReservation) :
    MemoryTree :=
  { t with reservations := t.reservations.modify j f }

def addPool (t : MemoryTree) (p : MemoryPool) : MemoryTree := { t with pools := t.pools ++ [p] }

def addReservation (t : MemoryTree) (r : PoolReservation) : MemoryTree :=
  { t with reservations := t.reservations ++ [r] }

def createPeerMemoryPool (t : MemoryTree) (capacityBytes : Int) :
    MemoryTree × Except LedgerError MemoryHandle :=
  if checkU32 capacityBytes = false then (t, .error .invalidRoute)
  else (t.addPool ⟨capacityBytes, 0, 0, false, [], none⟩, .ok (.pool t.pools.length))

def reservePeerMemory (t : MemoryTree) (pool : Nat) (kind : String) (capacityBytes : Int) :
    MemoryTree × Except LedgerError MemoryHandle :=
  match t.pools[pool]? with
  | none => (t, .error .invalidRoute)
  | some p =>
    if p.released then (t, .error .invalidRoute)
    else if kind.isEmpty then (t, .error .invalidRoute)
    else if checkU32 capacityBytes = false then (t, .error .invalidRoute)
    else if p.capacityBytes - p.reservedBytes < capacityBytes then (t, .error .invalidRoute)
    else
      ((t.modifyPool pool fun p => { p with
          reservedBytes := p.reservedBytes + capacityBytes
          reservations := p.reservations ++ [t.reservations.length] }).addReservation
            ⟨pool, kind, capacityBytes, false, none, false⟩,
        .ok (.reservation t.reservations.length))

def takePeerMemory (t : MemoryTree) (res : Nat) : MemoryTree × Except LedgerError MemoryHandle :=
  match t.reservations[res]? with
  | none => (t, .error .invalidRoute)
  | some r =>
    if r.released || r.taken then (t, .error .invalidRoute)
    else
      (((t.modifyReservation res fun r => { r with
            taken := true
            childPool := some t.pools.length }).modifyPool r.pool fun p => { p with
          takenBytes := p.takenBytes + r.capacityBytes }).addPool
            ⟨r.capacityBytes, 0, 0, false, [], some res⟩,
        .ok (.pool t.pools.length))

/-- A reservation is marked and leaves the pool it is in. -/
def leavePool (t : MemoryTree) (res : Nat) (r : PoolReservation) : MemoryTree :=
  (t.modifyReservation res fun r => { r with released := true }).modifyPool r.pool fun p => { p with
    reservations := p.reservations.filter (· ≠ res)
    reservedBytes := p.reservedBytes - r.capacityBytes
    takenBytes := if r.taken then p.takenBytes - r.capacityBytes else p.takenBytes }

/-- A live pool is marked, its reservations are released, and its set is cleared. -/
def closePool (release : Nat → MemoryTree → MemoryTree) (pool : Nat) (t : MemoryTree) :
    MemoryTree :=
  match t.pools[pool]? with
  | none => t
  | some p =>
    if p.released then t
    else
      let t := t.modifyPool pool fun p => { p with released := true }
      let t := p.reservations.foldl (fun t res => release res t) t
      t.modifyPool pool fun p => { p with reservations := [] }

/-- `_releaseReservation`, at most `fuel` calls deep. -/
def releaseReservation : Nat → Nat → MemoryTree → MemoryTree
  | 0, _, t => t
  | fuel + 1, res, t =>
    match t.reservations[res]? with
    | none => t
    | some r =>
      if r.released then t
      else
        let t := t.leavePool res r
        if r.taken then
          match r.childPool with
          | none => t
          | some child => closePool (fun res t => releaseReservation fuel res t) child t
        else t

def releasePeerMemory (t : MemoryTree) : MemoryHandle → MemoryTree × Except LedgerError Bool
  | .pool i =>
    match t.pools[i]? with
    | none => (t, .error .invalidRoute)
    | some p =>
      if p.released then (t, .ok false)
      else
        let t' := closePool (releaseReservation t.reservations.length) i t
        match p.parentReservation with
        | none => (t', .ok true)
        | some parent => (releaseReservation t.reservations.length parent t', .ok true)
  | .reservation j =>
    match t.reservations[j]? with
    | none => (t, .error .invalidRoute)
    | some r =>
      if r.released then (t, .ok false)
      else (releaseReservation t.reservations.length j t, .ok true)

/-- The pass of `narrowPeerReservations` over its memory rows, in order: `seen`
holds the handles of the rows before. -/
def narrowable (t : MemoryTree) (seen : List Nat) : List MemoryPlan → Bool
  | [] => true
  | plan :: plans =>
    match t.reservations[plan.handle]? with
    | none => false
    | some r =>
      !r.released && !seen.contains plan.handle && plan.capacityBytes ≤ r.capacityBytes &&
        (!r.taken || plan.capacityBytes == r.capacityBytes) &&
        t.narrowable (plan.handle :: seen) plans

/-- One memory row takes effect. The rows are of different reservations, so it
gives back what it did when it was checked. -/
def narrowRow (t : MemoryTree) (plan : MemoryPlan) : MemoryTree :=
  match t.reservations[plan.handle]? with
  | none => t
  | some r =>
    (t.modifyReservation plan.handle fun r => { r with
        capacityBytes := plan.capacityBytes }).modifyPool r.pool fun p => { p with
      reservedBytes := p.reservedBytes - (r.capacityBytes - plan.capacityBytes) }

/-- The memory rows of `narrowPeerReservations`; `ledgers` says whether the
ledger rows of the same call pass their checks, which read no memory. -/
def narrowPeerReservations (t : MemoryTree) (ledgers : Bool) (memory : List MemoryPlan) :
    MemoryTree × Except LedgerError Unit :=
  if memory.all (fun plan => checkU32 plan.capacityBytes) = false then (t, .error .invalidRoute)
  else if ledgers = false then (t, .error .invalidRoute)
  else if t.narrowable [] memory = false then (t, .error .invalidRoute)
  else (memory.foldl narrowRow t, .ok ())

/-! ## The books -/

/-- What a live reservation takes from pool `i`. -/
def heldIn (i : Nat) (r : PoolReservation) : Int :=
  if r.pool = i ∧ r.released = false then r.capacityBytes else 0

def takenIn (i : Nat) (r : PoolReservation) : Int := if r.taken then heldIn i r else 0

def liveBytes (t : MemoryTree) (i : Nat) : Int := (t.reservations.map (heldIn i)).sum

def liveTakenBytes (t : MemoryTree) (i : Nat) : Int := (t.reservations.map (takenIn i)).sum

/-- Every pool's counters are those of its live reservations. -/
structure Booked (t : MemoryTree) : Prop where
  reserved : ∀ {i : Nat} {p : MemoryPool}, t.pools[i]? = some p → p.reservedBytes = t.liveBytes i
  taken : ∀ {i : Nat} {p : MemoryPool}, t.pools[i]? = some p → p.takenBytes = t.liveTakenBytes i
  fits : ∀ {i : Nat} {p : MemoryPool}, t.pools[i]? = some p → p.reservedBytes ≤ p.capacityBytes
  nonneg : ∀ {j : Nat} {r : PoolReservation}, t.reservations[j]? = some r → 0 ≤ r.capacityBytes
  home : ∀ {j : Nat} {r : PoolReservation}, t.reservations[j]? = some r → r.pool < t.pools.length
  listed : ∀ {i : Nat} {p : MemoryPool}, t.pools[i]? = some p → ∀ j, j ∈ p.reservations ↔
    ∃ r, t.reservations[j]? = some r ∧ r.pool = i ∧ r.released = false

/-- Taken reservations and the pools they carry point at each other, with one
capacity. What is reserved from such a pool is younger than the reservation
that carries it. -/
structure Linked (t : MemoryTree) : Prop where
  parent : ∀ {c : Nat} {p : MemoryPool} {j : Nat}, t.pools[c]? = some p →
    p.parentReservation = some j → ∃ r, t.reservations[j]? = some r ∧ r.taken = true ∧ r.childPool = some c ∧
      r.capacityBytes = p.capacityBytes
  child : ∀ {j : Nat} {r : PoolReservation}, t.reservations[j]? = some r → r.taken = true →
    ∃ c p, r.childPool = some c ∧ t.pools[c]? = some p ∧ p.parentReservation = some j
  young : ∀ {c : Nat} {p : MemoryPool} {j k : Nat} {r : PoolReservation}, t.pools[c]? = some p →
    p.parentReservation = some j → t.reservations[k]? = some r → r.pool = c → j < k

structure Books (t : MemoryTree) : Prop extends t.Booked, t.Linked

/-! ## The tree -/

/-- The node a node is reserved from, or carried by. -/
def parentOf (t : MemoryTree) : MemoryHandle → Option MemoryHandle
  | .pool c => (t.pools[c]?).bind fun p => p.parentReservation.map .reservation
  | .reservation j => (t.reservations[j]?).map fun r => .pool r.pool

/-- `y` is `x` or below it. -/
def Within (t : MemoryTree) (x y : MemoryHandle) : Prop :=
  Relation.ReflTransGen (fun a b => t.parentOf b = some a) x y

def Known (t : MemoryTree) : MemoryHandle → Prop
  | .pool i => i < t.pools.length
  | .reservation j => j < t.reservations.length

def Gone (t : MemoryTree) : MemoryHandle → Prop
  | .pool i => ∃ p, t.pools[i]? = some p ∧ p.released = true
  | .reservation j => ∃ r, t.reservations[j]? = some r ∧ r.released = true

/-- Nothing is live below a released node. -/
def Closed (t : MemoryTree) : Prop :=
  ∀ {y z : MemoryHandle}, t.parentOf z = some y → t.Gone y → t.Gone z

theorem Closed.within {t : MemoryTree} (h : t.Closed) {x y : MemoryHandle} (hx : t.Gone x)
    (hy : t.Within x y) : t.Gone y := by
  induction hy with
  | refl => exact hx
  | tail _ hz ih => exact h hz ih

/-- From `t` to `t'` nodes below `x` were released and nothing else in the tree
moved; what is below a node released on the way is released too. -/
structure Freed (x : MemoryHandle) (t t' : MemoryTree) : Prop where
  shape : t'.parentOf = t.parentOf
  size : t'.reservations.length = t.reservations.length
  mono : ∀ {y}, t.Gone y → t'.Gone y
  grown : ∀ {y}, t'.Gone y → t.Gone y ∨ t.Within x y
  tight : ∀ {y z}, t'.Gone y → ¬ t.Gone y → t.parentOf z = some y → t'.Gone z

namespace Freed

variable {x : MemoryHandle} {t t' t'' : MemoryTree}

theorem refl (x : MemoryHandle) (t : MemoryTree) : Freed x t t :=
  ⟨rfl, rfl, id, .inl, fun h hn _ => absurd h hn⟩

theorem within (h : Freed x t t') : t'.Within = t.Within := by
  unfold Within
  rw [h.shape]

theorem trans (h : Freed x t t') (h' : Freed x t' t'') : Freed x t t'' := by
  refine ⟨h'.shape.trans h.shape, h'.size.trans h.size, fun hy => h'.mono (h.mono hy),
    fun hy => ?_, fun {y z} hy hn hz => ?_⟩
  · rcases h'.grown hy with hy | hy
    · exact h.grown hy
    · exact .inr (h.within ▸ hy)
  · by_cases hmid : t'.Gone y
    · exact h'.mono (h.tight hmid hn hz)
    · exact h'.tight hy hmid (by rw [h.shape]; exact hz)

theorem above {w : MemoryHandle} (h : Freed x t t') (hx : t.Within w x) : Freed w t t' :=
  ⟨h.shape, h.size, h.mono, fun hy => (h.grown hy).imp_right hx.trans, h.tight⟩

theorem closed (h : Freed x t t') (hc : t.Closed) : t'.Closed := by
  intro y z hz hy
  rw [h.shape] at hz
  by_cases hy₀ : t.Gone y
  · exact h.mono (hc hz hy₀)
  · exact h.tight hy hy₀ hz

theorem mark {x₀ : MemoryHandle} (hshape : t'.parentOf = t.parentOf)
    (hsize : t'.reservations.length = t.reservations.length)
    (hmark : ∀ y, t'.Gone y ↔ t.Gone y ∨ y = x₀) (hx : t.Within x x₀) (h : Freed x t' t'')
    (htight : ∀ z, t.parentOf z = some x₀ → t''.Gone z) : Freed x t t'' := by
  refine ⟨h.shape.trans hshape, h.size.trans hsize, fun hy => h.mono ((hmark _).mpr (.inl hy)),
    fun hy => ?_, fun {y z} hy hn hz => ?_⟩
  · rcases h.grown hy with hy | hy
    · rcases (hmark _).mp hy with hy | rfl
      · exact .inl hy
      · exact .inr hx
    · refine .inr ?_
      unfold Within at hy ⊢
      rw [hshape] at hy
      exact hy
  · by_cases hmid : t'.Gone y
    · rcases (hmark _).mp hmid with hy₀ | rfl
      · exact absurd hy₀ hn
      · exact htight z hz
    · exact h.tight hy hmid (by rw [hshape]; exact hz)

end Freed

/-! ## One change of the tree -/

section

variable {t : MemoryTree}

theorem getElem?_modifyPool (t : MemoryTree) (i : Nat) (f : MemoryPool → MemoryPool) (k : Nat) :
    (t.modifyPool i f).pools[k]? = (t.pools[k]?).map fun p => if i = k then f p else p :=
  List.getElem?_modify f i t.pools k

theorem getElem?_modifyReservation (t : MemoryTree) (j : Nat)
    (f : PoolReservation → PoolReservation) (k : Nat) :
    (t.modifyReservation j f).reservations[k]? =
      (t.reservations[k]?).map fun r => if j = k then f r else r :=
  List.getElem?_modify f j t.reservations k

theorem exists_of_modifyPool {i k : Nat} {f : MemoryPool → MemoryPool} {p' : MemoryPool}
    (h : (t.modifyPool i f).pools[k]? = some p') :
    ∃ p, t.pools[k]? = some p ∧ p' = if i = k then f p else p := by
  rw [getElem?_modifyPool] at h
  obtain ⟨p, hp, he⟩ := Option.map_eq_some_iff.mp h
  exact ⟨p, hp, he.symm⟩

theorem exists_of_modifyReservation {j k : Nat} {f : PoolReservation → PoolReservation}
    {r' : PoolReservation} (h : (t.modifyReservation j f).reservations[k]? = some r') :
    ∃ r, t.reservations[k]? = some r ∧ r' = if j = k then f r else r := by
  rw [getElem?_modifyReservation] at h
  obtain ⟨r, hr, he⟩ := Option.map_eq_some_iff.mp h
  exact ⟨r, hr, he.symm⟩

/-- One reservation and its pool change together, the counters of the pool by as
much as the reservation. -/
theorem Booked.update (h : t.Booked) {j : Nat} {r : PoolReservation}
    (hr : t.reservations[j]? = some r) {f : PoolReservation → PoolReservation}
    {g : MemoryPool → MemoryPool} (hpool : (f r).pool = r.pool) (hcap : 0 ≤ (f r).capacityBytes)
    (hle : heldIn r.pool (f r) ≤ heldIn r.pool r)
    (hbooks : ∀ p, (g p).capacityBytes = p.capacityBytes ∧
      (g p).reservedBytes = p.reservedBytes + (heldIn r.pool (f r) - heldIn r.pool r) ∧
      (g p).takenBytes = p.takenBytes + (takenIn r.pool (f r) - takenIn r.pool r))
    (hlist : ∀ p k, k ∈ (g p).reservations ↔
      k ∈ p.reservations ∧ (k = j → (f r).released = false)) (hmono : r.released = true →
      (f r).released = true) :
    ((t.modifyReservation j f).modifyPool r.pool g).Booked := by
  have hheld : ∀ i, ((t.modifyReservation j f).modifyPool r.pool g).liveBytes i + heldIn i r =
      t.liveBytes i + heldIn i (f r) := fun i => sum_map_modify hr (heldIn i)
  have htaken : ∀ i, ((t.modifyReservation j f).modifyPool r.pool g).liveTakenBytes i +
      takenIn i r = t.liveTakenBytes i + takenIn i (f r) := fun i => sum_map_modify hr (takenIn i)
  have hother : ∀ i, r.pool ≠ i → heldIn i r = 0 ∧ heldIn i (f r) = 0 ∧ takenIn i r = 0 ∧
      takenIn i (f r) = 0 := by
    intro i hi
    have h1 : heldIn i r = 0 := if_neg fun hc => hi hc.1
    have h2 : heldIn i (f r) = 0 := if_neg fun hc => hi (hpool ▸ hc.1)
    exact ⟨h1, h2, by simp [takenIn, h1], by simp [takenIn, h2]⟩
  have hpools : ∀ {i p'}, ((t.modifyReservation j f).modifyPool r.pool g).pools[i]? = some p' →
      ∃ p, t.pools[i]? = some p ∧ p' = if r.pool = i then g p else p := exists_of_modifyPool
  refine ⟨fun {i p'} hp' => ?_, fun {i p'} hp' => ?_, fun {i p'} hp' => ?_, fun {k r'} hr' => ?_,
    fun {k r'} hr' => ?_, fun {i p'} hp' k => ?_⟩
  · obtain ⟨p, hp, rfl⟩ := hpools hp'
    have hres := h.reserved hp
    have hsum := hheld i
    by_cases hi : r.pool = i
    · subst hi
      rw [if_pos rfl, (hbooks p).2.1]
      omega
    · obtain ⟨h1, h2, -, -⟩ := hother i hi
      rw [if_neg hi]
      omega
  · obtain ⟨p, hp, rfl⟩ := hpools hp'
    have hres := h.taken hp
    have hsum := htaken i
    by_cases hi : r.pool = i
    · subst hi
      rw [if_pos rfl, (hbooks p).2.2]
      omega
    · obtain ⟨-, -, h1, h2⟩ := hother i hi
      rw [if_neg hi]
      omega
  · obtain ⟨p, hp, rfl⟩ := hpools hp'
    have hfit := h.fits hp
    by_cases hi : r.pool = i
    · rw [if_pos hi, (hbooks p).1, (hbooks p).2.1]
      omega
    · rw [if_neg hi]
      exact hfit
  · obtain ⟨r₀, hr₀, rfl⟩ := exists_of_modifyReservation hr'
    split
    · next he =>
      subst he
      obtain rfl := Option.some.inj (hr.symm.trans hr₀)
      exact hcap
    · exact h.nonneg hr₀
  · obtain ⟨r₀, hr₀, rfl⟩ := exists_of_modifyReservation hr'
    have hlen : ((t.modifyReservation j f).modifyPool r.pool g).pools.length = t.pools.length :=
      List.length_modify ..
    rw [hlen]
    split
    · next he =>
      subst he
      obtain rfl := Option.some.inj (hr.symm.trans hr₀)
      rw [hpool]
      exact h.home hr
    · exact h.home hr₀
  · obtain ⟨p, hp, rfl⟩ := hpools hp'
    have hold := h.listed hp k
    have hget : ((t.modifyReservation j f).modifyPool r.pool g).reservations[k]? =
        (t.reservations[k]?).map fun r => if j = k then f r else r :=
      getElem?_modifyReservation t j f k
    rw [hget]
    by_cases hk : j = k
    · subst hk
      rw [hr] at hold ⊢
      by_cases hi : r.pool = i
      · rw [if_pos hi, hlist]
        constructor
        · rintro ⟨hmem, hlive⟩
          exact ⟨f r, by simp, hpool.trans hi, hlive rfl⟩
        · rintro ⟨r', hr', -, hlive⟩
          obtain rfl : f r = r' := by simpa using hr'
          refine ⟨hold.mpr ⟨r, rfl, hi, ?_⟩, fun _ => hlive⟩
          cases hrel : r.released with
          | false => rfl
          | true => exact absurd (hmono hrel) (by simp [hlive])
      · rw [if_neg hi, hold]
        constructor
        · rintro ⟨r', hr', he, -⟩
          exact absurd ((Option.some.inj hr') ▸ he) hi
        · rintro ⟨r', hr', he, -⟩
          obtain rfl : f r = r' := by simpa using hr'
          exact absurd (hpool.symm.trans he) hi
    · have hsame : ((t.reservations[k]?).map fun r => if j = k then f r else r) =
          t.reservations[k]? := by simp [hk]
      rw [hsame]
      by_cases hi : r.pool = i
      · rw [if_pos hi, hlist]
        exact ⟨fun hm => hold.mp hm.1, fun hm => ⟨hold.mpr hm, fun he => absurd he.symm hk⟩⟩
      · rw [if_neg hi]
        exact hold

theorem parentOf_eq_reservation {c j : Nat} :
    t.parentOf (.pool c) = some (.reservation j) ↔
      ∃ p, t.pools[c]? = some p ∧ p.parentReservation = some j := by
  simp [parentOf, Option.bind_eq_some_iff]

theorem parentOf_eq_pool {i j : Nat} :
    t.parentOf (.reservation j) = some (.pool i) ↔
      ∃ r, t.reservations[j]? = some r ∧ r.pool = i := by
  simp [parentOf]

theorem Linked.modifyPool (h : t.Linked) {i : Nat} {f : MemoryPool → MemoryPool}
    (hf : ∀ p, (f p).parentReservation = p.parentReservation ∧
      (f p).capacityBytes = p.capacityBytes) : (t.modifyPool i f).Linked := by
  have hget : ∀ {k : Nat} {p' : MemoryPool}, (t.modifyPool i f).pools[k]? = some p' →
      ∃ p : MemoryPool, t.pools[k]? = some p ∧ p'.parentReservation = p.parentReservation ∧
        p'.capacityBytes = p.capacityBytes := by
    intro k p' hp'
    obtain ⟨p, hp, rfl⟩ := exists_of_modifyPool hp'
    refine ⟨p, hp, ?_⟩
    split
    · exact hf p
    · exact ⟨rfl, rfl⟩
  refine ⟨fun hp' hj => ?_, fun {j r} hr ht => ?_, fun hp' hj hr hk => ?_⟩
  · obtain ⟨p, hp, hpar, hcap⟩ := hget hp'
    rw [hpar] at hj
    rw [hcap]
    exact h.parent hp hj
  · obtain ⟨c, p, hc, hp, hpar⟩ := h.child hr ht
    refine ⟨c, if i = c then f p else p, hc, by rw [getElem?_modifyPool, hp]; rfl, ?_⟩
    split
    · exact (hf p).1.trans hpar
    · exact hpar
  · obtain ⟨p, hp, hpar, -⟩ := hget hp'
    exact h.young hp (hpar ▸ hj) hr hk

theorem Linked.modifyReservation (h : t.Linked) {i : Nat} {r : PoolReservation}
    (hr : t.reservations[i]? = some r) {f : PoolReservation → PoolReservation}
    (hpool : (f r).pool = r.pool) (htaken : (f r).taken = r.taken)
    (hchild : (f r).childPool = r.childPool)
    (hcap : r.taken = true → (f r).capacityBytes = r.capacityBytes) :
    (t.modifyReservation i f).Linked := by
  have hget : ∀ {k : Nat} {r' : PoolReservation}, (t.modifyReservation i f).reservations[k]? = some r' →
      ∃ r : PoolReservation, t.reservations[k]? = some r ∧ r'.pool = r.pool ∧
        r'.taken = r.taken ∧ r'.childPool = r.childPool := by
    intro k r' hr'
    obtain ⟨r₀, hr₀, rfl⟩ := exists_of_modifyReservation hr'
    refine ⟨r₀, hr₀, ?_⟩
    split
    · next he =>
      subst he
      obtain rfl := Option.some.inj (hr.symm.trans hr₀)
      exact ⟨hpool, htaken, hchild⟩
    · exact ⟨rfl, rfl, rfl⟩
  refine ⟨fun {c p j} hp hj => ?_, fun {j r'} hr' ht => ?_, fun hp hj hr' hk => ?_⟩
  · obtain ⟨r₀, hr₀, ht, hc, he⟩ := h.parent hp hj
    refine ⟨if i = j then f r₀ else r₀, by rw [getElem?_modifyReservation, hr₀]; rfl, ?_⟩
    split
    · next hij =>
      subst hij
      obtain rfl := Option.some.inj (hr.symm.trans hr₀)
      exact ⟨htaken.trans ht, hchild.trans hc, (hcap ht).trans he⟩
    · exact ⟨ht, hc, he⟩
  · obtain ⟨r₀, hr₀, -, ht₀, hc₀⟩ := hget hr'
    rw [hc₀]
    exact h.child hr₀ (ht₀ ▸ ht)
  · obtain ⟨r₀, hr₀, hp₀, -, -⟩ := hget hr'
    exact h.young hp hj hr₀ (hp₀ ▸ hk)

theorem parentOf_modifyPool {i : Nat} {f : MemoryPool → MemoryPool}
    (hf : ∀ p, (f p).parentReservation = p.parentReservation) :
    (t.modifyPool i f).parentOf = t.parentOf := by
  funext h
  cases h with
  | reservation j => rfl
  | pool c =>
    simp only [parentOf, getElem?_modifyPool]
    cases t.pools[c]? with
    | none => rfl
    | some p =>
      simp only [Option.map_some, Option.bind_some]
      split
      · rw [hf]
      · rfl

theorem parentOf_modifyReservation {i : Nat} {f : PoolReservation → PoolReservation}
    (hf : ∀ r, (f r).pool = r.pool) : (t.modifyReservation i f).parentOf = t.parentOf := by
  funext h
  cases h with
  | pool c => rfl
  | reservation j =>
    simp only [parentOf, getElem?_modifyReservation]
    cases t.reservations[j]? with
    | none => rfl
    | some r =>
      simp only [Option.map_some]
      split
      · rw [hf]
      · rfl

theorem gone_modifyPool {i : Nat} {f : MemoryPool → MemoryPool}
    (hf : ∀ p, (f p).released = p.released) (y : MemoryHandle) :
    (t.modifyPool i f).Gone y ↔ t.Gone y := by
  cases y with
  | reservation j => exact Iff.rfl
  | pool c =>
    simp only [Gone, getElem?_modifyPool]
    cases t.pools[c]? with
    | none => simp
    | some p =>
      simp only [Option.map_some, Option.some.injEq, exists_eq_left']
      split
      · rw [hf]
      · exact Iff.rfl

theorem gone_modifyReservation {i : Nat} {f : PoolReservation → PoolReservation}
    (hf : ∀ r, (f r).released = r.released) (y : MemoryHandle) :
    (t.modifyReservation i f).Gone y ↔ t.Gone y := by
  cases y with
  | pool c => exact Iff.rfl
  | reservation j =>
    simp only [Gone, getElem?_modifyReservation]
    cases t.reservations[j]? with
    | none => simp
    | some r =>
      simp only [Option.map_some, Option.some.injEq, exists_eq_left']
      split
      · rw [hf]
      · exact Iff.rfl

theorem gone_markPool {i : Nat} {p : MemoryPool} (hp : t.pools[i]? = some p) (y : MemoryHandle) :
    (t.modifyPool i fun p => { p with released := true }).Gone y ↔ t.Gone y ∨ y = .pool i := by
  cases y with
  | reservation j => simp [Gone, modifyPool]
  | pool c =>
    simp only [Gone, getElem?_modifyPool, MemoryHandle.pool.injEq]
    by_cases hc : i = c
    · subst hc
      simp [hp]
    · cases t.pools[c]? <;> simp [hc, Ne.symm hc]

theorem gone_markReservation {i : Nat} {r : PoolReservation} (hr : t.reservations[i]? = some r)
    (y : MemoryHandle) :
    (t.modifyReservation i fun r => { r with released := true }).Gone y ↔
      t.Gone y ∨ y = .reservation i := by
  cases y with
  | pool c => simp [Gone, modifyReservation]
  | reservation j =>
    simp only [Gone, getElem?_modifyReservation, MemoryHandle.reservation.injEq]
    by_cases hj : i = j
    · subst hj
      simp [hr]
    · cases t.reservations[j]? <;> simp [hj, Ne.symm hj]

/-! ## Release -/

theorem Books.markPool (h : t.Books) (i : Nat) :
    (t.modifyPool i fun p => { p with released := true }).Books := by
  have hget : ∀ {k : Nat} {p' : MemoryPool},
      (t.modifyPool i fun p => { p with released := true }).pools[k]? = some p' →
      ∃ p : MemoryPool, t.pools[k]? = some p ∧ p'.reservedBytes = p.reservedBytes ∧
        p'.takenBytes = p.takenBytes ∧ p'.capacityBytes = p.capacityBytes ∧
        p'.reservations = p.reservations := by
    intro k p' hp'
    obtain ⟨p, hp, rfl⟩ := exists_of_modifyPool hp'
    refine ⟨p, hp, ?_⟩
    split <;> exact ⟨rfl, rfl, rfl, rfl⟩
  refine ⟨⟨fun hp' => ?_, fun hp' => ?_, fun hp' => ?_, h.nonneg, fun hr => ?_, fun hp' j => ?_⟩,
    h.toLinked.modifyPool fun _ => ⟨rfl, rfl⟩⟩
  · obtain ⟨p, hp, he, -⟩ := hget hp'
    exact he.trans (h.reserved hp)
  · obtain ⟨p, hp, -, he, -⟩ := hget hp'
    exact he.trans (h.taken hp)
  · obtain ⟨p, hp, he, -, hc, -⟩ := hget hp'
    rw [he, hc]
    exact h.fits hp
  · exact (h.home hr).trans_eq (List.length_modify ..).symm
  · obtain ⟨p, hp, -, -, -, he⟩ := hget hp'
    rw [he]
    exact h.listed hp j

theorem Books.leavePool (h : t.Books) {j : Nat} {r : PoolReservation}
    (hr : t.reservations[j]? = some r) (hlive : r.released = false) : (t.leavePool j r).Books := by
  have hheld : heldIn r.pool r = r.capacityBytes := if_pos ⟨rfl, hlive⟩
  have hzero : heldIn r.pool { r with released := true } = 0 := if_neg fun hc => nomatch hc.2
  have hcap := h.nonneg hr
  refine ⟨h.toBooked.update hr rfl hcap ?_ (fun p => ⟨rfl, ?_, ?_⟩) (fun p k => ?_)
    fun _ => rfl, (h.toLinked.modifyReservation hr rfl rfl rfl fun _ => rfl).modifyPool
    fun _ => ⟨rfl, rfl⟩⟩
  · rw [hheld, hzero]
    exact hcap
  · rw [hheld, hzero]
    show p.reservedBytes - r.capacityBytes = _
    omega
  · simp only [takenIn, hheld, hzero]
    split <;> omega
  · simp [List.mem_filter]

theorem parentOf_leavePool (j : Nat) (r : PoolReservation) :
    (t.leavePool j r).parentOf = t.parentOf := by
  refine (parentOf_modifyPool ?_).trans (parentOf_modifyReservation ?_)
  · intro p
    rfl
  · intro r
    rfl

theorem gone_leavePool {j : Nat} {r : PoolReservation} (hr : t.reservations[j]? = some r)
    (y : MemoryHandle) : (t.leavePool j r).Gone y ↔ t.Gone y ∨ y = .reservation j := by
  refine (gone_modifyPool ?_ y).trans (gone_markReservation hr y)
  intro p
  rfl

theorem not_gone_of_live {j : Nat} {r : PoolReservation} (hr : t.reservations[j]? = some r)
    (hlive : r.released = false) : ¬ t.Gone (.reservation j) := by
  rintro ⟨r', hr', hgone⟩
  obtain rfl := Option.some.inj (hr.symm.trans hr')
  simp [hlive] at hgone

/-- What a release of node `x` does. -/
structure Releases (x : MemoryHandle) (t t' : MemoryTree) : Prop extends Freed x t t' where
  books : t'.Books
  gone : t'.Gone x

/-- The loop over a pool's reservations. -/
theorem foldl_releases {release : Nat → MemoryTree → MemoryTree} {c : Nat} {shape}
    {size : Nat} (hrel : ∀ j t, t.Books → t.parentOf = shape → t.reservations.length = size →
      shape (.reservation j) = some (.pool c) → Releases (.reservation j) t (release j t)) :
    ∀ (l : List Nat) {t : MemoryTree}, t.Books → t.parentOf = shape →
      t.reservations.length = size → (∀ j ∈ l, shape (.reservation j) = some (.pool c)) →
      (l.foldl (fun t res => release res t) t).Books ∧
        Freed (.pool c) t (l.foldl (fun t res => release res t) t) ∧
        ∀ j ∈ l, (l.foldl (fun t res => release res t) t).Gone (.reservation j) := by
  intro l
  induction l with
  | nil =>
    intro t hb _ _ _
    exact ⟨hb, .refl _ t, fun j hj => nomatch hj⟩
  | cons k l ih =>
    intro t hb hshape hsize hl
    have hk := hl k List.mem_cons_self
    have hstep := hrel k t hb hshape hsize hk
    have hbelow : t.Within (.pool c) (.reservation k) := .single (hshape ▸ hk)
    obtain ⟨hb', hf', hgone⟩ := ih hstep.books (hstep.shape.trans hshape)
      (hstep.size.trans hsize) fun j hj => hl j (List.mem_cons_of_mem k hj)
    refine ⟨hb', (hstep.toFreed.above hbelow).trans hf', fun j hj => ?_⟩
    rcases List.mem_cons.mp hj with rfl | hj
    · exact hf'.mono hstep.gone
    · exact hgone j hj

theorem clear_of_empty {i : Nat} {p : MemoryPool} (hp : t.pools[i]? = some p)
    (hnil : p.reservations = []) : (t.modifyPool i fun p => { p with reservations := [] }) = t := by
  have hpools : t.pools.modify i (fun p => { p with reservations := [] }) = t.pools := by
    apply List.ext_getElem?
    intro k
    rw [List.getElem?_modify]
    by_cases hk : i = k
    · subst hk
      simp [hp, ← hnil]
    · simp [hk]
  unfold modifyPool
  rw [hpools]

theorem closePool_releases {release : Nat → MemoryTree → MemoryTree} {c : Nat} {p : MemoryPool}
    (hrel : ∀ j t', t'.Books → t'.parentOf = t.parentOf →
      t'.reservations.length = t.reservations.length →
      t.parentOf (.reservation j) = some (.pool c) → Releases (.reservation j) t' (release j t'))
    (hb : t.Books) (hp : t.pools[c]? = some p) (hlive : p.released = false) :
    Releases (.pool c) t (closePool release c t) := by
  have hlisted : ∀ j ∈ p.reservations, t.parentOf (.reservation j) = some (.pool c) := by
    intro j hj
    obtain ⟨r, hr, hrc, -⟩ := (hb.listed hp j).mp hj
    exact parentOf_eq_pool.mpr ⟨r, hr, hrc⟩
  have hshape : (t.modifyPool c fun p => { p with released := true }).parentOf = t.parentOf := by
    apply parentOf_modifyPool
    intro p
    rfl
  obtain ⟨hb', hf, hgone⟩ := foldl_releases hrel p.reservations (hb.markPool c) hshape rfl hlisted
  set t' := p.reservations.foldl (fun t res => release res t)
    (t.modifyPool c fun p => { p with released := true }) with ht'
  have hmark := hf.mono ((gone_markPool hp _).mpr (.inr rfl))
  -- whatever is still reserved from the pool was in its set when it was marked
  have hbelow : ∀ z, t.parentOf z = some (.pool c) → t'.Gone z := by
    intro z hz
    cases z with
    | pool i => simp [parentOf, Option.bind_eq_some_iff] at hz
    | reservation j =>
      obtain ⟨r, hr, hrc⟩ := parentOf_eq_pool.mp hz
      cases hrel : r.released with
      | true => exact hf.mono ⟨r, hr, hrel⟩
      | false => exact hgone j ((hb.listed hp j).mpr ⟨r, hr, hrc, hrel⟩)
  have hfreed : Freed (.pool c) t t' :=
    .mark hshape rfl (gone_markPool hp) .refl hf hbelow
  obtain ⟨p', hp', hdone⟩ := hmark
  have hnil : p'.reservations = [] := by
    rw [List.eq_nil_iff_forall_not_mem]
    intro j hj
    obtain ⟨r, hr, hrc, hrel⟩ := (hb'.listed hp' j).mp hj
    refine not_gone_of_live hr hrel (hbelow _ ?_)
    rw [← hfreed.shape]
    exact parentOf_eq_pool.mpr ⟨r, hr, hrc⟩
  have hclose : closePool release c t = t' := by
    unfold closePool
    rw [hp]
    simp only [hlive, Bool.false_eq_true, if_false]
    exact clear_of_empty hp' hnil
  rw [hclose]
  exact ⟨hfreed, hb', p', hp', hdone⟩

/-- The only pool below a reservation is the one it carries. -/
theorem Books.child_of_parentOf (hb : t.Books) {j : Nat} {r : PoolReservation}
    (hr : t.reservations[j]? = some r) {z : MemoryHandle}
    (hz : t.parentOf z = some (.reservation j)) :
    r.taken = true ∧ ∃ c, z = .pool c ∧ r.childPool = some c := by
  cases z with
  | reservation k => simp [parentOf] at hz
  | pool c =>
    obtain ⟨p, hp, hpar⟩ := parentOf_eq_reservation.mp hz
    obtain ⟨r', hr', htaken, hchild, -⟩ := hb.parent hp hpar
    obtain rfl := Option.some.inj (hr.symm.trans hr')
    exact ⟨htaken, c, rfl, hchild⟩

/-- Induction on the depth left: what is reserved below a reservation is younger
than it, so a depth of as many calls as there are younger ones is enough. -/
theorem releaseReservation_releases : ∀ (fuel j : Nat) (t : MemoryTree), t.Books →
    j < t.reservations.length → t.reservations.length ≤ j + fuel →
    Releases (.reservation j) t (releaseReservation fuel j t) := by
  intro fuel
  induction fuel with
  | zero =>
    intro j t _ hlt hle
    omega
  | succ fuel ih =>
    intro j t hb hlt hle
    obtain ⟨r, hr⟩ : ∃ r, t.reservations[j]? = some r := ⟨_, List.getElem?_eq_getElem hlt⟩
    unfold releaseReservation
    rw [hr]
    dsimp only
    cases hlive : r.released with
    | true =>
      simp only [if_true]
      exact ⟨.refl _ t, hb, r, hr, hlive⟩
    | false =>
      simp only [Bool.false_eq_true, if_false]
      have hb₁ := hb.leavePool hr hlive
      have hshape := parentOf_leavePool (t := t) j r
      have hsize : (t.leavePool j r).reservations.length = t.reservations.length :=
        List.length_modify ..
      have hgone : (t.leavePool j r).Gone (.reservation j) := (gone_leavePool hr _).mpr (.inr rfl)
      cases htaken : r.taken with
      | false =>
        simp only [Bool.false_eq_true, if_false]
        refine ⟨.mark hshape hsize (gone_leavePool hr) .refl (.refl _ _) fun z hz => ?_, hb₁, hgone⟩
        exact absurd (hb.child_of_parentOf hr hz).1 (by simp [htaken])
      | true =>
        obtain ⟨c, p, hchild, hp, hpar⟩ := hb.child hr htaken
        simp only [if_true, hchild]
        have hbelow : t.Within (.reservation j) (.pool c) :=
          .single (parentOf_eq_reservation.mpr ⟨p, hp, hpar⟩)
        obtain ⟨p₁, hp₁⟩ : ∃ p₁, (t.leavePool j r).pools[c]? = some p₁ :=
          ⟨_, (getElem?_modifyPool _ _ _ c).trans (congrArg _ hp)⟩
        -- either the pool is gone already, or it is closed now
        have hclose : Releases (.pool c) (t.leavePool j r)
            (closePool (fun res t => releaseReservation fuel res t) c (t.leavePool j r)) := by
          cases hdone : p₁.released with
          | true =>
            unfold closePool
            rw [hp₁]
            simp only [hdone, if_true]
            exact ⟨.refl _ _, hb₁, p₁, hp₁, hdone⟩
          | false =>
            refine closePool_releases (fun k t' hb' hshape' hsize' hk => ?_) hb₁ hp₁ hdone
            rw [hshape] at hk
            obtain ⟨r', hr', hrc⟩ := parentOf_eq_pool.mp hk
            have hyoung := hb.young hp hpar hr' hrc
            have hbound := (List.getElem?_eq_some_iff.mp hr').1
            exact ih k t' hb' (by omega) (by omega)
        have habove : (t.leavePool j r).Within (.reservation j) (.pool c) := by
          unfold Within
          rw [hshape]
          exact hbelow
        refine ⟨.mark hshape hsize (gone_leavePool hr) .refl (hclose.toFreed.above habove)
          fun z hz => ?_, hclose.books, hclose.mono hgone⟩
        obtain ⟨-, c', rfl, hc'⟩ := hb.child_of_parentOf hr hz
        obtain rfl := Option.some.inj (hchild.symm.trans hc')
        exact hclose.gone

/-- The books hold and nothing is live below a released node. -/
structure Sound (t : MemoryTree) : Prop extends t.Books where
  closed : t.Closed

theorem Sound.releaseReservation (h : t.Sound) {j f : Nat} (hj : j < t.reservations.length)
    (hfuel : t.reservations.length ≤ j + f) :
    Releases (.reservation j) t (releaseReservation f j t) :=
  releaseReservation_releases f j t h.toBooks hj hfuel

theorem Sound.closePool (h : t.Sound) {i fuel : Nat} {p : MemoryPool}
    (hp : t.pools[i]? = some p) (hlive : p.released = false)
    (hfuel : t.reservations.length ≤ fuel) :
    Releases (.pool i) t (closePool (MemoryTree.releaseReservation fuel) i t) := by
  refine closePool_releases (fun j t' hb' _ hsize hj => ?_) h.toBooks hp hlive
  obtain ⟨r, hr, -⟩ := parentOf_eq_pool.mp hj
  have := (List.getElem?_eq_some_iff.mp hr).1
  exact releaseReservation_releases _ j t' hb' (by omega) (by omega)

theorem Releases.sound {x : MemoryHandle} {t' : MemoryTree} (hr : Releases x t t')
    (h : t.Sound) : t'.Sound := ⟨hr.books, hr.toFreed.closed h.closed⟩

theorem Releases.gone_iff {x : MemoryHandle} {t' : MemoryTree} (hr : Releases x t t')
    (h : t.Sound) (y : MemoryHandle) : t'.Gone y ↔ t.Gone y ∨ t.Within x y := by
  refine ⟨hr.grown, fun hy => ?_⟩
  rcases hy with hy | hy
  · exact hr.mono hy
  · exact Closed.within (hr.sound h).closed hr.gone (hr.toFreed.within ▸ hy)

/-- The node and what is below it, and for a pool the reservation that carries it. -/
def Frees (t : MemoryTree) (x y : MemoryHandle) : Prop :=
  t.Within x y ∨ ∃ j, t.parentOf x = some (.reservation j) ∧ y = .reservation j

/-- A release of a live node. -/
structure Released (x : MemoryHandle) (t t' : MemoryTree) : Prop where
  sound : t'.Sound
  gone_iff : ∀ y, t'.Gone y ↔ t.Gone y ∨ t.Frees x y

theorem releasePeerMemory_live (h : t.Sound) {x : MemoryHandle} (hx : t.Known x)
    (hlive : ¬ t.Gone x) :
    (t.releasePeerMemory x).2 = .ok true ∧ Released x t (t.releasePeerMemory x).1 := by
  cases x with
  | reservation j =>
    obtain ⟨r, hr⟩ : ∃ r, t.reservations[j]? = some r := ⟨_, List.getElem?_eq_getElem hx⟩
    have hrel : r.released = false := by
      cases hrel : r.released with
      | false => rfl
      | true => exact absurd ⟨r, hr, hrel⟩ hlive
    have hdone := h.releaseReservation (f := t.reservations.length) hx (by omega)
    simp only [releasePeerMemory, hr, hrel, Bool.false_eq_true, if_false]
    refine ⟨trivial, hdone.sound h, fun y => ?_⟩
    rw [hdone.gone_iff h]
    have hnone : ¬ ∃ k, t.parentOf (.reservation j) = some (.reservation k) ∧
        y = .reservation k := by
      rintro ⟨k, hk, -⟩
      simp [parentOf] at hk
    simp [Frees, hnone]
  | pool i =>
    obtain ⟨p, hp⟩ : ∃ p, t.pools[i]? = some p := ⟨_, List.getElem?_eq_getElem hx⟩
    have hrel : p.released = false := by
      cases hrel : p.released with
      | false => rfl
      | true => exact absurd ⟨p, hp, hrel⟩ hlive
    have hclose := h.closePool hp hrel le_rfl
    have hs := hclose.sound h
    simp only [releasePeerMemory, hp, hrel, Bool.false_eq_true, if_false]
    cases hpar : p.parentReservation with
    | none =>
      refine ⟨rfl, hs, fun y => ?_⟩
      show MemoryTree.Gone _ y ↔ _
      rw [hclose.gone_iff h]
      have hnone : ¬ ∃ k, t.parentOf (.pool i) = some (.reservation k) ∧ y = .reservation k := by
        rintro ⟨k, hk, -⟩
        obtain ⟨p', hp', hk⟩ := parentOf_eq_reservation.mp hk
        obtain rfl := Option.some.inj (hp.symm.trans hp')
        simp [hpar] at hk
      simp [Frees, hnone]
    | some j =>
      obtain ⟨r, hr, -⟩ := h.parent hp hpar
      have hparent : t.parentOf (.pool i) = some (.reservation j) :=
        parentOf_eq_reservation.mpr ⟨p, hp, hpar⟩
      have hbound := (List.getElem?_eq_some_iff.mp hr).1
      have hup := hs.releaseReservation (j := j) (f := t.reservations.length)
        (by rw [hclose.size]; exact hbound) (by rw [hclose.size]; omega)
      refine ⟨rfl, hup.sound hs, fun y => ?_⟩
      show MemoryTree.Gone _ y ↔ _
      rw [hup.gone_iff hs, hclose.gone_iff h, hclose.toFreed.within]
      constructor
      · rintro ((hy | hy) | hy)
        · exact .inl hy
        · exact .inr (.inl hy)
        · -- below the reservation there is itself, and what is below the one pool it carries
          rcases Relation.ReflTransGen.cases_head hy with rfl | ⟨z, hz, hzy⟩
          · exact .inr (.inr ⟨j, hparent, rfl⟩)
          · obtain ⟨-, c, rfl, hc⟩ := h.child_of_parentOf hr hz
            obtain ⟨-, c', hc', hi⟩ := h.child_of_parentOf hr hparent
            obtain rfl := Option.some.inj (hc.symm.trans hi)
            obtain rfl := MemoryHandle.pool.inj hc'
            exact .inr (.inl hzy)
      · rintro (hy | hy | ⟨k, hk, rfl⟩)
        · exact .inl (.inl hy)
        · exact .inl (.inr hy)
        · obtain rfl := MemoryHandle.reservation.inj (Option.some.inj (hparent.symm.trans hk))
          exact .inr .refl

theorem releasePeerMemory_gone {x : MemoryHandle} (hx : t.Gone x) :
    t.releasePeerMemory x = (t, .ok false) := by
  cases x with
  | pool i =>
    obtain ⟨p, hp, hrel⟩ := hx
    simp [releasePeerMemory, hp, hrel]
  | reservation j =>
    obtain ⟨r, hr, hrel⟩ := hx
    simp [releasePeerMemory, hr, hrel]

theorem releasePeerMemory_unknown {x : MemoryHandle} (hx : ¬ t.Known x) :
    t.releasePeerMemory x = (t, .error .invalidRoute) := by
  cases x with
  | pool i =>
    have hp : t.pools[i]? = none := List.getElem?_eq_none (not_lt.mp hx)
    simp [releasePeerMemory, hp]
  | reservation j =>
    have hr : t.reservations[j]? = none := List.getElem?_eq_none (not_lt.mp hx)
    simp [releasePeerMemory, hr]

end

end MemoryTree

end HyperDht.Private
