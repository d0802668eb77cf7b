import HyperDht.Private.MemoryPools

/-!
# Runs over the memory pools

Every operation keeps the counters of all pools and releases nothing but what a
release frees; a node once released stays so.
-/

namespace HyperDht.Private

namespace MemoryTree

section

variable {t t' : MemoryTree}

/-- An operation that releases nothing and hangs new nodes only below live ones. -/
theorem closed_of_added (hc : t.Closed) (hgone : ∀ y, t'.Gone y ↔ t.Gone y)
    (hpar : ∀ z y, t'.parentOf z = some y → t.parentOf z = some y ∨ ¬ t.Gone y) : t'.Closed := by
  intro y z hz hy
  rw [hgone] at hy ⊢
  rcases hpar z y hz with hz | hn
  · exact hc hz hy
  · exact absurd hy hn

/-! ## New pools and reservations -/

theorem Booked.addPool (h : t.Booked) {c : Int} (hc : 0 ≤ c) (parent : Option Nat) :
    (t.addPool ⟨c, 0, 0, false, [], parent⟩).Booked := by
  -- nothing is reserved from a pool that is not there yet
  have hnone : ∀ r ∈ t.reservations, r.pool ≠ t.pools.length := by
    intro r hr he
    obtain ⟨j, hj⟩ := List.mem_iff_getElem?.mp hr
    exact absurd (h.home hj) (by omega)
  have hheld : t.liveBytes t.pools.length = 0 := by
    apply List.sum_eq_zero
    simp only [List.mem_map]
    rintro _ ⟨r, hr, rfl⟩
    exact if_neg fun hp => hnone r hr hp.1
  have htaken : t.liveTakenBytes t.pools.length = 0 := by
    apply List.sum_eq_zero
    simp only [List.mem_map]
    rintro _ ⟨r, hr, rfl⟩
    simp [takenIn, heldIn, hnone r hr]
  refine ⟨fun hp => ?_, fun hp => ?_, fun hp => ?_, h.nonneg, fun hr => ?_, fun hp j => ?_⟩
  · rcases getElem?_concat_iff.mp hp with hp | ⟨rfl, rfl⟩
    · exact h.reserved hp
    · exact hheld.symm
  · rcases getElem?_concat_iff.mp hp with hp | ⟨rfl, rfl⟩
    · exact h.taken hp
    · exact htaken.symm
  · rcases getElem?_concat_iff.mp hp with hp | ⟨rfl, rfl⟩
    · exact h.fits hp
    · exact hc
  · have := h.home hr
    simp only [MemoryTree.addPool, List.length_append]
    omega
  · rcases getElem?_concat_iff.mp hp with hp | ⟨rfl, rfl⟩
    · exact h.listed hp j
    · refine ⟨fun hj => (List.not_mem_nil hj).elim, ?_⟩
      rintro ⟨r, hr, he, -⟩
      exact absurd he (hnone r (List.mem_of_getElem? hr))

theorem gone_addPool {p : MemoryPool} (hp : p.released = false) (y : MemoryHandle) :
    (t.addPool p).Gone y ↔ t.Gone y := by
  cases y with
  | reservation j => exact Iff.rfl
  | pool i =>
    constructor
    · rintro ⟨q, hq, hrel⟩
      rcases getElem?_concat_iff.mp hq with hq | ⟨-, rfl⟩
      · exact ⟨q, hq, hrel⟩
      · simp [hp] at hrel
    · rintro ⟨q, hq, hrel⟩
      exact ⟨q, getElem?_concat_iff.mpr (.inl hq), hrel⟩

theorem gone_addReservation {r : PoolReservation} (hr : r.released = false) (y : MemoryHandle) :
    (t.addReservation r).Gone y ↔ t.Gone y := by
  cases y with
  | pool i => exact Iff.rfl
  | reservation j =>
    constructor
    · rintro ⟨q, hq, hrel⟩
      rcases getElem?_concat_iff.mp hq with hq | ⟨-, rfl⟩
      · exact ⟨q, hq, hrel⟩
      · simp [hr] at hrel
    · rintro ⟨q, hq, hrel⟩
      exact ⟨q, getElem?_concat_iff.mpr (.inl hq), hrel⟩

theorem parentOf_addPool {p : MemoryPool} {z y : MemoryHandle}
    (h : (t.addPool p).parentOf z = some y) :
    t.parentOf z = some y ∨ p.parentReservation.map .reservation = some y := by
  cases z with
  | reservation j => exact .inl h
  | pool i =>
    obtain ⟨q, hq, hy⟩ := Option.bind_eq_some_iff.mp h
    rcases getElem?_concat_iff.mp hq with hq | ⟨-, rfl⟩
    · exact .inl (Option.bind_eq_some_iff.mpr ⟨q, hq, hy⟩)
    · exact .inr hy

theorem parentOf_addReservation {r : PoolReservation} {z y : MemoryHandle}
    (h : (t.addReservation r).parentOf z = some y) :
    t.parentOf z = some y ∨ y = .pool r.pool := by
  cases z with
  | pool i => exact .inl h
  | reservation j =>
    obtain ⟨q, hq, hy⟩ := Option.map_eq_some_iff.mp h
    rcases getElem?_concat_iff.mp hq with hq | ⟨-, rfl⟩
    · exact .inl (Option.map_eq_some_iff.mpr ⟨q, hq, hy⟩)
    · exact .inr hy.symm

/-- What an operation other than a release leaves. -/
structure Steady (t t' : MemoryTree) : Prop where
  sound : t'.Sound
  gone : ∀ y, t'.Gone y ↔ t.Gone y

theorem Steady.refl (h : t.Sound) : Steady t t := ⟨h, fun _ => Iff.rfl⟩

theorem Sound.createPeerMemoryPool (h : t.Sound) (c : Int) :
    Steady t (t.createPeerMemoryPool c).1 := by
  unfold MemoryTree.createPeerMemoryPool
  by_cases hc : checkU32 c = false
  · rw [if_pos hc]
    exact .refl h
  · rw [if_neg hc]
    have hnonneg : 0 ≤ c := by
      simp only [checkU32, Bool.not_eq_false, Bool.and_eq_true, decide_eq_true_eq] at hc
      exact hc.1
    have hgone := gone_addPool (t := t) (p := ⟨c, 0, 0, false, [], none⟩) rfl
    refine ⟨⟨⟨h.toBooked.addPool hnonneg none, ⟨fun hp hj => ?_, fun hr ht => ?_,
      fun hp hj hr hk => ?_⟩⟩, closed_of_added h.closed hgone fun z y hz => ?_⟩, hgone⟩
    · rcases getElem?_concat_iff.mp hp with hp | ⟨-, rfl⟩
      · exact h.parent hp hj
      · cases hj
    · obtain ⟨c, p, hc, hp, hpar⟩ := h.child hr ht
      exact ⟨c, p, hc, getElem?_concat_iff.mpr (.inl hp), hpar⟩
    · rcases getElem?_concat_iff.mp hp with hp | ⟨-, rfl⟩
      · exact h.young hp hj hr hk
      · cases hj
    · rcases parentOf_addPool hz with hz | hz
      · exact .inl hz
      · cases hz

/-- A pool hands out `c` bytes to a new reservation. -/
def handOut (t : MemoryTree) (pool : Nat) (kind : String) (c : Int) : MemoryTree :=
  (t.modifyPool pool fun p => { p with
      reservedBytes := p.reservedBytes + c
      reservations := p.reservations ++ [t.reservations.length] }).addReservation
    ⟨pool, kind, c, false, none, false⟩

theorem exists_of_handOut {pool i : Nat} {kind : String} {c : Int} {p' : MemoryPool}
    (h : (t.handOut pool kind c).pools[i]? = some p') :
    ∃ p, t.pools[i]? = some p ∧ p' = if pool = i then { p with
      reservedBytes := p.reservedBytes + c
      reservations := p.reservations ++ [t.reservations.length] } else p :=
  exists_of_modifyPool h

theorem Booked.handOut (h : t.Booked) {pool : Nat} {p : MemoryPool} (hp : t.pools[pool]? = some p)
    {c : Int} (hc : 0 ≤ c) (hfit : c ≤ p.capacityBytes - p.reservedBytes) (kind : String) :
    (t.handOut pool kind c).Booked := by
  have hheld : ∀ i, (t.handOut pool kind c).liveBytes i =
      t.liveBytes i + if pool = i then c else 0 := by
    intro i
    show ((t.reservations ++ _).map (heldIn i)).sum = _
    simp [heldIn, liveBytes]
  have htaken : ∀ i, (t.handOut pool kind c).liveTakenBytes i = t.liveTakenBytes i := by
    intro i
    show ((t.reservations ++ _).map (takenIn i)).sum = _
    simp [takenIn, liveTakenBytes]
  have hcases : ∀ {k : Nat} {r : PoolReservation},
      (t.handOut pool kind c).reservations[k]? = some r ↔ t.reservations[k]? = some r ∨
        k = t.reservations.length ∧ r = ⟨pool, kind, c, false, none, false⟩ := getElem?_concat_iff
  refine ⟨fun {i p'} hp' => ?_, fun {i p'} hp' => ?_, fun {i p'} hp' => ?_, fun hr => ?_,
    fun hr => ?_, fun {i p'} hp' j => ?_⟩
  · obtain ⟨q, hq, rfl⟩ := exists_of_handOut hp'
    have hold := h.reserved hq
    rw [hheld]
    split
    · exact congrArg (· + c) hold
    · rw [add_zero]
      exact hold
  · obtain ⟨q, hq, rfl⟩ := exists_of_handOut hp'
    rw [htaken, ← h.taken hq]
    split <;> rfl
  · obtain ⟨q, hq, rfl⟩ := exists_of_handOut hp'
    split
    · next he =>
      subst he
      obtain rfl := Option.some.inj (hp.symm.trans hq)
      show p.reservedBytes + c ≤ p.capacityBytes
      omega
    · exact h.fits hq
  · rcases hcases.mp hr with hr | ⟨-, rfl⟩
    · exact h.nonneg hr
    · exact hc
  · have hlen : (t.handOut pool kind c).pools.length = t.pools.length := List.length_modify ..
    rw [hlen]
    rcases hcases.mp hr with hr | ⟨-, rfl⟩
    · exact h.home hr
    · exact (List.getElem?_eq_some_iff.mp hp).1
  · obtain ⟨q, hq, rfl⟩ := exists_of_handOut hp'
    have hold := h.listed hq j
    simp only [hcases]
    split
    · next he =>
      subst he
      show j ∈ q.reservations ++ [t.reservations.length] ↔ _
      rw [List.mem_append, List.mem_singleton, hold]
      constructor
      · rintro (⟨r, hr, hpool, hlive⟩ | rfl)
        · exact ⟨r, .inl hr, hpool, hlive⟩
        · exact ⟨_, .inr ⟨rfl, rfl⟩, rfl, rfl⟩
      · rintro ⟨r, hr | ⟨rfl, -⟩, hpool, hlive⟩
        · exact .inl ⟨r, hr, hpool, hlive⟩
        · exact .inr rfl
    · next he =>
      rw [hold]
      constructor
      · rintro ⟨r, hr, hpool, hlive⟩
        exact ⟨r, .inl hr, hpool, hlive⟩
      · rintro ⟨r, hr | ⟨rfl, rfl⟩, hpool, hlive⟩
        · exact ⟨r, hr, hpool, hlive⟩
        · exact absurd hpool he

theorem Linked.handOut (h : t.Linked) (pool : Nat) (kind : String) (c : Int) :
    (t.handOut pool kind c).Linked := by
  have hmod : (t.modifyPool pool fun p => { p with
      reservedBytes := p.reservedBytes + c
      reservations := p.reservations ++ [t.reservations.length] }).Linked :=
    h.modifyPool fun _ => ⟨rfl, rfl⟩
  refine ⟨fun hp hj => ?_, fun hr ht => ?_, fun hp hj hr hk => ?_⟩
  · obtain ⟨r, hr, hrest⟩ := hmod.parent hp hj
    exact ⟨r, getElem?_concat_iff.mpr (.inl hr), hrest⟩
  · rcases getElem?_concat_iff.mp hr with hr | ⟨-, rfl⟩
    · exact hmod.child hr ht
    · cases ht
  · rcases getElem?_concat_iff.mp hr with hr | ⟨rfl, -⟩
    · exact hmod.young hp hj hr hk
    · obtain ⟨r, hr, -⟩ := hmod.parent hp hj
      exact (List.getElem?_eq_some_iff.mp hr).1

theorem Sound.reservePeerMemory (h : t.Sound) (pool : Nat) (kind : String) (c : Int) :
    Steady t (t.reservePeerMemory pool kind c).1 := by
  unfold MemoryTree.reservePeerMemory
  cases hp : t.pools[pool]? with
  | none => exact .refl h
  | some p =>
    dsimp only
    by_cases hrel : p.released = true
    · rw [if_pos hrel]
      exact .refl h
    rw [if_neg hrel]
    by_cases hkind : kind.isEmpty = true
    · rw [if_pos hkind]
      exact .refl h
    rw [if_neg hkind]
    by_cases hc : checkU32 c = false
    · rw [if_pos hc]
      exact .refl h
    rw [if_neg hc]
    by_cases hfit : p.capacityBytes - p.reservedBytes < c
    · rw [if_pos hfit]
      exact .refl h
    rw [if_neg hfit]
    have hnonneg : 0 ≤ c := by
      simp only [checkU32, Bool.not_eq_false, Bool.and_eq_true, decide_eq_true_eq] at hc
      exact hc.1
    have hgone : ∀ y, (t.handOut pool kind c).Gone y ↔ t.Gone y := by
      intro y
      refine (gone_addReservation rfl y).trans (gone_modifyPool ?_ y)
      intro p
      rfl
    refine ⟨⟨⟨h.toBooked.handOut hp hnonneg (not_lt.mp hfit) kind,
      h.toLinked.handOut pool kind c⟩, closed_of_added h.closed hgone fun z y hz => ?_⟩, hgone⟩
    rcases parentOf_addReservation hz with hz | rfl
    · refine .inl ?_
      rw [parentOf_modifyPool] at hz
      · exact hz
      · intro p
        rfl
    · refine .inr ?_
      rintro ⟨q, hq, hgone⟩
      obtain rfl := Option.some.inj (hp.symm.trans hq)
      exact hrel hgone

/-- A reservation is taken and carries a pool from now on. -/
def takeOver (t : MemoryTree) (res : Nat) (r : PoolReservation) : MemoryTree :=
  ((t.modifyReservation res fun r => { r with
        taken := true
        childPool := some t.pools.length }).modifyPool r.pool fun p => { p with
      takenBytes := p.takenBytes + r.capacityBytes }).addPool
    ⟨r.capacityBytes, 0, 0, false, [], some res⟩

theorem Booked.takeOver (h : t.Booked) {res : Nat} {r : PoolReservation}
    (hr : t.reservations[res]? = some r) (hlive : r.released = false) (hfree : r.taken = false) :
    (t.takeOver res r).Booked := by
  have hcap := h.nonneg hr
  refine Booked.addPool (h.update hr ?_ ?_ ?_ (fun p => ⟨?_, ?_, ?_⟩) (fun p k => ?_) ?_) hcap
    (some res)
  · rfl
  · exact hcap
  · exact le_of_eq rfl
  · rfl
  · show p.reservedBytes = p.reservedBytes + (heldIn r.pool r - heldIn r.pool r)
    omega
  · simp [takenIn, hfree, heldIn, hlive]
  · simp [hlive]
  · exact id

theorem Linked.takeOver (h : t.Linked) (hb : t.Booked) {res : Nat} {r : PoolReservation}
    (hr : t.reservations[res]? = some r) (hfree : r.taken = false) :
    (t.takeOver res r).Linked := by
  have hres : ∀ {k : Nat} {r' : PoolReservation}, (t.takeOver res r).reservations[k]? = some r' →
      ∃ r₀, t.reservations[k]? = some r₀ ∧ r' = if res = k then { r₀ with
        taken := true
        childPool := some t.pools.length } else r₀ := exists_of_modifyReservation
  have hget : ∀ k, (t.takeOver res r).reservations[k]? = (t.reservations[k]?).map fun r =>
      if res = k then { r with taken := true, childPool := some t.pools.length } else r :=
    getElem?_modifyReservation t res _
  have hnew : (t.takeOver res r).pools[t.pools.length]? =
      some ⟨r.capacityBytes, 0, 0, false, [], some res⟩ :=
    getElem?_concat_iff.mpr (.inr ⟨(List.length_modify ..).symm, rfl⟩)
  have hpools : ∀ {i : Nat} {p' : MemoryPool}, (t.takeOver res r).pools[i]? = some p' →
      (∃ p, t.pools[i]? = some p ∧ p'.parentReservation = p.parentReservation ∧
        p'.capacityBytes = p.capacityBytes) ∨
      i = t.pools.length ∧ p' = ⟨r.capacityBytes, 0, 0, false, [], some res⟩ := by
    intro i p' hp'
    rcases getElem?_concat_iff.mp hp' with hp' | ⟨rfl, rfl⟩
    · obtain ⟨p, hp, rfl⟩ := exists_of_modifyPool hp'
      refine .inl ⟨p, hp, ?_⟩
      split <;> exact ⟨rfl, rfl⟩
    · exact .inr ⟨List.length_modify .., rfl⟩
  refine ⟨fun {c p' j} hp' hj => ?_, fun {j r'} hr' ht => ?_, fun {c p' j k r'} hp' hj hr' hk => ?_⟩
  · rcases hpools hp' with ⟨p, hp, hpar, hcap⟩ | ⟨rfl, rfl⟩
    · obtain ⟨r₀, hr₀, ht, hc, he⟩ := h.parent hp (hpar ▸ hj)
      -- the reservation of an older pool is taken already
      have hne : res ≠ j := by
        rintro rfl
        obtain rfl := Option.some.inj (hr.symm.trans hr₀)
        simp [hfree] at ht
      refine ⟨r₀, by rw [hget, hr₀, Option.map_some, if_neg hne], ht, hc, ?_⟩
      rw [hcap]
      exact he
    · obtain rfl := Option.some.inj hj
      refine ⟨{ r with taken := true, childPool := some t.pools.length }, ?_, rfl, rfl, rfl⟩
      rw [hget, hr, Option.map_some, if_pos rfl]
  · obtain ⟨r₀, hr₀, rfl⟩ := hres hr'
    by_cases he : res = j
    · subst he
      rw [if_pos rfl]
      exact ⟨t.pools.length, _, rfl, hnew, rfl⟩
    · rw [if_neg he] at ht ⊢
      obtain ⟨c, p, hc, hp, hpar⟩ := h.child hr₀ ht
      obtain ⟨p₁, hp₁, hpar₁⟩ : ∃ p₁, (t.takeOver res r).pools[c]? = some p₁ ∧
          p₁.parentReservation = p.parentReservation := by
        refine ⟨_, getElem?_concat_iff.mpr (.inl ((getElem?_modifyPool _ _ _ c).trans
          (congrArg _ hp))), ?_⟩
        split <;> rfl
      exact ⟨c, p₁, hc, hp₁, hpar₁.trans hpar⟩
  · obtain ⟨r₀, hr₀, rfl⟩ := hres hr'
    have hk₀ : r₀.pool = c := by
      rw [← hk]
      split <;> rfl
    rcases hpools hp' with ⟨p, hp, hpar, -⟩ | ⟨rfl, -⟩
    · exact h.young hp (hpar ▸ hj) hr₀ hk₀
    · have := hb.home hr₀
      omega

theorem Sound.takePeerMemory (h : t.Sound) (res : Nat) :
    Steady t (t.takePeerMemory res).1 := by
  unfold MemoryTree.takePeerMemory
  cases hr : t.reservations[res]? with
  | none => exact .refl h
  | some r =>
    dsimp only
    by_cases hcond : (r.released || r.taken) = true
    · rw [if_pos hcond]
      exact .refl h
    rw [if_neg hcond]
    obtain ⟨hlive, hfree⟩ : r.released = false ∧ r.taken = false := by simpa using hcond
    have hgone : ∀ y, (t.takeOver res r).Gone y ↔ t.Gone y := by
      intro y
      refine (gone_addPool rfl y).trans ((gone_modifyPool ?_ y).trans (gone_modifyReservation ?_ y))
      · intro p
        rfl
      · intro r
        rfl
    refine ⟨⟨⟨h.toBooked.takeOver hr hlive hfree, h.toLinked.takeOver h.toBooked hr hfree⟩,
      closed_of_added h.closed hgone fun z y hz => ?_⟩, hgone⟩
    rcases parentOf_addPool hz with hz | hz
    · refine .inl ?_
      rw [parentOf_modifyPool, parentOf_modifyReservation] at hz
      · exact hz
      · intro r
        rfl
      · intro p
        rfl
    · obtain rfl : .reservation res = y := by simpa using hz
      exact .inr (not_gone_of_live hr hlive)

/-! ## Narrowing -/

/-- The check reads only reservations no earlier row was about. -/
theorem narrowable_congr : ∀ {plans : List MemoryPlan} {seen : List Nat},
    (∀ k, k ∉ seen → t'.reservations[k]? = t.reservations[k]?) →
    t.narrowable seen plans = true → t'.narrowable seen plans = true := by
  intro plans
  induction plans with
  | nil =>
    intro seen _ _
    rfl
  | cons plan plans ih =>
    intro seen hsame h
    unfold narrowable at h ⊢
    cases hr : t.reservations[plan.handle]? with
    | none => simp [hr] at h
    | some r =>
      rw [hr] at h
      simp only [Bool.and_eq_true] at h
      obtain ⟨⟨⟨⟨hlive, hseen⟩, hle⟩, htaken⟩, hrest⟩ := h
      have hfresh : plan.handle ∉ seen := by simpa using hseen
      rw [hsame plan.handle hfresh, hr]
      simp only [Bool.and_eq_true]
      exact ⟨⟨⟨⟨hlive, hseen⟩, hle⟩, htaken⟩,
        ih (fun k hk => hsame k fun hm => hk (List.mem_cons_of_mem _ hm)) hrest⟩

theorem Sound.narrowRow (h : t.Sound) {plan : MemoryPlan} {r : PoolReservation}
    (hr : t.reservations[plan.handle]? = some r) (hlive : r.released = false)
    (hcap : 0 ≤ plan.capacityBytes) (hle : plan.capacityBytes ≤ r.capacityBytes)
    (htaken : r.taken = true → plan.capacityBytes = r.capacityBytes) :
    Steady t (t.narrowRow plan) := by
  unfold MemoryTree.narrowRow
  rw [hr]
  dsimp only
  have hheld : heldIn r.pool r = r.capacityBytes := if_pos ⟨rfl, hlive⟩
  have hnew : heldIn r.pool { r with capacityBytes := plan.capacityBytes } = plan.capacityBytes :=
    if_pos ⟨rfl, hlive⟩
  have hbooked : ((t.modifyReservation plan.handle fun r => { r with
      capacityBytes := plan.capacityBytes }).modifyPool r.pool fun p => { p with
        reservedBytes := p.reservedBytes - (r.capacityBytes - plan.capacityBytes) }).Booked := by
    refine h.toBooked.update hr ?_ ?_ ?_ (fun p => ⟨?_, ?_, ?_⟩) (fun p k => ?_) ?_
    · rfl
    · exact hcap
    · rw [hheld, hnew]
      exact hle
    · rfl
    · rw [hheld, hnew]
      show p.reservedBytes - (r.capacityBytes - plan.capacityBytes) = _
      omega
    · simp only [takenIn, hheld, hnew]
      split
      · next ht =>
        rw [htaken ht]
        omega
      · omega
    · simp [hlive]
    · exact id
  have hlinked := (h.toLinked.modifyReservation (f := fun r => { r with
    capacityBytes := plan.capacityBytes }) hr rfl rfl rfl htaken).modifyPool (i := r.pool)
    (f := fun p => { p with
      reservedBytes := p.reservedBytes - (r.capacityBytes - plan.capacityBytes) })
    fun _ => ⟨rfl, rfl⟩
  have hgone : ∀ y, ((t.modifyReservation plan.handle fun r => { r with
      capacityBytes := plan.capacityBytes }).modifyPool r.pool fun p => { p with
        reservedBytes := p.reservedBytes - (r.capacityBytes - plan.capacityBytes) }).Gone y ↔
      t.Gone y := by
    intro y
    refine (gone_modifyPool ?_ y).trans (gone_modifyReservation ?_ y)
    · intro p
      rfl
    · intro r
      rfl
  refine ⟨⟨⟨hbooked, hlinked⟩, closed_of_added h.closed hgone fun z y hz => .inl ?_⟩, hgone⟩
  rw [parentOf_modifyPool, parentOf_modifyReservation] at hz
  · exact hz
  · intro r
    rfl
  · intro p
    rfl

theorem Sound.foldl_narrowRow : ∀ {plans : List MemoryPlan} {seen : List Nat} {t : MemoryTree},
    t.Sound → (∀ plan ∈ plans, 0 ≤ plan.capacityBytes) → t.narrowable seen plans = true →
    Steady t (plans.foldl MemoryTree.narrowRow t) := by
  intro plans
  induction plans with
  | nil =>
    intro seen t h _ _
    exact .refl h
  | cons plan plans ih =>
    intro seen t h hcap hok
    unfold narrowable at hok
    cases hr : t.reservations[plan.handle]? with
    | none => simp [hr] at hok
    | some r =>
      rw [hr] at hok
      simp only [Bool.and_eq_true, Bool.not_eq_true', decide_eq_true_eq] at hok
      obtain ⟨⟨⟨⟨hlive, -⟩, hle⟩, htaken⟩, hrest⟩ := hok
      have hstep := h.narrowRow hr hlive (hcap plan List.mem_cons_self) hle
        (by intro ht; simpa [ht] using htaken)
      have hsame : ∀ k, k ∉ plan.handle :: seen →
          (t.narrowRow plan).reservations[k]? = t.reservations[k]? := by
        intro k hk
        have hne : plan.handle ≠ k := fun he => hk (he ▸ List.mem_cons_self)
        unfold MemoryTree.narrowRow
        rw [hr]
        refine (getElem?_modifyReservation t plan.handle _ k).trans ?_
        simp [hne]
      have htail := ih hstep.sound (fun q hq => hcap q (List.mem_cons_of_mem plan hq))
        (narrowable_congr hsame hrest)
      exact ⟨htail.sound, fun y => (htail.gone y).trans (hstep.gone y)⟩

theorem Sound.narrowPeerReservations (h : t.Sound) (ledgers : Bool) (memory : List MemoryPlan) :
    Steady t (t.narrowPeerReservations ledgers memory).1 := by
  unfold MemoryTree.narrowPeerReservations
  by_cases hcap : memory.all (fun plan => checkU32 plan.capacityBytes) = false
  · rw [if_pos hcap]
    exact .refl h
  rw [if_neg hcap]
  by_cases hl : ledgers = false
  · rw [if_pos hl]
    exact .refl h
  rw [if_neg hl]
  by_cases hok : t.narrowable [] memory = false
  · rw [if_pos hok]
    exact .refl h
  rw [if_neg hok]
  refine h.foldl_narrowRow (fun plan hplan => ?_) (by simpa using hok)
  have := List.all_eq_true.mp (by simpa using hcap) plan hplan
  simp only [checkU32, Bool.and_eq_true, decide_eq_true_eq] at this
  exact this.1

/-! ## Runs -/

inductive Op where
  | createPeerMemoryPool (capacityBytes : Int)
  | reservePeerMemory (pool : Nat) (kind : String) (capacityBytes : Int)
  | takePeerMemory (res : Nat)
  | releasePeerMemory (handle : MemoryHandle)
  | narrowPeerReservations (ledgers : Bool) (memory : List MemoryPlan)

def step (t : MemoryTree) : Op → MemoryTree
  | .createPeerMemoryPool c => (t.createPeerMemoryPool c).1
  | .reservePeerMemory pool kind c => (t.reservePeerMemory pool kind c).1
  | .takePeerMemory res => (t.takePeerMemory res).1
  | .releasePeerMemory handle => (t.releasePeerMemory handle).1
  | .narrowPeerReservations ledgers memory => (t.narrowPeerReservations ledgers memory).1

def run (ops : List Op) : MemoryTree := ops.foldl step empty

theorem sound_empty : empty.Sound := by
  refine ⟨⟨⟨?_, ?_, ?_, ?_, ?_, ?_⟩, ?_, ?_, ?_⟩, ?_⟩
  case refine_10 =>
    intro y z hz
    cases z <;> simp [parentOf, empty] at hz
  all_goals
    intros
    simp_all [empty]

theorem Sound.step (h : t.Sound) (op : Op) :
    (t.step op).Sound ∧ ∀ y, t.Gone y → (t.step op).Gone y := by
  have hsteady : ∀ {t'}, Steady t t' → t'.Sound ∧ ∀ y, t.Gone y → t'.Gone y :=
    fun hs => ⟨hs.sound, fun y hy => (hs.gone y).mpr hy⟩
  cases op with
  | createPeerMemoryPool c => exact hsteady (h.createPeerMemoryPool c)
  | reservePeerMemory pool kind c => exact hsteady (h.reservePeerMemory pool kind c)
  | takePeerMemory res => exact hsteady (h.takePeerMemory res)
  | narrowPeerReservations ledgers memory => exact hsteady (h.narrowPeerReservations ledgers memory)
  | releasePeerMemory x =>
    show (t.releasePeerMemory x).1.Sound ∧ _
    by_cases hgone : t.Gone x
    · have he := releasePeerMemory_gone hgone
      refine ⟨by rw [he]; exact h, fun y hy => ?_⟩
      show (t.releasePeerMemory x).1.Gone y
      rw [he]
      exact hy
    · by_cases hknown : t.Known x
      · have hrel := (releasePeerMemory_live h hknown hgone).2
        exact ⟨hrel.sound, fun y hy => (hrel.gone_iff y).mpr (.inl hy)⟩
      · have he := releasePeerMemory_unknown hknown
        refine ⟨by rw [he]; exact h, fun y hy => ?_⟩
        show (t.releasePeerMemory x).1.Gone y
        rw [he]
        exact hy

theorem Sound.foldl (h : t.Sound) (ops : List Op) :
    (ops.foldl MemoryTree.step t).Sound ∧
      ∀ y, t.Gone y → (ops.foldl MemoryTree.step t).Gone y := by
  induction ops generalizing t with
  | nil => exact ⟨h, fun _ hy => hy⟩
  | cons op ops ih =>
    obtain ⟨hs, hmono⟩ := h.step op
    obtain ⟨hs', hmono'⟩ := ih hs
    exact ⟨hs', fun y hy => hmono' y (hmono y hy)⟩

theorem run_append (ops more : List Op) :
    run (ops ++ more) = more.foldl MemoryTree.step (run ops) := List.foldl_append

theorem reservePeerMemory_gone {pool : Nat} (h : t.Gone (.pool pool)) (kind : String) (c : Int) :
    t.reservePeerMemory pool kind c = (t, .error .invalidRoute) := by
  obtain ⟨p, hp, hrel⟩ := h
  simp [reservePeerMemory, hp, hrel]

theorem takePeerMemory_gone {res : Nat} (h : t.Gone (.reservation res)) :
    t.takePeerMemory res = (t, .error .invalidRoute) := by
  obtain ⟨r, hr, hrel⟩ := h
  simp [takePeerMemory, hr, hrel]

end

/-- After every run the pools' counters are those of their live reservations and
a carried pool has its reservation's capacity. A release of a live node frees
the node, all below it and the reservation that carries it, and nothing else;
at any later point the node is still released: releasing it again changes
nothing, and no pool or reservation below it can be used. -/
theorem memory_tree_accounted (ops : List Op) :
    (∀ i p, (run ops).pools[i]? = some p →
      p.reservedBytes = (run ops).liveBytes i ∧ p.reservedBytes ≤ p.capacityBytes ∧
        p.takenBytes = (run ops).liveTakenBytes i) ∧
    (∀ (c : Nat) (p : MemoryPool) (j : Nat), (run ops).pools[c]? = some p →
      p.parentReservation = some j →
      ∃ r : PoolReservation, (run ops).reservations[j]? = some r ∧ r.childPool = some c ∧
        r.capacityBytes = p.capacityBytes) ∧
    (∀ x, (run ops).Known x → ¬ (run ops).Gone x →
      ((run ops).releasePeerMemory x).2 = .ok true ∧
        ∀ y, ((run ops).releasePeerMemory x).1.Gone y ↔ (run ops).Gone y ∨ (run ops).Frees x y) ∧
    (∀ x more, (run ops).Gone x →
      (run (ops ++ more)).releasePeerMemory x = (run (ops ++ more), .ok false) ∧
      (∀ i kind c, (run (ops ++ more)).Within x (.pool i) →
        (run (ops ++ more)).reservePeerMemory i kind c =
          (run (ops ++ more), .error .invalidRoute)) ∧
      ∀ j, (run (ops ++ more)).Within x (.reservation j) →
        (run (ops ++ more)).takePeerMemory j = (run (ops ++ more), .error .invalidRoute)) := by
  have hs : (run ops).Sound := (sound_empty.foldl ops).1
  refine ⟨fun i p hp => ⟨hs.reserved hp, hs.fits hp, hs.taken hp⟩, fun c p j hp hj => ?_,
    fun x hknown hlive => ?_, fun x more hgone => ?_⟩
  · obtain ⟨r, hr, -, hc, he⟩ := hs.parent hp hj
    exact ⟨r, hr, hc, he⟩
  · obtain ⟨hret, hrel⟩ := releasePeerMemory_live hs hknown hlive
    exact ⟨hret, hrel.gone_iff⟩
  · obtain ⟨hs', hmono⟩ := hs.foldl more
    rw [← run_append] at hs' hmono
    have hgone' := hmono x hgone
    exact ⟨releasePeerMemory_gone hgone',
      fun i kind c hi => reservePeerMemory_gone (Closed.within hs'.closed hgone' hi) kind c,
      fun j hj => takePeerMemory_gone (Closed.within hs'.closed hgone' hj)⟩

end MemoryTree

end HyperDht.Private
