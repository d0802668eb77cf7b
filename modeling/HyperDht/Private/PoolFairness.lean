import HyperDht.Private.PoolConservation

/-!
# Fair distribution

`_distribute` is max-min fair: a leg that is left wanting gets at most one cell
less than any other. The legs in `pending` are level at the start of each round
(`Level`), since a round gives the same share to all that want more than it.
The credit may run out inside a round, but then the shares of that round are
single cells (`Round.enough`): a larger share is covered for every leg of the
round.

The callbacks here neither call the pool nor throw; `credit_conserved` is about
those that do.
-/

namespace HyperDht.Private

namespace Pool

variable {ω : Type} [DecidableEq ω]

/-! ## Receipts -/

/-- What the leg of `owner` was granted since `p₀`. -/
def received (p₀ p : Pool ω) (owner : ω) : Nat :=
  match p₀.legs.get? owner, p.legs.get? owner with
  | some leg₀, some leg => leg.granted - leg₀.granted
  | _, _ => 0

/-- `p` is `p₀` after any number of grants. -/
structure Fed (p₀ p : Pool ω) : Prop where
  leg : ∀ o leg₀, p₀.legs.get? o = some leg₀ → ∃ leg, p.legs.get? o = some leg ∧
    leg₀.granted ≤ leg.granted ∧ leg.granted + leg.wanted = leg₀.granted + leg₀.wanted
  none : ∀ o, p₀.legs.get? o = none → p.legs.get? o = none
  wanted : p.available + p₀.wanted = p₀.available + p.wanted
  granted : p.granted + p.available = p₀.granted + p₀.available

theorem Fed.refl (p : Pool ω) : Fed p p :=
  ⟨fun _ leg h => ⟨leg, h, le_rfl, rfl⟩, fun _ h => h, rfl, rfl⟩

theorem received_self (p : Pool ω) (o : ω) : received p p o = 0 := by
  unfold received
  cases p.legs.get? o with
  | none => rfl
  | some leg => exact Nat.sub_self leg.granted

theorem received_eq {p₀ p : Pool ω} {o : ω} {leg₀ leg : Leg} (h₀ : p₀.legs.get? o = some leg₀)
    (h : p.legs.get? o = some leg) : received p₀ p o = leg.granted - leg₀.granted := by
  simp only [received, h₀, h]

theorem received_congr {p₀ p q : Pool ω} {o : ω} (h : q.legs.get? o = p.legs.get? o) :
    received p₀ q o = received p₀ p o := by
  unfold received
  rw [h]

theorem Fed.exists {p₀ p : Pool ω} (h : Fed p₀ p) {o : ω} {leg : Leg}
    (hg : p.legs.get? o = some leg) : ∃ leg₀, p₀.legs.get? o = some leg₀ ∧
      leg₀.granted ≤ leg.granted ∧ leg.granted + leg.wanted = leg₀.granted + leg₀.wanted := by
  cases h₀ : p₀.legs.get? o with
  | none =>
    rw [h.none o h₀] at hg
    cases hg
  | some leg₀ =>
    obtain ⟨leg', hg', hle, hsum⟩ := h.leg o leg₀ h₀
    obtain rfl := Option.some.inj (hg.symm.trans hg')
    exact ⟨leg₀, rfl, hle, hsum⟩

theorem get?_grant (p : Pool ω) (ref : LegRef ω) (rest : List (LegRef ω)) (leg : Leg)
    (amount : Nat) (now : Int) (o : ω) :
    (p.grant ref rest leg amount now).legs.get? o =
      if o = ref.owner then some { leg with
        granted := leg.granted + amount, wanted := leg.wanted - amount, lastActivity := now,
        idleTimer := true }
      else p.legs.get? o := by
  split
  · next e => rw [e, grant, JsMap.get?_set_self]
  · next e => rw [grant, JsMap.get?_set_ne _ _ e]

theorem Fed.grant {p₀ p : Pool ω} (h : Fed p₀ p) {ref : LegRef ω} {rest : List (LegRef ω)}
    {leg : Leg} {amount : Nat} (hg : p.Grantable ref rest leg amount) (now : Int) :
    Fed p₀ (p.grant ref rest leg amount now) := by
  obtain ⟨hwanted, hgranted, havailable⟩ := grant_sums hg now
  have h1 := h.wanted
  have h2 := h.granted
  refine ⟨fun o leg₀ h₀ => ?_, fun o h₀ => ?_, by omega, by omega⟩
  · obtain ⟨leg', hl, hle, hsum⟩ := h.leg o leg₀ h₀
    rw [get?_grant]
    split
    · next e =>
      obtain rfl : leg' = leg := Option.some.inj (hl.symm.trans (e ▸ hg.registered))
      have := hg.le_wanted
      exact ⟨_, rfl, by dsimp only; omega, by dsimp only; omega⟩
    · exact ⟨leg', hl, hle, hsum⟩
  · have hn := h.none o h₀
    rw [get?_grant, if_neg, hn]
    rintro rfl
    rw [hg.registered] at hn
    cases hn

theorem received_grant {p₀ p : Pool ω} (h : Fed p₀ p) {ref : LegRef ω} {rest : List (LegRef ω)}
    {leg : Leg} {amount : Nat} (hg : p.Grantable ref rest leg amount) (now : Int) (o : ω) :
    received p₀ (p.grant ref rest leg amount now) o =
      received p₀ p o + if o = ref.owner then amount else 0 := by
  split
  · next e =>
    subst e
    obtain ⟨leg₀, h₀, hle, -⟩ := h.exists hg.registered
    have hnew := get?_grant p ref rest leg amount now ref.owner
    rw [if_pos rfl] at hnew
    rw [received_eq h₀ hnew, received_eq h₀ hg.registered]
    dsimp only
    omega
  · next e =>
    refine received_congr ?_
    rw [get?_grant, if_neg e]

theorem Queued.owner_ne {p : Pool ω} (h : p.Queued) {ref : LegRef ω} {rest : List (LegRef ω)}
    (hp : p.pending = ref :: rest) {r : LegRef ω} (hr : r ∈ rest) : r.owner ≠ ref.owner := by
  intro e
  have hnd := h.nodup
  rw [hp] at hnd
  obtain ⟨leg, hl, hs, -⟩ := (h.mem_pending ref).mp (hp ▸ List.mem_cons_self)
  obtain ⟨leg', hl', hs', -⟩ := (h.mem_pending r).mp (hp ▸ List.mem_cons_of_mem ref hr)
  rw [e, hl] at hl'
  obtain rfl := Option.some.inj hl'
  have hserial : r.serial = ref.serial := hs'.symm.trans hs
  obtain ⟨o, serial⟩ := r
  obtain ⟨o', serial'⟩ := ref
  obtain rfl : o = o' := e
  obtain rfl : serial = serial' := hserial
  exact (List.nodup_cons.mp hnd).1 hr

theorem Queued.wanted_eq_zero {p : Pool ω} (h : p.Queued) (hp : p.pending = []) :
    p.wanted = 0 := by
  refine JsMap.total_eq_zero fun o leg hl => ?_
  by_contra hw
  have hmem := (h.mem_pending ⟨o, leg.serial⟩).mpr ⟨leg, hl, rfl, Nat.pos_of_ne_zero hw⟩
  rw [hp] at hmem
  exact List.not_mem_nil hmem

/-! ## Levels and rounds -/

/-- The pending legs have received `G` cells each, and no leg more. -/
structure Level (p₀ : Pool ω) (G : Nat) (p : Pool ω) : Prop where
  queued : p.Queued
  fed : Fed p₀ p
  level : ∀ r ∈ p.pending, received p₀ p r.owner = G
  capped : ∀ o, received p₀ p o ≤ G

/-- A round from level `G` with `n` legs to come: they are at the front of `pending`, and
behind them are the legs of the round that want more than their share. -/
structure Round (p₀ : Pool ω) (G share n : Nat) (p : Pool ω) : Prop where
  queued : p.Queued
  fed : Fed p₀ p
  split : ∃ xs ys, p.pending = xs ++ ys ∧ xs.length = n ∧
    (∀ r ∈ xs, received p₀ p r.owner = G) ∧ ∀ r ∈ ys, received p₀ p r.owner = G + share
  capped : ∀ o, received p₀ p o ≤ G + share
  enough : share = 1 ∨ share * n ≤ p.available

/-- A pending leg has received at most one cell less than any other leg. -/
def Fair (p₀ p : Pool ω) : Prop :=
  ∀ r ∈ p.pending, ∀ o, received p₀ p o ≤ received p₀ p r.owner + 1

/-- The loop has ended: no credit is left, or no leg waits for it. -/
structure Ended (p₀ p : Pool ω) : Prop where
  queued : p.Queued
  settled : p.Settled
  fair : Fair p₀ p

theorem level_start {p : Pool ω} (h : p.Queued) : Level p 0 p :=
  ⟨h, .refl p, fun r _ => received_self p r.owner, fun o => (received_self p o).le⟩

theorem Level.ended {p₀ p : Pool ω} {G : Nat} (h : Level p₀ G p) (hset : p.Settled) :
    Ended p₀ p := by
  refine ⟨h.queued, hset, fun r hr o => ?_⟩
  have h1 := h.capped o
  have h2 := h.level r hr
  omega

/-- A pending leg wanted more than its level from the start. -/
theorem Level.lt_wanted {p₀ p : Pool ω} {G : Nat} (h : Level p₀ G p) {r : LegRef ω}
    (hr : r ∈ p.pending) : G < p₀.wanted := by
  obtain ⟨leg, hl, -, hw⟩ := (h.queued.mem_pending r).mp hr
  obtain ⟨leg₀, h₀, hle, hsum⟩ := h.fed.exists hl
  have hG : leg.granted - leg₀.granted = G := (received_eq h₀ hl).symm.trans (h.level r hr)
  have htotal : leg₀.wanted ≤ p₀.wanted := JsMap.le_total h₀ fun _ l => l.wanted
  omega

theorem Level.round {p₀ p : Pool ω} {G : Nat} (h : Level p₀ G p) :
    Round p₀ G (max 1 (p.available / p.pending.length)) p.pending.length p := by
  refine ⟨h.queued, h.fed, ⟨p.pending, [], (List.append_nil _).symm, rfl, h.level,
    fun r hr => (List.not_mem_nil hr).elim⟩, fun o => (h.capped o).trans (Nat.le_add_right _ _), ?_⟩
  by_cases hle : p.available / p.pending.length ≤ 1
  · exact .inl (max_eq_left hle)
  · refine .inr ?_
    rw [max_eq_right (by omega)]
    exact Nat.div_mul_le_self _ _

/-- One pass of a round: the leg at the front gets the share, or all it wants. -/
theorem Round.pass {p₀ p : Pool ω} {G share n : Nat} (h : Round p₀ G share (n + 1) p)
    (hm : p.more) (hs : 1 ≤ share) (now : Int) :
    ∃ ref rest leg amount,
      p.grantNext share now = (p.grant ref rest leg amount now, some (ref.owner, amount)) ∧
      Round p₀ G share n (p.grant ref rest leg amount now) := by
  obtain ⟨ref, rest, leg, amount, hg, hamount, he⟩ := grantNext_of_more h.queued hm hs now
  refine ⟨ref, rest, leg, amount, he, ?_⟩
  have hq := h.queued
  obtain ⟨xs, ys, hp, hlen, hxs, hys⟩ := h.split
  have hhead := hg.head
  obtain ⟨x, xs, rfl⟩ := List.exists_cons_of_length_eq_add_one hlen
  rw [hp, List.cons_append, List.cons.injEq] at hhead
  obtain ⟨rfl, rfl⟩ := hhead
  have hrest : ∀ r ∈ xs ++ ys, r.owner ≠ x.owner := fun r hr => hq.owner_ne (hp.trans rfl) hr
  have hrec := received_grant h.fed hg now
  have hother : ∀ r ∈ xs ++ ys,
      received p₀ (p.grant x (xs ++ ys) leg amount now) r.owner = received p₀ p r.owner := by
    intro r hr
    rw [hrec, if_neg (hrest r hr), Nat.add_zero]
  have hself := hrec x.owner
  rw [if_pos rfl, hxs x List.mem_cons_self] at hself
  -- the credit suffices for the whole share, so only the leg's demand can cut it
  have hmin : amount = min share leg.wanted := by
    have hpos := hg.pos
    rcases h.enough with h1 | h1
    · omega
    · have : share ≤ share * (n + 1) := Nat.le_mul_of_pos_right share (Nat.succ_pos n)
      omega
  refine ⟨queued_grant hq hg now, h.fed.grant hg now, ?_, fun o => ?_, ?_⟩
  · have hys' : ∀ r ∈ ys, received p₀ (p.grant x (xs ++ ys) leg amount now) r.owner = G + share :=
      fun r hr => (hother r (List.mem_append_right xs hr)).trans (hys r hr)
    have hxs' : ∀ r ∈ xs, received p₀ (p.grant x (xs ++ ys) leg amount now) r.owner = G :=
      fun r hr => (hother r (List.mem_append_left ys hr)).trans (hxs r (List.mem_cons_of_mem x hr))
    have hlen' : xs.length = n := Nat.succ.inj hlen
    by_cases hmore : 0 < leg.wanted - amount
    · refine ⟨xs, ys ++ [x], ?_, hlen', hxs', fun r hr => ?_⟩
      · rw [grant, if_pos hmore, List.append_assoc]
      · rcases List.mem_append.mp hr with hr | hr
        · exact hys' r hr
        · obtain rfl := List.mem_singleton.mp hr
          omega
    · exact ⟨xs, ys, by rw [grant, if_neg hmore], hlen', hxs', hys'⟩
  · rw [hrec]
    split
    · next e =>
      rw [e, hxs x List.mem_cons_self]
      omega
    · exact h.capped o
  · rcases h.enough with h1 | h1
    · exact .inl h1
    · refine .inr ?_
      have havailable := (grant_sums hg now).2.2
      rw [Nat.mul_succ] at h1
      omega

/-- A round that cannot go on is fair: without credit left its shares are single cells. -/
theorem Round.ended {p₀ p : Pool ω} {G share n : Nat} (h : Round p₀ G share n p) (hs : 1 ≤ share)
    (hset : p.Settled) : Ended p₀ p := by
  refine ⟨h.queued, hset, fun r hr o => ?_⟩
  obtain ⟨xs, ys, hp, hlen, hxs, hys⟩ := h.split
  have hcap := h.capped o
  rw [hp] at hr
  rcases List.mem_append.mp hr with hr | hr
  · have hG := hxs r hr
    rcases hset with hav | hnil
    · rcases h.enough with h1 | h1
      · omega
      · have hpos : 0 < share * n := Nat.mul_pos hs (hlen ▸ List.length_pos_of_mem hr)
        omega
    · rw [hnil] at hp
      rw [(List.append_eq_nil_iff.mp hp.symm).1] at hr
      exact (List.not_mem_nil hr).elim
  · have hG := hys r hr
    omega

theorem Round.level {p₀ p : Pool ω} {G share : Nat} (h : Round p₀ G share 0 p) :
    Level p₀ (G + share) p := by
  refine ⟨h.queued, h.fed, fun r hr => ?_, h.capped⟩
  obtain ⟨xs, ys, hp, hlen, -, hys⟩ := h.split
  obtain rfl := List.eq_nil_of_length_eq_zero hlen
  exact hys r (by rw [hp] at hr; exact hr)

end Pool

/-! ## The loop -/

namespace Host

variable {ω σ : Type} [DecidableEq ω] {H : Host ω σ}

/-- The callbacks do not call the pool and do not throw. -/
structure Plain (H : Host ω σ) : Prop where
  pool : ∀ owner amount s, H.pool (H.onGrant owner amount s).1 = H.pool s
  returns : ∀ owner amount s, (H.onGrant owner amount s).2 = false

/-- A round gets to the next level, or ends the loop fairly. -/
theorem round_fair (hpl : H.Plain) {p₀ : Pool ω} {G share : Nat} (hs : 1 ≤ share) (now : Int) :
    ∀ (n : Nat) {s : σ}, Pool.Round p₀ G share n (H.pool s) →
      ∃ s', H.round share now n s = (s', false) ∧ Pool.Fed p₀ (H.pool s') ∧
        (Pool.Level p₀ (G + share) (H.pool s') ∨ Pool.Ended p₀ (H.pool s')) := by
  intro n
  induction n with
  | zero => intro s h; exact ⟨s, rfl, h.fed, .inl h.level⟩
  | succ n ih =>
    intro s h
    by_cases hm : (H.pool s).more
    · obtain ⟨ref, rest, leg, amount, he, hr⟩ := h.pass hm hs now
      have hpool := hpl.pool ref.owner amount
        (H.setPool s ((H.pool s).grant ref rest leg amount now))
      have hreturns := hpl.returns ref.owner amount
        (H.setPool s ((H.pool s).grant ref rest leg amount now))
      rw [H.pool_setPool] at hpool
      obtain ⟨s', hround, hend⟩ := ih (hpool.symm ▸ hr)
      refine ⟨s', ?_, hend⟩
      rw [round, if_pos hm, he]
      dsimp only
      split
      · next s'' hs'' =>
        rw [hs''] at hreturns
        exact Bool.noConfusion hreturns
      · next s'' hs'' =>
        rw [hs''] at hround
        exact hround
    · exact ⟨s, by rw [round, if_neg hm], h.fed, .inr (h.ended hs (Pool.not_more_iff.mp hm))⟩

/-- The loop ends by itself: every round raises the level of the pending legs, which stays
below what they wanted at the start. -/
theorem rounds_fair (hpl : H.Plain) {p₀ : Pool ω} (now : Int) :
    ∀ (fuel : Nat) {s : σ} {G : Nat}, Pool.Level p₀ G (H.pool s) → p₀.wanted < fuel + G →
      ∃ s', (∀ more, H.rounds now (fuel + more) s = (s', false)) ∧
        Pool.Fed p₀ (H.pool s') ∧ Pool.Ended p₀ (H.pool s') := by
  intro fuel
  induction fuel with
  | zero =>
    intro s G h hf
    have hm : ¬ (H.pool s).more := by
      rintro ⟨-, hne⟩
      obtain ⟨ref, rest, hp⟩ := List.exists_cons_of_ne_nil hne
      have := h.lt_wanted (r := ref) (hp ▸ List.mem_cons_self)
      omega
    refine ⟨s, fun more => ?_, h.fed, h.ended (Pool.not_more_iff.mp hm)⟩
    rw [Nat.zero_add]
    cases more with
    | zero => rfl
    | succ more => rw [rounds, if_neg hm]
  | succ fuel ih =>
    intro s G h hf
    have hfuel : ∀ more, fuel + 1 + more = fuel + more + 1 := by omega
    simp only [hfuel]
    by_cases hm : (H.pool s).more
    · have hs := le_max_left 1 ((H.pool s).available / (H.pool s).pending.length)
      obtain ⟨s', hround, hfed, hend⟩ :=
        round_fair hpl hs now (H.pool s).pending.length h.round
      simp only [rounds, if_pos hm, hround]
      rcases hend with hl | hended
      · exact ih hl (by omega)
      · -- the credit ran out inside the round, so the loop stops at its next test
        refine ⟨s', fun more => ?_, hfed, hended⟩
        cases fuel + more with
        | zero => rfl
        | succ n => rw [rounds, if_neg (Pool.not_more_iff.mpr hended.settled)]
    · exact ⟨s, fun more => by rw [rounds, if_neg hm], h.fed,
        h.ended (Pool.not_more_iff.mp hm)⟩

/-- **Max-min fairness.** A run of `_distribute` whose callbacks neither call the pool nor
throw ends, after any number of rounds above the wanted cells. It hands out as much as is
available and wanted, every leg keeps the sum of what it has and what it wants, and a leg
that still wants has received at most one cell less than any other. -/
theorem distribute_fair (hpl : H.Plain) (now : Int) (s : σ) (hq : (H.pool s).Queued)
    (hopen : (H.pool s).closed = false) (hidle : (H.pool s).distributing = false) :
    let p := H.pool s
    ∃ s', (∀ fuel, p.wanted < fuel → H.distribute fuel now s = (s', false)) ∧
      (∀ o leg, p.legs.get? o = some leg → ∃ leg', (H.pool s').legs.get? o = some leg' ∧
        leg.granted ≤ leg'.granted ∧ leg'.granted + leg'.wanted = leg.granted + leg.wanted) ∧
      (H.pool s').granted = p.granted + min p.available p.wanted ∧
      (H.pool s').available = p.available - min p.available p.wanted ∧
      ∀ o leg', (H.pool s').legs.get? o = some leg' → 0 < leg'.wanted →
        ∀ o', Pool.received p (H.pool s') o' ≤ Pool.received p (H.pool s') o + 1 := by
  intro p
  have hq₁ : ({ p with distributing := true } : Pool ω).Queued := ⟨hq.nodup, hq.mem_pending⟩
  let s₁ := H.setPool s { p with distributing := true }
  have hp₁ : H.pool s₁ = { p with distributing := true } := H.pool_setPool _ _
  have hl : Pool.Level { p with distributing := true } 0 (H.pool s₁) := by
    rw [hp₁]
    exact Pool.level_start hq₁
  obtain ⟨s₂, hrounds, hfed, hq₂, hset, hfair⟩ :=
    rounds_fair hpl now (p.wanted + 1) hl (Nat.lt_succ_self _)
  refine ⟨H.setPool s₂ { H.pool s₂ with distributing := false }, fun fuel hfuel => ?_, ?_⟩
  · obtain ⟨more, rfl⟩ : ∃ more, fuel = p.wanted + 1 + more := ⟨fuel - (p.wanted + 1), by omega⟩
    rw [distribute, if_neg (by simp [hopen, hidle])]
    dsimp only
    rw [show H.rounds now (p.wanted + 1 + more) (H.setPool s { H.pool s with distributing := true }) =
      (s₂, false) from hrounds more]
  · rw [H.pool_setPool]
    have hwanted : (H.pool s₂).available + p.wanted = p.available + (H.pool s₂).wanted := hfed.wanted
    have hgranted : (H.pool s₂).granted + (H.pool s₂).available = p.granted + p.available :=
      hfed.granted
    have hout : (H.pool s₂).available = 0 ∨ (H.pool s₂).wanted = 0 :=
      hset.imp_right hq₂.wanted_eq_zero
    refine ⟨hfed.leg, ?_, by dsimp only; omega, fun o leg' hl' hw o' => ?_⟩
    · show (H.pool s₂).granted = _
      omega
    · exact hfair ⟨o, leg'.serial⟩ ((hq₂.mem_pending _).mpr ⟨leg', hl', rfl, hw⟩) o'

def still : Host ω (Pool ω) := ⟨id, fun _ p => p, fun _ _ p => (p, false), fun _ _ => rfl⟩

/-- Three legs with eight cells left: the leg that wants one cell is satisfied, and the other
two share the rest. -/
def threeLegs : Pool Nat where
  available := 8
  inFlight := 0
  legs := ((JsMap.empty.set 0 ⟨0, 2, 6, true, 0, 0, 0, true⟩).set 1 ⟨1, 0, 1, true, 0, 0, 0, false⟩).set
    2 ⟨2, 0, 9, true, 0, 0, 0, false⟩
  pending := [⟨2, 2⟩, ⟨0, 0⟩, ⟨1, 1⟩]
  distributing := false
  closed := false
  nextSerial := 3

theorem queued_threeLegs : threeLegs.Queued := by
  refine ⟨by decide, fun ⟨o, serial⟩ => ?_⟩
  simp only [threeLegs, JsMap.get?_set, List.mem_cons, LegRef.mk.injEq, List.not_mem_nil, or_false]
  constructor
  · rintro (⟨rfl, rfl⟩ | ⟨rfl, rfl⟩ | ⟨rfl, rfl⟩)
    · exact ⟨_, rfl, rfl, by decide⟩
    · exact ⟨_, rfl, rfl, by decide⟩
    · exact ⟨_, rfl, rfl, by decide⟩
  · rintro ⟨leg, hl, rfl, hw⟩
    repeat' split at hl
    · cases hl
      exact .inl ⟨‹_›, rfl⟩
    · cases hl
      exact .inr (.inr ⟨‹_›, rfl⟩)
    · cases hl
      exact .inr (.inl ⟨‹_›, rfl⟩)
    · cases hl

theorem distribute_fair_threeLegs :
    ∃ s', (∀ fuel, 16 < fuel → still.distribute fuel 0 threeLegs = (s', false)) ∧
      s'.granted = 10 ∧ s'.available = 0 ∧
      ∀ o leg', s'.legs.get? o = some leg' → 0 < leg'.wanted →
        ∀ o', Pool.received threeLegs s' o' ≤ Pool.received threeLegs s' o + 1 := by
  obtain ⟨s', hfuel, -, hend⟩ :=
    distribute_fair (H := still) ⟨fun _ _ _ => rfl, fun _ _ _ => rfl⟩ 0 threeLegs queued_threeLegs
      rfl rfl
  exact ⟨s', hfuel, hend⟩

end Host

end HyperDht.Private
