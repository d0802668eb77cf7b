import HyperDht.Private.DescriptorPut

/-!
# Where a descriptor is looked up

A descriptor is published under the period of its publication only; a lookup in
the first hour of a period also asks for the period before. A descriptor lives
for a quarter of an hour, so one that is accepted at the end of a period expires
before that hour is over (`period_mem_lookupPeriods`).

The four places that look a descriptor up: `get` of the publisher's clients,
`getByTarget` of a relay, `_resolveThrough` of a source, and the check of the
relay that answers it.
-/

namespace HyperDht.Private

/-! ## Periods -/

def overlapMs : Nat := 3600000

def lookupPeriods (now : Nat) : List Nat :=
  let current := periodOf now
  if 0 < current ∧ now < current * periodMs + overlapMs then [current, current - 1] else [current]

theorem periodOf_mem_lookupPeriods (now : Nat) : periodOf now ∈ lookupPeriods now := by
  unfold lookupPeriods
  dsimp only
  split
  · exact List.mem_cons_self
  · exact List.mem_cons_self

/-- A lookup asks for no later period, and for none that is older than the one before. -/
theorem lookupPeriods_near {now period : Nat} (h : period ∈ lookupPeriods now) :
    period ≤ periodOf now ∧ periodOf now ≤ period + 1 := by
  unfold lookupPeriods at h
  dsimp only at h
  split at h
  · rcases List.mem_cons.mp h with rfl | h
    · omega
    · obtain rfl := List.mem_singleton.mp h
      omega
  · obtain rfl := List.mem_singleton.mp h
    omega

/-- The period of a time is looked up for as long as a descriptor may live after it. -/
theorem period_mem_lookupPeriods {t u : Nat} (h : t ≤ u) (hlife : u < t + maxLifetimeMs) :
    periodOf t ∈ lookupPeriods u := by
  have hmax : maxLifetimeMs = 900000 := rfl
  have ht : t = periodMs * periodOf t + t % periodMs := (Nat.div_add_mod t periodMs).symm
  have hu : u = periodMs * periodOf u + u % periodMs := (Nat.div_add_mod u periodMs).symm
  have htr : t % periodMs < periodMs := Nat.mod_lt t (by decide)
  have hur : u % periodMs < periodMs := Nat.mod_lt u (by decide)
  have hle : periodOf t ≤ periodOf u := Nat.div_le_div_right h
  by_cases hsame : periodOf u = periodOf t
  · exact hsame ▸ periodOf_mem_lookupPeriods u
  · -- a lifetime is shorter than a period, so `u` is in the next one
    have hnext : periodOf u = periodOf t + 1 := by
      unfold periodMs at ht hu htr hur
      omega
    unfold lookupPeriods
    dsimp only
    rw [if_pos, hnext]
    · exact List.mem_cons_of_mem _ List.mem_cons_self
    · refine ⟨by omega, ?_⟩
      unfold periodMs at ht hu htr hur ⊢
      unfold overlapMs
      omega

/-! ## The lookups -/

/-- `descriptorTarget`; `none` where the derivation throws. -/
def descriptorTarget (k : Suite) (destination : Bytes) (period : Nat) : Option Bytes :=
  (k.deriveBlindedPublicKey destination period).map k.hash

structure LookupRow where
  period : Nat
  target : Bytes
  deriving DecidableEq, Repr

def targetsForLookup (k : Suite) (destination : Bytes) (now : Nat) : Option (List LookupRow) :=
  (lookupPeriods now).mapM fun period =>
    (descriptorTarget k destination period).map (LookupRow.mk period)

/-- `_readTarget` of a row in `get`, over the replies it sees; `none` where it throws. -/
def readRow (k : Suite) (destination : Bytes) (row : LookupRow) (turns : List Turn) :
    Option (Option Descriptor) :=
  match readTarget k ⟨some row.period, some destination, none⟩ turns with
  | (_, .thrown) => none
  | (_, .returned none) => some none
  | (r, .returned (some best)) => some r.heap[best]?

/-- The better of two candidates: the later one only with a higher sequence number. -/
def newer (best : Option Descriptor) : Option Descriptor → Option Descriptor
  | none => best
  | some candidate =>
    match best with
    | none => some candidate
    | some b => if b.seq < candidate.seq then some candidate else best

/-- The loop of `get`: the targets it queries, and its result. -/
def getRows (k : Suite) (destination : Bytes) (turns : Nat → List Turn) :
    Option Descriptor → List LookupRow → List Bytes × Except DescriptorError Descriptor
  | best, [] => ([], best.elim (.error .unavailable) .ok)
  | best, row :: rows =>
    match readRow k destination row (turns row.period) with
    | none => ([row.target], .error .unavailable)
    | some candidate =>
      let (queried, result) := getRows k destination turns (newer best candidate) rows
      (row.target :: queried, result)

/-- `get`; `turns` are the replies to the query for a period. -/
def get (k : Suite) (destination : Bytes) (now : Nat) (turns : Nat → List Turn) :
    List Bytes × Except DescriptorError Descriptor :=
  if destination.length ≠ 32 then ([], .error .invalid)
  else
    match targetsForLookup k destination now with
    | none => ([], .error .invalid)
    | some rows => getRows k destination turns none rows

def getByTarget (k : Suite) (target : Bytes) (period now : Nat) (turns : List Turn) :
    List Bytes × Except DescriptorError Descriptor :=
  if target.length ≠ 32 ∨ period ∉ lookupPeriods now then ([], .error .invalid)
  else
    ([target],
      match readTarget k ⟨some period, none, none⟩ turns with
      | (_, .thrown) => .error .unavailable
      | (_, .returned none) => .error .unavailable
      | (r, .returned (some best)) =>
        match r.heap[best]? with
        | none => .error .unavailable
        | some d => if k.hash d.blindedPublicKey = target then .ok d else .error .invalid)

def statusOk : UInt8 := 0
def statusUnavailable : UInt8 := 1
def sourceResolve : UInt8 := 1

/-- `writeU64`. -/
def be64 (n : Nat) : Bytes :=
  [UInt8.ofNat (n / 2 ^ 56), UInt8.ofNat (n / 2 ^ 48), UInt8.ofNat (n / 2 ^ 40),
    UInt8.ofNat (n / 2 ^ 32), UInt8.ofNat (n / 2 ^ 24), UInt8.ofNat (n / 2 ^ 16),
    UInt8.ofNat (n / 2 ^ 8), UInt8.ofNat n]

def resolveRequest (period : Nat) (target : Bytes) : Bytes := sourceResolve :: be64 period ++ target

/-- The loop of `_resolveThrough`: the requests it sends, and its result. `respond` is the
answer to a request with the time at which it is decoded, and `none` where the exchange fails. -/
def resolvePeriods (k : Suite) (destination : Bytes) (respond : Bytes → Option (Nat × Bytes)) :
    List Nat → List Bytes × Except DescriptorError Descriptor
  | [] => ([], .error .unavailable)
  | period :: periods =>
    match descriptorTarget k destination period with
    | none => ([], .error .invalid)
    | some target =>
      let request := resolveRequest period target
      match respond request with
      | none => ([request], .error .unavailable)
      | some (now, response) =>
        if response = [statusUnavailable] then
          let (sent, result) := resolvePeriods k destination respond periods
          (request :: sent, result)
        else if response.length ≠ 1 + descriptorBytes ∨ response[0]? ≠ some statusOk then
          ([request], .error .invalid)
        else ([request], decodeDescriptor k ⟨now, some period, some destination⟩ (response.drop 1))

def resolveThrough (k : Suite) (destination : Bytes) (now : Nat)
    (respond : Bytes → Option (Nat × Bytes)) : List Bytes × Except DescriptorError Descriptor :=
  resolvePeriods k destination respond (lookupPeriods now)

/-- The relay's check of a `SOURCE_RESOLVE` request, which gives the arguments of its
`getByTarget`: `resolved` are the periods it was asked for before. -/
def resolveCheck (resolved : List Nat) (now : Nat) (command : Bytes) : Option (Bytes × Nat) :=
  if command.length ≠ 41 ∨ 3 ≤ resolved.length then none
  else
    let period := u64 command 1
    if period ∈ resolved ∨ period ∉ lookupPeriods now then none
    else some (command.drop 9, period)

/-! ## What an accepted descriptor says of itself -/

/-- A descriptor a storage node accepts is of the current period and expires soon. -/
theorem accepted_fields {k : Suite} {p : Plugin} {now : Nat} {target wire : Bytes} {token : Bool}
    (h : (p.onrequest k now target (.put token (some wire))).2 = .acknowledged) :
    target.length = 32 ∧ k.hash (fieldsOf wire).blindedPublicKey = target ∧
      (fieldsOf wire).period = periodOf now ∧ now < (fieldsOf wire).expiresAt ∧
      (fieldsOf wire).expiresAt ≤ now + maxLifetimeMs := by
  unfold Plugin.onrequest at h
  dsimp only at h
  split at h
  · cases h
  · next hlen =>
    unfold Plugin.onput at h
    cases token with
    | false => cases h
    | true =>
      dsimp only at h
      split at h
      · cases h
      · next d hd =>
        obtain rfl := decodeDescriptor_eq hd
        split at h
        · cases h
        · next ht =>
          refine ⟨not_not.mp hlen, not_not.mp ht, ?_⟩
          unfold decodeDescriptor at hd
          dsimp only at hd
          repeat' split at hd
          all_goals cases hd
          next _ _ hperiod _ _ hlife =>
            simp only [Option.any_some, decide_eq_true_eq, not_not] at hperiod
            exact ⟨hperiod.symm, by omega, by omega⟩

theorem u64_lt (b : Bytes) (offset : Nat) : u64 b offset < 2 ^ 64 := by
  have hfold : ∀ (bs : Bytes) (v : Nat),
      bs.foldl (fun value byte => value * 256 + byte.toNat) v < (v + 1) * 256 ^ bs.length := by
    intro bs
    induction bs with
    | nil =>
      intro v
      simp
    | cons byte bs ih =>
      intro v
      have hbyte := byte.toNat_lt
      have hpos : 0 < 256 ^ bs.length := Nat.pow_pos (by decide)
      calc (byte :: bs).foldl _ v = bs.foldl _ (v * 256 + byte.toNat) := rfl
        _ < (v * 256 + byte.toNat + 1) * 256 ^ bs.length := ih _
        _ ≤ ((v + 1) * 256) * 256 ^ bs.length := Nat.mul_le_mul_right _ (by omega)
        _ = (v + 1) * 256 ^ (byte :: bs).length := by
          rw [List.length_cons, Nat.pow_succ, Nat.mul_assoc, Nat.mul_comm 256]
  have hlen : (subarray b offset (offset + 8)).length ≤ 8 := by
    unfold subarray
    rw [List.length_take]
    omega
  calc u64 b offset < (0 + 1) * 256 ^ (subarray b offset (offset + 8)).length := hfold _ 0
    _ ≤ 1 * 256 ^ 8 := Nat.mul_le_mul_left _ (Nat.pow_le_pow_right (by decide) hlen)
    _ = 2 ^ 64 := by decide

theorem u64_resolveRequest {period : Nat} (h : period < 2 ^ 64) (target : Bytes) :
    u64 (resolveRequest period target) 1 = period := by
  show u64 (_ :: UInt8.ofNat _ :: UInt8.ofNat _ :: UInt8.ofNat _ :: UInt8.ofNat _ :: UInt8.ofNat _ ::
    UInt8.ofNat _ :: UInt8.ofNat _ :: UInt8.ofNat _ :: target) 1 = _
  simp only [u64, subarray, List.drop_succ_cons, List.drop_zero, Nat.reduceAdd, Nat.reduceSub,
    List.take_succ_cons, List.take_zero, List.foldl_cons, List.foldl_nil, UInt8.toNat_ofNat']
  omega

theorem length_resolveRequest (period : Nat) {target : Bytes} (h : target.length = 32) :
    (resolveRequest period target).length = 41 := by
  show target.length + 1 + 1 + 1 + 1 + 1 + 1 + 1 + 1 + 1 = 41
  omega

/-! ## What the lookups ask for -/

/-- Newer periods are asked for first. -/
theorem lookupPeriods_sorted (now : Nat) : (lookupPeriods now).Pairwise (· > ·) := by
  unfold lookupPeriods
  dsimp only
  split
  · next h =>
    refine List.pairwise_cons.mpr ⟨fun q hq => ?_, List.pairwise_singleton _ _⟩
    obtain rfl := List.mem_singleton.mp hq
    omega
  · exact List.pairwise_singleton _ _

/-- The rows of `get`, if the key can be blinded for their periods. -/
theorem rows_of_derives {k : Suite} {destination : Bytes} {periods : List Nat}
    (h : ∀ q ∈ periods, (k.deriveBlindedPublicKey destination q).isSome = true) :
    ∃ rows, periods.mapM (fun period =>
        (descriptorTarget k destination period).map (LookupRow.mk period)) = some rows ∧
      (∀ row ∈ rows, row.period ∈ periods) ∧
      ∀ q ∈ periods, ∀ target, descriptorTarget k destination q = some target →
        ⟨q, target⟩ ∈ rows := by
  induction periods with
  | nil => exact ⟨[], rfl, fun _ hr => (List.not_mem_nil hr).elim, fun _ hq => (List.not_mem_nil hq).elim⟩
  | cons period periods ih =>
    obtain ⟨rows, hrows, hof, hall⟩ := ih fun q hq => h q (List.mem_cons_of_mem period hq)
    obtain ⟨blinded, hb⟩ := Option.isSome_iff_exists.mp (h period List.mem_cons_self)
    have ht : descriptorTarget k destination period = some (k.hash blinded) := by
      rw [descriptorTarget, hb]
      rfl
    refine ⟨⟨period, k.hash blinded⟩ :: rows, ?_, fun row hr => ?_, fun q hq target hqt => ?_⟩
    · rw [List.mapM_cons, hrows, ht]
      rfl
    · rcases List.mem_cons.mp hr with rfl | hr
      · exact List.mem_cons_self
      · exact List.mem_cons_of_mem period (hof row hr)
    · rcases List.mem_cons.mp hq with rfl | hq
      · obtain rfl := Option.some.inj (ht.symm.trans hqt)
        exact List.mem_cons_self
      · exact List.mem_cons_of_mem _ (hall q hq target hqt)

/-- `get` goes through all its rows unless a query throws. -/
theorem getRows_queries {k : Suite} {destination : Bytes} {turns : Nat → List Turn}
    {rows : List LookupRow} (h : ∀ row ∈ rows, readRow k destination row (turns row.period) ≠ none)
    (best : Option Descriptor) {row : LookupRow} (hr : row ∈ rows) :
    row.target ∈ (getRows k destination turns best rows).1 := by
  induction rows generalizing best with
  | nil => exact (List.not_mem_nil hr).elim
  | cons first rows ih =>
    unfold getRows
    cases hread : readRow k destination first (turns first.period) with
    | none => exact absurd hread (h first List.mem_cons_self)
    | some candidate =>
      dsimp only
      rcases List.mem_cons.mp hr with rfl | hr
      · exact List.mem_cons_self
      · exact List.mem_cons_of_mem _ (ih (fun r hm => h r (List.mem_cons_of_mem first hm)) _ hr)

/-- A source goes on to a period as long as the newer ones are not available. -/
theorem resolvePeriods_asks {k : Suite} {destination : Bytes}
    {respond : Bytes → Option (Nat × Bytes)} {periods : List Nat}
    (hs : periods.Pairwise (· > ·))
    (hd : ∀ q ∈ periods, (k.deriveBlindedPublicKey destination q).isSome = true) {period : Nat}
    (hp : period ∈ periods) {target : Bytes}
    (ht : descriptorTarget k destination period = some target)
    (hnewer : ∀ q ∈ periods, period < q → ∀ newer, descriptorTarget k destination q = some newer →
      ∃ now, respond (resolveRequest q newer) = some (now, [statusUnavailable])) :
    resolveRequest period target ∈ (resolvePeriods k destination respond periods).1 := by
  induction periods with
  | nil => exact (List.not_mem_nil hp).elim
  | cons first periods ih =>
    obtain ⟨hlt, hs'⟩ := List.pairwise_cons.mp hs
    obtain ⟨blinded, hb⟩ := Option.isSome_iff_exists.mp (hd first List.mem_cons_self)
    have hfirst : descriptorTarget k destination first = some (k.hash blinded) := by
      rw [descriptorTarget, hb]
      rfl
    unfold resolvePeriods
    rw [hfirst]
    dsimp only
    rcases List.mem_cons.mp hp with rfl | hp
    · obtain rfl := Option.some.inj (hfirst.symm.trans ht)
      split
      · exact List.mem_singleton_self _
      · split
        · exact List.mem_cons_self
        · split
          · exact List.mem_singleton_self _
          · exact List.mem_singleton_self _
    · obtain ⟨now, hn⟩ := hnewer first List.mem_cons_self (hlt period hp) _ hfirst
      rw [hn]
      dsimp only
      rw [if_pos rfl]
      exact List.mem_cons_of_mem _ (ih hs' (fun q hq => hd q (List.mem_cons_of_mem first hq)) hp
        fun q hq => hnewer q (List.mem_cons_of_mem first hq))

theorem getByTarget_queries {k : Suite} {target : Bytes} {period now : Nat}
    (hlen : target.length = 32) (h : period ∈ lookupPeriods now) (turns : List Turn) :
    (getByTarget k target period now turns).1 = [target] := by
  unfold getByTarget
  rw [if_neg (by simp [hlen, h])]

theorem resolveCheck_admits {resolved : List Nat} {period now : Nat} {target : Bytes}
    (hlen : target.length = 32) (h : period ∈ lookupPeriods now) (hlt : period < 2 ^ 64)
    (hnew : period ∉ resolved) (hfew : resolved.length < 3) :
    resolveCheck resolved now (resolveRequest period target) = some (target, period) := by
  unfold resolveCheck
  rw [if_neg (by rw [length_resolveRequest period hlen]; omega)]
  dsimp only
  rw [u64_resolveRequest hlt, if_neg (by simp [hnew, h])]
  rfl

/-- **An accepted descriptor stays findable until it expires.** Its period is among those
of every lookup until then, so `getByTarget` reads its target and a relay's check admits
it; `get` of its destination queries its target unless a query throws, and
`_resolveThrough` asks for it unless a newer period is answered. No lookup asks for a
later period, or for one more than a period old. -/
theorem accepted_findable (k : Suite) (p : Plugin) (t : Nat) (target wire : Bytes) (token : Bool)
    (h : (p.onrequest k t target (.put token (some wire))).2 = .acknowledged) (u : Nat)
    (htu : t ≤ u) (hu : u < (fieldsOf wire).expiresAt) :
    let period := (fieldsOf wire).period
    period ∈ lookupPeriods u ∧
      (∀ turns, (getByTarget k target period u turns).1 = [target]) ∧
      (∀ resolved : List Nat, period ∉ resolved → resolved.length < 3 →
        resolveCheck resolved u (resolveRequest period target) = some (target, period)) ∧
      (∀ destination : Bytes, destination.length = 32 →
        k.deriveBlindedPublicKey destination period = some (fieldsOf wire).blindedPublicKey →
        (∀ q ∈ lookupPeriods u, (k.deriveBlindedPublicKey destination q).isSome = true) →
        (∀ turns : Nat → List Turn,
          (∀ q ∈ lookupPeriods u, ∀ tq, readRow k destination ⟨q, tq⟩ (turns q) ≠ none) →
          target ∈ (get k destination u turns).1) ∧
        ∀ respond : Bytes → Option (Nat × Bytes),
          (∀ q ∈ lookupPeriods u, period < q → ∀ tq, descriptorTarget k destination q = some tq →
            ∃ now, respond (resolveRequest q tq) = some (now, [statusUnavailable])) →
          resolveRequest period target ∈ (resolveThrough k destination u respond).1) ∧
      ∀ q ∈ lookupPeriods u, q ≤ periodOf u ∧ periodOf u ≤ q + 1 := by
  intro period
  obtain ⟨hlen, hhash, hperiod, hlive, hlife⟩ := accepted_fields h
  have hmem : period ∈ lookupPeriods u := by
    show (fieldsOf wire).period ∈ lookupPeriods u
    rw [hperiod]
    exact period_mem_lookupPeriods htu (by omega)
  refine ⟨hmem, getByTarget_queries hlen hmem,
    fun resolved => resolveCheck_admits hlen hmem (u64_lt wire 1),
    fun destination hdest hblind hderive => ?_, fun q hq => lookupPeriods_near hq⟩
  have htarget : descriptorTarget k destination period = some target := by
    unfold descriptorTarget
    rw [hblind, ← hhash]
    rfl
  constructor
  · intro turns hturns
    obtain ⟨rows, hrows, hof, hall⟩ := rows_of_derives hderive
    unfold get targetsForLookup
    rw [if_neg (by simp [hdest]), hrows]
    exact getRows_queries (fun row hr => hturns row.period (hof row hr) row.target) none
      (hall period hmem target htarget)
  · intro respond hnewer
    exact resolvePeriods_asks (lookupPeriods_sorted u) hderive hmem htarget hnewer

/-! ## Around midnight -/

/-- A suite whose blinded keys differ from day to day, and are targets themselves. -/
def dailySuite : Suite where
  verify := fun _ _ _ => true
  deriveBlindedPublicKey := fun _ period => some (List.replicate 31 0 ++ [UInt8.ofNat period])
  hash := id

def dayTarget (period : Nat) : Bytes := List.replicate 31 0 ++ [UInt8.ofNat period]

def dayWire (period expiresAt : Nat) : Bytes :=
  descriptorVersion :: be64 period ++ dayTarget period ++ List.replicate 32 0 ++
    List.replicate 32 1 ++ List.replicate 32 0 ++ be64 1 ++ be64 expiresAt ++ List.replicate 64 0

/-- A descriptor accepted a minute before midnight is asked for in every way when the next day
begins. -/
theorem findable_after_midnight :
    0 ∈ lookupPeriods 86400000 ∧
      (getByTarget dailySuite (dayTarget 0) 0 86400000 []).1 = [dayTarget 0] ∧
      resolveCheck [] 86400000 (resolveRequest 0 (dayTarget 0)) = some (dayTarget 0, 0) ∧
      dayTarget 0 ∈ (get dailySuite (List.replicate 32 7) 86400000 fun _ => []).1 ∧
      resolveRequest 0 (dayTarget 0) ∈ (resolveThrough dailySuite (List.replicate 32 7) 86400000
        fun _ => some (86400000, [statusUnavailable])).1 := by
  have hperiod : (fieldsOf (dayWire 0 87240000)).period = 0 := by decide +kernel
  obtain ⟨hmem, hquery, hadmit, hasked, -⟩ := accepted_findable dailySuite ⟨none, .empty⟩ 86340000
    (dayTarget 0) (dayWire 0 87240000) true (by decide +kernel) 86400000 (by decide)
    (by decide +kernel)
  rw [hperiod] at hmem hadmit hasked
  obtain ⟨hreads, hresolves⟩ := hasked (List.replicate 32 7) (by decide) (by decide +kernel)
    fun q _ => rfl
  refine ⟨hmem, hperiod ▸ hquery [], hadmit [] List.not_mem_nil (by decide), ?_, ?_⟩
  · exact hreads (fun _ => []) fun q _ tq h => by cases h
  · exact hresolves _ fun q _ _ tq _ => ⟨86400000, rfl⟩

/-- At the beginning of a day a source that is answered with the descriptor of that day does
not ask for the one of the day before, which has not expired yet. -/
theorem newer_period_answered_first :
    ((⟨none, .empty⟩ : Plugin).onrequest dailySuite 86340000 (dayTarget 0)
        (.put true (some (dayWire 0 87240000)))).2 = .acknowledged ∧
      86400000 < (fieldsOf (dayWire 0 87240000)).expiresAt ∧
      (resolveThrough dailySuite (List.replicate 32 7) 86400000 fun _ =>
          some (86400000, statusOk :: dayWire 1 87300000)).2.toOption =
        some (fieldsOf (dayWire 1 87300000)) ∧
      resolveRequest 0 (dayTarget 0) ∉
        (resolveThrough dailySuite (List.replicate 32 7) 86400000 fun _ =>
          some (86400000, statusOk :: dayWire 1 87300000)).1 := by
  refine ⟨by decide +kernel, by decide +kernel, by decide +kernel, by decide +kernel⟩

end HyperDht.Private
