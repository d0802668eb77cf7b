import HyperDht.Private.Counters

/-!
# In-order delivery

Every call of an `OrderedReceiver` is one of a few: it leaves the receiver as
it was up to the time last observed (`Kept`), shuts it with nothing buffered
(`Shut`), buffers one payload, or delivers a run of payloads from `next` on
(`push_cases`, `expire_cases`). `Rest` is the invariant between calls, and
`History` relates the receiver to the calls made so far.
-/

namespace HyperDht.Private

namespace OrderedReceiver

/-- A live receiver inside one of its own methods. -/
structure Busy (r : OrderedReceiver) : Prop where
  mutating : r.mutating = true
  live : r.closed = false
  noRequest : r.destroyRequested = false

/-- Closed with nothing buffered; `next` is kept unless the receiver was asked to
destroy itself. -/
structure Shut (asked : Prop) (r r' : OrderedReceiver) : Prop where
  closed : r'.closed = true
  empty : r'.buffer = .empty
  noGap : r'.gapStartedAt = none
  idle : r'.mutating = false
  noRequest : r'.destroyRequested = false
  maximum : r'.maximum = r.maximum
  window : r'.window = r.window
  next : asked ∧ r'.now = false ∨ r'.now = r.now ∧ r'.next = r.next

/-- The same configuration, and the same `next` under the same clock. -/
structure Alike (r₀ r : OrderedReceiver) : Prop where
  maximum : r.maximum = r₀.maximum
  window : r.window = r₀.window
  now : r.now = r₀.now
  next : r.next = r₀.next

def finish (r : OrderedReceiver) : OrderedReceiver :=
  if r.destroyRequested then { r with mutating := false }.destroyNow else { r with mutating := false }

theorem mutate_eq {α : Type} {r : OrderedReceiver} (h : r.mutating = false)
    (operation : OrderedReceiver → OrderedReceiver × Except CounterError α) :
    r.mutate operation = ((operation { r with mutating := true }).1.finish,
      (operation { r with mutating := true }).2) := by
  simp only [mutate, h, finish, Bool.false_eq_true, if_false]

theorem finish_of_noRequest {r : OrderedReceiver} (h : r.destroyRequested = false) :
    r.finish = { r with mutating := false } := by
  simp [finish, h]

/-! ## The clock -/

/-- The clock's calls on a busy receiver amount to a request to destroy it. -/
theorem foldl_reenter {r : OrderedReceiver} (h : r.mutating = true) (calls : List Reentry) :
    calls.foldl reenter r = r ∨ .destroy ∈ calls ∧
      calls.foldl reenter r = { r with destroyRequested := true, closed := true } := by
  induction calls generalizing r with
  | nil => exact .inl rfl
  | cons c cs ih =>
    cases c with
    | destroy =>
      have hd : r.reenter .destroy = { r with destroyRequested := true, closed := true } := by
        simp [reenter, destroy, h]
      rw [List.foldl_cons, hd]
      rcases ih (r := { r with destroyRequested := true, closed := true }) h with e | ⟨-, e⟩
      · exact .inr ⟨List.mem_cons_self, e⟩
      · exact .inr ⟨List.mem_cons_self, e⟩
    | pushAuthenticated => exact (ih h).imp_right fun ⟨hm, e⟩ => ⟨List.mem_cons_of_mem _ hm, e⟩
    | expire => exact (ih h).imp_right fun ⟨hm, e⟩ => ⟨List.mem_cons_of_mem _ hm, e⟩

theorem shut_failWith {α : Type} {asked : Prop} {r₀ r : OrderedReceiver} (hd : r.destroyRequested = false)
    (h : Alike r₀ r) (e : CounterError) :
    Shut asked r₀ (r.failWith (α := α) e).1.finish := by
  rw [finish_of_noRequest (r := (r.failWith (α := α) e).1) hd]
  exact ⟨rfl, rfl, rfl, rfl, hd, h.maximum, h.window, .inr ⟨h.now, h.next⟩⟩

theorem shut_finish_of_request {asked : Prop} {r₀ r : OrderedReceiver} (hask : asked)
    (h : r.destroyRequested = true)
    (ha : Alike r₀ r) : Shut asked r₀ r.finish := by
  simp only [finish, h, if_true, destroyNow, clearBuffered]
  exact ⟨rfl, rfl, rfl, rfl, rfl, ha.maximum, ha.window, .inl ⟨hask, rfl⟩⟩

theorem failClock_fst {α : Type} (r : OrderedReceiver) :
    r.failClock (α := α) = ((r.failClock (α := α)).1, .error .invalid) := by
  unfold failClock
  split <;> rfl

/-- What a failing call may do: leave a receiver without an open gap as it is, or shut it. -/
def Failed (asked : Prop) (r₀ r r' : OrderedReceiver) : Prop :=
  (r.gapStartedAt = none ∧ r' = r) ∨ Shut asked r₀ r'.finish

theorem failed_failClock {α : Type} {asked : Prop} {r₀ r : OrderedReceiver} (hd : r.destroyRequested = false)
    (h : Alike r₀ r) : Failed asked r₀ r (r.failClock (α := α)).1 := by
  unfold failClock
  split
  · exact .inr (shut_failWith hd h .invalid)
  · next hg => exact .inl ⟨by simpa using hg, rfl⟩

theorem clockValue_cases {asked : Prop} {r₀ r : OrderedReceiver} (hd : r.destroyRequested = false)
    (h : Alike r₀ r) (reading : Reading) :
    (∃ t, r.clockValue reading = (r, .ok t)) ∨
    ∃ r' e, e ≠ .replay ∧ r.clockValue reading = (r', .error e) ∧ Failed asked r₀ r r' := by
  have hfail : Failed asked r₀ r (r.failClock (α := Nat)).1 := failed_failClock hd h
  unfold clockValue
  split
  · split
    · exact .inl ⟨_, rfl⟩
    · exact .inr ⟨_, .invalid, by decide, failClock_fst r, hfail⟩
  · exact .inr ⟨_, .invalid, by decide, failClock_fst r, hfail⟩

theorem readNow_cases {r₀ r : OrderedReceiver} (h : r.Busy) (ha : Alike r₀ r) (clock : Clock) :
    (∃ t, r.readNow clock = (r, .ok t)) ∨
    ∃ r' e, e ≠ .replay ∧ r.readNow clock = (r', .error e) ∧ Failed (.destroy ∈ clock.calls) r₀ r r' := by
  unfold readNow
  rcases foldl_reenter h.mutating clock.calls with e | ⟨hm, e⟩
  · rw [e]
    dsimp only
    split
    · exact .inr ⟨_, .invalid, by decide, failClock_fst r, failed_failClock h.noRequest ha⟩
    · rw [if_neg (by simp [h.noRequest, h.live])]
      exact clockValue_cases h.noRequest ha clock.result
  · rw [e]
    dsimp only
    split
    · refine .inr ⟨_, .invalid, by decide, failClock_fst _, .inr ?_⟩
      unfold failClock
      split
      · exact shut_finish_of_request hm rfl ⟨ha.maximum, ha.window, ha.now, ha.next⟩
      · exact shut_finish_of_request hm rfl ⟨ha.maximum, ha.window, ha.now, ha.next⟩
    · rw [if_pos (.inl rfl)]
      refine .inr ⟨_, .exhausted, by decide, rfl, .inr ?_⟩
      exact shut_finish_of_request hm rfl ⟨ha.maximum, ha.window, ha.now, ha.next⟩

/-- Where a gap is open, an expiry passes, or shuts the receiver. -/
theorem expireAt_cases {asked : Prop} {r₀ r : OrderedReceiver} (hd : r.destroyRequested = false)
    (h : Alike r₀ r) (current : Nat) :
    (∃ t, r.expireAt current = ({ r with lastObservedAt := t }, .ok false)) ∨
    ∃ r' e, e ≠ .replay ∧ r.expireAt current = (r', .error e) ∧ Shut asked r₀ r'.finish := by
  unfold expireAt
  split
  · exact .inl ⟨r.lastObservedAt, rfl⟩
  · split
    · exact .inr ⟨_, .invalid, by decide, rfl, shut_failWith (α := Bool) hd h .invalid⟩
    · dsimp only
      split
      · exact .inl ⟨some current, rfl⟩
      · exact .inr ⟨_, .gap, by decide, rfl, shut_failWith (α := Bool)
          (r := { r with lastObservedAt := some current }) hd
          ⟨h.maximum, h.window, h.now, h.next⟩ .gap⟩

/-! ## Draining the buffer -/

/-- The payloads of a run of counters, from `from` on, taken out of a buffer. -/
def TakenFrom (buffer : JsMap Nat Chunk) (start : Nat) (ps : List Chunk) : Prop :=
  ∀ i q, ps[i]? = some q → buffer.get? (start + i) = some q

theorem takenFrom_nil (buffer : JsMap Nat Chunk) (start : Nat) : TakenFrom buffer start [] := by
  intro i q h
  simp at h

theorem TakenFrom.cons {buffer : JsMap Nat Chunk} {start : Nat} {p : Chunk} {ps : List Chunk}
    (hp : buffer.get? start = some p)
    (h : TakenFrom (buffer.delete start) (start + 1) ps) : TakenFrom buffer start (p :: ps) := by
  intro i q hq
  cases i with
  | zero =>
    obtain rfl : p = q := by simpa using hq
    exact hp
  | succ i =>
    have := h i q (by simpa using hq)
    rw [JsMap.get?_delete_ne _ (by omega)] at this
    rw [← this, Nat.add_assoc, Nat.add_comm 1 i]

/-- What draining a receiver leaves: everything below the new `next` is gone
from the buffer, and the new `next` is missing; or the maximum was taken. -/
def Drained (r r' : OrderedReceiver) (n : Nat) : Prop :=
  (∃ b, r' = { r with next := r.next + n, buffer := b } ∧ r.next + n ≤ r.maximum ∧
    b.get? (r.next + n) = none ∧
    ∀ k, b.get? k = if k < r.next + n then none else r.buffer.get? k) ∨
  (r.next + n = r.maximum + 1 ∧ r' = r.closeExhausted)

theorem drained_zero {r : OrderedReceiver} (hkeys : ∀ k v, r.buffer.get? k = some v → r.next ≤ k)
    (hmax : r.next ≤ r.maximum) (hnone : r.buffer.get? r.next = none) : Drained r r 0 := by
  refine .inl ⟨r.buffer, rfl, hmax, hnone, fun k => ?_⟩
  split
  · next hk =>
    cases hv : r.buffer.get? k with
    | none => rfl
    | some v => exact absurd (hkeys k v hv) (by omega)
  · rfl

/-- The loop takes the run of buffered counters from `next` on, and stops at
the first missing one or after the maximum. -/
theorem drain_spec (fuel : Nat) (r : OrderedReceiver) (delivered : List Chunk)
    (hsize : r.buffer.size ≤ fuel) (hkeys : ∀ k v, r.buffer.get? k = some v → r.next ≤ k)
    (hmax : r.next ≤ r.maximum) :
    ∃ ps r', drain fuel r delivered = (r', delivered ++ ps) ∧ TakenFrom r.buffer r.next ps ∧
      Drained r r' ps.length := by
  induction fuel generalizing r delivered with
  | zero =>
    have hnone : r.buffer.get? r.next = none := by
      cases hv : r.buffer.get? r.next with
      | none => rfl
      | some v => have := JsMap.size_delete hv; omega
    exact ⟨[], r, by simp [drain], takenFrom_nil _ _, drained_zero hkeys hmax hnone⟩
  | succ fuel ih =>
    unfold drain
    split
    · next hnone => exact ⟨[], r, by simp, takenFrom_nil _ _, drained_zero hkeys hmax hnone⟩
    · next buffered hv =>
      dsimp only
      split
      · next hlast =>
        refine ⟨[buffered], _, rfl, ?_, .inr ⟨by simp [hlast], rfl⟩⟩
        exact TakenFrom.cons hv (takenFrom_nil _ _)
      · next hlast =>
        let r₁ : OrderedReceiver :=
          { r with buffer := r.buffer.delete r.next, next := r.next + 1 }
        have hkeys₁ : ∀ k v, r₁.buffer.get? k = some v → r₁.next ≤ k := by
          intro k v hk
          have hne : k ≠ r.next := by rintro rfl; simp [r₁] at hk
          rw [JsMap.get?_delete_ne _ hne] at hk
          have := hkeys k v hk
          show r.next + 1 ≤ k
          omega
        have hsize₁ : r₁.buffer.size ≤ fuel := by
          have := JsMap.size_delete hv
          show (r.buffer.delete r.next).size ≤ fuel
          omega
        have hmax₁ : r₁.next ≤ r₁.maximum := by
          show r.next + 1 ≤ r.maximum
          omega
        obtain ⟨ps, r', he, hrun, hd⟩ := ih r₁ (delivered ++ [buffered]) hsize₁ hkeys₁ hmax₁
        refine ⟨buffered :: ps, r', by rw [he, List.append_assoc, List.singleton_append],
          TakenFrom.cons hv hrun, ?_⟩
        have hlen : r.next + (buffered :: ps).length = r₁.next + ps.length := by
          show r.next + (ps.length + 1) = r.next + 1 + ps.length
          omega
        rcases hd with ⟨b, rfl, hle, hnone, hb⟩ | ⟨hend, rfl⟩
        · refine .inl ⟨b, ?_, ?_, ?_, fun k => ?_⟩
          · rw [hlen]
          · rw [hlen]; exact hle
          · rw [hlen]; exact hnone
          · rw [hlen, hb k]
            split
            · rfl
            · next hk => exact JsMap.get?_delete_ne _ (by show k ≠ r.next; simp only [r₁] at hk; omega)
        · exact .inr ⟨by rw [hlen]; exact hend, rfl⟩

/-! ## One call -/

/-- A receiver between two calls. -/
structure Rest (r : OrderedReceiver) : Prop where
  idle : r.mutating = false
  noRequest : r.destroyRequested = false
  bound : r.closed = false → r.next ≤ r.maximum
  closed : r.closed = true → r.buffer = .empty ∧ r.gapStartedAt = none
  live : r.closed = false → r.now = true
  ahead : ∀ c p, r.buffer.get? c = some p → r.next < c ∧ c < r.next + r.window ∧ c ≤ r.maximum

theorem copyForBuffer_eq {payload owned : Chunk} (h : copyForBuffer payload = some owned) :
    owned = payload := by
  unfold copyForBuffer at h
  split at h
  · split at h
    · exact absurd h (by simp)
    · exact (Option.some.inj h).symm
  · split at h
    · exact absurd h (by simp)
    · exact (Option.some.inj h).symm
  · exact absurd h (by simp)

/-- What delivering at `next` leaves: the run is gone from the buffer, or the
maximum is delivered and the receiver exhausted. -/
structure Delivered (r r' : OrderedReceiver) (n : Nat) : Prop where
  idle : r'.mutating = false
  noRequest : r'.destroyRequested = false
  maximum : r'.maximum = r.maximum
  window : r'.window = r.window
  now : r'.now = r.now
  next : (r'.closed = false ∧ r'.next = r.next + n ∧ r.next + n ≤ r.maximum ∧
      r'.buffer.get? (r.next + n) = none ∧
      ∀ k, r'.buffer.get? k = if k < r.next + n then none else r.buffer.get? k) ∨
    (r'.closed = true ∧ r'.next = r.maximum ∧ r.next + n = r.maximum + 1 ∧
      r'.buffer = .empty ∧ r'.gapStartedAt = none)

/-- What a push of a counter in range does to a resting receiver. -/
inductive Pushed (asked : Prop) (r : OrderedReceiver) (counter : Nat) (payload : Chunk) :
    OrderedReceiver → Except CounterError (List Chunk) → Prop where
  | replay (t : Option Nat) : Pushed asked r counter payload { r with lastObservedAt := t } (.error .replay)
  | failed (e : CounterError) (he : e ≠ .replay) (hgap : r.gapStartedAt = none) :
    Pushed asked r counter payload r (.error e)
  | shut (r' : OrderedReceiver) (e : CounterError) (he : e ≠ .replay) (h : Shut asked r r') :
    Pushed asked r counter payload r' (.error e)
  | held (g t : Option Nat) (live : r.closed = false) (ahead : r.next < counter)
    (inside : counter < r.next + r.window) (fresh : r.buffer.get? counter = none) :
    Pushed asked r counter payload { r with
      buffer := r.buffer.set counter payload
      gapStartedAt := g
      lastObservedAt := t } (.ok [])
  | delivered (r' : OrderedReceiver) (ps : List Chunk) (live : r.closed = false)
    (at' : counter = r.next) (taken : TakenFrom r.buffer (r.next + 1) ps)
    (h : Delivered r r' (ps.length + 1)) : Pushed asked r counter payload r' (.ok (payload :: ps))

theorem finish_observed {r : OrderedReceiver} (hr : r.Rest) (t : Option Nat) :
    finish { r with mutating := true, lastObservedAt := t } = { r with lastObservedAt := t } := by
  rw [finish_of_noRequest (by exact hr.noRequest)]
  have hidle := hr.idle
  cases r
  simp_all

theorem pushed_of_failed {asked : Prop} {r r₁ r' : OrderedReceiver} {counter : Nat} {payload : Chunk}
    {e : CounterError} (he : e ≠ .replay) (hr : r.Rest)
    (h₁ : r₁ = { r with mutating := true } ∨ r₁.gapStartedAt.isSome) (h : Failed asked r r₁ r') :
    Pushed asked r counter payload r'.finish (.error e) := by
  rcases h with ⟨hg, rfl⟩ | hs
  · rcases h₁ with rfl | h₁
    · rw [show finish { r with mutating := true } = r from finish_observed hr r.lastObservedAt]
      exact .failed e he hg
    · simp [hg] at h₁
  · exact .shut _ e he hs

theorem deliver_spec {r : OrderedReceiver} (h : r.Busy)
    (hkeys : ∀ k v, r.buffer.get? k = some v → r.next < k) (hmax : r.next ≤ r.maximum)
    (payload : Chunk) :
    ∃ ps r', r.deliver payload = (r', payload :: ps) ∧ r'.destroyRequested = false ∧
      TakenFrom r.buffer (r.next + 1) ps ∧ Delivered r r'.finish (ps.length + 1) := by
  unfold deliver
  split
  · next hlast =>
    refine ⟨[], _, rfl, h.noRequest, takenFrom_nil _ _, ?_⟩
    rw [finish_of_noRequest (r := r.closeExhausted) h.noRequest]
    exact ⟨rfl, h.noRequest, rfl, rfl, rfl, .inr ⟨rfl, rfl, by simp [hlast], rfl, rfl⟩⟩
  · next hlast =>
    obtain ⟨ps, r', he, htaken, hd⟩ := drain_spec r.buffer.size { r with next := r.next + 1 }
      [payload] le_rfl hkeys (show r.next + 1 ≤ r.maximum by omega)
    rw [he]
    dsimp only at hd ⊢
    have hlen : r.next + 1 + ps.length = r.next + (ps.length + 1) := by omega
    rcases hd with ⟨b, rfl, hle, hnone, hb⟩ | ⟨hend, rfl⟩
    · rw [hlen] at hle hnone hb
      -- whether or not the gap is closed, the counters and the buffer are the same
      have done : ∀ g t, Delivered r (finish { r with
          next := r.next + 1 + ps.length, buffer := b, gapStartedAt := g, lastObservedAt := t })
          (ps.length + 1) := by
        intro g t
        rw [finish_of_noRequest (by exact h.noRequest)]
        exact ⟨rfl, h.noRequest, rfl, rfl, rfl, .inl ⟨h.live, hlen, hle, hnone, hb⟩⟩
      split
      · exact ⟨ps, _, rfl, h.noRequest, htaken, done none none⟩
      · exact ⟨ps, _, rfl, h.noRequest, htaken, done r.gapStartedAt r.lastObservedAt⟩
    · refine ⟨ps, { r.clearBuffered with next := r.maximum, closed := true }, ?_, h.noRequest,
        htaken, ?_⟩
      · simp [closeExhausted, clearBuffered]
      · rw [finish_of_noRequest (by exact h.noRequest)]
        dsimp only at hend
        exact ⟨rfl, h.noRequest, rfl, rfl, rfl, .inr ⟨rfl, rfl, by omega, rfl, rfl⟩⟩

theorem checkGap_cases {r : OrderedReceiver} (hr : r.Rest) (live : r.closed = false)
    (clock : Clock) :
    (∃ t, (t = r.lastObservedAt ∨ r.gapStartedAt.isSome) ∧ checkGap { r with mutating := true } clock =
      ({ r with mutating := true, lastObservedAt := t }, .ok false)) ∨
    ∃ r' e, e ≠ .replay ∧ checkGap { r with mutating := true } clock = (r', .error e) ∧
      Shut (.destroy ∈ clock.calls) r r'.finish := by
  have alike : Alike r { r with mutating := true } := ⟨rfl, rfl, rfl, rfl⟩
  unfold checkGap
  split
  · next hgap =>
    have busy : Busy { r with mutating := true } := ⟨rfl, live, hr.noRequest⟩
    rcases readNow_cases busy alike clock with ⟨t, e⟩ | ⟨r', e, hne, he, ⟨hnone, -⟩ | hs⟩
    · rw [e]
      rcases expireAt_cases busy.noRequest alike t with ⟨t', e'⟩ | hs
      · exact .inl ⟨t', .inr hgap, e'⟩
      · exact .inr hs
    · dsimp only at hnone
      simp [hnone] at hgap
    · rw [he]
      exact .inr ⟨r', e, hne, rfl, hs⟩
  · exact .inl ⟨r.lastObservedAt, .inl rfl, rfl⟩

/-- Ahead of `next`, a push is buffered or fails. -/
theorem pushed_hold {r : OrderedReceiver} (hr : r.Rest) (live : r.closed = false) {counter : Nat}
    (t : Option Nat) (hgap : t = r.lastObservedAt ∨ r.gapStartedAt.isSome)
    (ahead : r.next < counter) (fresh : r.buffer.get? counter = none) (payload : Chunk)
    (clock : Clock) :
    Pushed (.destroy ∈ clock.calls) r counter payload
      (hold { r with mutating := true, lastObservedAt := t } counter payload clock).1.finish
      (hold { r with mutating := true, lastObservedAt := t } counter payload clock).2 := by
  have alike : Alike r { r with mutating := true, lastObservedAt := t } := ⟨rfl, rfl, rfl, rfl⟩
  have busy : Busy { r with mutating := true, lastObservedAt := t } := ⟨rfl, live, hr.noRequest⟩
  have hfail : ∀ e : CounterError, e ≠ .replay → Pushed (.destroy ∈ clock.calls) r counter payload (failWith
      (α := List Chunk) { r with mutating := true, lastObservedAt := t } e).1.finish (.error e) :=
    fun e he => .shut _ e he (shut_failWith busy.noRequest alike e)
  have hheld : ∀ g t', counter < r.next + r.window →
      Pushed (.destroy ∈ clock.calls) r counter payload (finish { r with
        mutating := true, buffer := r.buffer.set counter payload,
        gapStartedAt := g, lastObservedAt := t' }) (.ok []) := by
    intro g t' hin
    rw [finish_of_noRequest (by exact hr.noRequest)]
    have : Pushed (.destroy ∈ clock.calls) r counter payload _ _ :=
      .held g t' live ahead hin fresh
    have hidle := hr.idle
    cases r
    simp_all
  have hok : ∀ r₁ : OrderedReceiver, r₁.destroyRequested = false →
      r₁.assertNoDeferredDestroy [] = (r₁, .ok []) := by
    intro r₁ h₁
    simp [assertNoDeferredDestroy, h₁]
  unfold hold
  split
  · exact hfail .gap (by decide)
  · next hin =>
    have hin' : counter < r.next + r.window := by
      dsimp only at hin
      omega
    split
    · exact hfail .gap (by decide)
    · split
      · next g hg =>
        split
        · exact hfail .invalid (by decide)
        · next owned hc =>
          obtain rfl := copyForBuffer_eq hc
          rw [hok _ (by exact hr.noRequest)]
          exact hheld _ _ hin'
      · next hg =>
        rcases readNow_cases busy alike clock with ⟨t', e⟩ | ⟨r', e, hne, he, hf⟩
        · rw [e]
          dsimp only
          split
          · exact hfail .invalid (by decide)
          · next owned hc =>
            obtain rfl := copyForBuffer_eq hc
            rw [hok _ (by exact hr.noRequest)]
            exact hheld _ _ hin'
        · rw [he]
          apply pushed_of_failed hne hr _ hf
          rcases hgap with rfl | hgap
          · exact .inl rfl
          · exact .inr hgap

theorem pushed_push {r : OrderedReceiver} (hr : r.Rest) {counter : Nat} (payload : Chunk)
    (clock : Clock) :
    Pushed (.destroy ∈ clock.calls) r counter payload (push { r with mutating := true } counter payload clock).1.finish
      (push { r with mutating := true } counter payload clock).2 := by
  unfold push
  split
  · next hclosed =>
    have := finish_observed hr r.lastObservedAt
    dsimp only at this ⊢
    rw [this]
    exact .failed .exhausted (by decide) (hr.closed hclosed).2
  · next hlive =>
    have live : r.closed = false := by simpa using hlive
    rcases checkGap_cases hr live clock with ⟨t, hgap, e⟩ | ⟨r', e, hne, he, hs⟩
    · rw [e]
      dsimp only
      split
      · rw [finish_observed hr t]
        exact .replay t
      · next hnew =>
        have hge : r.next ≤ counter := Nat.le_of_not_lt fun h => hnew (.inl h)
        have fresh : r.buffer.get? counter = none := by
          simpa [JsMap.has] using fun h => hnew (.inr h)
        split
        · next hlt => exact pushed_hold hr live t hgap hlt fresh payload clock
        · next hnlt =>
          obtain rfl : counter = r.next := Nat.le_antisymm (Nat.le_of_not_lt hnlt) hge
          have busy : Busy { r with mutating := true, lastObservedAt := t } :=
            ⟨rfl, live, hr.noRequest⟩
          obtain ⟨ps, r', he, hreq, htaken, hd⟩ := deliver_spec busy
            (fun k v hk => (hr.ahead k v hk).1) (hr.bound live) payload
          rw [he]
          simp only [assertNoDeferredDestroy, hreq, Bool.false_eq_true, if_false]
          exact .delivered _ ps live rfl htaken
            ⟨hd.idle, hd.noRequest, hd.maximum, hd.window, hd.now, hd.next⟩
    · rw [he]
      exact .shut _ e hne hs

/-- What an expiry does to a resting receiver. -/
inductive Expired (asked : Prop) (r : OrderedReceiver) : OrderedReceiver → Except CounterError Bool → Prop where
  | passed (t : Option Nat) (b : Bool) : Expired asked r { r with lastObservedAt := t } (.ok b)
  | failed (e : CounterError) (he : e ≠ .replay) (hgap : r.gapStartedAt = none) :
    Expired asked r r (.error e)
  | shut (r' : OrderedReceiver) (e : CounterError) (he : e ≠ .replay) (h : Shut asked r r') :
    Expired asked r r' (.error e)

theorem expired_of_reading {asked : Prop} {r : OrderedReceiver} (hr : r.Rest)
    {reading : OrderedReceiver × Except CounterError Nat}
    (h : (∃ t, reading = ({ r with mutating := true }, .ok t)) ∨
      ∃ r' e, e ≠ CounterError.replay ∧ reading = (r', .error e) ∧
        Failed asked r { r with mutating := true } r') :
    Expired asked r (match reading with
        | (r, .error e) => (r, .error e)
        | (r, .ok current) => r.expireAt current : OrderedReceiver × _).1.finish
      (match reading with
        | (r, .error e) => (r, .error e)
        | (r, .ok current) => r.expireAt current : OrderedReceiver × _).2 := by
  rcases h with ⟨t, rfl⟩ | ⟨r', e, hne, rfl, ⟨hnone, rfl⟩ | hs⟩
  · dsimp only
    have alike : Alike r { r with mutating := true } := ⟨rfl, rfl, rfl, rfl⟩
    rcases expireAt_cases (show ({ r with mutating := true } : OrderedReceiver).destroyRequested =
      false from hr.noRequest) alike t with ⟨t', e'⟩ | ⟨r', e', hne, he, hs⟩
    · rw [e', finish_observed hr t']
      exact .passed t' false
    · rw [he]
      exact .shut _ e' hne hs
  · have := finish_observed hr r.lastObservedAt
    dsimp only at this hnone ⊢
    rw [this]
    exact .failed e hne hnone
  · exact .shut _ e hne hs

theorem expired_expire {r : OrderedReceiver} (hr : r.Rest) (at? : Option Reading)
    (clock : Clock) :
    Expired (.destroy ∈ clock.calls) r (r.expire at? clock).1 (r.expire at? clock).2 := by
  unfold expire
  rw [mutate_eq hr.idle]
  dsimp only
  split
  · next hclosed =>
    have := finish_observed hr r.lastObservedAt
    dsimp only at this ⊢
    rw [this]
    exact .failed .exhausted (by decide) (hr.closed hclosed).2
  · next hlive =>
    have live : r.closed = false := by simpa using hlive
    have alike : Alike r { r with mutating := true } := ⟨rfl, rfl, rfl, rfl⟩
    have busy : Busy { r with mutating := true } := ⟨rfl, live, hr.noRequest⟩
    cases at? with
    | none => exact expired_of_reading hr (readNow_cases busy alike clock)
    | some at' => exact expired_of_reading hr (clockValue_cases busy.noRequest alike at')

/-! ## Runs of calls -/

/-- A call made from outside the receiver. -/
inductive Use where
  | push (counter : Int) (payload : Chunk) (clock : Clock)
  | expire (at? : Option Reading) (clock : Clock)
  | destroy
  deriving DecidableEq, Repr

/-- A call that destroys the receiver, or whose clock may. -/
def Use.destroys : Use → Prop
  | .push _ _ clock | .expire _ clock => .destroy ∈ clock.calls
  | .destroy => True

/-- What a call gives its caller. -/
inductive Answer where
  | delivered (payloads : List Chunk)
  | expired (result : Bool)
  | failed (e : CounterError)
  | destroyed
  deriving DecidableEq, Repr

def use (r : OrderedReceiver) : Use → OrderedReceiver × Answer
  | .push counter payload clock =>
    let (r, result) := r.pushAuthenticated counter payload clock
    (r, match result with | .ok ps => .delivered ps | .error e => .failed e)
  | .expire at? clock =>
    let (r, result) := r.expire at? clock
    (r, match result with | .ok b => .expired b | .error e => .failed e)
  | .destroy => (r.destroy, .destroyed)

def uses (r : OrderedReceiver) : List Use → OrderedReceiver × List (Use × Answer)
  | [] => (r, [])
  | u :: us => ((uses (r.use u).1 us).1, (u, (r.use u).2) :: (uses (r.use u).1 us).2)

/-- The payloads a list of calls has returned. -/
def deliveries (h : List (Use × Answer)) : List Chunk :=
  h.flatMap fun e => match e.2 with | .delivered ps => ps | _ => []

/-- The payload of a push of `counter` that was not rejected. -/
def acceptedBy (counter : Nat) : Use × Answer → Option Chunk
  | (.push c p _, .delivered _) => if c = counter then some p else none
  | _ => none

/-- The payload of the first push of `counter` that was not rejected. -/
def accepted (counter : Nat) (h : List (Use × Answer)) : Option Chunk :=
  h.findSome? (acceptedBy counter)

/-- What one call does to a resting receiver. -/
inductive Used (r : OrderedReceiver) : Use → OrderedReceiver → Answer → Prop where
  | kept (u : Use) (t : Option Nat) (a : Answer) (h : ∀ ps, a ≠ .delivered ps)
    (ok : ∀ e, a = .failed e → e = .replay) : Used r u { r with lastObservedAt := t } a
  | failed (u : Use) (e : CounterError) (he : e ≠ .replay)
    (hgap : r.gapStartedAt = none ∨
      ∃ c p clock, u = .push c p clock ∧ (c < 0 ∨ (r.maximum : Int) < c)) :
    Used r u r (.failed e)
  | shut (u : Use) (r' : OrderedReceiver) (a : Answer) (h : ∀ ps, a ≠ .delivered ps)
    (ha : a ≠ .failed .replay) (hs : Shut u.destroys r r') : Used r u r' a
  | held (c : Nat) (p : Chunk) (clock : Clock) (g t : Option Nat) (live : r.closed = false)
    (ahead : r.next < c) (inside : c < r.next + r.window) (bound : c ≤ r.maximum)
    (fresh : r.buffer.get? c = none) : Used r (.push c p clock) { r with
      buffer := r.buffer.set c p
      gapStartedAt := g
      lastObservedAt := t } (.delivered [])
  | delivered (p : Chunk) (clock : Clock) (r' : OrderedReceiver) (ps : List Chunk)
    (live : r.closed = false) (taken : TakenFrom r.buffer (r.next + 1) ps)
    (h : Delivered r r' (ps.length + 1)) :
    Used r (.push r.next p clock) r' (.delivered (p :: ps))

theorem used_use {r : OrderedReceiver} (hr : r.Rest) (u : Use) :
    Used r u (r.use u).1 (r.use u).2 := by
  cases u with
  | push c p clock =>
    have hp : r.use (.push c p clock) = ((r.pushAuthenticated c p clock).1,
        match (r.pushAuthenticated c p clock).2 with
        | .ok ps => .delivered ps | .error e => .failed e) := rfl
    rw [hp]
    unfold pushAuthenticated
    rw [mutate_eq hr.idle]
    unfold counterValue
    dsimp only
    by_cases hc : c < 0 ∨ (r.maximum : Int) < c
    · have := finish_observed hr r.lastObservedAt
      rw [if_pos hc]
      dsimp only at this ⊢
      rw [this]
      exact .failed _ _ (by decide) (.inr ⟨c, p, clock, rfl, hc⟩)
    · rw [if_neg hc]
      dsimp only
      obtain ⟨n, rfl⟩ : ∃ n : Nat, c = n := ⟨c.toNat, by omega⟩
      have hn : n ≤ r.maximum := by omega
      have hpush := @pushed_push r hr n p clock
      rw [Int.toNat_natCast]
      generalize push { r with mutating := true } n p clock = res at hpush ⊢
      obtain ⟨r₁, a⟩ := res
      dsimp only at hpush ⊢
      generalize r₁.finish = r₂ at hpush ⊢
      cases hpush with
      | replay t => exact .kept _ t _ (by simp) (by simp)
      | failed e he hgap => exact .failed _ e he (.inl hgap)
      | shut _ e he h => exact .shut _ _ _ (by simp) (by simpa using he) h
      | held g t live ahead inside fresh => exact .held n p clock g t live ahead inside hn fresh
      | delivered _ ps live at' taken h =>
        subst at'
        exact .delivered p clock _ ps live taken h
  | expire at? clock =>
    have hp : r.use (.expire at? clock) = ((r.expire at? clock).1,
        match (r.expire at? clock).2 with
        | .ok b => .expired b | .error e => .failed e) := rfl
    rw [hp]
    have hexp := expired_expire hr at? clock
    generalize r.expire at? clock = res at hexp ⊢
    obtain ⟨r₁, a⟩ := res
    dsimp only at hexp ⊢
    cases hexp with
    | passed t b => exact .kept _ t _ (by simp) (by simp)
    | failed e he hgap => exact .failed _ e he (.inl hgap)
    | shut _ e he h => exact .shut _ _ _ (by simp) (by simpa using he) h
  | destroy =>
    have hd : r.use .destroy = (r.destroyNow, .destroyed) := by
      simp [use, destroy, hr.idle]
    rw [hd]
    refine .shut _ _ _ (by simp) (by simp) ?_
    exact ⟨rfl, rfl, rfl, hr.idle, rfl, rfl, rfl, .inl ⟨trivial, rfl⟩⟩

theorem Used.rest {r r' : OrderedReceiver} {u : Use} {a : Answer} (hr : r.Rest)
    (h : Used r u r' a) : r'.Rest := by
  cases h with
  | kept => exact ⟨hr.idle, hr.noRequest, hr.bound, hr.closed, hr.live, hr.ahead⟩
  | failed => exact hr
  | shut _ _ _ _ _ hs =>
    refine ⟨hs.idle, hs.noRequest, ?_, fun _ => ⟨hs.empty, hs.noGap⟩, ?_, ?_⟩
    · intro hlive
      rw [hs.closed] at hlive
      cases hlive
    · intro hlive
      rw [hs.closed] at hlive
      cases hlive
    · intro c p hp
      rw [hs.empty] at hp
      cases hp
  | held c p clock g t live ahead inside bound fresh =>
    refine ⟨hr.idle, hr.noRequest, hr.bound, ?_, hr.live, ?_⟩
    · intro hclosed
      rw [show r.closed = true from hclosed] at live
      cases live
    · intro k q hq
      rw [JsMap.get?_set] at hq
      split at hq
      · next hk => subst hk; exact ⟨ahead, inside, bound⟩
      · exact hr.ahead k q hq
  | delivered p clock _ ps live taken h =>
    rcases h.next with ⟨hl, hn, hle, hnone, hb⟩ | ⟨hc, hn, hend, hempty, hgap⟩
    · refine ⟨h.idle, h.noRequest, fun _ => by rw [hn, h.maximum]; exact hle, ?_, ?_, ?_⟩
      · intro hclosed
        rw [hl] at hclosed
        cases hclosed
      · intro _
        rw [h.now]
        exact hr.live live
      · intro k q hq
        rw [hb k] at hq
        split at hq
        · cases hq
        · next hk =>
          have hne : k ≠ r.next + (ps.length + 1) := by
            rintro rfl
            rw [hb, if_neg (by omega), hq] at hnone
            cases hnone
          have := hr.ahead k q hq
          rw [hn, h.window, h.maximum]
          exact ⟨by omega, by omega, this.2.2⟩
    · refine ⟨h.idle, h.noRequest, fun _ => by rw [hn, h.maximum], fun _ => ⟨hempty, hgap⟩, ?_, ?_⟩
      · intro hlive
        rw [hc] at hlive
        cases hlive
      · intro k q hq
        rw [hempty] at hq
        cases hq

/-- The receiver after the calls `h`, started at `initial`. -/
structure History (initial : Nat) (r : OrderedReceiver) (h : List (Use × Answer)) : Prop where
  run : ∀ i p, (deliveries h)[i]? = some p → accepted (initial + i) h = some p
  bound : initial + (deliveries h).length ≤ r.maximum + 1
  held : ∀ c p, r.buffer.get? c = some p → accepted c h = some p
  fresh : r.closed = false → ∀ c, r.next ≤ c → r.buffer.get? c = none → accepted c h = none
  count : r.now = true → initial + (deliveries h).length = r.next ∨
    (r.closed = true ∧ r.next = r.maximum ∧ initial + (deliveries h).length = r.maximum + 1)

theorem deliveries_snoc (h : List (Use × Answer)) (u : Use) (a : Answer) :
    deliveries (h ++ [(u, a)]) =
      deliveries h ++ (match a with | .delivered ps => ps | _ => []) := by
  cases a <;> simp [deliveries]

theorem accepted_snoc (c : Nat) (h : List (Use × Answer)) (e : Use × Answer) :
    accepted c (h ++ [e]) = (accepted c h).or (acceptedBy c e) := by
  simp only [accepted, List.findSome?_append, List.findSome?_cons, List.findSome?_nil]
  cases acceptedBy c e <;> rfl

theorem accepted_snoc_of_some {c : Nat} {h : List (Use × Answer)} {p : Chunk}
    (hp : accepted c h = some p) (e : Use × Answer) : accepted c (h ++ [e]) = some p := by
  rw [accepted_snoc, hp, Option.some_or]

theorem acceptedBy_of_not_delivered {a : Answer} (ha : ∀ ps, a ≠ .delivered ps) (c : Nat)
    (u : Use) : acceptedBy c (u, a) = none := by
  cases u <;> cases a <;> simp_all [acceptedBy]

/-- A call that delivers nothing and buffers nothing. -/
theorem History.silent {initial : Nat} {r r' : OrderedReceiver} {h : List (Use × Answer)}
    (hh : History initial r h) {u : Use} {a : Answer} (ha : ∀ ps, a ≠ .delivered ps)
    (hmax : r'.maximum = r.maximum)
    (hbuf : ∀ c p, r'.buffer.get? c = some p → r.buffer.get? c = some p)
    (hlive : r'.closed = false → r.closed = false ∧ r'.next = r.next ∧ r'.buffer = r.buffer)
    (hnow : r'.now = true → r.now = true ∧ r'.next = r.next ∧ (r.closed = true → r'.closed = true)) :
    History initial r' (h ++ [(u, a)]) := by
  have hd : deliveries (h ++ [(u, a)]) = deliveries h := by
    rw [deliveries_snoc]
    cases a <;> simp_all
  have hacc : ∀ c, accepted c (h ++ [(u, a)]) = accepted c h := by
    intro c
    rw [accepted_snoc, acceptedBy_of_not_delivered ha, Option.or_none]
  refine ⟨?_, ?_, ?_, ?_, ?_⟩
  · intro i p hp
    rw [hacc]
    exact hh.run i p (hd ▸ hp)
  · rw [hd, hmax]
    exact hh.bound
  · intro c p hp
    rw [hacc]
    exact hh.held c p (hbuf c p hp)
  · intro hl c hc hnone
    obtain ⟨hl', hn, hb⟩ := hlive hl
    rw [hacc]
    exact hh.fresh hl' c (hn ▸ hc) (hb ▸ hnone)
  · intro hn
    obtain ⟨hn', he, hc⟩ := hnow hn
    rw [hd, he, hmax]
    rcases hh.count hn' with h₁ | ⟨h₁, h₂, h₃⟩
    · exact .inl h₁
    · exact .inr ⟨hc h₁, h₂, h₃⟩

theorem History.step {initial : Nat} {r r' : OrderedReceiver} {h : List (Use × Answer)}
    (hr : r.Rest) (hh : History initial r h) {u : Use} {a : Answer} (hu : Used r u r' a) :
    History initial r' (h ++ [(u, a)]) := by
  cases hu with
  | kept _ t _ ha _ =>
    exact hh.silent ha rfl (fun _ _ hp => hp) (fun hl => ⟨hl, rfl, rfl⟩)
      (fun hn => ⟨hn, rfl, fun hc => hc⟩)
  | failed _ e he _ =>
    exact hh.silent (by simp) rfl (fun _ _ hp => hp) (fun hl => ⟨hl, rfl, rfl⟩)
      (fun hn => ⟨hn, rfl, fun hc => hc⟩)
  | shut _ _ _ ha _ hs =>
    refine hh.silent ha hs.maximum ?_ ?_ ?_
    · intro c p hp
      rw [hs.empty] at hp
      cases hp
    · intro hl
      rw [hs.closed] at hl
      cases hl
    · intro hn
      rcases hs.next with ⟨-, hn'⟩ | ⟨hn', he⟩
      · rw [hn'] at hn
        cases hn
      · exact ⟨hn' ▸ hn, he, fun _ => hs.closed⟩
  | held c p clock g t live ahead inside bound fresh =>
    have hd : deliveries (h ++ [(.push c p clock, .delivered [])]) = deliveries h := by
      rw [deliveries_snoc, List.append_nil]
    have hnew : accepted c h = none := hh.fresh live c (Nat.le_of_lt ahead) fresh
    refine ⟨?_, by rw [hd]; exact hh.bound, ?_, ?_, by rw [hd]; exact hh.count⟩
    · intro i q hq
      exact accepted_snoc_of_some (hh.run i q (hd ▸ hq)) _
    · intro k q hq
      rw [JsMap.get?_set] at hq
      split at hq
      · next hk =>
        subst hk
        rw [accepted_snoc, hnew, Option.none_or]
        simpa [acceptedBy] using hq
      · exact accepted_snoc_of_some (hh.held k q hq) _
    · intro _ k hk hnone
      rw [JsMap.get?_set] at hnone
      split at hnone
      · cases hnone
      · next hne =>
        rw [accepted_snoc, hh.fresh live k hk hnone, Option.none_or, acceptedBy,
          if_neg (by omega)]
  | delivered p clock _ ps live taken hd =>
    have hD : deliveries (h ++ [(.push r.next p clock, .delivered (p :: ps))]) =
        deliveries h ++ (p :: ps) := by
      rw [deliveries_snoc]
    -- a live receiver still holds its clock and has not delivered its maximum
    have hlen : initial + (deliveries h).length = r.next := by
      rcases hh.count (hr.live live) with h₁ | ⟨h₁, -, -⟩
      · exact h₁
      · rw [live] at h₁
        cases h₁
    have hnone : r.buffer.get? r.next = none := by
      cases hv : r.buffer.get? r.next with
      | none => rfl
      | some v => exact absurd (hr.ahead _ _ hv).1 (Nat.lt_irrefl _)
    have hlen' : initial + (deliveries h ++ p :: ps).length = r.next + (ps.length + 1) := by
      rw [List.length_append, List.length_cons]
      omega
    refine ⟨?_, ?_, ?_, ?_, ?_⟩
    · intro i q hq
      rw [hD] at hq
      by_cases hi : i < (deliveries h).length
      · rw [List.getElem?_append_left hi] at hq
        exact accepted_snoc_of_some (hh.run i q hq) _
      · rw [List.getElem?_append_right (by omega)] at hq
        obtain ⟨j, rfl⟩ : ∃ j, i = (deliveries h).length + j := ⟨i - (deliveries h).length, by omega⟩
        rw [Nat.add_sub_cancel_left] at hq
        have hidx : initial + ((deliveries h).length + j) = r.next + j := by omega
        rw [hidx]
        cases j with
        | zero =>
          obtain rfl : p = q := by simpa using hq
          rw [accepted_snoc, Nat.add_zero, hh.fresh live _ le_rfl hnone, Option.none_or]
          simp [acceptedBy]
        | succ j =>
          have := taken j q (by simpa using hq)
          rw [show r.next + (j + 1) = r.next + 1 + j by omega]
          exact accepted_snoc_of_some (hh.held _ q this) _
    · rw [hD, hlen', hd.maximum]
      rcases hd.next with ⟨-, -, hle, -, -⟩ | ⟨-, -, hend, -, -⟩
      · omega
      · omega
    · intro k q hq
      rcases hd.next with ⟨-, -, -, -, hb⟩ | ⟨-, -, -, hempty, -⟩
      · rw [hb] at hq
        split at hq
        · cases hq
        · exact accepted_snoc_of_some (hh.held k q hq) _
      · rw [hempty] at hq
        cases hq
    · intro hl k hk hnone'
      rcases hd.next with ⟨-, hn, -, -, hb⟩ | ⟨hc, -, -, -, -⟩
      · rw [hn] at hk
        rw [hb, if_neg (by omega)] at hnone'
        rw [accepted_snoc, hh.fresh live k (by omega) hnone', Option.none_or, acceptedBy,
          if_neg (by omega)]
      · rw [hc] at hl
        cases hl
    · intro _
      rw [hD, hlen', hd.maximum]
      rcases hd.next with ⟨-, hn, -, -, -⟩ | ⟨hc, hn, hend, -, -⟩
      · exact .inl hn.symm
      · exact .inr ⟨hc, hn, hend⟩

theorem rest_uses {r : OrderedReceiver} (hr : r.Rest) (us : List Use) : (r.uses us).1.Rest := by
  induction us generalizing r with
  | nil => exact hr
  | cons u us ih => exact ih ((used_use hr u).rest hr)

theorem history_uses {initial : Nat} {r : OrderedReceiver} {h : List (Use × Answer)}
    (hr : r.Rest) (hh : History initial r h) (us : List Use) :
    History initial (r.uses us).1 (h ++ (r.uses us).2) := by
  induction us generalizing r h with
  | nil => simpa [uses] using hh
  | cons u us ih =>
    have := ih ((used_use hr u).rest hr) (hh.step hr (used_use hr u))
    simpa [uses] using this

theorem closed_use {r : OrderedReceiver} (hr : r.Rest) (hc : r.closed = true) (u : Use) :
    (r.use u).1.closed = true ∧ ∀ ps, (r.use u).2 ≠ .delivered ps := by
  have hu := used_use hr u
  generalize (r.use u).1 = r', (r.use u).2 = a at hu ⊢
  cases hu with
  | kept _ t _ ha _ => exact ⟨hc, ha⟩
  | failed _ e _ _ => exact ⟨hc, by simp⟩
  | shut _ _ _ ha _ hs => exact ⟨hs.closed, ha⟩
  | held _ _ _ _ _ live => rw [hc] at live; cases live
  | delivered _ _ _ _ live => rw [hc] at live; cases live

/-- A closed receiver stays closed and delivers nothing. -/
theorem closed_uses {r : OrderedReceiver} (hr : r.Rest) (hc : r.closed = true) (us : List Use) :
    (r.uses us).1.closed = true ∧ deliveries (r.uses us).2 = [] := by
  induction us generalizing r with
  | nil => exact ⟨hc, rfl⟩
  | cons u us ih =>
    obtain ⟨hc', ha⟩ := closed_use hr hc u
    obtain ⟨h₁, h₂⟩ := ih ((used_use hr u).rest hr) hc'
    refine ⟨h₁, ?_⟩
    have : deliveries ((u, (r.use u).2) :: (uses (r.use u).1 us).2) =
        deliveries [(u, (r.use u).2)] ++ deliveries (uses (r.use u).1 us).2 := by
      simp [deliveries]
    show deliveries ((u, (r.use u).2) :: (uses (r.use u).1 us).2) = []
    rw [this, h₂]
    generalize (r.use u).2 = a at ha
    cases a <;> simp_all [deliveries]

/-- A receiver that nobody asked to destroy keeps its clock. -/
theorem now_uses {r : OrderedReceiver} (hr : r.Rest) (us : List Use)
    (hd : ∀ u ∈ us, ¬u.destroys) : (r.uses us).1.now = r.now := by
  induction us generalizing r with
  | nil => rfl
  | cons u us ih =>
    have hu := used_use hr u
    have hnow : (r.use u).1.now = r.now := by
      have hnd := hd u List.mem_cons_self
      generalize (r.use u).1 = r', (r.use u).2 = a at hu ⊢
      cases hu with
      | kept | failed | held => rfl
      | shut _ _ _ _ _ hs =>
        rcases hs.next with ⟨hask, -⟩ | ⟨hn, -⟩
        · exact absurd hask hnd
        · exact hn
      | delivered _ _ _ _ _ _ h => exact h.now
    rw [← hnow]
    exact ih (hu.rest hr) fun u' hu' => hd u' (List.mem_cons_of_mem _ hu')

theorem maximum_uses {r : OrderedReceiver} (hr : r.Rest) (us : List Use) :
    (r.uses us).1.maximum = r.maximum := by
  induction us generalizing r with
  | nil => rfl
  | cons u us ih =>
    have hu := used_use hr u
    have hmax : (r.use u).1.maximum = r.maximum := by
      generalize (r.use u).1 = r', (r.use u).2 = a at hu ⊢
      cases hu with
      | kept | failed | held => rfl
      | shut _ _ _ _ _ hs => exact hs.maximum
      | delivered _ _ _ _ _ _ h => exact h.maximum
    rw [← hmax]
    exact ih (hu.rest hr)

theorem rest_new {options : ReceiverOptions} {r : OrderedReceiver} (h : new options = .ok r) :
    r.Rest ∧ History r.next r [] ∧ r.now = true ∧ (r.next : Int) = options.initial.getD 0 := by
  unfold new at h
  split at h
  · cases h
  · split at h
    · cases h
    · cases hm : counterValue (options.maximum.getD maxCounter) maxCounter with
      | error e => simp [hm, bind, Except.bind] at h
      | ok maximum =>
        cases hn : counterValue (options.initial.getD 0) maximum with
        | error e => simp [hm, hn, bind, Except.bind] at h
        | ok next =>
          simp only [hm, hn, bind, Except.bind, pure, Except.pure, Except.ok.injEq] at h
          subst h
          obtain ⟨hv, hle⟩ := counterValue_ok hn
          refine ⟨⟨rfl, rfl, fun _ => hle, by simp, fun _ => rfl, by simp⟩,
            ⟨by simp [deliveries], ?_, by simp, fun _ _ _ _ => rfl, fun _ => .inl rfl⟩, rfl, hv⟩
          show next + 0 ≤ maximum + 1
          omega

/-- A call that is a push of a counter in range, or an expiry. -/
def Use.inRange (maximum : Nat) : Use → Prop
  | .push counter _ _ => 0 ≤ counter ∧ counter ≤ maximum
  | .expire _ _ => True
  | .destroy => False

/-- **In-order delivery, exactly once.** After any calls on a new receiver, the
payloads delivered so far are those of the counters from the initial one on,
each the payload of the first push of that counter that was not rejected; they
end below `next` unless the receiver is destroyed (its clock dropped) or the
maximum is delivered; what is buffered lies strictly inside the window. Of any
further call: a replay changes neither `next` nor the buffer, any other failure
while a gap is open shuts the receiver, and a closed receiver never delivers. -/
theorem delivers_in_order (options : ReceiverOptions) (r₀ : OrderedReceiver)
    (hnew : new options = .ok r₀) (us : List Use) (r : OrderedReceiver) (h : List (Use × Answer))
    (hrun : r₀.uses us = (r, h)) :
    (r₀.next : Int) = options.initial.getD 0 ∧
    (∀ i p, (deliveries h)[i]? = some p →
      r₀.next + i ≤ r₀.maximum ∧ accepted (r₀.next + i) h = some p) ∧
    ((∃ u ∈ us, u.destroys) ∨ r₀.next + (deliveries h).length = r₀.maximum + 1 ∨
      r₀.next + (deliveries h).length = r.next) ∧
    (∀ c, r.buffer.has c → r.next < c ∧ c < r.next + r.window) ∧
    (∀ u, (r.use u).2 = .failed .replay →
      (r.use u).1.next = r.next ∧ (r.use u).1.buffer = r.buffer) ∧
    (∀ u e, u.inRange r.maximum → r.gapStartedAt.isSome → (r.use u).2 = .failed e → e ≠ .replay →
      (r.use u).1.closed = true ∧ (r.use u).1.buffer = .empty) ∧
    (r.closed = true → ∀ us', (r.uses us').1.closed = true ∧ deliveries (r.uses us').2 = []) := by
  obtain ⟨hr₀, hh₀, hnow₀, hinit⟩ := rest_new hnew
  have hr : r.Rest := by simpa [hrun] using rest_uses hr₀ us
  have hh : History r₀.next r h := by simpa [hrun] using history_uses hr₀ hh₀ us
  have hmax : r.maximum = r₀.maximum := by simpa [hrun] using maximum_uses hr₀ us
  refine ⟨hinit, ?_, ?_, ?_, ?_, ?_, fun hc us' => closed_uses hr hc us'⟩
  · intro i p hp
    have hi : i < (deliveries h).length := (List.getElem?_eq_some_iff.mp hp).1
    have := hh.bound
    exact ⟨by omega, hh.run i p hp⟩
  · by_cases hd : ∃ u ∈ us, u.destroys
    · exact .inl hd
    · have hnow : r.now = true := by
        rw [← hnow₀, ← now_uses hr₀ us fun u hu hdu => hd ⟨u, hu, hdu⟩, hrun]
      rcases hh.count hnow with h₁ | ⟨-, -, h₁⟩
      · exact .inr (.inr h₁)
      · exact .inr (.inl (hmax ▸ h₁))
  · intro c hc
    obtain ⟨p, hp⟩ := Option.isSome_iff_exists.mp hc
    exact ⟨(hr.ahead c p hp).1, (hr.ahead c p hp).2.1⟩
  · intro u ha
    have hu := used_use hr u
    generalize (r.use u).1 = r', (r.use u).2 = a at hu ha ⊢
    cases hu with
    | kept => exact ⟨rfl, rfl⟩
    | failed => exact ⟨rfl, rfl⟩
    | shut _ _ _ _ hne _ => exact absurd ha hne
    | held => cases ha
    | delivered => cases ha
  · intro u e hin hgap ha hne
    have hu := used_use hr u
    generalize (r.use u).1 = r', (r.use u).2 = a at hu ha ⊢
    cases hu with
    | kept _ _ _ _ ok => exact absurd (ok e ha) hne
    | failed _ _ _ hg =>
      rcases hg with hg | ⟨c, p, clock, rfl, hc⟩
      · rw [hg] at hgap
        cases hgap
      · obtain ⟨h₁, h₂⟩ := hin
        omega
    | shut _ _ _ _ _ hs => exact ⟨hs.closed, hs.empty⟩
    | held => cases ha
    | delivered => cases ha

/-- A receiver with a window of four gets the counters 0, 2, 1, then 2 again. -/
theorem delivers_in_order_reordered :
    ∃ r₀, new ⟨4, 10, none, none⟩ = .ok r₀ ∧
      deliveries (r₀.uses [.push 0 (.text "a") ⟨[], .value 5⟩, .push 2 (.text "c") ⟨[], .value 5⟩,
        .push 1 (.text "b") ⟨[], .value 6⟩, .push 2 (.text "d") ⟨[], .value 7⟩]).2 =
        [.text "a", .text "b", .text "c"] ∧
      ∀ r h, r₀.uses [.push 0 (.text "a") ⟨[], .value 5⟩, .push 2 (.text "c") ⟨[], .value 5⟩,
        .push 1 (.text "b") ⟨[], .value 6⟩, .push 2 (.text "d") ⟨[], .value 7⟩] = (r, h) →
        ∀ i p, (deliveries h)[i]? = some p → accepted (r₀.next + i) h = some p := by
  refine ⟨_, rfl, by decide, fun r h hrun i p hp => ?_⟩
  exact ((delivers_in_order ⟨4, 10, none, none⟩ _ rfl _ r h hrun).2.1 i p hp).2

end OrderedReceiver

end HyperDht.Private
