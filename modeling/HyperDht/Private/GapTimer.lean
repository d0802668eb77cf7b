import HyperDht.Private.OrderedDelivery
import Mathlib.Data.List.Induction

/-!
# The timer of a gap

An `OrderedReceiver` has one time for all that it holds back: `gapStartedAt` is set by the
push that finds nothing buffered, and cleared when nothing is. A push fails with
`COUNTER_GAP` when that time lies `gapTimeout` back, whichever counter is missing by then.
So a receiver fed in order but for short, overlapping gaps times out
(`not_prompt_delivers`), and it is the length of a run of gaps that decides
(`gap_timeout_iff`).
-/

namespace HyperDht.Private

namespace OrderedReceiver

/-- A push with the reading of the clock. -/
structure TimedPush where
  counter : Nat
  payload : Chunk
  time : Nat
  deriving DecidableEq, Repr

def TimedPush.use (p : TimedPush) : Use := .push p.counter p.payload ⟨[], .value p.time⟩

/-! ## One push -/

def Answer.ofPush : Except CounterError (List Chunk) → Answer
  | .ok ps => .delivered ps
  | .error e => .failed e

/-- What a push that does not time out does to a live receiver. -/
inductive Passed (r : OrderedReceiver) (p : TimedPush) : OrderedReceiver → Answer → Prop where
  | replay (seen : p.counter < r.next ∨ r.buffer.has p.counter) (t : Option Nat)
    (ht : t = r.lastObservedAt ∨ t = some p.time) :
    Passed r p { r with lastObservedAt := t } (.failed .replay)
  | held (ahead : r.next < p.counter) : Passed r p { r with
      buffer := r.buffer.set p.counter p.payload
      gapStartedAt := some (r.gapStartedAt.getD p.time)
      lastObservedAt := some p.time } (.delivered [])
  | delivered (now : p.counter = r.next) (r' : OrderedReceiver) (ps : List Chunk)
    (timeout : r'.gapTimeout = r.gapTimeout) (h : Delivered r r' (ps.length + 1))
    (gap : r'.gapStartedAt = if r'.buffer.size = 0 then none else r.gapStartedAt)
    (observed : r'.gapStartedAt.isSome → r'.lastObservedAt = some p.time) :
    Passed r p r' (.delivered (p.payload :: ps))

theorem assertNoDeferredDestroy_eq {r : OrderedReceiver} (h : r.destroyRequested = false)
    (delivered : List Chunk) : r.assertNoDeferredDestroy delivered = (r, .ok delivered) := by
  simp [assertNoDeferredDestroy, h]

theorem readNow_value {r : OrderedReceiver} (live : r.closed = false)
    (hd : r.destroyRequested = false) {t : Nat} (ht : isTime t) :
    r.readNow ⟨[], .value t⟩ = (r, .ok t) := by
  simp [readNow, hd, live, clockValue, ht]

/-- Draining leaves the gap's times, or exhausts the receiver. -/
theorem drain_gap (n : Nat) (r : OrderedReceiver) (delivered : List Chunk) :
    (drain n r delivered).1.gapTimeout = r.gapTimeout ∧
      ((drain n r delivered).1.buffer.size = 0 ∨
        (drain n r delivered).1.gapStartedAt = r.gapStartedAt ∧
          (drain n r delivered).1.lastObservedAt = r.lastObservedAt) := by
  induction n generalizing r delivered with
  | zero => exact ⟨rfl, .inr ⟨rfl, rfl⟩⟩
  | succ n ih =>
    unfold drain
    split
    · exact ⟨rfl, .inr ⟨rfl, rfl⟩⟩
    · dsimp only
      split
      · exact ⟨rfl, .inl rfl⟩
      · exact ih { r with buffer := r.buffer.delete r.next, next := r.next + 1 } _

theorem deliver_gap (r : OrderedReceiver) (payload : Chunk) :
    (r.deliver payload).1.gapTimeout = r.gapTimeout ∧
      (r.deliver payload).1.gapStartedAt =
        (if (r.deliver payload).1.buffer.size = 0 then none else r.gapStartedAt) ∧
      ((r.deliver payload).1.buffer.size ≠ 0 →
        (r.deliver payload).1.lastObservedAt = r.lastObservedAt) := by
  unfold deliver
  split
  · exact ⟨rfl, rfl, fun h => absurd rfl h⟩
  · obtain ⟨ht, hg⟩ := drain_gap r.buffer.size { r with next := r.next + 1 } [payload]
    dsimp only at ht hg ⊢
    split
    · next hsize =>
      exact ⟨ht, by simp, fun h => absurd hsize h⟩
    · next hsize =>
      obtain ⟨hstarted, hobserved⟩ := hg.resolve_left hsize
      exact ⟨ht, hstarted, fun _ => hobserved⟩

theorem passed_push {r : OrderedReceiver} (hr : r.Rest) (live : r.closed = false) {p : TimedPush}
    (ht : isTime p.time) (hto : 0 < r.gapTimeout) (hin : p.counter < r.next + r.window)
    (hbuf : copyForBuffer p.payload = some p.payload) {o : Option Nat}
    (ho : if r.gapStartedAt.isSome then o = some p.time else o = r.lastObservedAt)
    (hcheck : checkGap { r with mutating := true } ⟨[], .value p.time⟩ =
      ({ r with mutating := true, lastObservedAt := o }, .ok false)) :
    Passed r p (push { r with mutating := true } p.counter p.payload ⟨[], .value p.time⟩).1.finish
      (.ofPush (push { r with mutating := true } p.counter p.payload ⟨[], .value p.time⟩).2) := by
  have hr' : ∀ (b : JsMap Nat Chunk) (g t : Option Nat), finish { r with
      mutating := true, buffer := b, gapStartedAt := g, lastObservedAt := t } =
      { r with buffer := b, gapStartedAt := g, lastObservedAt := t } := by
    intro b g t
    rw [finish_of_noRequest (by exact hr.noRequest)]
    have hidle := hr.idle
    cases r
    simp_all
  have ho' : o = r.lastObservedAt ∨ o = some p.time := by
    split at ho
    · exact .inr ho
    · exact .inl ho
  unfold push
  rw [if_neg (by simp [live]), hcheck]
  dsimp only
  split
  · next hseen =>
    dsimp only
    rw [hr' r.buffer r.gapStartedAt o]
    exact .replay hseen o ho'
  · next hnew =>
    split
    · next hahead =>
      unfold hold
      dsimp only
      rw [if_neg (by omega), if_neg (by omega)]
      split
      · next g hg =>
        rw [hbuf]
        dsimp only
        rw [assertNoDeferredDestroy_eq (by exact hr.noRequest), hr']
        have hheld := Passed.held (r := r) (p := p) hahead
        rw [if_pos (by simp [hg])] at ho
        subst ho
        rw [hg, Option.getD_some, ← hg] at hheld
        exact hheld
      · next hg =>
        rw [readNow_value (by exact live) (by exact hr.noRequest) ht]
        dsimp only
        rw [hbuf]
        dsimp only
        rw [assertNoDeferredDestroy_eq (by exact hr.noRequest), hr']
        have hheld := Passed.held (r := r) (p := p) hahead
        rw [hg] at hheld
        exact hheld
    · next hle =>
      have hnow : p.counter = r.next := by omega
      have busy : Busy { r with mutating := true, lastObservedAt := o } := ⟨rfl, live, hr.noRequest⟩
      obtain ⟨ps, r', he, hreq, -, hd⟩ := deliver_spec busy
        (fun k v hk => (hr.ahead k v hk).1) (hr.bound live) p.payload
      obtain ⟨htimeout, hgap, hobserved⟩ :=
        deliver_gap { r with mutating := true, lastObservedAt := o } p.payload
      rw [he] at htimeout hgap hobserved
      rw [he]
      dsimp only
      rw [assertNoDeferredDestroy_eq hreq]
      have hfinish : r'.finish = { r' with mutating := false } := finish_of_noRequest hreq
      refine .delivered hnow _ ps ?_ ⟨hd.idle, hd.noRequest, hd.maximum, hd.window, hd.now, hd.next⟩
        ?_ fun hsome => ?_
      · rw [hfinish]
        exact htimeout
      · rw [hfinish]
        exact hgap
      · rw [hfinish] at hsome ⊢
        dsimp only at hgap hobserved hsome ⊢
        by_cases hsize : r'.buffer.size = 0
        · rw [hgap, if_pos hsize] at hsome
          cases hsome
        · rw [hgap, if_neg hsize] at hsome
          rw [if_pos hsome] at ho
          exact (hobserved hsize).trans ho

/-- What a push of a live receiver does: it times out, or passes. -/
theorem use_timed {r : OrderedReceiver} (hr : r.Rest) (live : r.closed = false) {p : TimedPush}
    (hmax : p.counter ≤ r.maximum) (ht : isTime p.time) (hto : 0 < r.gapTimeout)
    (hin : p.counter < r.next + r.window) (hbuf : copyForBuffer p.payload = some p.payload)
    (hobs : ∀ s, r.gapStartedAt = some s → ∃ o, r.lastObservedAt = some o ∧ o ≤ p.time) :
    (∃ s, r.gapStartedAt = some s ∧ r.gapTimeout ≤ p.time - s ∧
      (r.use p.use).2 = .failed .gap) ∨
    ((∀ s, r.gapStartedAt = some s → p.time - s < r.gapTimeout) ∧
      Passed r p (r.use p.use).1 (r.use p.use).2) := by
  have huse : r.use p.use =
      ((push { r with mutating := true } p.counter p.payload ⟨[], .value p.time⟩).1.finish,
        .ofPush (push { r with mutating := true } p.counter p.payload ⟨[], .value p.time⟩).2) := by
    have hvalue : counterValue p.counter r.maximum = .ok p.counter := by
      unfold counterValue
      rw [if_neg (by omega), Int.toNat_natCast]
    unfold TimedPush.use use pushAuthenticated
    dsimp only
    rw [mutate_eq hr.idle]
    dsimp only
    rw [hvalue]
    rfl
  rw [huse]
  rcases Option.eq_none_or_eq_some r.gapStartedAt with hg | ⟨s, hg⟩
  · refine .inr ⟨fun s hs => (by simp [hg] at hs), ?_⟩
    refine passed_push hr live ht hto hin hbuf (o := r.lastObservedAt) ?_ ?_
    · rw [hg]
      rfl
    · simp [checkGap, hg]
  · obtain ⟨o, ho, hle⟩ := hobs s hg
    have hcheck : checkGap { r with mutating := true } ⟨[], .value p.time⟩ =
        expireAt { r with mutating := true } p.time := by
      unfold checkGap
      rw [if_pos (by simp [hg]), readNow_value (by exact live) (by exact hr.noRequest) ht]
    have hexpire : expireAt { r with mutating := true } p.time =
        if p.time - s < r.gapTimeout then
          ({ r with mutating := true, lastObservedAt := some p.time }, .ok false)
        else failWith { r with mutating := true, lastObservedAt := some p.time } .gap := by
      unfold expireAt
      simp only [hg, ho, Option.getD_some]
      rw [if_neg (by omega)]
    by_cases hlt : p.time - s < r.gapTimeout
    · rw [if_pos hlt] at hexpire
      refine .inr ⟨fun s' hs' => ?_, ?_⟩
      · obtain rfl := Option.some.inj (hg.symm.trans hs')
        exact hlt
      · refine passed_push hr live ht hto hin hbuf (o := some p.time) ?_ (hcheck.trans hexpire)
        rw [hg]
        rfl
    · rw [if_neg hlt] at hexpire
      refine .inl ⟨s, hg, Nat.le_of_not_lt hlt, ?_⟩
      unfold push
      rw [if_neg (by simp [live]), hcheck, hexpire]
      rfl

theorem use_closed {r : OrderedReceiver} (hr : r.Rest) (hclosed : r.closed = true) {p : TimedPush}
    (hmax : p.counter ≤ r.maximum) : r.use p.use = (r, .failed .exhausted) := by
  have hvalue : counterValue p.counter r.maximum = .ok p.counter := by
    unfold counterValue
    rw [if_neg (by omega), Int.toNat_natCast]
  unfold TimedPush.use use pushAuthenticated
  dsimp only
  rw [mutate_eq hr.idle]
  dsimp only
  rw [hvalue]
  unfold push
  simp only [hclosed, if_true]
  have := finish_observed hr r.lastObservedAt
  rw [hclosed] at this
  rw [this, ← hclosed]

/-! ## Gaps of a sequence of pushes -/

/-- A counter not pushed, and one above it pushed. -/
def Skipped (initial : Nat) (l : List TimedPush) (d : Nat) : Prop :=
  initial ≤ d ∧ d ∉ l.map TimedPush.counter ∧ ∃ c ∈ l.map TimedPush.counter, d < c

/-- The first counter not pushed. -/
def IsNext (initial : Nat) (l : List TimedPush) (n : Nat) : Prop :=
  initial ≤ n ∧ n ∉ l.map TimedPush.counter ∧
    ∀ d, initial ≤ d → d < n → d ∈ l.map TimedPush.counter

/-- The push that skipped a counter when none was skipped, with some counter skipped ever since. -/
def Burst (initial : Nat) (l : List TimedPush) (q : TimedPush) : Prop :=
  ∃ pre mid, l = pre ++ q :: mid ∧ (∀ d, ¬ Skipped initial pre d) ∧
    ∀ m : List TimedPush, m.IsPrefix mid → ∃ d, Skipped initial (pre ++ q :: m) d

/-- Each skipped counter arrives within the timeout of the first push that skipped it. -/
def Prompt (initial timeout : Nat) (ps : List TimedPush) : Prop :=
  ∀ l q post, ps = l ++ q :: post → ∀ d, ¬ Skipped initial l d → Skipped initial (l ++ [q]) d →
    ∃ a ∈ post, a.counter = d ∧ a.time < q.time + timeout

/-- No push comes `timeout` or more after the one since which there has been a gap all along. -/
def Brief (initial timeout : Nat) (ps : List TimedPush) : Prop :=
  ∀ l a, (l ++ [a]).IsPrefix ps → ∀ q, Burst initial l q → a.time < q.time + timeout

/-- Pushes of payloads that can be buffered, with a clock that does not run backwards, and
no counter the window or more ahead of the next. -/
structure Orderly (r : OrderedReceiver) (ps : List TimedPush) : Prop where
  counter : ∀ p ∈ ps, p.counter ≤ r.maximum
  payload : ∀ p ∈ ps, copyForBuffer p.payload = some p.payload
  clock : ∀ p ∈ ps, isTime p.time
  times : ps.Pairwise fun p q => p.time ≤ q.time
  inside : ∀ l p, (l ++ [p]).IsPrefix ps → ∀ n, IsNext r.next l n → p.counter < n + r.window

def firstPayload (l : List TimedPush) (c : Nat) : Option Chunk :=
  l.findSome? fun p => if p.counter = c then some p.payload else none

theorem firstPayload_concat (l : List TimedPush) (p : TimedPush) (c : Nat) :
    firstPayload (l ++ [p]) c =
      (firstPayload l c).or (if p.counter = c then some p.payload else none) := by
  simp only [firstPayload, List.findSome?_append, List.findSome?_cons, List.findSome?_nil]
  split <;> simp_all

theorem firstPayload_isSome (l : List TimedPush) (c : Nat) :
    (firstPayload l c).isSome ↔ c ∈ l.map TimedPush.counter := by
  rw [firstPayload, List.findSome?_isSome_iff, List.mem_map]
  constructor
  · rintro ⟨p, hp, h⟩
    refine ⟨p, hp, ?_⟩
    split at h
    · assumption
    · cases h
  · rintro ⟨p, hp, rfl⟩
    exact ⟨p, hp, by simp⟩

theorem Burst.skipped {initial : Nat} {l : List TimedPush} {q : TimedPush}
    (h : Burst initial l q) : ∃ d, Skipped initial l d := by
  obtain ⟨pre, mid, rfl, -, hmid⟩ := h
  exact hmid mid (List.prefix_refl mid)

theorem Burst.start {initial : Nat} {l : List TimedPush} {a : TimedPush}
    (h : ∀ d, ¬ Skipped initial l d) (hs : ∃ d, Skipped initial (l ++ [a]) d) :
    Burst initial (l ++ [a]) a := by
  refine ⟨l, [], rfl, h, fun m hm => ?_⟩
  rw [List.prefix_nil.mp hm]
  exact hs

theorem Burst.extend {initial : Nat} {l : List TimedPush} {q : TimedPush}
    (h : Burst initial l q) {a : TimedPush} (hs : ∃ d, Skipped initial (l ++ [a]) d) :
    Burst initial (l ++ [a]) q := by
  obtain ⟨pre, mid, rfl, hpre, hmid⟩ := h
  refine ⟨pre, mid ++ [a], by simp, hpre, fun m hm => ?_⟩
  rcases List.prefix_concat_iff.mp hm with rfl | hm
  · rw [List.append_assoc] at hs
    exact hs
  · exact hmid m hm

theorem Burst.unique {initial : Nat} {l : List TimedPush} {q q' : TimedPush}
    (h : Burst initial l q) (h' : Burst initial l q') : q = q' := by
  obtain ⟨pre, mid, rfl, hpre, hmid⟩ := h
  obtain ⟨pre', mid', he, hpre', hmid'⟩ := h'
  rcases List.append_eq_append_iff.mp he with ⟨x, hx, hm⟩ | ⟨x, hx, hm⟩
  · cases x with
    | nil => exact (List.cons.inj hm).1
    | cons y x =>
      -- the second run of gaps would begin inside the first
      obtain ⟨rfl, rfl⟩ := List.cons.inj hm
      obtain ⟨d, hd⟩ := hmid x (List.prefix_append x _)
      rw [← hx] at hd
      exact (hpre' d hd).elim
  · cases x with
    | nil => exact (List.cons.inj hm).1.symm
    | cons y x =>
      obtain ⟨rfl, rfl⟩ := List.cons.inj hm
      obtain ⟨d, hd⟩ := hmid' x (List.prefix_append x _)
      rw [← hx] at hd
      exact (hpre d hd).elim

/-! ## The receiver after pushes that did not time out -/

/-- The receiver after the pushes `l`, with the history `h` of its calls. -/
structure Matched (r₀ : OrderedReceiver) (l : List TimedPush) (r : OrderedReceiver)
    (h : List (Use × Answer)) : Prop where
  rest : r.Rest
  history : History r₀.next r h
  now : r.now = true
  maximum : r.maximum = r₀.maximum
  window : r.window = r₀.window
  timeout : r.gapTimeout = r₀.gapTimeout
  counter : ∀ p ∈ l, p.counter ≤ r₀.maximum
  payload : ∀ c, r₀.next ≤ c → accepted c h = firstPayload l c
  spent : r.closed = true → r₀.next + (deliveries h).length = r.maximum + 1
  idle : r.gapStartedAt = none ↔ ∀ c, r.buffer.get? c = none

/-- The gap's time is that of the push that began the run of gaps, and the last observed one
that of a push. -/
structure Timed (r₀ : OrderedReceiver) (l : List TimedPush) (r : OrderedReceiver)
    (h : List (Use × Answer)) : Prop extends Matched r₀ l r h where
  since : ∀ s, r.gapStartedAt = some s → ∃ q, Burst r₀.next l q ∧ q.time = s
  observed : r.gapStartedAt.isSome → ∃ q ∈ l, r.lastObservedAt = some q.time

theorem Matched.mem_iff {r₀ r : OrderedReceiver} {l : List TimedPush} {h : List (Use × Answer)}
    (hm : Matched r₀ l r h) {c : Nat} (hc : r₀.next ≤ c) :
    c ∈ l.map TimedPush.counter ↔ (accepted c h).isSome := by
  rw [hm.payload c hc, firstPayload_isSome]

/-- Everything below the end of what was delivered has been pushed. -/
theorem Matched.mem_of_lt {r₀ r : OrderedReceiver} {l : List TimedPush} {h : List (Use × Answer)}
    (hm : Matched r₀ l r h) {c : Nat} (hc : r₀.next ≤ c)
    (hlt : c < r₀.next + (deliveries h).length) : c ∈ l.map TimedPush.counter := by
  rw [hm.mem_iff hc]
  have hi : c - r₀.next < (deliveries h).length := by omega
  have := hm.history.run (c - r₀.next) (deliveries h)[c - r₀.next] (List.getElem?_eq_getElem hi)
  rw [Nat.add_sub_cancel' hc] at this
  rw [this]
  rfl

theorem Matched.count {r₀ r : OrderedReceiver} {l : List TimedPush} {h : List (Use × Answer)}
    (hm : Matched r₀ l r h) (live : r.closed = false) :
    r₀.next + (deliveries h).length = r.next := by
  rcases hm.history.count hm.now with hn | ⟨hc, -, -⟩
  · exact hn
  · rw [live] at hc
    cases hc

theorem Matched.seen {r₀ r : OrderedReceiver} {l : List TimedPush} {h : List (Use × Answer)}
    (hm : Matched r₀ l r h) (live : r.closed = false) {c : Nat} (hc : r₀.next ≤ c) :
    c ∈ l.map TimedPush.counter ↔ c < r.next ∨ r.buffer.has c := by
  constructor
  · intro hmem
    rw [hm.mem_iff hc] at hmem
    by_contra hno
    rw [not_or, Nat.not_lt] at hno
    have hnone : r.buffer.get? c = none := by simpa [JsMap.has] using hno.2
    rw [hm.history.fresh live c hno.1 hnone] at hmem
    cases hmem
  · rintro (hlt | hhas)
    · exact hm.mem_of_lt hc (by rw [hm.count live]; exact hlt)
    · rw [hm.mem_iff hc]
      obtain ⟨p, hp⟩ := Option.isSome_iff_exists.mp hhas
      rw [hm.history.held c p hp]
      rfl

theorem Matched.not_skipped {r₀ r : OrderedReceiver} {l : List TimedPush}
    {h : List (Use × Answer)} (hm : Matched r₀ l r h) (hclosed : r.closed = true) (d : Nat) :
    ¬ Skipped r₀.next l d := by
  rintro ⟨hd, hout, c, hc, hlt⟩
  obtain ⟨p, hp, rfl⟩ := List.mem_map.mp hc
  have hle := hm.counter p hp
  refine hout (hm.mem_of_lt hd ?_)
  rw [hm.spent hclosed, hm.maximum]
  omega

theorem Matched.isNext {r₀ r : OrderedReceiver} {l : List TimedPush} {h : List (Use × Answer)}
    (hm : Matched r₀ l r h) (live : r.closed = false) : IsNext r₀.next l r.next := by
  have hle : r₀.next ≤ r.next := by
    rw [← hm.count live]
    omega
  refine ⟨hle, fun hmem => ?_, fun d hd hlt => (hm.seen live hd).mpr (.inl hlt)⟩
  rcases (hm.seen live hle).mp hmem with hlt | hhas
  · omega
  · obtain ⟨p, hp⟩ := Option.isSome_iff_exists.mp hhas
    have := (hm.rest.ahead _ p hp).1
    omega

theorem Matched.skipped_iff {r₀ r : OrderedReceiver} {l : List TimedPush}
    {h : List (Use × Answer)} (hm : Matched r₀ l r h) :
    (∃ d, Skipped r₀.next l d) ↔ r.gapStartedAt.isSome := by
  cases hcl : r.closed with
  | true =>
    rw [(hm.rest.closed hcl).2]
    exact ⟨fun ⟨d, hd⟩ => (hm.not_skipped hcl d hd).elim, fun hs => by cases hs⟩
  | false =>
    constructor
    · rintro ⟨d, hd, hout, c, hc, hlt⟩
      rw [Option.isSome_iff_ne_none]
      intro hnone
      have hempty := hm.idle.mp hnone c
      rcases (hm.seen hcl (by omega)).mp hc with hlt' | hhas
      · exact hout ((hm.seen hcl hd).mpr (.inl (by omega)))
      · rw [JsMap.has, hempty] at hhas
        cases hhas
    · intro hs
      have hne : ¬ ∀ c, r.buffer.get? c = none := by
        rw [← hm.idle]
        exact Option.isSome_iff_ne_none.mp hs
      obtain ⟨c, hc⟩ := not_forall.mp hne
      obtain ⟨p, hp⟩ := Option.ne_none_iff_exists'.mp hc
      obtain ⟨hle, hout, -⟩ := hm.isNext hcl
      have hahead := (hm.rest.ahead c p hp).1
      refine ⟨r.next, hle, hout, c, (hm.seen hcl (by omega)).mpr (.inr ?_), hahead⟩
      rw [JsMap.has, hp]
      rfl

/-! ## One push more -/

/-- A push of a counter that was pushed before is not the first of its counter. -/
theorem firstPayload_seen {initial : Nat} {l : List TimedPush} {a : TimedPush}
    (h : initial ≤ a.counter → a.counter ∈ l.map TimedPush.counter) {c : Nat} (hc : initial ≤ c) :
    firstPayload (l ++ [a]) c = firstPayload l c := by
  rw [firstPayload_concat]
  split
  · next hac =>
    subst hac
    obtain ⟨p, hp⟩ := Option.isSome_iff_exists.mp ((firstPayload_isSome l a.counter).mpr (h hc))
    rw [hp, Option.some_or]
  · rw [Option.or_none]

theorem acceptedBy_push (p : TimedPush) (ps : List Chunk) (c : Nat) :
    acceptedBy c (p.use, .delivered ps) = if p.counter = c then some p.payload else none := by
  simp [acceptedBy, TimedPush.use]

theorem Matched.counter_concat {r₀ r : OrderedReceiver} {l : List TimedPush}
    {h : List (Use × Answer)} (hm : Matched r₀ l r h) {a : TimedPush}
    (hmax : a.counter ≤ r₀.maximum) : ∀ p ∈ l ++ [a], p.counter ≤ r₀.maximum := by
  intro p hp
  rcases List.mem_append.mp hp with hp | hp
  · exact hm.counter p hp
  · rw [List.mem_singleton.mp hp]
    exact hmax

theorem Matched.passed {r₀ r r' : OrderedReceiver} {l : List TimedPush} {h : List (Use × Answer)}
    (hm : Matched r₀ l r h) (live : r.closed = false) {a : TimedPush} {ans : Answer}
    (hmax : a.counter ≤ r₀.maximum) (hused : Used r a.use r' ans) (hp : Passed r a r' ans) :
    Matched r₀ (l ++ [a]) r' (h ++ [(a.use, ans)]) := by
  have hrest := hused.rest hm.rest
  have hhistory := hm.history.step hm.rest hused
  have hcounter := hm.counter_concat hmax
  cases hp with
  | replay seen t ht =>
    refine ⟨hrest, hhistory, hm.now, hm.maximum, hm.window, hm.timeout, hcounter, fun c hc => ?_,
      fun hcl => ?_, hm.idle⟩
    · rw [accepted_snoc, acceptedBy_of_not_delivered (by simp), Option.or_none, hm.payload c hc]
      exact (firstPayload_seen (fun ha => (hm.seen live ha).mpr seen) hc).symm
    · rw [show r.closed = true from hcl] at live
      cases live
  | held ahead =>
    refine ⟨hrest, hhistory, hm.now, hm.maximum, hm.window, hm.timeout, hcounter, fun c hc => ?_,
      fun hcl => ?_, ?_⟩
    · rw [accepted_snoc, acceptedBy_push, hm.payload c hc, firstPayload_concat]
    · rw [show r.closed = true from hcl] at live
      cases live
    · refine ⟨fun hnone => (by cases hnone), fun hall => ?_⟩
      have := hall a.counter
      rw [JsMap.get?_set_self] at this
      cases this
  | delivered hnow _ ps timeout hd gap observed =>
    refine ⟨hrest, hhistory, hd.now.trans hm.now, hd.maximum.trans hm.maximum,
      hd.window.trans hm.window, timeout.trans hm.timeout, hcounter, fun c hc => ?_,
      fun hcl => ?_, ?_⟩
    · rw [accepted_snoc, acceptedBy_push, hm.payload c hc, firstPayload_concat]
    · rcases hd.next with ⟨hl, -⟩ | ⟨-, -, hend, -, -⟩
      · rw [hl] at hcl
        cases hcl
      · rw [deliveries_snoc, List.length_append, hd.maximum, List.length_cons, ← hend,
          ← hm.count live]
        omega
    · rw [gap, ← JsMap.size_eq_zero]
      by_cases hsize : r'.buffer.size = 0
      · rw [if_pos hsize]
        exact ⟨fun _ => hsize, fun _ => rfl⟩
      · rw [if_neg hsize, hm.idle]
        refine ⟨fun hall => (hsize ?_).elim, fun h0 => (hsize h0).elim⟩
        rw [JsMap.size_eq_zero]
        intro c
        rcases hd.next with ⟨-, -, -, -, hb⟩ | ⟨-, -, -, hempty, -⟩
        · rw [hb c, hall c, ite_self]
        · rw [hempty, JsMap.get?_empty]

theorem Timed.passed {r₀ r r' : OrderedReceiver} {l : List TimedPush} {h : List (Use × Answer)}
    (hm : Timed r₀ l r h) (live : r.closed = false) {a : TimedPush} {ans : Answer}
    (hmax : a.counter ≤ r₀.maximum) (hused : Used r a.use r' ans) (hp : Passed r a r' ans) :
    Timed r₀ (l ++ [a]) r' (h ++ [(a.use, ans)]) := by
  have hnew := hm.toMatched.passed live hmax hused hp
  have hmem : ∀ {t : Option Nat}, (∃ q ∈ l, t = some q.time) → ∃ q ∈ l ++ [a], t = some q.time :=
    fun ⟨q, hq, ht⟩ => ⟨q, List.mem_append_left _ hq, ht⟩
  have hlast : ∃ q ∈ l ++ [a], some a.time = some q.time := ⟨a, by simp, rfl⟩
  have hextend : ∀ s, r'.gapStartedAt = some s → r.gapStartedAt = some s →
      ∃ q, Burst r₀.next (l ++ [a]) q ∧ q.time = s := by
    intro s hs' hs
    obtain ⟨q, hq, hqs⟩ := hm.since s hs
    exact ⟨q, hq.extend (hnew.skipped_iff.mpr (by rw [hs']; rfl)), hqs⟩
  refine ⟨hnew, ?_, ?_⟩
  · intro s hs
    cases hp with
    | replay seen t ht => exact hextend s hs hs
    | held ahead =>
      rcases Option.eq_none_or_eq_some r.gapStartedAt with hg | ⟨s', hg⟩
      · have hs : r.gapStartedAt.getD a.time = s := Option.some.inj hs
        rw [hg] at hs
        refine ⟨a, .start (fun d hd => ?_) (hnew.skipped_iff.mpr rfl), hs⟩
        have := hm.toMatched.skipped_iff.mp ⟨d, hd⟩
        rw [hg] at this
        cases this
      · refine hextend s hs ?_
        have hs : r.gapStartedAt.getD a.time = s := Option.some.inj hs
        rw [hg] at hs ⊢
        exact congrArg some hs
    | delivered hnow _ ps timeout hd gap observed =>
      refine hextend s hs ?_
      rw [gap] at hs
      split at hs
      · cases hs
      · exact hs
  · intro hs
    cases hp with
    | replay seen t ht =>
      rcases ht with rfl | rfl
      · exact hmem (hm.observed hs)
      · exact hlast
    | held ahead => exact hlast
    | delivered hnow _ ps timeout hd gap observed =>
      rw [observed hs]
      exact hlast

/-- A push that times out comes the timeout after the run of gaps began, and any other keeps
the receiver matched. -/
theorem Timed.step {r₀ r : OrderedReceiver} {l : List TimedPush} {h : List (Use × Answer)}
    (hto : 0 < r₀.gapTimeout) (hm : Timed r₀ l r h) {a : TimedPush}
    (hmax : a.counter ≤ r₀.maximum) (ht : isTime a.time)
    (hbuf : copyForBuffer a.payload = some a.payload)
    (hin : ∀ n, IsNext r₀.next l n → a.counter < n + r₀.window)
    (htimes : ∀ q ∈ l, q.time ≤ a.time) :
    ((r.use a.use).2 = .failed .gap ∧
      ∃ q, Burst r₀.next l q ∧ q.time + r₀.gapTimeout ≤ a.time) ∨
    ((r.use a.use).2 ≠ .failed .gap ∧
      (∀ q, Burst r₀.next l q → a.time < q.time + r₀.gapTimeout) ∧
      Timed r₀ (l ++ [a]) (r.use a.use).1 (h ++ [(a.use, (r.use a.use).2)])) := by
  have hused := used_use hm.rest a.use
  have hmax' : a.counter ≤ r.maximum := by rw [hm.maximum]; exact hmax
  cases hcl : r.closed with
  | true =>
    have huse := use_closed hm.rest hcl hmax'
    have hout := hm.toMatched.not_skipped hcl
    rw [huse] at hused ⊢
    refine .inr ⟨by simp, fun q hq => (hout _ hq.skipped.choose_spec).elim, ?_⟩
    have hcounter := hm.toMatched.counter_concat hmax
    have hgap := (hm.rest.closed hcl).2
    refine ⟨⟨hm.rest, hm.history.step hm.rest hused, hm.now, hm.maximum, hm.window, hm.timeout,
      hcounter, fun c hc => ?_, fun _ => ?_, hm.idle⟩, fun s hs => ?_, fun hs => ?_⟩
    · rw [accepted_snoc, acceptedBy_of_not_delivered (by simp), Option.or_none, hm.payload c hc]
      refine (firstPayload_seen (fun ha => hm.toMatched.mem_of_lt ha ?_) hc).symm
      rw [hm.spent hcl]
      omega
    · rw [deliveries_snoc, List.append_nil]
      exact hm.spent hcl
    · rw [hgap] at hs
      cases hs
    · rw [hgap] at hs
      cases hs
  | false =>
    have hto' : 0 < r.gapTimeout := by rw [hm.timeout]; exact hto
    have hin' : a.counter < r.next + r.window := by
      rw [hm.window]
      exact hin r.next (hm.toMatched.isNext hcl)
    rcases use_timed hm.rest hcl hmax' ht hto' hin' hbuf (fun s hs => by
      obtain ⟨q, hq, ho⟩ := hm.observed (by rw [hs]; rfl)
      exact ⟨q.time, ho, htimes q hq⟩) with ⟨s, hs, hle, hfail⟩ | ⟨hlt, hp⟩
    · obtain ⟨q, hq, rfl⟩ := hm.since s hs
      refine .inl ⟨hfail, q, hq, ?_⟩
      rw [hm.timeout] at hle
      omega
    · refine .inr ⟨?_, fun q hq => ?_, hm.passed hcl hmax hused hp⟩
      · generalize (r.use a.use).1 = r', (r.use a.use).2 = ans at hp
        cases hp <;> simp
      · obtain ⟨s, hs⟩ := Option.isSome_iff_exists.mp (hm.toMatched.skipped_iff.mp hq.skipped)
        obtain ⟨q', hq', rfl⟩ := hm.since s hs
        have := hlt _ hs
        rw [hm.timeout] at this
        rw [hq.unique hq']
        omega

/-! ## Runs of pushes -/

theorem uses_concat (r : OrderedReceiver) (us : List Use) (u : Use) :
    r.uses (us ++ [u]) = (((r.uses us).1.use u).1,
      (r.uses us).2 ++ [(u, ((r.uses us).1.use u).2)]) := by
  induction us generalizing r with
  | nil => rfl
  | cons v us ih =>
    show ((uses (r.use v).1 (us ++ [u])).1, (v, (r.use v).2) :: (uses (r.use v).1 (us ++ [u])).2) = _
    rw [ih]
    rfl

theorem timed_new {options : ReceiverOptions} {r₀ : OrderedReceiver} (h : new options = .ok r₀) :
    Timed r₀ [] r₀ [] := by
  obtain ⟨hrest, hhistory, hnow, -⟩ := rest_new h
  have hfresh : r₀.closed = false ∧ r₀.gapStartedAt = none ∧ r₀.buffer = .empty := by
    unfold new at h
    split at h
    · cases h
    · split at h
      · cases h
      · cases hm : counterValue (options.maximum.getD maxCounter) maxCounter with
        | error e => simp [hm, bind, Except.bind] at h
        | ok maximum =>
          cases hn : counterValue (options.initial.getD 0) maximum with
          | error e => simp [hm, hn, bind, Except.bind] at h
          | ok next =>
            simp only [hm, hn, bind, Except.bind, pure, Except.pure, Except.ok.injEq] at h
            subst h
            exact ⟨rfl, rfl, rfl⟩
  obtain ⟨hcl, hgap, hbuf⟩ := hfresh
  refine ⟨⟨hrest, hhistory, hnow, rfl, rfl, rfl, fun _ hp => (List.not_mem_nil hp).elim,
    fun _ _ => rfl, fun hc => ?_, ⟨fun _ c => ?_, fun _ => hgap⟩⟩, fun s hs => ?_, fun hs => ?_⟩
  · rw [hcl] at hc
    cases hc
  · rw [hbuf, JsMap.get?_empty]
  · rw [hgap] at hs
    cases hs
  · rw [hgap] at hs
    cases hs

/-- Up to the first timeout the receiver is matched. -/
theorem timed_run {options : ReceiverOptions} {r₀ : OrderedReceiver} (hnew : new options = .ok r₀)
    (hto : 0 < r₀.gapTimeout) {ps : List TimedPush} (ho : Orderly r₀ ps) (l : List TimedPush)
    (hl : l.IsPrefix ps) :
    ((∀ e ∈ (r₀.uses (l.map TimedPush.use)).2, e.2 ≠ .failed .gap) ↔
      Brief r₀.next r₀.gapTimeout l) ∧
    (Brief r₀.next r₀.gapTimeout l →
      Timed r₀ l (r₀.uses (l.map TimedPush.use)).1 (r₀.uses (l.map TimedPush.use)).2) := by
  induction l using List.reverseRecOn with
  | nil =>
    refine ⟨⟨fun _ l a hla => ?_, fun _ e he => (List.not_mem_nil he).elim⟩, fun _ => timed_new hnew⟩
    have := List.prefix_nil.mp hla
    simp at this
  | append_singleton l a ih =>
    obtain ⟨hiff, htimed⟩ := ih ((List.prefix_append l [a]).trans hl)
    have hbrief : Brief r₀.next r₀.gapTimeout (l ++ [a]) ↔ Brief r₀.next r₀.gapTimeout l ∧
        ∀ q, Burst r₀.next l q → a.time < q.time + r₀.gapTimeout := by
      constructor
      · exact fun hb => ⟨fun l' a' hp => hb l' a' (hp.trans (List.prefix_append l [a])),
          hb l a (List.prefix_refl _)⟩
      · rintro ⟨hb, hlast⟩ l' a' hp
        rcases List.prefix_concat_iff.mp hp with he | hp
        · obtain ⟨rfl, ha⟩ := List.append_inj' he rfl
          obtain rfl := List.singleton_inj.mp ha
          exact hlast
        · exact hb l' a' hp
    have hmem : a ∈ ps := hl.subset (by simp)
    have htimes : ∀ q ∈ l, q.time ≤ a.time := by
      intro q hq
      have := ho.times.sublist hl.sublist
      exact (List.pairwise_append.mp this).2.2 q hq a (by simp)
    rw [List.map_append, List.map_singleton, uses_concat, hbrief]
    dsimp only
    rw [List.forall_mem_append, List.forall_mem_singleton, hiff]
    refine ⟨and_congr_right fun hb => ?_, fun ⟨hb, hlast⟩ => ?_⟩
    · rcases (htimed hb).step hto (ho.counter a hmem) (ho.clock a hmem) (ho.payload a hmem)
        (ho.inside l a hl) htimes with ⟨hfail, q, hq, hle⟩ | ⟨hne, hlast, -⟩
      · refine ⟨fun hne => (hne hfail).elim, fun hlast => ?_⟩
        have := hlast q hq
        omega
      · exact ⟨fun _ => hlast, fun _ => hne⟩
    · rcases (htimed hb).step hto (ho.counter a hmem) (ho.clock a hmem) (ho.payload a hmem)
        (ho.inside l a hl) htimes with ⟨hfail, q, hq, hle⟩ | ⟨-, -, hnext⟩
      · have := hlast q hq
        omega
      · exact hnext

/-- A receiver without a gap has delivered every payload pushed to it. -/
theorem Timed.delivered {r₀ r : OrderedReceiver} {l : List TimedPush} {h : List (Use × Answer)}
    (hm : Timed r₀ l r h) (hout : ∀ d, ¬ Skipped r₀.next l d) {c : Nat} {payload : Chunk}
    (hc : r₀.next ≤ c) (hp : firstPayload l c = some payload) :
    (deliveries h)[c - r₀.next]? = some payload := by
  have hmem : c ∈ l.map TimedPush.counter := (firstPayload_isSome l c).mp (by rw [hp]; rfl)
  have hlt : c < r₀.next + (deliveries h).length := by
    cases hcl : r.closed with
    | true =>
      obtain ⟨p, hpl, rfl⟩ := List.mem_map.mp hmem
      have := hm.counter p hpl
      rw [hm.spent hcl, hm.maximum]
      omega
    | false =>
      have hnone : r.gapStartedAt = none := by
        rw [← Option.not_isSome_iff_eq_none, ← hm.toMatched.skipped_iff]
        exact fun ⟨d, hd⟩ => hout d hd
      rcases (hm.toMatched.seen hcl hc).mp hmem with hlt | hhas
      · rw [hm.toMatched.count hcl]
        exact hlt
      · rw [JsMap.has, hm.idle.mp hnone c] at hhas
        cases hhas
  have hi : c - r₀.next < (deliveries h).length := by omega
  have hrun := hm.history.run (c - r₀.next) _ (List.getElem?_eq_getElem hi)
  rw [Nat.add_sub_cancel' hc, hm.payload c hc, hp] at hrun
  rw [List.getElem?_eq_getElem hi, hrun]

/-- A receiver fed inside its window times out exactly when some run of gaps lasts until a
push that comes the timeout or more after the one that began it; otherwise every payload is
delivered once no counter is skipped any more. -/
theorem gap_timeout_iff (options : ReceiverOptions) (r₀ : OrderedReceiver)
    (hnew : new options = .ok r₀) (hto : 0 < r₀.gapTimeout) (ps : List TimedPush)
    (ho : Orderly r₀ ps) :
    ((∀ e ∈ (r₀.uses (ps.map TimedPush.use)).2, e.2 ≠ .failed .gap) ↔
      Brief r₀.next r₀.gapTimeout ps) ∧
    (Brief r₀.next r₀.gapTimeout ps → (∀ d, ¬ Skipped r₀.next ps d) →
      ∀ c payload, r₀.next ≤ c → firstPayload ps c = some payload →
        (deliveries (r₀.uses (ps.map TimedPush.use)).2)[c - r₀.next]? = some payload) := by
  obtain ⟨hiff, htimed⟩ := timed_run hnew hto ho ps (List.prefix_refl ps)
  exact ⟨hiff, fun hb hout c payload hc hp => (htimed hb).delivered hout hc hp⟩

/-- Two counters that change places within ten milliseconds. -/
theorem gap_timeout_swapped : ∃ r₀, new ⟨4, 10, none, none⟩ = .ok r₀ ∧ 0 < r₀.gapTimeout ∧
    Orderly r₀ [⟨1, .text "b", 0⟩, ⟨0, .text "a", 5⟩] ∧
    Brief r₀.next r₀.gapTimeout [⟨1, .text "b", 0⟩, ⟨0, .text "a", 5⟩] := by
  have ho : Orderly ⟨4, 10, true, 0, maxCounter, .empty, none, none, false, false, false⟩
      [⟨1, .text "b", 0⟩, ⟨0, .text "a", 5⟩] := by
    refine ⟨by decide, by decide, by decide, by decide, fun l p hl n _ => ?_⟩
    have hp := hl.subset (List.mem_append_right l (List.mem_singleton_self p))
    have hle : p.counter ≤ 1 := by
      simp at hp
      rcases hp with rfl | rfl <;> simp
    show p.counter < n + 4
    omega
  exact ⟨_, rfl, by decide, ho, (gap_timeout_iff ⟨4, 10, none, none⟩ _ rfl (by decide) _ ho).1.mp
    (by decide)⟩

/-- Three gaps of six, six and four milliseconds that overlap: the third delays a push past
the timeout of the first. -/
theorem not_prompt_delivers : ¬ ∀ (options : ReceiverOptions) (r₀ : OrderedReceiver),
    new options = .ok r₀ → 0 < r₀.gapTimeout → ∀ ps : List TimedPush, Orderly r₀ ps →
    Prompt r₀.next r₀.gapTimeout ps →
    ∀ e ∈ (r₀.uses (ps.map TimedPush.use)).2, e.2 ≠ .failed .gap := by
  intro h
  have hprompt : Prompt 0 10 [⟨1, .text "b", 0⟩, ⟨3, .text "d", 5⟩, ⟨0, .text "a", 6⟩,
      ⟨5, .text "f", 8⟩, ⟨2, .text "c", 11⟩, ⟨4, .text "e", 12⟩] := by
    intro l q post he d hno hsk
    obtain ⟨-, hout, c, hc, hlt⟩ := hsk
    simp only [Skipped, not_and, not_exists] at hno
    rcases l with _ | ⟨x₀, _ | ⟨x₁, _ | ⟨x₂, _ | ⟨x₃, _ | ⟨x₄, _ | ⟨x₅, l⟩⟩⟩⟩⟩⟩
    -- the first, the second and the fourth push skip 0, 2 and 4
    · simp at he hc hout hno
      obtain ⟨rfl, rfl⟩ := he
      obtain rfl : d = 0 := by dsimp only at hc; omega
      exact ⟨⟨0, .text "a", 6⟩, by simp, rfl, by decide⟩
    · simp at he hc hout hno
      obtain ⟨rfl, rfl, rfl⟩ := he
      obtain rfl : d = 2 := by dsimp only at hc hout hno; omega
      exact ⟨⟨2, .text "c", 11⟩, by simp, rfl, by decide⟩
    · simp at he hc hout hno
      obtain ⟨rfl, rfl, rfl, rfl⟩ := he
      dsimp only at hc hout hno
      omega
    · simp at he hc hout hno
      obtain ⟨rfl, rfl, rfl, rfl, rfl⟩ := he
      obtain rfl : d = 4 := by dsimp only at hc hout hno; omega
      exact ⟨⟨4, .text "e", 12⟩, by simp, rfl, by decide⟩
    · simp at he hc hout hno
      obtain ⟨rfl, rfl, rfl, rfl, rfl, rfl⟩ := he
      dsimp only at hc hout hno
      omega
    · simp at he hc hout hno
      obtain ⟨rfl, rfl, rfl, rfl, rfl, rfl, rfl⟩ := he
      dsimp only at hc hout hno
      omega
    · simp at he
  have hrun := h ⟨8, 10, none, none⟩ _ rfl (by decide)
    [⟨1, .text "b", 0⟩, ⟨3, .text "d", 5⟩, ⟨0, .text "a", 6⟩, ⟨5, .text "f", 8⟩,
      ⟨2, .text "c", 11⟩, ⟨4, .text "e", 12⟩] ?_ ?_
  · revert hrun
    decide
  · refine ⟨by decide, by decide, by decide, by decide, fun l p hl n _ => ?_⟩
    have hp := hl.subset (List.mem_append_right l (List.mem_singleton_self p))
    have hle : p.counter ≤ 5 := by
      simp at hp
      rcases hp with rfl | rfl | rfl | rfl | rfl | rfl <;> simp
    show p.counter < n + 8
    omega
  · exact hprompt

end OrderedReceiver

end HyperDht.Private
