import HyperDht.Lib.Bits
import HyperDht.Private.Counters
import Mathlib.Data.Finset.Max
import Mathlib.Data.Nat.Bitwise

/-!
# The replay window of datagrams

`DatagramReplayWindow` accepts each authenticated counter once, in any order,
as long as it is less than a window behind the highest one. It keeps the highest
counter and a bitmap of the ones below it. `AcceptedSet` says what it is for: it
keeps every counter ever accepted. The window refines it over every sequence of
calls (`refines_acceptedSet`).
-/

namespace HyperDht.Private

def rotationAt (maximum : Nat) : Nat := if 1024 < maximum then maximum - 1024 else 0

structure DatagramReplayWindow where
  window : Nat
  mask : Nat
  highest : Option Nat
  maximum : Nat
  rotateAt : Nat
  bitmap : Nat
  closed : Bool
  deriving DecidableEq, Repr

namespace DatagramReplayWindow

/-- The constructor; an absent `maximum` has its default. -/
def new (window : Int) (maximum : Option Int) : Except CounterError DatagramReplayWindow :=
  if window < 1 ∨ (maxWindow : Int) < window then .error .invalid
  else do
    let maximum ← counterValue (maximum.getD maxCounter) maxCounter
    return ⟨window.toNat, (1 <<< window.toNat) - 1, none, maximum, rotationAt maximum, 0, false⟩

def floor (r : DatagramReplayWindow) : Nat :=
  match r.highest with
  | none => 0
  | some highest => if highest < r.window then 0 else highest - r.window + 1

def needsRotation (r : DatagramReplayWindow) : Bool :=
  match r.highest with
  | none => false
  | some highest => r.rotateAt ≤ highest

def buffered (r : DatagramReplayWindow) : Nat := bitCount r.bitmap

def acceptAuthenticated (r : DatagramReplayWindow) (value : Int) :
    DatagramReplayWindow × Except CounterError Unit :=
  match counterValue value r.maximum with
  | .error e => (r, .error e)
  | .ok counter =>
    if r.closed then (r, .error .exhausted)
    else
      match r.highest with
      | none =>
        ({ r with
          highest := some counter
          bitmap := 1
          closed := r.closed || counter == r.maximum }, .ok ())
      | some highest =>
        if highest < counter then
          let shift := counter - highest
          ({ r with
            bitmap := if r.window ≤ shift then 1 else ((r.bitmap <<< shift) ||| 1) &&& r.mask
            highest := some counter
            closed := r.closed || counter == r.maximum }, .ok ())
        else if counter < r.floor then (r, .error .replay)
        else
          let bit := 1 <<< (highest - counter)
          if r.bitmap &&& bit ≠ 0 then (r, .error .replay)
          else ({ r with bitmap := r.bitmap ||| bit }, .ok ())

def destroy (r : DatagramReplayWindow) : DatagramReplayWindow :=
  { r with highest := none, bitmap := 0, closed := true }

/-- A sequence of calls, with what each of them gives. -/
def accepts (r : DatagramReplayWindow) : List Int →
    DatagramReplayWindow × List (Except CounterError Unit)
  | [] => (r, [])
  | value :: values =>
    let (r, result) := r.acceptAuthenticated value
    let (r, results) := r.accepts values
    (r, result :: results)

/-- The counters that a sequence of calls accepts, in order. -/
def accepted (r : DatagramReplayWindow) : List Int → List Nat
  | [] => []
  | value :: values =>
    match r.acceptAuthenticated value with
    | (r, .ok _) => value.toNat :: r.accepted values
    | (r, .error _) => r.accepted values

end DatagramReplayWindow

/-! ## The specification -/

/-- What a replay window is for: all counters ever accepted. -/
structure AcceptedSet where
  window : Nat
  maximum : Nat
  counters : Finset Nat

namespace AcceptedSet

def highest (s : AcceptedSet) : Option Nat :=
  if h : s.counters.Nonempty then some (s.counters.max' h) else none

/-- The counter is a window or more behind the highest one. -/
def behind (s : AcceptedSet) (counter : Nat) : Bool :=
  s.highest.any fun highest : Nat => (counter : Int) ≤ highest - s.window

/-- A valid counter is accepted unless the maximum has been, it has been itself,
or it is too far behind. -/
def accept (s : AcceptedSet) (value : Int) : AcceptedSet × Except CounterError Unit :=
  match counterValue value s.maximum with
  | .error e => (s, .error e)
  | .ok counter =>
    if s.maximum ∈ s.counters then (s, .error .exhausted)
    else if counter ∈ s.counters ∨ s.behind counter then (s, .error .replay)
    else ({ s with counters := insert counter s.counters }, .ok ())

def accepts (s : AcceptedSet) : List Int → AcceptedSet × List (Except CounterError Unit)
  | [] => (s, [])
  | value :: values =>
    let (s, result) := s.accept value
    let (s, results) := s.accepts values
    (s, result :: results)

theorem highest_eq_some {s : AcceptedSet} {highest : Nat} :
    s.highest = some highest ↔ highest ∈ s.counters ∧ ∀ c ∈ s.counters, c ≤ highest := by
  unfold AcceptedSet.highest
  split
  · next h =>
    rw [Option.some.injEq]
    constructor
    · rintro rfl
      exact ⟨s.counters.max'_mem h, fun c hc => s.counters.le_max' c hc⟩
    · rintro ⟨hmem, hle⟩
      exact le_antisymm (hle _ (s.counters.max'_mem h)) (s.counters.le_max' _ hmem)
  · next h =>
    constructor
    · intro h'
      cases h'
    · rintro ⟨hmem, -⟩
      exact absurd ⟨highest, hmem⟩ h

theorem highest_eq_none {s : AcceptedSet} : s.highest = none ↔ s.counters = ∅ := by
  unfold AcceptedSet.highest
  split
  · next h => simp [h.ne_empty]
  · next h => simp [Finset.not_nonempty_iff_eq_empty.mp h]

end AcceptedSet

/-! ## The refinement -/

namespace DatagramReplayWindow

/-- The window stands for a set of accepted counters. -/
structure Refines (s : AcceptedSet) (r : DatagramReplayWindow) : Prop where
  window : r.window = s.window
  maximum : r.maximum = s.maximum
  highest : r.highest = s.highest
  floor : ∀ highest, r.highest = some highest → (r.floor : Int) = max 0 ((highest : Int) - r.window + 1)
  bitmap : ∀ i, r.bitmap.testBit i = true ↔
    ∃ c ∈ s.counters, r.floor ≤ c ∧ r.highest = some (c + i)
  buffered : r.buffered = (s.counters.filter fun c => r.floor ≤ c).card
  closed : r.closed = true ↔ s.maximum ∈ s.counters

/-- The invariant behind `Refines`: bit `i` stands for the counter `i` below the
highest one. -/
structure Tracks (s : AcceptedSet) (r : DatagramReplayWindow) : Prop where
  window : r.window = s.window
  pos : 1 ≤ r.window
  mask : r.mask = 2 ^ r.window - 1
  maximum : r.maximum = s.maximum
  highest : r.highest = s.highest
  empty : r.highest = none → r.bitmap = 0
  bits : ∀ highest, r.highest = some highest → ∀ i, r.bitmap.testBit i = true ↔
    i < r.window ∧ i ≤ highest ∧ highest - i ∈ s.counters
  closed : r.closed = true ↔ s.maximum ∈ s.counters
  le : ∀ c ∈ s.counters, c ≤ s.maximum

theorem floor_le_iff {r : DatagramReplayWindow} {highest c : Nat} (h : r.highest = some highest) :
    r.floor ≤ c ↔ highest < c + r.window := by
  unfold floor
  rw [h]
  dsimp only
  split
  · omega
  · omega

theorem Tracks.refines {s : AcceptedSet} {r : DatagramReplayWindow} (h : Tracks s r) :
    Refines s r := by
  have hbits : ∀ i, r.bitmap.testBit i = true ↔
      ∃ c ∈ s.counters, r.floor ≤ c ∧ r.highest = some (c + i) := by
    intro i
    cases hh : r.highest with
    | none =>
      rw [h.empty hh]
      simp
    | some highest =>
      rw [h.bits highest hh]
      constructor
      · rintro ⟨hw, hi, hmem⟩
        refine ⟨highest - i, hmem, (floor_le_iff hh).mpr (by omega), ?_⟩
        rw [Nat.sub_add_cancel hi]
      · rintro ⟨c, hc, hf, he⟩
        obtain rfl := Option.some.inj he
        rw [floor_le_iff hh] at hf
        rw [Nat.add_sub_cancel]
        exact ⟨by omega, by omega, hc⟩
  refine ⟨h.window, h.maximum, h.highest, fun highest hh => ?_, hbits, ?_, h.closed⟩
  · unfold floor
    rw [hh]
    dsimp only
    split
    · omega
    · omega
  · cases hh : r.highest with
    | none =>
      have hnone := AcceptedSet.highest_eq_none.mp (h.highest.symm.trans hh)
      unfold buffered
      rw [h.empty hh, bitCount_zero, hnone]
      rfl
    | some highest =>
      have hle := (AcceptedSet.highest_eq_some.mp (h.highest.symm.trans hh)).2
      have hmem : ∀ c, c ∈ s.counters.filter (fun c => r.floor ≤ c) → c ≤ highest := fun c hc =>
        hle c (Finset.mem_filter.mp hc).1
      apply bitCount_eq_card fun c => highest - c
      · intro a ha b hb he
        have h₁ := hmem a ha
        have h₂ := hmem b hb
        omega
      · intro i
        rw [hbits]
        constructor
        · rintro ⟨c, hc, hf, he⟩
          rw [hh, Option.some.injEq] at he
          exact ⟨c, Finset.mem_filter.mpr ⟨hc, hf⟩, by omega⟩
        · rintro ⟨c, hc, he⟩
          obtain ⟨hc', hf⟩ := Finset.mem_filter.mp hc
          have := hmem c hc
          exact ⟨c, hc', hf, by rw [hh, Option.some.injEq]; omega⟩

theorem Tracks.ahead {s : AcceptedSet} {r : DatagramReplayWindow} (h : Tracks s r) {counter : Nat}
    (hle : counter ≤ s.maximum) (hopen : s.maximum ∉ s.counters)
    (hahead : ∀ c ∈ s.counters, c < counter) {bitmap : Nat}
    (hbits : ∀ i, bitmap.testBit i = true ↔
      i < r.window ∧ i ≤ counter ∧ (i = 0 ∨ counter - i ∈ s.counters)) :
    Tracks { s with counters := insert counter s.counters } { r with
      highest := some counter, bitmap, closed := r.closed || counter == r.maximum } where
  window := h.window
  pos := h.pos
  mask := h.mask
  maximum := h.maximum
  highest := by
    symm
    rw [AcceptedSet.highest_eq_some]
    refine ⟨Finset.mem_insert_self _ _, fun c hc => ?_⟩
    rcases Finset.mem_insert.mp hc with rfl | hc
    · exact le_rfl
    · exact (hahead c hc).le
  empty hh := by cases hh
  bits highest hh i := by
    obtain rfl := Option.some.inj hh
    have hself : i ≤ counter → (counter - i = counter ↔ i = 0 ∨ counter = 0) := fun _ => by omega
    show bitmap.testBit i = true ↔ i < r.window ∧ i ≤ counter ∧ counter - i ∈ insert counter s.counters
    rw [hbits, Finset.mem_insert]
    constructor
    · rintro ⟨hw, hi, h0 | hmem⟩
      · exact ⟨hw, hi, .inl (by omega)⟩
      · exact ⟨hw, hi, .inr hmem⟩
    · rintro ⟨hw, hi, h0 | hmem⟩
      · exact ⟨hw, hi, .inl (by omega)⟩
      · exact ⟨hw, hi, .inr hmem⟩
  closed := by
    have hc : r.closed = false := Bool.eq_false_iff.mpr fun hc => hopen (h.closed.mp hc)
    show (r.closed || counter == r.maximum) = true ↔ s.maximum ∈ insert counter s.counters
    rw [hc, h.maximum, Bool.false_or, beq_iff_eq, Finset.mem_insert, or_iff_left hopen]
    exact eq_comm
  le c hc := by
    rcases Finset.mem_insert.mp hc with rfl | hc
    · exact hle
    · exact h.le c hc

/-- A counter below the highest one that is not yet accepted. -/
theorem Tracks.fill {s : AcceptedSet} {r : DatagramReplayWindow} (h : Tracks s r)
    {counter highest : Nat} (hh : r.highest = some highest) (hopen : s.maximum ∉ s.counters)
    (hle : counter ≤ highest) (hnear : highest < counter + r.window) :
    Tracks { s with counters := insert counter s.counters }
      { r with bitmap := r.bitmap ||| 1 <<< (highest - counter) } := by
  obtain ⟨hmem, hmax⟩ := AcceptedSet.highest_eq_some.mp (h.highest.symm.trans hh)
  have hlt : counter ≠ s.maximum := by
    rintro rfl
    have := h.le highest hmem
    exact hopen (by rwa [show s.maximum = highest by omega])
  refine ⟨h.window, h.pos, h.mask, h.maximum, ?_, fun hn => absurd (hh.symm.trans hn) (by simp),
    fun highest' hh' i => ?_, ?_, fun c hc => ?_⟩
  · show r.highest = _
    rw [hh]
    symm
    rw [AcceptedSet.highest_eq_some]
    refine ⟨Finset.mem_insert_of_mem hmem, fun c hc => ?_⟩
    rcases Finset.mem_insert.mp hc with rfl | hc
    · exact hle
    · exact hmax c hc
  · obtain rfl := Option.some.inj (hh.symm.trans hh')
    show (r.bitmap ||| 1 <<< (highest - counter)).testBit i = true ↔
      i < r.window ∧ i ≤ highest ∧ highest - i ∈ insert counter s.counters
    rw [Nat.testBit_or, Bool.or_eq_true, h.bits highest hh, Nat.one_shiftLeft, Nat.testBit_two_pow,
      decide_eq_true_eq, Finset.mem_insert]
    constructor
    · rintro (⟨hw, hi, hc⟩ | he)
      · exact ⟨hw, hi, .inr hc⟩
      · exact ⟨by omega, by omega, .inl (by omega)⟩
    · rintro ⟨hw, hi, hc | hc⟩
      · exact .inr (by omega)
      · exact .inl ⟨hw, hi, hc⟩
  · show r.closed = true ↔ s.maximum ∈ insert counter s.counters
    rw [h.closed, Finset.mem_insert, or_iff_right (Ne.symm hlt)]
  · rcases Finset.mem_insert.mp hc with rfl | hc
    · exact hle.trans (h.le highest hmem)
    · exact h.le c hc

theorem testBit_shifted {r : DatagramReplayWindow} (hmask : r.mask = 2 ^ r.window - 1)
    (shift i : Nat) : (((r.bitmap <<< shift) ||| 1) &&& r.mask).testBit i = true ↔
      i < r.window ∧ (i = 0 ∨ shift ≤ i ∧ r.bitmap.testBit (i - shift) = true) := by
  have hone : Nat.testBit 1 i = true ↔ i = 0 := by
    rw [show (1 : Nat) = 2 ^ 0 from rfl, Nat.testBit_two_pow, decide_eq_true_eq]
    exact eq_comm
  rw [Nat.testBit_and, Nat.testBit_or, Nat.testBit_shiftLeft, hmask, Nat.testBit_two_pow_sub_one,
    Bool.and_eq_true, Bool.or_eq_true, Bool.and_eq_true, decide_eq_true_eq, decide_eq_true_eq, hone,
    and_comm, or_comm]

theorem and_bit_ne_zero (n i : Nat) : n &&& 1 <<< i ≠ 0 ↔ n.testBit i = true := by
  rw [Nat.one_shiftLeft, Nat.and_two_pow]
  cases n.testBit i with
  | false => simp
  | true => simp

/-- A counter is too far behind exactly when it is below the floor. -/
theorem Tracks.behind {s : AcceptedSet} {r : DatagramReplayWindow} (h : Tracks s r)
    {counter highest : Nat} (hh : r.highest = some highest) :
    s.behind counter = true ↔ counter + r.window ≤ highest := by
  unfold AcceptedSet.behind
  rw [← h.highest, hh, Option.any_some, decide_eq_true_eq, h.window]
  omega

theorem Tracks.spec_ahead {s : AcceptedSet} {r : DatagramReplayWindow} (h : Tracks s r) {value : Int}
    {counter : Nat} (hv : counterValue value s.maximum = .ok counter)
    (hopen : s.maximum ∉ s.counters) (hahead : ∀ c ∈ s.counters, c < counter) :
    s.accept value = ({ s with counters := insert counter s.counters }, .ok ()) := by
  unfold AcceptedSet.accept
  rw [hv]
  dsimp only
  rw [if_neg hopen, if_neg]
  rintro (hmem | hb)
  · exact absurd (hahead counter hmem) (Nat.lt_irrefl _)
  · cases hh : r.highest with
    | none =>
      unfold AcceptedSet.behind at hb
      rw [← h.highest, hh] at hb
      cases hb
    | some highest =>
      obtain ⟨hmem, -⟩ := AcceptedSet.highest_eq_some.mp (h.highest.symm.trans hh)
      have := (h.behind hh).mp hb
      have := hahead highest hmem
      omega

theorem Tracks.moved {s : AcceptedSet} {r : DatagramReplayWindow} (h : Tracks s r)
    {counter highest : Nat} (hh : r.highest = some highest) (hlt : highest < counter) (i : Nat) :
    (if r.window ≤ counter - highest then 1
      else ((r.bitmap <<< (counter - highest)) ||| 1) &&& r.mask).testBit i = true ↔
      i < r.window ∧ i ≤ counter ∧ (i = 0 ∨ counter - i ∈ s.counters) := by
  obtain ⟨-, hall⟩ := AcceptedSet.highest_eq_some.mp (h.highest.symm.trans hh)
  split
  · next hshift =>
    have hpos := h.pos
    rw [show (1 : Nat) = 2 ^ 0 from rfl, Nat.testBit_two_pow, decide_eq_true_eq]
    constructor
    · intro h0
      exact ⟨by omega, by omega, .inl h0.symm⟩
    · rintro ⟨hw, hi, h0 | hmem⟩
      · exact h0.symm
      · have := hall _ hmem
        omega
  · rw [testBit_shifted h.mask]
    constructor
    · rintro ⟨hw, h0 | ⟨hs, hb⟩⟩
      · exact ⟨hw, by omega, .inl h0⟩
      · obtain ⟨-, hi, hmem⟩ := (h.bits highest hh _).mp hb
        refine ⟨hw, by omega, .inr ?_⟩
        rwa [show counter - i = highest - (i - (counter - highest)) by omega]
    · rintro ⟨hw, hi, h0 | hmem⟩
      · exact ⟨hw, .inl h0⟩
      · have := hall _ hmem
        refine ⟨hw, .inr ⟨by omega, (h.bits highest hh _).mpr ⟨by omega, by omega, ?_⟩⟩⟩
        rwa [show highest - (i - (counter - highest)) = counter - i by omega]

/-- One call: the same result, and the window still stands for the set. -/
theorem Tracks.accept {s : AcceptedSet} {r : DatagramReplayWindow} (h : Tracks s r) (value : Int) :
    (r.acceptAuthenticated value).2 = (s.accept value).2 ∧
      Tracks (s.accept value).1 (r.acceptAuthenticated value).1 := by
  cases hv : counterValue value s.maximum with
  | error e =>
    unfold acceptAuthenticated AcceptedSet.accept
    rw [h.maximum, hv]
    exact ⟨rfl, h⟩
  | ok counter =>
    have hle := (counterValue_ok hv).2
    have hv' : counterValue value r.maximum = .ok counter := by rw [h.maximum, hv]
    by_cases hclosed : r.closed = true
    · unfold acceptAuthenticated AcceptedSet.accept
      rw [hv', hv]
      dsimp only
      rw [if_pos hclosed, if_pos (h.closed.mp hclosed)]
      exact ⟨rfl, h⟩
    · have hopen : s.maximum ∉ s.counters := fun hm => hclosed (h.closed.mpr hm)
      unfold acceptAuthenticated
      rw [hv']
      dsimp only
      rw [if_neg hclosed]
      split
      · next hh =>
        have hempty := AcceptedSet.highest_eq_none.mp (h.highest.symm.trans hh)
        have hahead : ∀ c ∈ s.counters, c < counter := by simp [hempty]
        rw [h.spec_ahead hv hopen hahead]
        refine ⟨rfl, h.ahead hle hopen hahead fun i => ?_⟩
        have hpos := h.pos
        rw [hempty, show (1 : Nat) = 2 ^ 0 from rfl, Nat.testBit_two_pow, decide_eq_true_eq]
        simp only [Finset.notMem_empty, or_false]
        omega
      · next highest hh =>
        obtain ⟨-, hall⟩ := AcceptedSet.highest_eq_some.mp (h.highest.symm.trans hh)
        split
        · next hlt =>
          have hahead : ∀ c ∈ s.counters, c < counter := fun c hc => (hall c hc).trans_lt hlt
          rw [h.spec_ahead hv hopen hahead]
          exact ⟨rfl, h.ahead hle hopen hahead (h.moved hh hlt)⟩
        · next hlt =>
          have hfloor : counter < r.floor ↔ s.behind counter = true := by
            rw [h.behind hh, ← not_le, floor_le_iff hh, not_lt]
          have hbit : r.bitmap &&& 1 <<< (highest - counter) ≠ 0 ↔
              highest < counter + r.window ∧ counter ∈ s.counters := by
            rw [and_bit_ne_zero, h.bits highest hh,
              show highest - (highest - counter) = counter by omega]
            constructor
            · rintro ⟨hw, -, hm⟩
              exact ⟨by omega, hm⟩
            · rintro ⟨hw, hm⟩
              exact ⟨by omega, by omega, hm⟩
          unfold AcceptedSet.accept
          rw [hv]
          dsimp only
          rw [if_neg hopen]
          split
          · next hf =>
            rw [if_pos (.inr (hfloor.mp hf))]
            exact ⟨rfl, h⟩
          · next hf =>
            have hnear := (floor_le_iff hh).mp (Nat.not_lt.mp hf)
            split
            · next hb =>
              rw [if_pos (.inl (hbit.mp hb).2)]
              exact ⟨rfl, h⟩
            · next hb =>
              rw [if_neg]
              · exact ⟨rfl, h.fill hh hopen (Nat.not_lt.mp hlt) hnear⟩
              · rintro (hm | hb')
                · exact hb (hbit.mpr ⟨hnear, hm⟩)
                · exact hf (hfloor.mpr hb')

/-! ## Sequences of calls -/

theorem Tracks.accepts {s : AcceptedSet} {r : DatagramReplayWindow} (h : Tracks s r)
    (values : List Int) : (r.accepts values).2 = (s.accepts values).2 ∧
      Tracks (s.accepts values).1 (r.accepts values).1 := by
  induction values generalizing s r with
  | nil => exact ⟨rfl, h⟩
  | cons value values ih =>
    obtain ⟨he, ht⟩ := h.accept value
    obtain ⟨hes, hts⟩ := ih ht
    refine ⟨?_, hts⟩
    show (r.acceptAuthenticated value).2 :: ((r.acceptAuthenticated value).1.accepts values).2 =
      (s.accept value).2 :: ((s.accept value).1.accepts values).2
    rw [he, hes]

/-- What the window accepts is valid, new to the set, and in it from then on. -/
theorem Tracks.accept_ok {s : AcceptedSet} {r : DatagramReplayWindow} (h : Tracks s r) {value : Int}
    {u : Unit} (hok : (r.acceptAuthenticated value).2 = .ok u) :
    value.toNat ∉ s.counters ∧ (s.accept value).1.counters = insert value.toNat s.counters := by
  rw [(h.accept value).1] at hok
  unfold AcceptedSet.accept at hok ⊢
  cases hv : counterValue value s.maximum with
  | error e =>
    rw [hv] at hok
    cases hok
  | ok counter =>
    obtain ⟨rfl, -⟩ := counterValue_ok hv
    rw [hv] at hok
    dsimp only at hok ⊢
    split at hok
    · cases hok
    · next hmax =>
      split at hok
      · cases hok
      · next hnew =>
        rw [if_neg hmax, if_neg hnew]
        exact ⟨fun hmem => hnew (.inl hmem), rfl⟩

theorem counters_accept (s : AcceptedSet) (value : Int) :
    s.counters ⊆ (s.accept value).1.counters := by
  unfold AcceptedSet.accept
  split
  · exact Finset.Subset.refl _
  · split
    · exact Finset.Subset.refl _
    · split
      · exact Finset.Subset.refl _
      · exact Finset.subset_insert _ _

/-- No counter is accepted twice, and none that was accepted before. -/
theorem Tracks.accepted_nodup {s : AcceptedSet} {r : DatagramReplayWindow} (h : Tracks s r)
    (values : List Int) : (r.accepted values).Nodup ∧ ∀ c ∈ r.accepted values, c ∉ s.counters := by
  induction values generalizing s r with
  | nil => exact ⟨List.nodup_nil, fun c hc => absurd hc List.not_mem_nil⟩
  | cons value values ih =>
    obtain ⟨hnodup, hnew⟩ := ih (h.accept value).2
    unfold accepted
    split
    · next r' u he =>
      rw [he] at hnodup hnew
      obtain ⟨hv, hins⟩ := h.accept_ok (show (r.acceptAuthenticated value).2 = .ok u by rw [he])
      rw [hins] at hnew
      refine ⟨List.nodup_cons.mpr ⟨fun hmem => ?_, hnodup⟩, fun c hc => ?_⟩
      · exact hnew _ hmem (Finset.mem_insert_self _ _)
      · rcases List.mem_cons.mp hc with rfl | hc
        · exact hv
        · exact fun hmem => hnew c hc (Finset.mem_insert_of_mem hmem)
    · next r' e he =>
      rw [he] at hnodup hnew
      exact ⟨hnodup, fun c hc hmem => hnew c hc (counters_accept s value hmem)⟩

/-- A call that throws changes nothing. -/
theorem acceptAuthenticated_error {r : DatagramReplayWindow} {value : Int} {e : CounterError}
    (h : (r.acceptAuthenticated value).2 = .error e) : (r.acceptAuthenticated value).1 = r := by
  unfold acceptAuthenticated at h ⊢
  cases hv : counterValue value r.maximum with
  | error e => rfl
  | ok counter =>
    rw [hv] at h
    dsimp only at h ⊢
    split at h
    · next hc => rw [if_pos hc]
    · next hc =>
      rw [if_neg hc]
      cases hh : r.highest with
      | none =>
        rw [hh] at h
        cases h
      | some highest =>
        rw [hh] at h
        dsimp only at h ⊢
        split at h
        · cases h
        · next hlt =>
          rw [if_neg hlt]
          split at h
          · next hf => rw [if_pos hf]
          · next hf =>
            rw [if_neg hf]
            split at h
            · next hb => rw [if_pos hb]
            · cases h

theorem tracks_new {window : Int} {maximum : Option Int} {r : DatagramReplayWindow}
    (h : new window maximum = .ok r) : r.window = window ∧ r.maximum = maximum.getD maxCounter ∧
      Tracks ⟨r.window, r.maximum, ∅⟩ r := by
  unfold new at h
  split at h
  · cases h
  · next hw =>
    cases hm : counterValue (maximum.getD maxCounter) maxCounter with
    | error e =>
      rw [hm] at h
      cases h
    | ok n =>
      rw [hm] at h
      cases h
      refine ⟨?_, (counterValue_ok hm).1, rfl, ?_, ?_, rfl, ?_, fun _ => rfl, ?_, ?_, ?_⟩
      · show (window.toNat : Int) = window
        omega
      · show 1 ≤ window.toNat
        omega
      · exact congrArg (· - 1) (Nat.one_shiftLeft _)
      · exact (AcceptedSet.highest_eq_none.mpr rfl).symm
      · intro highest hh
        cases hh
      · simp
      · intro c hc
        exact absurd hc (Finset.notMem_empty c)

/-- **The replay window refines the set of all accepted counters.** After any
sequence of calls it has given the results the set gives and stands for the same
counters, no counter was accepted twice, and whatever is refused next changes
nothing. -/
theorem refines_acceptedSet {window : Int} {maximum : Option Int} {r : DatagramReplayWindow}
    (h : new window maximum = .ok r) (values : List Int) :
    (r.window : Int) = window ∧ (r.maximum : Int) = maximum.getD maxCounter ∧
      (r.accepts values).2 = ((⟨r.window, r.maximum, ∅⟩ : AcceptedSet).accepts values).2 ∧
      Refines ((⟨r.window, r.maximum, ∅⟩ : AcceptedSet).accepts values).1 (r.accepts values).1 ∧
      (r.accepted values).Nodup ∧
      ∀ value e, ((r.accepts values).1.acceptAuthenticated value).2 = .error e →
        ((r.accepts values).1.acceptAuthenticated value).1 = (r.accepts values).1 := by
  obtain ⟨hw, hm, ht⟩ := tracks_new h
  obtain ⟨hresults, hts⟩ := ht.accepts values
  exact ⟨hw, hm, hresults, hts.refines, (ht.accepted_nodup values).1,
    fun value e he => acceptAuthenticated_error he⟩

/-- Reordered counters, a replay, one too far behind and the maximum. -/
theorem refines_acceptedSet_reordered :
    ∃ r, new 4 (some 20) = .ok r ∧
      (r.accepts [3, 1, 3, 9, 5, 6, 8, 20, 7]).2 = [.ok (), .ok (), .error .replay, .ok (),
        .error .replay, .ok (), .ok (), .ok (), .error .exhausted] ∧
      (r.accepted [3, 1, 3, 9, 5, 6, 8, 20, 7]).Nodup :=
  ⟨_, rfl, by decide +kernel, (@refines_acceptedSet 4 (some 20) _ rfl _).2.2.2.2.1⟩

end DatagramReplayWindow

end HyperDht.Private
