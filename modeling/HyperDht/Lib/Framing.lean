import Mathlib.Data.List.Basic
import Mathlib.Tactic.Common

/-!
# Frames of a fixed size

A stream of bytes that comes in pieces of any length and is cut into frames of
`n` bytes. A frame can be refused, which ends the stream. `Framer.feed` is the
meaning of one piece; feeding two pieces is feeding them joined (`feed_feed`), so
the frames do not depend on the pieces (`framesOf`).
-/

namespace HyperDht

variable {α : Type}

/-- The first `n` entries, the next `n`, and so on; what is left over is no frame. -/
def framesOf (n : Nat) (bytes : List α) : List (List α) :=
  (List.range (bytes.length / n)).map fun i => (bytes.drop (i * n)).take n

/-- The frames up to the first that is refused, that one included. -/
def openUntil (opens : List (List α) → List α → Bool) :
    List (List α) → List (List α) → List (List α)
  | done, [] => done
  | done, frame :: rest =>
    if opens done frame then openUntil opens (done ++ [frame]) rest else done ++ [frame]

/-- What was cut so far, and what is left of the last piece. -/
structure Framer (α : Type) where
  frames : List (List α)
  pending : List α
  ended : Bool

namespace Framer

variable {n : Nat} {opens : List (List α) → List α → Bool}

def cut (n : Nat) (opens : List (List α) → List α → Bool) : Nat → List (List α) → List α → Framer α
  | 0, done, bytes => ⟨done, bytes, false⟩
  | fuel + 1, done, bytes =>
    if n ≤ bytes.length then
      if opens done (bytes.take n) then cut n opens fuel (done ++ [bytes.take n]) (bytes.drop n)
      else ⟨done ++ [bytes.take n], [], true⟩
    else ⟨done, bytes, false⟩

def feed (n : Nat) (opens : List (List α) → List α → Bool) (f : Framer α) (bytes : List α) :
    Framer α :=
  if f.ended then f
  else cut n opens (f.pending.length + bytes.length) f.frames (f.pending ++ bytes)

theorem cut_short {fuel : Nat} {done : List (List α)} {bytes : List α} (h : bytes.length < n) :
    cut n opens fuel done bytes = ⟨done, bytes, false⟩ := by
  cases fuel with
  | zero => rfl
  | succ fuel => rw [cut, if_neg (by omega)]

/-- More fuel than there are bytes makes no difference. -/
theorem cut_fuel (hn : 0 < n) : ∀ {fuel fuel' : Nat} {done : List (List α)} {bytes : List α},
    bytes.length ≤ fuel → bytes.length ≤ fuel' →
      cut n opens fuel done bytes = cut n opens fuel' done bytes := by
  intro fuel
  induction fuel with
  | zero =>
    intro fuel' done bytes h h'
    have hshort : cut n opens fuel' done bytes = ⟨done, bytes, false⟩ := cut_short (by omega)
    rw [hshort, cut]
  | succ fuel ih =>
    intro fuel' done bytes h h'
    by_cases hb : n ≤ bytes.length
    · cases fuel' with
      | zero => omega
      | succ fuel' =>
        rw [cut, cut, if_pos hb, if_pos hb]
        split
        · exact ih (by rw [List.length_drop]; omega) (by rw [List.length_drop]; omega)
        · rfl
    · rw [cut_short (by omega), cut_short (by omega)]

theorem cut_frame (hn : 0 < n) {fuel : Nat} {done : List (List α)} {frame bytes : List α}
    (hframe : frame.length = n) (hfuel : frame.length + bytes.length ≤ fuel) :
    cut n opens fuel done (frame ++ bytes) =
      if opens done frame then cut n opens fuel (done ++ [frame]) bytes
      else ⟨done ++ [frame], [], true⟩ := by
  cases fuel with
  | zero => omega
  | succ fuel =>
    rw [cut, if_pos (by rw [List.length_append]; omega), ← hframe, List.take_left, List.drop_left]
    split
    · exact cut_fuel (hframe ▸ hn) (by omega) (by omega)
    · rfl

/-- Cutting what is there and then the rest is cutting all. -/
theorem feed_cut (hn : 0 < n) : ∀ {fuel fuel' : Nat} {done : List (List α)} {a b : List α},
    a.length ≤ fuel → a.length + b.length ≤ fuel' →
      (cut n opens fuel done a).feed n opens b = cut n opens fuel' done (a ++ b) := by
  intro fuel
  induction fuel with
  | zero =>
    intro fuel' done a b h h'
    rw [cut]
    unfold feed
    rw [if_neg Bool.false_ne_true]
    exact cut_fuel hn (Nat.le_of_eq (List.length_append ..)) (by rw [List.length_append]; omega)
  | succ fuel ih =>
    intro fuel' done a b h h'
    by_cases ha : n ≤ a.length
    · have hsplit : a ++ b = a.take n ++ (a.drop n ++ b) := by
        rw [← List.append_assoc, List.take_append_drop]
      have hlen : (a.take n).length = n := by
        rw [List.length_take]
        omega
      rw [cut, if_pos ha, hsplit, cut_frame hn hlen (by
        rw [List.length_append, List.length_take, List.length_drop]
        omega)]
      split
      · exact ih (by rw [List.length_drop]; omega) (by rw [List.length_drop]; omega)
      · rfl
    · rw [cut_short (by omega)]
      unfold feed
      rw [if_neg Bool.false_ne_true]
      exact cut_fuel hn (Nat.le_of_eq (List.length_append ..)) (by rw [List.length_append]; omega)

theorem feed_feed (hn : 0 < n) (f : Framer α) (a b : List α) :
    (f.feed n opens a).feed n opens b = f.feed n opens (a ++ b) := by
  by_cases hf : f.ended = true
  · have he : ∀ bytes, f.feed n opens bytes = f := fun bytes => if_pos hf
    rw [he, he, he]
  · have he : ∀ bytes, f.feed n opens bytes =
        cut n opens (f.pending.length + bytes.length) f.frames (f.pending ++ bytes) :=
      fun bytes => if_neg hf
    have hcut : (cut n opens (f.pending.length + a.length) f.frames (f.pending ++ a)).feed n opens b =
        cut n opens (f.pending.length + (a ++ b).length) f.frames ((f.pending ++ a) ++ b) := by
      refine feed_cut hn (Nat.le_of_eq (List.length_append ..)) ?_
      rw [List.length_append, List.length_append]
      omega
    rw [he a, he (a ++ b), hcut, List.append_assoc]

theorem pending_cut (hn : 0 < n) : ∀ {fuel : Nat} {done : List (List α)} {bytes : List α},
    bytes.length ≤ fuel → (cut n opens fuel done bytes).pending.length < n := by
  intro fuel
  induction fuel with
  | zero =>
    intro done bytes h
    exact Nat.lt_of_le_of_lt h hn
  | succ fuel ih =>
    intro done bytes h
    rw [cut]
    split
    · split
      · exact ih (by rw [List.length_drop]; omega)
      · exact hn
    · next hb => exact Nat.lt_of_not_le hb

theorem pending_of_ended : ∀ {fuel : Nat} {done : List (List α)} {bytes : List α},
    (cut n opens fuel done bytes).ended = true → (cut n opens fuel done bytes).pending = [] := by
  intro fuel
  induction fuel with
  | zero => exact fun h => by cases h
  | succ fuel ih =>
    intro done bytes
    rw [cut]
    split
    · split
      · exact ih
      · exact fun _ => rfl
    · exact fun h => by cases h

/-- Until a frame is refused no byte is lost. -/
theorem flatten_cut : ∀ {fuel : Nat} {done : List (List α)} {bytes : List α},
    (cut n opens fuel done bytes).ended = false →
      (cut n opens fuel done bytes).frames.flatten ++ (cut n opens fuel done bytes).pending =
        done.flatten ++ bytes := by
  intro fuel
  induction fuel with
  | zero => exact fun _ => rfl
  | succ fuel ih =>
    intro done bytes
    rw [cut]
    split
    · split
      · intro h
        rw [ih h, List.flatten_append, List.flatten_singleton, List.append_assoc,
          List.take_append_drop]
      · exact fun h => by cases h
    · exact fun _ => rfl

/-! ## The frames of a stream -/

theorem framesOf_short {bytes : List α} (h : bytes.length < n) : framesOf n bytes = [] := by
  unfold framesOf
  rw [Nat.div_eq_of_lt h]
  rfl

theorem framesOf_long (hn : 0 < n) {bytes : List α} (h : n ≤ bytes.length) :
    framesOf n bytes = bytes.take n :: framesOf n (bytes.drop n) := by
  unfold framesOf
  rw [List.length_drop, Nat.div_eq_sub_div hn h, List.range_succ_eq_map, List.map_cons, Nat.zero_mul,
    List.drop_zero, List.map_map]
  congr 1
  refine List.map_congr_left fun i _ => ?_
  show (bytes.drop ((i + 1) * n)).take n = ((bytes.drop n).drop (i * n)).take n
  rw [List.drop_drop, Nat.succ_mul, Nat.add_comm n]

theorem framesOf_le (hn : 0 < n) (a b : List α) : framesOf n a <+: framesOf n (a ++ b) := by
  by_cases ha : n ≤ a.length
  · have htake : (a ++ b).take n = a.take n := List.take_append_of_le_length ha
    have hdrop : (a ++ b).drop n = a.drop n ++ b := List.drop_append_of_le_length ha
    have hlong : framesOf n (a ++ b) = a.take n :: framesOf n (a.drop n ++ b) := by
      rw [framesOf_long hn (by rw [List.length_append]; omega), htake, hdrop]
    rw [framesOf_long hn ha, hlong]
    exact (List.prefix_cons_inj _).mpr (framesOf_le hn (a.drop n) b)
  · rw [framesOf_short (by omega)]
    exact List.nil_prefix
termination_by a.length
decreasing_by
  rw [List.length_drop]
  omega

/-- The frames cut are those of the stream up to the first that is refused. -/
theorem frames_cut (hn : 0 < n) : ∀ {fuel : Nat} {done : List (List α)} {bytes : List α},
    bytes.length ≤ fuel →
      (cut n opens fuel done bytes).frames = openUntil opens done (framesOf n bytes) := by
  intro fuel
  induction fuel with
  | zero =>
    intro done bytes h
    rw [framesOf_short (by omega)]
    rfl
  | succ fuel ih =>
    intro done bytes h
    rw [cut]
    split
    · next hb =>
      rw [framesOf_long hn hb, openUntil]
      split
      · exact ih (by rw [List.length_drop]; omega)
      · rfl
    · next hb =>
      rw [framesOf_short (by omega)]
      rfl

theorem openUntil_le : ∀ (rest done : List (List α)),
    openUntil opens done rest <+: done ++ rest := by
  intro rest
  induction rest with
  | nil =>
    intro done
    rw [List.append_nil]
    exact List.prefix_refl _
  | cons frame rest ih =>
    intro done
    rw [openUntil]
    split
    · have := ih (done ++ [frame])
      rwa [List.append_assoc] at this
    · exact ⟨rest, by simp⟩

theorem frames_of_not_ended (hn : 0 < n) : ∀ {fuel : Nat} {done : List (List α)} {bytes : List α},
    bytes.length ≤ fuel → (cut n opens fuel done bytes).ended = false →
      (cut n opens fuel done bytes).frames = done ++ framesOf n bytes := by
  intro fuel
  induction fuel with
  | zero =>
    intro done bytes h _
    rw [framesOf_short (by omega), List.append_nil]
    rfl
  | succ fuel ih =>
    intro done bytes h
    rw [cut]
    split
    · next hb =>
      split
      · intro he
        rw [ih (by rw [List.length_drop]; omega) he, framesOf_long hn hb, List.append_assoc]
        rfl
      · exact fun he => by cases he
    · next hb =>
      intro _
      rw [framesOf_short (by omega), List.append_nil]

end Framer

end HyperDht
