import Mathlib.Data.List.Induction
import Mathlib.Data.Multiset.Basic
import Mathlib.Data.Prod.Lex
import Mathlib.Order.Lattice
import HyperDht.Private.Descriptor

/-!
# Presence records

`openPresenceRecord` parses the fixed-size body of a stored presence record and
`resolvePresenceState` merges an opened record into the reader's state: a higher
`(period, revision)` wins, the record already held may be seen again, everything
else is a replay. Signature check and decryption are one primitive of the
`PresenceSuite`. `presence_converges` says that the order and the number of times
the records of an owner are seen do not matter.
-/

namespace HyperDht.Private

namespace Presence

/-! ## Opening a record -/

def recordVersion : UInt8 := 1

def recordSize : Nat := 895

def headerBytes : Nat := 1 + 4 + 16

def bodyFixedBytes : Nat := 1 + 8 + 1 + 32 + 2

def maxDescriptorBytes : Nat := recordSize - headerBytes - aeadTagBytes - bodyFixedBytes

inductive PresenceError where
  | invalidDescriptor
  | authentication
  | replay
deriving DecidableEq, Repr

inductive Scope where
  | period
  | record
deriving DecidableEq, Repr

/-- The typed part of an opened record. -/
inductive Body where
  | descriptor (bytes : Bytes)
  | tombstone (scope : Scope) (target : Bytes)
deriving DecidableEq, Repr

/-- An opened record with the digest its reader attaches to it. -/
structure Opened where
  period : Nat
  revision : Nat
  recordDigest : Bytes
  body : Body
deriving DecidableEq, Repr

/-- The primitives for one identity and reader: `hash` is the suite's hash, `decrypt period
revision value` verifies the mutable signature and opens the AEAD, `none` where either fails. -/
structure PresenceSuite where
  hash : Bytes → Bytes
  hash_length : ∀ value : Bytes, (hash value).length = 32
  decrypt : Nat → Nat → Bytes → Option Bytes

def isUint32 (value : Int) : Bool := 0 ≤ value && value.toNat < 2 ^ 32

def isAllZero (b : Bytes) : Bool := b.all (· == 0)

/-- Big-endian reads of any width. -/
def readUintBE (b : Bytes) (offset width : Nat) : Nat :=
  (subarray b offset (offset + width)).foldl (fun value byte => value * 256 + byte.toNat) 0

/-- The checks of `openPresenceRecord` on the decrypted body. -/
def openBody (period : Nat) (plaintext : Bytes) : Except PresenceError Body :=
  if plaintext.length ≠ bodyFixedBytes + maxDescriptorBytes then .error .invalidDescriptor
  else if readUintBE plaintext 1 8 ≠ period then .error .invalidDescriptor
  else
    let type := readUintBE plaintext 0 1
    let scope := readUintBE plaintext 9 1
    let target := subarray plaintext 10 42
    let length := readUintBE plaintext 42 2
    let region := subarray plaintext 44 (44 + maxDescriptorBytes)
    if maxDescriptorBytes < length then .error .invalidDescriptor
    else if !isAllZero (region.drop length) then .error .invalidDescriptor
    else if type = 1 then
      if scope ≠ 0 ∨ isAllZero target = false then .error .invalidDescriptor
      else .ok (.descriptor (region.take length))
    else if type = 2 then
      if length ≠ 0 then .error .invalidDescriptor
      else if scope = 1 then
        if isAllZero target then .ok (.tombstone .period target) else .error .invalidDescriptor
      else if scope = 2 then
        if isAllZero target then .error .invalidDescriptor else .ok (.tombstone .record target)
      else .error .invalidDescriptor
    else .error .invalidDescriptor

/-- `openPresenceRecord`, for the suite's identity and reader. -/
def openPresenceRecord (s : PresenceSuite) (period revision : Nat) (value : Bytes) :
    Except PresenceError Body :=
  if !uint64 period then .error .invalidDescriptor
  else if !isUint32 revision then .error .invalidDescriptor
  else if value.length ≠ recordSize then .error .invalidDescriptor
  else if value[0]? ≠ some recordVersion then .error .invalidDescriptor
  else if readUintBE value 1 4 ≠ revision then .error .invalidDescriptor
  else
    match s.decrypt period revision value with
    | none => .error .authentication
    | some plaintext => openBody period plaintext

/-- The record is what `openPresenceRecord` and `recordDigestOf` make of some stored value. -/
def IsOpened (s : PresenceSuite) (o : Opened) : Prop :=
  ∃ value : Bytes, openPresenceRecord s o.period o.revision value = .ok o.body ∧
    o.recordDigest = s.hash value

/-! ## Resolving the state -/

/-- What is known of the owner: a descriptor (`present: true`), a tombstone that applied
(`present: false`), or one that named another record (`present: null`). -/
inductive Status where
  | descriptor (bytes : Bytes)
  | absent
  | ignored
deriving DecidableEq, Repr

structure State where
  status : Status
  period : Nat
  revision : Nat
  recordDigest : Bytes
deriving DecidableEq, Repr

/-- The field `present`. -/
def State.present (st : State) : Option Bool :=
  match st.status with
  | .descriptor _ => some true
  | .absent => some false
  | .ignored => none

def sameRecord (previous : Option State) (o : Opened) : Bool :=
  previous.any fun st =>
    st.period == o.period && o.revision == st.revision && st.recordDigest.length == 32 &&
      o.recordDigest == st.recordDigest

/-- The two conditions under which a record is a replay. -/
def isReplay (previous : Option State) (o : Opened) : Bool :=
  previous.any fun st =>
    (uint64 st.period && decide (o.period < st.period)) ||
      (st.period == o.period && isUint32 st.revision &&
        (decide (o.revision < st.revision) ||
          (o.revision == st.revision && !sameRecord previous o)))

/-- Whether a record tombstone names the record the state was made from. -/
def namesPrevious (previous : Option State) (o : Opened) (target : Bytes) : Bool :=
  previous.any fun st =>
    st.period == o.period && st.recordDigest.length == 32 && target.length == 32 &&
      target == st.recordDigest

def resolvePresenceState (previous : Option State) (o : Opened) : Except PresenceError State :=
  if !isUint32 o.revision || !uint64 o.period || o.recordDigest.length != 32 then
    .error .invalidDescriptor
  else if isReplay previous o then .error .replay
  else
    let state (status : Status) : State :=
      { status := status
        period := o.period
        revision := o.revision
        recordDigest := o.recordDigest }
    match o.body with
    | .tombstone .period _ => .ok (state .absent)
    | .tombstone .record target =>
      if sameRecord previous o && previous.any (·.present == some false) then .ok (state .absent)
      else if namesPrevious previous o target then .ok (state .absent)
      else .ok (state .ignored)
    | .descriptor bytes => .ok (state (.descriptor bytes))

/-- One record seen by a reader that keeps its state on `REPLAY`. -/
def absorb (previous : Option State) (o : Opened) : Except PresenceError (Option State) :=
  match resolvePresenceState previous o with
  | .ok state => .ok (some state)
  | .error .replay => .ok previous
  | .error e => .error e

/-- A sequence of records, seen by a reader that starts with nothing. -/
def absorbAll (records : List Opened) : Except PresenceError (Option State) :=
  records.foldlM absorb none

/-! ## Ranks -/

/-- Records and states are ordered by period, then revision. -/
def Opened.rank (o : Opened) : Nat ×ₗ Nat := toLex (o.period, o.revision)

def State.rank (st : State) : Nat ×ₗ Nat := toLex (st.period, st.revision)

/-- A tombstone whose target is the digest of the very value it was opened from. -/
def Opened.TargetsItself (o : Opened) : Prop := o.body = .tombstone .record o.recordDigest

/-- The fields `resolvePresenceState` checks. -/
structure Opened.WellFormed (o : Opened) : Prop where
  revision : isUint32 o.revision = true
  period : uint64 o.period = true
  digest : o.recordDigest.length = 32

theorem IsOpened.wellFormed {s : PresenceSuite} {o : Opened} (h : IsOpened s o) :
    o.WellFormed := by
  obtain ⟨value, ho, hd⟩ := h
  unfold openPresenceRecord at ho
  split at ho
  · cases ho
  · next hp =>
    split at ho
    · cases ho
    · next hr => exact ⟨by simpa using hr, by simpa using hp, by rw [hd, s.hash_length]⟩

/-- `st` is a state that seeing `o` can leave. -/
structure Reflects (st : State) (o : Opened) : Prop where
  period : st.period = o.period
  revision : st.revision = o.revision
  digest : st.recordDigest = o.recordDigest
  status : match o.body with
    | .descriptor bytes => st.status = .descriptor bytes
    | .tombstone .period _ => st.status = .absent
    | .tombstone .record _ => st.status = .absent ∨ st.status = .ignored

theorem Reflects.rank {st : State} {o : Opened} (h : Reflects st o) : st.rank = o.rank := by
  rw [State.rank, Opened.rank, h.period, h.revision]

theorem Reflects.present_iff {st : State} {o : Opened} (h : Reflects st o) :
    st.present = some true ↔ ∃ bytes, o.body = .descriptor bytes := by
  have := h.status
  unfold State.present
  split at this
  · next bytes hb => simp [this, hb]
  · next hb => simp [this, hb]
  · next hb => rcases this with h | h <;> simp [h, hb]

/-- A record that is no replay is taken over. -/
theorem resolve_ok (previous : Option State) {o : Opened} (hw : o.WellFormed)
    (hr : isReplay previous o = false) :
    ∃ st, resolvePresenceState previous o = .ok st ∧ Reflects st o := by
  unfold resolvePresenceState
  rw [hw.revision, hw.period, hw.digest, hr]
  cases hb : o.body with
  | descriptor bytes =>
    exact ⟨_, rfl, rfl, rfl, rfl, by rw [hb]⟩
  | tombstone scope target =>
    cases scope with
    | period => exact ⟨_, rfl, rfl, rfl, rfl, by rw [hb]⟩
    | record =>
      simp only [Bool.not_true, Bool.false_or, bne_self_eq_false, Bool.false_eq_true, if_false]
      split
      · exact ⟨_, rfl, rfl, rfl, rfl, by rw [hb]; exact .inl rfl⟩
      · split
        · exact ⟨_, rfl, rfl, rfl, rfl, by rw [hb]; exact .inl rfl⟩
        · exact ⟨_, rfl, rfl, rfl, rfl, by rw [hb]; exact .inr rfl⟩

theorem resolve_replay {previous : Option State} {o : Opened} (hw : o.WellFormed)
    (hr : isReplay previous o = true) : resolvePresenceState previous o = .error .replay := by
  unfold resolvePresenceState
  rw [hw.revision, hw.period, hw.digest, hr]
  rfl

theorem rank_lt_iff {a b c d : Nat} :
    (toLex (a, b) : Nat ×ₗ Nat) < toLex (c, d) ↔ a < c ∨ a = c ∧ b < d :=
  Prod.Lex.toLex_lt_toLex

theorem rank_eq_iff {a b c d : Nat} :
    (toLex (a, b) : Nat ×ₗ Nat) = toLex (c, d) ↔ a = c ∧ b = d := by
  rw [toLex_inj, Prod.mk.injEq]

/-- A record is a replay when its rank is lower, or equal with another digest. -/
theorem isReplay_iff {st : State} {r o : Opened} (hst : Reflects st r) (hr : r.WellFormed) :
    isReplay (some st) o = true ↔
      o.rank < st.rank ∨ o.rank = st.rank ∧ o.recordDigest ≠ st.recordDigest := by
  have h64 : uint64 st.period = true := by rw [hst.period, hr.period]
  have h32 : isUint32 st.revision = true := by rw [hst.revision, hr.revision]
  have hd : st.recordDigest.length = 32 := hst.digest ▸ hr.digest
  rw [Opened.rank, State.rank, rank_lt_iff, rank_eq_iff]
  simp only [isReplay, sameRecord, Option.any_some, h64, h32, hd, Bool.true_and, Bool.and_true,
    Bool.or_eq_true, Bool.and_eq_true, decide_eq_true_eq, beq_iff_eq, Bool.not_eq_true',
    Bool.and_eq_false_iff, beq_eq_false_iff_ne, ne_eq, beq_self_eq_true]
  constructor
  · rintro (h | ⟨hp, h | ⟨hrev, h⟩⟩)
    · exact .inl (.inl h)
    · exact .inl (.inr ⟨hp.symm, h⟩)
    · refine .inr ⟨⟨hp.symm, hrev⟩, ?_⟩
      rcases h with (h | h) | h
      · exact absurd hp h
      · exact absurd hrev h
      · exact h
  · rintro ((h | ⟨hp, h⟩) | ⟨⟨hp, hrev⟩, h⟩)
    · exact .inl h
    · exact .inr ⟨hp.symm, .inl h⟩
    · exact .inr ⟨hp.symm, .inr ⟨hrev, .inr h⟩⟩

/-- Seeing the record a state was made from changes nothing, unless the record is a tombstone of
its own digest. -/
theorem resolve_again {st : State} {o : Opened} (hst : Reflects st o) (hw : o.WellFormed)
    (hself : ¬ o.TargetsItself) : resolvePresenceState (some st) o = .ok st := by
  have hsame : sameRecord (some st) o = true := by
    simp [sameRecord, hst.period, hst.revision, hst.digest, hw.digest]
  have hno : isReplay (some st) o = false := by
    rw [Bool.eq_false_iff, ne_eq, isReplay_iff hst hw, hst.rank, hst.digest]
    simp
  have hfields : ∀ status : Status, st.status = status →
      ({ status := status, period := o.period, revision := o.revision,
         recordDigest := o.recordDigest } : State) = st := by
    rintro status rfl
    rw [← hst.period, ← hst.revision, ← hst.digest]
  have hstatus := hst.status
  unfold resolvePresenceState
  rw [hw.revision, hw.period, hw.digest, hno]
  simp only [Bool.not_true, Bool.false_or, bne_self_eq_false, Bool.false_eq_true, if_false]
  cases hb : o.body with
  | descriptor bytes =>
    rw [hb] at hstatus
    exact congrArg Except.ok (hfields _ hstatus)
  | tombstone scope target =>
    rw [hb] at hstatus
    cases scope with
    | period => exact congrArg Except.ok (hfields _ hstatus)
    | record =>
      dsimp only at hstatus ⊢
      rcases hstatus with ha | hi
      · rw [hsame]
        simp only [State.present, ha, Option.any_some, beq_self_eq_true, Bool.and_self, if_true]
        exact congrArg Except.ok (hfields _ ha)
      · have hn : namesPrevious (some st) o target = false := by
          have hne : target ≠ o.recordDigest := fun h => hself (by rw [Opened.TargetsItself, hb, h])
          simp [namesPrevious, hst.digest, hne]
        rw [hsame, hn]
        simp only [State.present, hi, Option.any_some, Bool.true_and]
        exact congrArg Except.ok (hfields _ hi)

/-! ## Whole sequences -/

/-- The state of a reader that has seen exactly `seen`: it reflects a record of highest rank. -/
def Settled (seen : List Opened) (st : State) : Prop :=
  ∃ top ∈ seen, (∀ o ∈ seen, o.rank ≤ top.rank) ∧ Reflects st top

/-- The records an owner signs: opened, and one record for a period and revision. -/
structure Consistent (s : PresenceSuite) (R : Multiset Opened) : Prop where
  opened : ∀ o ∈ R, IsOpened s o
  unique : ∀ a ∈ R, ∀ b ∈ R, a.period = b.period → a.revision = b.revision → a = b

section Sequences

variable {s : PresenceSuite} {R : Multiset Opened}

theorem Consistent.eq_of_rank (h : Consistent s R) {a b : Opened} (ha : a ∈ R) (hb : b ∈ R)
    (hr : a.rank = b.rank) : a = b := by
  obtain ⟨hp, hrev⟩ := rank_eq_iff.mp hr
  exact h.unique a ha b hb hp hrev

theorem absorb_none (h : Consistent s R) {o : Opened} (ho : o ∈ R) :
    ∃ st, absorb none o = .ok (some st) ∧ Reflects st o := by
  obtain ⟨st, he, hr⟩ := resolve_ok none (h.opened o ho).wellFormed rfl
  exact ⟨st, by rw [absorb, he], hr⟩

/-- A record of lower rank leaves the state, one of at least the state's rank replaces it. -/
theorem absorb_some (h : Consistent s R) {st : State} {top o : Opened} (ht : top ∈ R)
    (hst : Reflects st top) (ho : o ∈ R) :
    (o.rank < top.rank ∧ absorb (some st) o = .ok (some st)) ∨
      (top.rank ≤ o.rank ∧ ∃ st', absorb (some st) o = .ok (some st') ∧ Reflects st' o) := by
  have hw := (h.opened o ho).wellFormed
  have hwt := (h.opened top ht).wellFormed
  by_cases hlt : o.rank < top.rank
  · have hr : isReplay (some st) o = true :=
      (isReplay_iff hst hwt).mpr (.inl (by rw [hst.rank]; exact hlt))
    exact .inl ⟨hlt, by rw [absorb, resolve_replay hw hr]⟩
  · have hr : isReplay (some st) o = false := by
      rw [Bool.eq_false_iff, ne_eq, isReplay_iff hst hwt, hst.rank]
      rintro (h' | ⟨he, hd⟩)
      · exact hlt h'
      · exact hd (by rw [h.eq_of_rank ho ht he, hst.digest])
    obtain ⟨st', he, hr'⟩ := resolve_ok (some st) hw hr
    exact .inr ⟨not_lt.mp hlt, st', by rw [absorb, he], hr'⟩

/-- One more record keeps the reader settled. -/
theorem Settled.absorb (h : Consistent s R) {seen : List Opened} {st : State} {o : Opened}
    (hs : Settled seen st) (hR : ∀ a ∈ seen, a ∈ R) (ho : o ∈ R) :
    ∃ st', Presence.absorb (some st) o = .ok (some st') ∧ Settled (seen ++ [o]) st' := by
  obtain ⟨top, ht, hmax, hr⟩ := hs
  rcases absorb_some h (hR top ht) hr ho with ⟨hlt, he⟩ | ⟨hle, st', he, hr'⟩
  · refine ⟨st, he, top, List.mem_append_left _ ht, ?_, hr⟩
    intro a ha
    rcases List.mem_append.mp ha with ha | ha
    · exact hmax a ha
    · rw [List.mem_singleton.mp ha]
      exact hlt.le
  · refine ⟨st', he, o, by simp, ?_, hr'⟩
    intro a ha
    rcases List.mem_append.mp ha with ha | ha
    · exact (hmax a ha).trans hle
    · rw [List.mem_singleton.mp ha]

theorem absorbAll_concat {l : List Opened} {previous : Option State}
    (h : absorbAll l = .ok previous) (o : Opened) :
    absorbAll (l ++ [o]) = absorb previous o := by
  unfold absorbAll at h ⊢
  rw [List.foldlM_append, h]
  show List.foldlM absorb previous [o] = _
  rw [List.foldlM_cons]
  simp only [List.foldlM_nil, bind_pure]

/-- Every sequence of an owner's records is absorbed without an error. -/
theorem absorbAll_settled (h : Consistent s R) {l : List Opened} (hR : ∀ a ∈ l, a ∈ R)
    (hne : l ≠ []) : ∃ st, absorbAll l = .ok (some st) ∧ Settled l st := by
  induction l using List.reverseRecOn with
  | nil => exact absurd rfl hne
  | append_singleton l o ih =>
    have ho : o ∈ R := hR o (by simp)
    have hl : ∀ a ∈ l, a ∈ R := fun a ha => hR a (List.mem_append_left _ ha)
    by_cases hnil : l = []
    · subst hnil
      obtain ⟨st, he, hr⟩ := absorb_none h ho
      refine ⟨st, ?_, o, by simp, by simp, hr⟩
      rw [absorbAll_concat (show absorbAll [] = .ok none from rfl), he]
    · obtain ⟨st, he, hs⟩ := ih hl hnil
      obtain ⟨st', he', hs'⟩ := hs.absorb h hl ho
      exact ⟨st', by rw [absorbAll_concat he, he'], hs'⟩

end Sequences

/-- Presence resolution converges. Whatever the order and the repetitions in which a reader sees
the records of `R`, it ends in the state of the record of highest rank, present exactly when that
record is a descriptor; on the way the rank never falls, only a strictly newer descriptor makes
an absent owner present, and seeing the current record again changes nothing, unless that record
is a tombstone of its own digest, which would be a fixed point of the hash. -/
theorem presence_converges (s : PresenceSuite) (R : Multiset Opened) (h : Consistent s R)
    (hne : R ≠ 0) (l : List Opened) (hl : ∀ o, o ∈ l ↔ o ∈ R) :
    ∃ top ∈ R, (∀ o ∈ R, o.rank ≤ top.rank) ∧
      (∃ st, absorbAll l = .ok (some st) ∧ st.period = top.period ∧
        st.revision = top.revision ∧ st.recordDigest = top.recordDigest ∧
        (st.present = some true ↔ ∃ bytes, top.body = .descriptor bytes)) ∧
      (∀ (pre post : List Opened) (o : Opened) (st : State), l = pre ++ o :: post →
        absorbAll pre = .ok (some st) →
        ∃ st', absorbAll (pre ++ [o]) = .ok (some st') ∧ st.rank ≤ st'.rank ∧
          (st.present ≠ some true → st'.present = some true →
            (∃ bytes, o.body = .descriptor bytes) ∧ st.rank < o.rank)) ∧
      ∀ (pre post : List Opened) (o : Opened) (st : State), l = pre ++ post →
        absorbAll pre = .ok (some st) → o ∈ R → o.rank = st.rank → ¬ o.TargetsItself →
        resolvePresenceState (some st) o = .ok st := by
  have hmem : ∀ o ∈ l, o ∈ R := fun o ho => (hl o).mp ho
  have hlne : l ≠ [] := by
    rintro rfl
    obtain ⟨o, ho⟩ := Multiset.exists_mem_of_ne_zero hne
    exact absurd ((hl o).mpr ho) List.not_mem_nil
  -- the state after any prefix that left one
  have settled : ∀ (pre : List Opened) (st : State), (∀ a ∈ pre, a ∈ R) →
      absorbAll pre = .ok (some st) → Settled pre st := by
    intro pre st hpre he
    have hpne : pre ≠ [] := by
      rintro rfl
      cases he
    obtain ⟨st', he', hs⟩ := absorbAll_settled h hpre hpne
    rw [he] at he'
    cases he'
    exact hs
  obtain ⟨st, he, top, ht, hmax, hr⟩ := absorbAll_settled h hmem hlne
  refine ⟨top, hmem top ht, fun o ho => hmax o ((hl o).mpr ho),
    ⟨st, he, hr.period, hr.revision, hr.digest, hr.present_iff⟩, ?_, ?_⟩
  · intro pre post o st hsplit hpre
    have hpR : ∀ a ∈ pre, a ∈ R := fun a ha => hmem a (by rw [hsplit]; simp [ha])
    have hoR : o ∈ R := hmem o (by rw [hsplit]; simp)
    obtain ⟨top, ht, -, hr⟩ := settled pre st hpR hpre
    rw [absorbAll_concat hpre]
    rcases absorb_some h (hpR top ht) hr hoR with ⟨-, hst'⟩ | ⟨hle, st', hst', hr'⟩
    · exact ⟨st, hst', le_refl _, fun hno hyes => absurd hyes hno⟩
    · refine ⟨st', hst', by rw [hr.rank, hr'.rank]; exact hle, ?_⟩
      intro hno hyes
      have hdesc := hr'.present_iff.mp hyes
      refine ⟨hdesc, lt_of_le_of_ne (by rw [hr.rank]; exact hle) fun heq => ?_⟩
      -- at equal rank it is the record the state was made from
      have hsame := h.eq_of_rank (hpR top ht) hoR (hr.rank.symm.trans heq)
      exact hno (hr.present_iff.mpr (hsame ▸ hdesc))
  · intro pre post o st hsplit hpre hoR hrank hself
    have hpR : ∀ a ∈ pre, a ∈ R := fun a ha => hmem a (by rw [hsplit]; simp [ha])
    obtain ⟨top, ht, -, hr⟩ := settled pre st hpR hpre
    obtain rfl := h.eq_of_rank hoR (hpR top ht) (hrank.trans hr.rank)
    exact resolve_again hr (h.opened o hoR).wellFormed hself

/-! ## A sample owner -/

/-- A suite whose body is stored in the clear and whose hash is the head of the value. -/
def clearSuite : PresenceSuite where
  hash := fun value => (value ++ List.replicate 32 0).take 32
  hash_length := by simp
  decrypt := fun _ _ value =>
    some ((value.drop headerBytes).take (bodyFixedBytes + maxDescriptorBytes))

/-- A stored value of period 0. -/
def sampleValue (revision type scope : UInt8) (target : Bytes) : Bytes :=
  [1, 0, 0, 0, revision] ++ List.replicate 16 0 ++ [type] ++ List.replicate 8 0 ++ [scope] ++
    target ++ List.replicate 2 0 ++ List.replicate (maxDescriptorBytes + aeadTagBytes) 0

def sampleDescriptor : Opened where
  period := 0
  revision := 1
  recordDigest := clearSuite.hash (sampleValue 1 1 0 (List.replicate 32 0))
  body := .descriptor []

def sampleTombstone : Opened where
  period := 0
  revision := 2
  recordDigest := clearSuite.hash (sampleValue 2 2 2 sampleDescriptor.recordDigest)
  body := .tombstone .record sampleDescriptor.recordDigest

theorem sample_consistent :
    Consistent clearSuite ({sampleDescriptor, sampleTombstone} : Multiset Opened) where
  opened := by
    intro o ho
    rcases Multiset.mem_cons.mp ho with rfl | ho
    · exact ⟨sampleValue 1 1 0 (List.replicate 32 0), by decide +kernel, rfl⟩
    · obtain rfl := Multiset.mem_singleton.mp ho
      exact ⟨sampleValue 2 2 2 sampleDescriptor.recordDigest, by decide +kernel, rfl⟩
  unique := by
    intro a ha b hb _ hrev
    rcases Multiset.mem_cons.mp ha with rfl | ha <;> rcases Multiset.mem_cons.mp hb with rfl | hb
    · rfl
    · obtain rfl := Multiset.mem_singleton.mp hb
      cases hrev
    · obtain rfl := Multiset.mem_singleton.mp ha
      cases hrev
    · rw [Multiset.mem_singleton.mp ha, Multiset.mem_singleton.mp hb]

/-- The tombstone seen before and after the descriptor it names, and then once more. -/
theorem presence_converges_sample :
    ∃ st : State, absorbAll [sampleTombstone, sampleDescriptor, sampleTombstone] = .ok (some st) ∧
      st.recordDigest = sampleTombstone.recordDigest ∧
      resolvePresenceState (some st) sampleTombstone = .ok st := by
  have hself : ¬ sampleTombstone.TargetsItself := by
    rw [Opened.TargetsItself]
    decide +kernel
  obtain ⟨top, ht, hmax, ⟨st, he, hp, hrev, hd, -⟩, -, hagain⟩ :=
    presence_converges clearSuite {sampleDescriptor, sampleTombstone} sample_consistent
      (by simp) [sampleTombstone, sampleDescriptor, sampleTombstone] (by
        intro o
        simp only [List.mem_cons, List.not_mem_nil, or_false, Multiset.insert_eq_cons,
          Multiset.mem_cons, Multiset.mem_singleton]
        tauto)
  have htop : top = sampleTombstone := by
    rcases Multiset.mem_cons.mp ht with rfl | ht
    · have := rank_lt_iff.not.mp (not_lt.mpr (hmax sampleTombstone (by simp)))
      exact absurd (.inr ⟨rfl, by decide⟩) this
    · exact Multiset.mem_singleton.mp ht
  subst htop
  have hrank : sampleTombstone.rank = st.rank := by
    rw [Opened.rank, State.rank, hp, hrev]
  exact ⟨st, he, hd, hagain _ [] sampleTombstone st (List.append_nil _).symm he ht hrank hself⟩

end Presence

end HyperDht.Private
