import HyperDht.Private.PeerLedger
import Mathlib.Algebra.BigOperators.Group.Finset.Basic
import Mathlib.Algebra.Order.BigOperators.Group.Finset
import Mathlib.Algebra.Order.Ring.Int

/-!
# The tree of ledgers

What holds of the tree of ledgers over every sequence of operations: what a
ledger reserves is what its live children may still spend (`Funded`), and what it
has spent was charged to it or below it (`Logged`). A charge moves up the tree
one ledger at a time; on the way the next ledger above still owes the charge to
its reservation (`debt`).
-/

namespace HyperDht.Private

namespace Ledgers

def parentOf (t : Ledgers) (h : Nat) : Option Nat := (t.states[h]?).bind Ledger.parent

theorem parentOf_of_some {t : Ledgers} {h : Nat} {l : Ledger} (hl : t.states[h]? = some l) :
    t.parentOf h = l.parent := by
  unfold parentOf
  rw [hl]
  rfl

/-- The shape of the tree: parents are older, a live ledger has a live parent, and
a ledger knows its live children. -/
structure Tree (t : Ledgers) : Prop where
  rooted : Rooted t.parentOf
  live : ∀ {c : Nat} {l : Ledger} {p : Nat}, t.states[c]? = some l → l.released = false → l.parent = some p →
    ∃ q : Ledger, t.states[p]? = some q ∧ q.released = false
  children : ∀ {p : Nat} {q : Ledger}, t.states[p]? = some q → ∀ c, c ∈ q.children ↔
    ∃ l : Ledger, t.states[c]? = some l ∧ l.parent = some p ∧ l.released = false

/-- What a ledger may still spend of its parent's reservation, if it is a live
child of `p`. -/
def held (t : Ledgers) (p : Nat) (a : Axis) (c : Nat) : Int :=
  match t.states[c]? with
  | none => 0
  | some l => if l.parent = some p ∧ l.released = false then l.unspent.get a else 0

/-- What the live children of `p` may still spend. -/
def childSum (t : Ledgers) (p : Nat) (a : Axis) : Int :=
  ∑ c ∈ Finset.range t.states.length, t.held p a c

/-- The quantities of the tree; `debt` is what a reservation has too much. -/
structure Funded (debt : Nat → Axis → Int) (t : Ledgers) : Prop where
  spent : ∀ {h : Nat} {l : Ledger}, t.states[h]? = some l → ∀ a,
    0 ≤ l.spent.get a ∧ l.spent.get a ≤ l.allocated.get a
  reserved : ∀ {h : Nat} {l : Ledger}, t.states[h]? = some l → l.released = false → ∀ a,
    l.reserved.get a = t.childSum h a + debt h a
  room : ∀ {h : Nat} {l : Ledger}, t.states[h]? = some l → l.released = false → ∀ a,
    l.spent.get a + l.reserved.get a ≤ l.allocated.get a

/-- The charges of a log to a ledger itself. -/
def directSum (log : List (Nat × Row)) (h : Nat) (a : Axis) : Int :=
  (log.map fun e => if e.1 = h then e.2.get a else 0).sum

/-- The charges of a log to the descendants of a ledger, released or not. -/
def belowSum (t : Ledgers) (log : List (Nat × Row)) (h : Nat) (a : Axis) : Int :=
  (log.map fun e => if e.1 ≠ h ∧ h ∈ lineage t.parentOf e.1 then e.2.get a else 0).sum

structure Logged (t : Ledgers) (log : List (Nat × Row)) : Prop where
  handles : ∀ e ∈ log, e.1 < t.states.length
  spent : ∀ {h : Nat} {l : Ledger}, t.states[h]? = some l → ∀ a,
    l.spent.get a = directSum log h a + t.belowSum log h a
  direct : ∀ {h : Nat} {l : Ledger}, t.states[h]? = some l →
    l.directCellsSpent = directSum log h .cells

/-! ## One ledger changes -/

theorem get_modify (t : Ledgers) (h : Nat) (f : Ledger → Ledger) (x : Nat) :
    (t.modify h f).states[x]? = (t.states[x]?).map fun l => if h = x then f l else l :=
  List.getElem?_modify f h t.states x

theorem get_modify_self {t : Ledgers} {h : Nat} {l : Ledger} (hl : t.states[h]? = some l)
    (f : Ledger → Ledger) : (t.modify h f).states[h]? = some (f l) := by
  rw [get_modify, hl, Option.map_some, if_pos rfl]

theorem get_modify_ne {t : Ledgers} {h x : Nat} (hne : h ≠ x) (f : Ledger → Ledger) :
    (t.modify h f).states[x]? = t.states[x]? := by
  rw [get_modify]
  simp [hne]

@[simp] theorem length_modify (t : Ledgers) (h : Nat) (f : Ledger → Ledger) :
    (t.modify h f).states.length = t.states.length :=
  List.length_modify f t.states h

theorem exists_of_modify {t : Ledgers} {h x : Nat} {f : Ledger → Ledger} {l' : Ledger}
    (hl' : (t.modify h f).states[x]? = some l') :
    ∃ l, t.states[x]? = some l ∧ l' = if h = x then f l else l := by
  rw [get_modify] at hl'
  obtain ⟨l, hl, he⟩ := Option.map_eq_some_iff.mp hl'
  exact ⟨l, hl, he.symm⟩

theorem parentOf_modify {t : Ledgers} {h : Nat} {f : Ledger → Ledger}
    (hf : ∀ l, (f l).parent = l.parent) : (t.modify h f).parentOf = t.parentOf := by
  funext x
  unfold parentOf
  rw [get_modify]
  cases t.states[x]? with
  | none => rfl
  | some l =>
    show (if h = x then f l else l).parent = l.parent
    split
    · exact hf l
    · rfl

/-- A change that leaves the shape of the tree alone. -/
structure Keeps (f : Ledger → Ledger) : Prop where
  parent : ∀ l, (f l).parent = l.parent
  released : ∀ l, (f l).released = l.released
  children : ∀ l, (f l).children = l.children

theorem Keeps.ite {f : Ledger → Ledger} (hf : Keeps f) (p : Prop) [Decidable p] :
    Keeps fun l => if p then f l else l := by
  split
  · exact hf
  · exact ⟨fun _ => rfl, fun _ => rfl, fun _ => rfl⟩

theorem Tree.map {t t' : Ledgers} (ht : t.Tree) {f : Nat → Ledger → Ledger} (hf : ∀ x, Keeps (f x))
    (hget : ∀ x : Nat, t'.states[x]? = (t.states[x]?).map (f x)) : t'.Tree := by
  have hpar : t'.parentOf = t.parentOf := by
    funext x
    unfold parentOf
    rw [hget]
    cases t.states[x]? with
    | none => rfl
    | some l => exact (hf x).parent l
  have hlive : ∀ (c : Nat) (p : Option Nat), (∃ l : Ledger, t'.states[c]? = some l ∧ l.parent = p ∧
      l.released = false) ↔ ∃ l : Ledger, t.states[c]? = some l ∧ l.parent = p ∧
      l.released = false := by
    intro c p
    rw [hget]
    constructor
    · rintro ⟨l', hl', hp, hr⟩
      obtain ⟨l, hl, rfl⟩ := Option.map_eq_some_iff.mp hl'
      exact ⟨l, hl, ((hf c).parent l).symm.trans hp, ((hf c).released l).symm.trans hr⟩
    · rintro ⟨l, hl, hp, hr⟩
      exact ⟨f c l, by rw [hl, Option.map_some], ((hf c).parent l).trans hp,
        ((hf c).released l).trans hr⟩
  refine ⟨hpar.symm ▸ ht.rooted, fun {c l p} hl hr hp => ?_, fun {p q} hq c => ?_⟩
  · obtain ⟨l₀, hl₀, hp₀, hr₀⟩ := (hlive c (some p)).mp ⟨l, hl, hp, hr⟩
    obtain ⟨q, hq, hqr⟩ := ht.live hl₀ hr₀ hp₀
    exact ⟨f p q, by rw [hget, hq, Option.map_some], ((hf p).released q).trans hqr⟩
  · rw [hget] at hq
    obtain ⟨q₀, hq₀, rfl⟩ := Option.map_eq_some_iff.mp hq
    rw [(hf p).children, ht.children hq₀, hlive]

theorem Tree.modify {t : Ledgers} (ht : t.Tree) (h : Nat) {f : Ledger → Ledger} (hf : Keeps f) :
    (t.modify h f).Tree :=
  ht.map (fun x => hf.ite (h = x)) (get_modify t h f)

theorem held_modify_ne {t : Ledgers} {h c : Nat} (hne : c ≠ h) (f : Ledger → Ledger) (p : Nat)
    (a : Axis) : (t.modify h f).held p a c = t.held p a c := by
  unfold held
  rw [get_modify_ne (Ne.symm hne)]

theorem childSum_of_one {t t' : Ledgers} (hlen : t'.states.length = t.states.length) {p : Nat}
    {a : Axis} (x : Nat) (hother : ∀ c, c ≠ x → t'.held p a c = t.held p a c) :
    t'.childSum p a = t.childSum p a - t.held p a x + t'.held p a x := by
  unfold childSum
  rw [hlen]
  by_cases hx : x ∈ Finset.range t.states.length
  · have h₁ := Finset.add_sum_erase _ (fun c => t.held p a c) hx
    have h₂ := Finset.add_sum_erase _ (fun c => t'.held p a c) hx
    have h₃ : ∑ c ∈ (Finset.range t.states.length).erase x, t'.held p a c =
        ∑ c ∈ (Finset.range t.states.length).erase x, t.held p a c :=
      Finset.sum_congr rfl fun c hc => hother c (Finset.ne_of_mem_erase hc)
    omega
  · have hlt : t.states.length ≤ x := Nat.not_lt.mp fun h => hx (Finset.mem_range.mpr h)
    have h₁ : t.held p a x = 0 := by
      unfold held
      rw [List.getElem?_eq_none hlt]
    have h₂ : t'.held p a x = 0 := by
      unfold held
      rw [List.getElem?_eq_none (hlen ▸ hlt)]
    have h₃ : ∑ c ∈ Finset.range t.states.length, t'.held p a c =
        ∑ c ∈ Finset.range t.states.length, t.held p a c :=
      Finset.sum_congr rfl fun c hc => hother c fun he => hx (he ▸ hc)
    omega

theorem childSum_modify {t : Ledgers} (h : Nat) (f : Ledger → Ledger) (p : Nat) (a : Axis) :
    (t.modify h f).childSum p a = t.childSum p a - t.held p a h + (t.modify h f).held p a h :=
  childSum_of_one (length_modify t h f) h fun _ hne => held_modify_ne hne f p a

theorem held_nonneg {debt : Nat → Axis → Int} {t : Ledgers} (hf : t.Funded debt) (p : Nat) (a : Axis)
    (c : Nat) : 0 ≤ t.held p a c := by
  unfold held
  split
  · exact le_rfl
  · next l hl =>
    split
    · have := hf.spent hl a
      rw [Ledger.unspent, Row.get_sub]
      omega
    · exact le_rfl

theorem childSum_nonneg {debt : Nat → Axis → Int} {t : Ledgers} (hf : t.Funded debt) (p : Nat)
    (a : Axis) : 0 ≤ t.childSum p a :=
  Finset.sum_nonneg fun c _ => held_nonneg hf p a c

theorem held_of_some {t : Ledgers} {c : Nat} {l : Ledger} (hl : t.states[c]? = some l) (p : Nat)
    (a : Axis) : t.held p a c =
      if l.parent = some p ∧ l.released = false then l.unspent.get a else 0 := by
  unfold held
  rw [hl]

/-! ## Charges -/

/-- The debt of a charge that has reached `next`. -/
def owes (next : Option Nat) (row : Row) (x : Nat) (a : Axis) : Int :=
  if next = some x then row.get a else 0

/-- A live ledger spends `row`, the debt it had is paid and its parent owes now. -/
theorem Funded.spend {t : Ledgers} {next : Option Nat} {row : Row} (ht : t.Tree)
    (hf : t.Funded (owes next row)) {x : Nat} {l : Ledger} (hl : t.states[x]? = some l)
    (hlive : l.released = false) (hnext : ∀ y, y ≠ x → next ≠ some y) (hrow : row.valid = true)
    {f : Ledger → Ledger} (hk : Keeps f) (halloc : (f l).allocated = l.allocated)
    (hspent : (f l).spent = l.spent + row)
    (hres : ∀ a, (f l).reserved.get a = l.reserved.get a - owes next row x a)
    (hroom : ∀ a, (l.spent + row).get a + (l.reserved.get a - owes next row x a) ≤
      l.allocated.get a) :
    (t.modify x f).Funded (owes l.parent row) := by
  have hfl := get_modify_self hl f
  have hheld : ∀ p a, (t.modify x f).held p a x = t.held p a x - owes l.parent row p a := by
    intro p a
    rw [held_of_some hfl, held_of_some hl, hk.parent, hk.released, Ledger.unspent, halloc, hspent,
      Ledger.unspent, owes, hlive]
    by_cases hp : l.parent = some p
    · rw [if_pos ⟨hp, rfl⟩, if_pos ⟨hp, rfl⟩, if_pos hp]
      simp only [Row.get_sub, Row.get_add]
      omega
    · rw [if_neg fun h => hp h.1, if_neg fun h => hp h.1, if_neg hp]
      omega
  have hsum : ∀ p a, (t.modify x f).childSum p a = t.childSum p a - owes l.parent row p a := by
    intro p a
    rw [childSum_modify, hheld]
    omega
  have hself : ∀ a, owes l.parent row x a = 0 := by
    intro a
    rw [owes, if_neg]
    intro hp
    exact absurd (ht.rooted x x ((parentOf_of_some hl).trans hp)) (lt_irrefl x)
  refine ⟨fun {h l'} hl' a => ?_, fun {h l'} hl' hr a => ?_, fun {h l'} hl' hr a => ?_⟩
  · obtain ⟨l₀, hl₀, rfl⟩ := exists_of_modify hl'
    by_cases he : x = h
    · subst he
      obtain rfl := Option.some.inj (hl.symm.trans hl₀)
      have h₁ := hf.spent hl a
      have h₂ := hf.reserved hl hlive a
      have h₃ := childSum_nonneg hf x a
      have h₄ := hroom a
      have h₅ := Row.get_nonneg hrow a
      rw [if_pos rfl, halloc, hspent]
      rw [Row.get_add] at h₄ ⊢
      omega
    · rw [if_neg he]
      exact hf.spent hl₀ a
  · obtain ⟨l₀, hl₀, rfl⟩ := exists_of_modify hl'
    rw [hsum]
    by_cases he : x = h
    · subst he
      obtain rfl := Option.some.inj (hl.symm.trans hl₀)
      have h₁ := hf.reserved hl hlive a
      rw [if_pos rfl, hres, hself]
      omega
    · rw [if_neg he] at hr ⊢
      have h₁ := hf.reserved hl₀ hr a
      rw [owes, if_neg (hnext h (Ne.symm he))] at h₁
      omega
  · obtain ⟨l₀, hl₀, rfl⟩ := exists_of_modify hl'
    by_cases he : x = h
    · subst he
      obtain rfl := Option.some.inj (hl.symm.trans hl₀)
      rw [if_pos rfl, halloc, hspent, hres]
      exact hroom a
    · rw [if_neg he] at hr ⊢
      exact hf.room hl₀ hr a

theorem keeps_charge (row : Row) : Keeps (·.charge row) :=
  ⟨fun _ => rfl, fun _ => rfl, fun _ => rfl⟩

theorem keeps_chargeBelow (row : Row) : Keeps (·.chargeBelow row) :=
  ⟨fun _ => rfl, fun _ => rfl, fun _ => rfl⟩

/-- What a charge leaves alone, and what it adds to the ledgers of `above`. -/
structure Spends (row : Row) (above : Nat → Prop) (t t' : Ledgers) : Prop where
  length : t'.states.length = t.states.length
  parents : t'.parentOf = t.parentOf
  memory : t'.memory = t.memory
  added : ∀ {x : Nat} {l' : Ledger}, t'.states[x]? = some l' → ∃ l : Ledger,
    t.states[x]? = some l ∧ (above x → l'.spent = l.spent + row) ∧ (¬above x → l'.spent = l.spent) ∧
      l'.directCellsSpent = l.directCellsSpent

theorem spends_chargeBelow (t : Ledgers) (row : Row) (x : Nat) :
    Spends row (· = x) t (t.modify x (·.chargeBelow row)) := by
  refine ⟨length_modify t x _, parentOf_modify fun _ => rfl, rfl, fun {y l'} hl' => ?_⟩
  obtain ⟨l, hl, rfl⟩ := exists_of_modify hl'
  refine ⟨l, hl, fun he => ?_, fun he => ?_, ?_⟩
  · rw [if_pos he.symm]
    rfl
  · rw [if_neg (Ne.symm he)]
  · split
    · rfl
    · rfl

theorem Spends.trans {row : Row} {p q : Nat → Prop} {t t₁ t₂ : Ledgers} (h₁ : Spends row p t t₁)
    (h₂ : Spends row q t₁ t₂) (hpq : ∀ x, p x → ¬q x) : Spends row (fun x => p x ∨ q x) t t₂ := by
  refine ⟨h₂.length.trans h₁.length, h₂.parents.trans h₁.parents, h₂.memory.trans h₁.memory,
    fun {x l₂} hl₂ => ?_⟩
  obtain ⟨l₁, hl₁, hq, hnq, hd₂⟩ := h₂.added hl₂
  obtain ⟨l, hl, hp, hnp, hd₁⟩ := h₁.added hl₁
  refine ⟨l, hl, ?_, fun hn => ?_, hd₂.trans hd₁⟩
  · rintro (hx | hx)
    · rw [hnq (hpq x hx), hp hx]
    · rw [hq hx, hnp fun h => hpq x h hx]
  · rw [hnq fun h => hn (.inr h), hnp fun h => hn (.inl h)]

def Above (t : Ledgers) (next : Option Nat) (x : Nat) : Prop :=
  ∃ y, next = some y ∧ x ∈ lineage t.parentOf y

theorem chargeAbove_spec {row : Row} (hrow : row.valid = true) :
    ∀ (fuel : Nat) (next : Option Nat) (t : Ledgers), t.Tree → t.Funded (owes next row) →
      (∀ x, next = some x → x < fuel ∧ ∃ l : Ledger, t.states[x]? = some l ∧ l.released = false) →
      (chargeAbove row fuel next t).Tree ∧ (chargeAbove row fuel next t).Funded (owes none row) ∧
        Spends row (t.Above next) t (chargeAbove row fuel next t) := by
  -- by induction on the rounds; after each one the parent of the ledger owes
  have hdone : ∀ t : Ledgers, Spends row (t.Above none) t t := fun t =>
    ⟨rfl, rfl, rfl, fun {x l'} hl' => ⟨l', hl', (by rintro ⟨y, hy, -⟩; cases hy), fun _ => rfl, rfl⟩⟩
  intro fuel
  induction fuel with
  | zero =>
    intro next t ht hf hnext
    cases next with
    | none => exact ⟨ht, hf, hdone t⟩
    | some x => exact absurd (hnext x rfl).1 (Nat.not_lt_zero x)
  | succ fuel ih =>
    intro next t ht hf hnext
    cases next with
    | none => exact ⟨ht, hf, hdone t⟩
    | some x =>
      obtain ⟨hlt, l, hl, hlive⟩ := hnext x rfl
      rw [chargeAbove, hl]
      dsimp only
      have ht₁ := ht.modify x (keeps_chargeBelow row)
      have hf₁ := Funded.spend ht hf hl hlive (fun y hy he => hy (Option.some.inj he).symm) hrow
        (keeps_chargeBelow row) rfl rfl (fun a => by rw [owes, if_pos rfl]; exact Row.get_sub _ _ a)
        (fun a => by
          have := hf.room hl hlive a
          rw [owes, if_pos rfl, Row.get_add]
          omega)
      have hs₁ := spends_chargeBelow t row x
      have hup : ∀ y, l.parent = some y → y < fuel ∧ ∃ q : Ledger,
          (t.modify x (·.chargeBelow row)).states[y]? = some q ∧ q.released = false := by
        intro y hy
        have hp := ht.rooted x y ((parentOf_of_some hl).trans hy)
        obtain ⟨q, hq, hqr⟩ := ht.live hl hlive hy
        refine ⟨by omega, q, ?_, hqr⟩
        rw [get_modify_ne (by omega)]
        exact hq
      obtain ⟨h₁, h₂, h₃⟩ := ih l.parent _ ht₁ hf₁ hup
      refine ⟨h₁, h₂, ?_⟩
      have hrel : ∀ y, (y = x ∨ (t.modify x (·.chargeBelow row)).Above l.parent y) ↔
          t.Above (some x) y := by
        intro y
        unfold Above
        rw [hs₁.parents]
        simp only [Option.some.injEq, exists_eq_left']
        rw [mem_lineage_iff ht.rooted, parentOf_of_some hl]
      have hdis : ∀ y, y = x → ¬(t.modify x (·.chargeBelow row)).Above l.parent y := by
        rintro y rfl ⟨p, hp, hmem⟩
        rw [hs₁.parents] at hmem
        have := le_of_mem_lineage ht.rooted hmem
        have := ht.rooted y p ((parentOf_of_some hl).trans hp)
        omega
      have := hs₁.trans h₃ hdis
      rwa [funext fun y => propext (hrel y)] at this

theorem chargePeerLedger_cases (t : Ledgers) (handle : Nat) (row : Row) :
    t.chargePeerLedger handle row = (t, .error .invalidRoute) ∨
      ∃ l, t.states[handle]? = some l ∧ l.released = false ∧ row.valid = true ∧
        row.fits l.remaining = true ∧ t.chargePeerLedger handle row =
          (chargeAbove row t.states.length l.parent (t.modify handle (·.charge row)), .ok ()) := by
  unfold chargePeerLedger
  cases hl : t.states[handle]? with
  | none => exact .inl rfl
  | some l =>
    dsimp only
    split
    · exact .inl rfl
    · split
      · exact .inl rfl
      · split
        · exact .inl rfl
        · next hr hv hfit =>
          exact .inr ⟨l, rfl, by simpa using hr, by simpa using hv, by simpa using hfit, rfl⟩

theorem charge_spec {t : Ledgers} (ht : t.Tree) (hf : t.Funded fun _ _ => 0) {handle : Nat}
    {row : Row} {l : Ledger} (hl : t.states[handle]? = some l) (hlive : l.released = false)
    (hrow : row.valid = true) (hrem : row.fits l.remaining = true) {t' : Ledgers}
    (ht' : t' = chargeAbove row t.states.length l.parent (t.modify handle (·.charge row))) :
    t'.Tree ∧ t'.Funded (fun _ _ => 0) ∧
      Spends row (t.Above l.parent) (t.modify handle (·.charge row)) t' := by
  subst ht'
  have ht₁ := ht.modify handle (keeps_charge row)
  have hf₁ : (t.modify handle (·.charge row)).Funded (owes l.parent row) := by
    have hf₀ : t.Funded (owes none row) := hf
    refine Funded.spend ht hf₀ hl hlive (fun _ _ h => by cases h) hrow (keeps_charge row) rfl rfl
      (fun a => ?_) fun a => ?_
    · show l.reserved.get a = l.reserved.get a - 0
      omega
    · have := Row.get_le hrem a
      rw [Ledger.remaining, Row.get_sub, Row.get_sub] at this
      show (l.spent + row).get a + (l.reserved.get a - 0) ≤ l.allocated.get a
      rw [Row.get_add]
      omega
  have hup : ∀ y, l.parent = some y → y < t.states.length ∧ ∃ q : Ledger,
      (t.modify handle (·.charge row)).states[y]? = some q ∧ q.released = false := by
    intro y hy
    have hp := ht.rooted handle y ((parentOf_of_some hl).trans hy)
    obtain ⟨q, hq, hqr⟩ := ht.live hl hlive hy
    refine ⟨(List.getElem?_eq_some_iff.mp hq).1, q, ?_, hqr⟩
    rw [get_modify_ne (by omega)]
    exact hq
  obtain ⟨h₁, h₂, h₃⟩ := chargeAbove_spec hrow t.states.length l.parent _ ht₁ hf₁ hup
  refine ⟨h₁, h₂, ?_⟩
  have habove : (t.modify handle (·.charge row)).Above l.parent = t.Above l.parent := by
    unfold Above
    rw [parentOf_modify (f := (·.charge row)) fun _ => rfl]
  rwa [habove] at h₃

theorem Logged.charge {t t' : Ledgers} {log : List (Nat × Row)} (ht : t.Tree) (hg : t.Logged log)
    {handle : Nat} {row : Row} {l : Ledger} (hl : t.states[handle]? = some l)
    (hs : Spends row (t.Above l.parent) (t.modify handle (·.charge row)) t') :
    t'.Logged ((handle, row) :: log) := by
  have hpar : t'.parentOf = t.parentOf :=
    hs.parents.trans (parentOf_modify (f := (·.charge row)) fun _ => rfl)
  have hlen : t'.states.length = t.states.length := hs.length.trans (length_modify t handle _)
  have hdir : ∀ x a, directSum ((handle, row) :: log) x a =
      (if handle = x then row.get a else 0) + directSum log x a := fun x a => rfl
  have hbel : ∀ x a, t'.belowSum ((handle, row) :: log) x a =
      (if handle ≠ x ∧ x ∈ lineage t.parentOf handle then row.get a else 0) + t.belowSum log x a := by
    intro x a
    unfold belowSum
    rw [hpar]
    rfl
  have hmem : ∀ x, handle ≠ x → (x ∈ lineage t.parentOf handle ↔ t.Above l.parent x) := by
    intro x hne
    rw [mem_lineage_iff ht.rooted, parentOf_of_some hl]
    exact or_iff_right (Ne.symm hne)
  have hself : ¬t.Above l.parent handle := by
    rintro ⟨p, hp, hmem⟩
    have := le_of_mem_lineage ht.rooted hmem
    have := ht.rooted handle p ((parentOf_of_some hl).trans hp)
    omega
  refine ⟨?_, fun {x l'} hl' a => ?_, fun {x l'} hl' => ?_⟩
  · intro e he
    rcases List.mem_cons.mp he with rfl | he
    · rw [hlen]
      exact (List.getElem?_eq_some_iff.mp hl).1
    · rw [hlen]
      exact hg.handles e he
  · obtain ⟨l₁, hl₁, hin, hout, -⟩ := hs.added hl'
    obtain ⟨l₀, hl₀, rfl⟩ := exists_of_modify hl₁
    have hold := hg.spent hl₀ a
    rw [hdir, hbel]
    by_cases he : handle = x
    · subst he
      rw [hout hself, if_pos rfl, if_pos rfl, if_neg fun h => h.1 rfl, Ledger.charge, Row.get_add]
      omega
    · rw [if_neg he] at hin hout
      rw [if_neg he]
      by_cases hab : t.Above l.parent x
      · rw [hin hab, if_pos ⟨he, (hmem x he).mpr hab⟩, Row.get_add]
        omega
      · rw [hout hab, if_neg fun h => hab ((hmem x he).mp h.2)]
        omega
  · obtain ⟨l₁, hl₁, -, -, hd⟩ := hs.added hl'
    obtain ⟨l₀, hl₀, rfl⟩ := exists_of_modify hl₁
    have hold := hg.direct hl₀
    rw [hd, hdir]
    by_cases he : handle = x
    · rw [if_pos he, if_pos he, Ledger.charge]
      show l₀.directCellsSpent + row.cells = row.cells + _
      omega
    · rw [if_neg he, if_neg he]
      omega

/-! ## New ledgers -/

theorem get_add (t : Ledgers) (l : Ledger) (x : Nat) :
    (t.add l).states[x]? = if x = t.states.length then some l else t.states[x]? := by
  show (t.states ++ [l])[x]? = _
  rcases lt_trichotomy x t.states.length with h | h | h
  · rw [if_neg (by omega), List.getElem?_append_left h]
  · rw [if_pos h, h, List.getElem?_concat_length]
  · rw [if_neg (by omega), List.getElem?_eq_none (by simp; omega), List.getElem?_eq_none (by omega)]

theorem length_add (t : Ledgers) (l : Ledger) : (t.add l).states.length = t.states.length + 1 :=
  List.length_append

theorem get_add_of_some {t : Ledgers} {l q : Ledger} {x : Nat} (hq : t.states[x]? = some q) :
    (t.add l).states[x]? = some q := by
  have := (List.getElem?_eq_some_iff.mp hq).1
  rw [get_add, if_neg (by omega), hq]

theorem parentOf_add {t : Ledgers} {l : Ledger} {x : Nat} (hx : x ≠ t.states.length) :
    (t.add l).parentOf x = t.parentOf x := by
  unfold parentOf
  rw [get_add, if_neg hx]

theorem Rooted.add {t : Ledgers} (hr : Rooted t.parentOf) {l : Ledger}
    (hl : ∀ p, l.parent = some p → p < t.states.length) : Rooted (t.add l).parentOf := by
  intro c p hp
  by_cases hc : c = t.states.length
  · subst hc
    unfold parentOf at hp
    rw [get_add, if_pos rfl] at hp
    exact hl p hp
  · rw [parentOf_add hc] at hp
    exact hr c p hp

theorem Logged.add {t : Ledgers} {log : List (Nat × Row)} (hr : Rooted t.parentOf)
    (hg : t.Logged log) {l : Ledger} (hspent : l.spent = 0) (hdirect : l.directCellsSpent = 0) : (t.add l).Logged log := by
  have hlin : ∀ e ∈ log, lineage (t.add l).parentOf e.1 = lineage t.parentOf e.1 := by
    intro e he
    have := hg.handles e he
    exact lineage_congr hr fun y hy => parentOf_add (by omega)
  have hsum : ∀ x a, (t.add l).belowSum log x a = t.belowSum log x a := by
    intro x a
    unfold belowSum
    congr 1
    apply List.map_congr_left
    intro e he
    rw [hlin e he]
  have hdir : ∀ a, directSum log t.states.length a = 0 := by
    intro a
    unfold directSum
    apply List.sum_eq_zero
    intro v hv
    obtain ⟨e, he, rfl⟩ := List.mem_map.mp hv
    have := hg.handles e he
    rw [if_neg (by omega)]
  have hbel : ∀ a, t.belowSum log t.states.length a = 0 := by
    intro a
    unfold belowSum
    apply List.sum_eq_zero
    intro v hv
    obtain ⟨e, he, rfl⟩ := List.mem_map.mp hv
    have := hg.handles e he
    rw [if_neg]
    rintro ⟨-, hmem⟩
    have := le_of_mem_lineage hr hmem
    omega
  refine ⟨fun e he => ?_, fun {x q} hq a => ?_, fun {x q} hq => ?_⟩
  · have := hg.handles e he
    rw [length_add]
    omega
  · rw [get_add] at hq
    rw [hsum]
    split at hq
    · next hx =>
      obtain rfl := Option.some.inj hq
      rw [hx, hspent, hdir, hbel, Row.get_zero]
      omega
    · exact hg.spent hq a
  · rw [get_add] at hq
    split at hq
    · next hx =>
      obtain rfl := Option.some.inj hq
      rw [hx, hdirect, hdir]
    · exact hg.direct hq

theorem held_add {t : Ledgers} {l : Ledger} {p : Nat} {a : Axis} {c : Nat}
    (hc : c ≠ t.states.length) : (t.add l).held p a c = t.held p a c := by
  unfold held
  rw [get_add, if_neg hc]

theorem childSum_add (t : Ledgers) (l : Ledger) (p : Nat) (a : Axis) :
    (t.add l).childSum p a = t.childSum p a +
      if l.parent = some p ∧ l.released = false then l.unspent.get a else 0 := by
  unfold childSum
  rw [length_add, Finset.sum_range_succ]
  congr 1
  · apply Finset.sum_congr rfl
    intro c hc
    have := Finset.mem_range.mp hc
    exact held_add (by omega)
  · apply held_of_some
    rw [get_add, if_pos rfl]

theorem childSum_of_none {t : Ledgers} (ht : t.Tree) {p : Nat} (hp : t.states.length ≤ p) (a : Axis) :
    t.childSum p a = 0 := by
  apply Finset.sum_eq_zero
  intro c hc
  have hlt := Finset.mem_range.mp hc
  unfold held
  split
  · rfl
  · next l hl =>
    rw [if_neg]
    rintro ⟨hpar, -⟩
    have := ht.rooted c p ((parentOf_of_some hl).trans hpar)
    omega

theorem createPeerLedger_cases (t : Ledgers) (row : Row) :
    t.createPeerLedger row = (t, .error .invalidRoute) ∨
      row.valid = true ∧ t.createPeerLedger row = (t.add (.new none row), .ok t.states.length) := by
  unfold createPeerLedger
  split
  · exact .inl rfl
  · next hv => exact .inr ⟨by simpa using hv, rfl⟩

/-- A parent reserves a row for the ledger that is made next. -/
def adopt (n : Nat) (row : Row) (p : Ledger) : Ledger :=
  { p with reserved := p.reserved + row, children := p.children ++ [n] }

theorem reservePeerLedger_cases (t : Ledgers) (parent : Nat) (row : Row) :
    t.reservePeerLedger parent row = (t, .error .invalidRoute) ∨
      ∃ p, t.states[parent]? = some p ∧ p.released = false ∧ row.valid = true ∧
        row.fits p.remaining = true ∧ t.reservePeerLedger parent row =
          ((t.modify parent (adopt t.states.length row)).add (.new (some parent) row),
            .ok t.states.length) := by
  unfold reservePeerLedger
  cases hp : t.states[parent]? with
  | none => exact .inl rfl
  | some p =>
    dsimp only
    split
    · exact .inl rfl
    · split
      · exact .inl rfl
      · split
        · exact .inl rfl
        · next hr hv hfit =>
          exact .inr ⟨p, rfl, by simpa using hr, by simpa using hv, by simpa using hfit, rfl⟩

theorem exists_of_add {t : Ledgers} {l q : Ledger} {x : Nat} (hq : (t.add l).states[x]? = some q) :
    (x = t.states.length ∧ q = l) ∨ (x < t.states.length ∧ t.states[x]? = some q) := by
  rw [get_add] at hq
  split at hq
  · next hx => exact .inl ⟨hx, (Option.some.inj hq).symm⟩
  · exact .inr ⟨(List.getElem?_eq_some_iff.mp hq).1, hq⟩

theorem Tree.create {t : Ledgers} (ht : t.Tree) (row : Row) : (t.add (.new none row)).Tree := by
  refine ⟨Rooted.add ht.rooted fun p hp => (by cases hp), fun {c l p} hl hr hp => ?_,
    fun {p q} hq c => ?_⟩
  · rcases exists_of_add hl with ⟨-, rfl⟩ | ⟨-, hl⟩
    · cases hp
    · obtain ⟨q, hq, hqr⟩ := ht.live hl hr hp
      exact ⟨q, get_add_of_some hq, hqr⟩
  · have hiff : (∃ l : Ledger, (t.add (.new none row)).states[c]? = some l ∧ l.parent = some p ∧
        l.released = false) ↔
        ∃ l : Ledger, t.states[c]? = some l ∧ l.parent = some p ∧ l.released = false := by
      constructor
      · rintro ⟨l, hl, hp, hr⟩
        rcases exists_of_add hl with ⟨-, rfl⟩ | ⟨-, hl⟩
        · cases hp
        · exact ⟨l, hl, hp, hr⟩
      · rintro ⟨l, hl, hp, hr⟩
        exact ⟨l, get_add_of_some hl, hp, hr⟩
    rw [hiff]
    rcases exists_of_add hq with ⟨rfl, rfl⟩ | ⟨-, hq⟩
    · constructor
      · intro h
        cases h
      · rintro ⟨l, hl, hp, -⟩
        have := ht.rooted c _ ((parentOf_of_some hl).trans hp)
        have := (List.getElem?_eq_some_iff.mp hl).1
        omega
    · exact ht.children hq c

theorem Funded.create {t : Ledgers} (ht : t.Tree) (hf : t.Funded fun _ _ => 0) {row : Row}
    (hrow : row.valid = true) : (t.add (.new none row)).Funded fun _ _ => 0 := by
  have hsum : ∀ p a, (t.add (.new none row)).childSum p a = t.childSum p a := by
    intro p a
    rw [childSum_add, if_neg (by rintro ⟨h, -⟩; cases h)]
    omega
  refine ⟨fun {h l} hl a => ?_, fun {h l} hl hr a => ?_, fun {h l} hl hr a => ?_⟩
  · rcases exists_of_add hl with ⟨-, rfl⟩ | ⟨-, hl⟩
    · exact ⟨(Row.get_zero a).ge, (Row.get_zero a).le.trans (Row.get_nonneg hrow a)⟩
    · exact hf.spent hl a
  · rw [hsum]
    rcases exists_of_add hl with ⟨rfl, rfl⟩ | ⟨-, hl⟩
    · rw [childSum_of_none ht le_rfl]
      exact Row.get_zero a
    · exact hf.reserved hl hr a
  · rcases exists_of_add hl with ⟨-, rfl⟩ | ⟨-, hl⟩
    · have := Row.get_nonneg hrow a
      show (0 : Row).get a + (0 : Row).get a ≤ row.get a
      rw [Row.get_zero]
      omega
    · exact hf.room hl hr a

theorem Tree.reserve {t : Ledgers} (ht : t.Tree) {parent : Nat} {q : Ledger}
    (hq : t.states[parent]? = some q) (hlive : q.released = false) (row : Row) :
    ((t.modify parent (adopt t.states.length row)).add (.new (some parent) row)).Tree := by
  have hn : (t.modify parent (adopt t.states.length row)).states.length = t.states.length :=
    length_modify _ _ _
  have hlt := (List.getElem?_eq_some_iff.mp hq).1
  have hpar : (t.modify parent (adopt t.states.length row)).parentOf = t.parentOf :=
    parentOf_modify fun _ => rfl
  -- the live children in the new tree are those of the old one, and the new ledger
  have hiff : ∀ c p : Nat, (∃ l : Ledger,
      ((t.modify parent (adopt t.states.length row)).add (.new (some parent) row)).states[c]? = some l ∧
        l.parent = some p ∧ l.released = false) ↔
      (c = t.states.length ∧ p = parent) ∨
        ∃ l : Ledger, t.states[c]? = some l ∧ l.parent = some p ∧ l.released = false := by
    intro c p
    constructor
    · rintro ⟨l, hl, hp, hr⟩
      rcases exists_of_add hl with ⟨hc, rfl⟩ | ⟨-, hl⟩
      · exact .inl ⟨hc.trans hn, (Option.some.inj hp).symm⟩
      · obtain ⟨l₀, hl₀, rfl⟩ := exists_of_modify hl
        refine .inr ⟨l₀, hl₀, ?_⟩
        split at hp
        · next he =>
          rw [if_pos he] at hr
          exact ⟨hp, hr⟩
        · next he =>
          rw [if_neg he] at hr
          exact ⟨hp, hr⟩
    · rintro (⟨rfl, rfl⟩ | ⟨l, hl, hp, hr⟩)
      · exact ⟨_, by rw [get_add, if_pos hn.symm], rfl, rfl⟩
      · refine ⟨_, get_add_of_some (by rw [get_modify, hl, Option.map_some]), ?_⟩
        split
        · exact ⟨hp, hr⟩
        · exact ⟨hp, hr⟩
  have hstill : ∀ {p : Nat} {l : Ledger}, t.states[p]? = some l → l.released = false → ∃ l' : Ledger,
      ((t.modify parent (adopt t.states.length row)).add (.new (some parent) row)).states[p]? =
        some l' ∧ l'.released = false := by
    intro p l hl hr
    refine ⟨_, get_add_of_some (by rw [get_modify, hl, Option.map_some]), ?_⟩
    split
    · exact hr
    · exact hr
  refine ⟨Rooted.add (hpar ▸ ht.rooted) fun p hp => ?_, fun {c l p} hl hr hp => ?_,
    fun {p l} hl c => ?_⟩
  · rw [hn]
    exact Option.some.inj hp ▸ hlt
  · rcases (hiff c p).mp ⟨l, hl, hp, hr⟩ with ⟨-, rfl⟩ | ⟨l₀, hl₀, hp₀, hr₀⟩
    · exact hstill hq hlive
    · obtain ⟨q', hq', hqr'⟩ := ht.live hl₀ hr₀ hp₀
      exact hstill hq' hqr'
  · rw [hiff]
    rcases exists_of_add hl with ⟨rfl, rfl⟩ | ⟨hlt', hl⟩
    · rw [hn]
      constructor
      · intro h
        cases h
      · rintro (⟨-, rfl⟩ | ⟨l₀, hl₀, hp₀, -⟩)
        · omega
        · have := ht.rooted c _ ((parentOf_of_some hl₀).trans hp₀)
          have := (List.getElem?_eq_some_iff.mp hl₀).1
          omega
    · obtain ⟨l₀, hl₀, rfl⟩ := exists_of_modify hl
      rw [← ht.children hl₀ c]
      by_cases he : parent = p
      · rw [if_pos he, adopt, List.mem_append, List.mem_singleton, or_comm, and_iff_left he.symm]
      · rw [if_neg he]
        exact ⟨.inr, fun h => h.resolve_left fun hc => he hc.2.symm⟩

theorem Funded.reserve {t : Ledgers} (ht : t.Tree) (hf : t.Funded fun _ _ => 0) {parent : Nat}
    {q : Ledger} (hq : t.states[parent]? = some q) {row : Row} (hrow : row.valid = true)
    (hrem : row.fits q.remaining = true) :
    ((t.modify parent (adopt t.states.length row)).add (.new (some parent) row)).Funded
      fun _ _ => 0 := by
  have hlt := (List.getElem?_eq_some_iff.mp hq).1
  have hn : (t.modify parent (adopt t.states.length row)).states.length = t.states.length :=
    length_modify _ _ _
  have hsum : ∀ p a, ((t.modify parent (adopt t.states.length row)).add
      (.new (some parent) row)).childSum p a =
        t.childSum p a + if parent = p then row.get a else 0 := by
    intro p a
    have hheld : (t.modify parent (adopt t.states.length row)).held p a parent = t.held p a parent := by
      rw [held_of_some hq, held_of_some (get_modify_self hq _)]
      rfl
    have hnew : (Ledger.new (some parent) row).unspent.get a = row.get a := by
      rw [Ledger.unspent, Row.get_sub]
      show row.get a - (0 : Row).get a = row.get a
      rw [Row.get_zero]
      omega
    rw [childSum_add, childSum_modify, hheld, hnew]
    by_cases he : parent = p
    · rw [if_pos he, if_pos ⟨congrArg some he, rfl⟩]
      omega
    · rw [if_neg he, if_neg fun h => he (Option.some.inj h.1)]
      omega
  refine ⟨fun {h l} hl a => ?_, fun {h l} hl hr a => ?_, fun {h l} hl hr a => ?_⟩
  · rcases exists_of_add hl with ⟨-, rfl⟩ | ⟨-, hl⟩
    · exact ⟨(Row.get_zero a).ge, (Row.get_zero a).le.trans (Row.get_nonneg hrow a)⟩
    · obtain ⟨l₀, hl₀, rfl⟩ := exists_of_modify hl
      have := hf.spent hl₀ a
      split
      · exact this
      · exact this
  · rw [hsum]
    rcases exists_of_add hl with ⟨rfl, rfl⟩ | ⟨-, hl⟩
    · rw [hn, childSum_of_none ht le_rfl, if_neg (by omega)]
      exact Row.get_zero a
    · obtain ⟨l₀, hl₀, rfl⟩ := exists_of_modify hl
      by_cases he : parent = h
      · rw [if_pos he] at hr ⊢
        have := hf.reserved hl₀ hr a
        rw [if_pos he, adopt, Row.get_add]
        omega
      · rw [if_neg he] at hr ⊢
        have := hf.reserved hl₀ hr a
        rw [if_neg he]
        omega
  · rcases exists_of_add hl with ⟨-, rfl⟩ | ⟨-, hl⟩
    · have := Row.get_nonneg hrow a
      show (0 : Row).get a + (0 : Row).get a ≤ row.get a
      rw [Row.get_zero]
      omega
    · obtain ⟨l₀, hl₀, rfl⟩ := exists_of_modify hl
      by_cases he : parent = h
      · subst he
        obtain rfl := Option.some.inj (hq.symm.trans hl₀)
        have := Row.get_le hrem a
        rw [Ledger.remaining, Row.get_sub, Row.get_sub] at this
        rw [if_pos rfl]
        show q.spent.get a + (q.reserved + row).get a ≤ q.allocated.get a
        rw [Row.get_add]
        omega
      · rw [if_neg he] at hr ⊢
        exact hf.room hl₀ hr a

/-- A change that leaves parents and charges alone keeps the log. -/
theorem Logged.congr {t t' : Ledgers} {log : List (Nat × Row)} (hg : t.Logged log)
    (hlen : t'.states.length = t.states.length) (hpar : t'.parentOf = t.parentOf)
    (hsame : ∀ {x : Nat} {l' : Ledger}, t'.states[x]? = some l' → ∃ l : Ledger,
      t.states[x]? = some l ∧ l'.spent = l.spent ∧ l'.directCellsSpent = l.directCellsSpent) :
    t'.Logged log := by
  refine ⟨fun e he => hlen ▸ hg.handles e he, fun {x l'} hl' a => ?_, fun {x l'} hl' => ?_⟩
  · obtain ⟨l, hl, hs, -⟩ := hsame hl'
    rw [hs, hg.spent hl a]
    unfold belowSum
    rw [hpar]
  · obtain ⟨l, hl, -, hd⟩ := hsame hl'
    rw [hd, hg.direct hl]

end Ledgers

end HyperDht.Private
