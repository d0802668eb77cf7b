import HyperDht.Private.LedgerRun

/-!
# What a ledger keeps

Every operation leaves a ledger where it is in the tree, never lowers what it has
spent, and does not touch the spending of a released ledger: a charge is refused
unless all ledgers above it are live.
-/

namespace HyperDht.Private

namespace Ledgers

/-- `t'` is `t` after any number of operations. -/
structure Later (t t' : Ledgers) : Prop where
  kept : ∀ {x : Nat} {l : Ledger}, t.states[x]? = some l → ∃ l' : Ledger, t'.states[x]? = some l' ∧
    l'.parent = l.parent ∧ (∀ a, l.spent.get a ≤ l'.spent.get a) ∧
    (l.released = true → l'.released = true ∧ l'.spent = l.spent)

theorem Later.refl (t : Ledgers) : Later t t :=
  ⟨fun {_ l} hl => ⟨l, hl, rfl, fun _ => le_rfl, fun hr => ⟨hr, rfl⟩⟩⟩

theorem Later.trans {t t' t'' : Ledgers} (h : Later t t') (h' : Later t' t'') : Later t t'' := by
  refine ⟨fun {x l} hl => ?_⟩
  obtain ⟨l', hl', hp, hs, hr⟩ := h.kept hl
  obtain ⟨l'', hl'', hp', hs', hr'⟩ := h'.kept hl'
  refine ⟨l'', hl'', hp'.trans hp, fun a => (hs a).trans (hs' a), fun hrel => ?_⟩
  obtain ⟨hrel', he⟩ := hr hrel
  obtain ⟨hrel'', he'⟩ := hr' hrel'
  exact ⟨hrel'', he'.trans he⟩

/-- A ledger that changes in neither its place nor its spending. -/
theorem later_modify (t : Ledgers) (h : Nat) {f : Ledger → Ledger}
    (hf : ∀ l, (f l).parent = l.parent ∧ (f l).spent = l.spent ∧
      (l.released = true → (f l).released = true)) : Later t (t.modify h f) := by
  refine ⟨fun {x l} hl => ⟨if h = x then f l else l, by rw [get_modify, hl]; rfl, ?_, ?_, ?_⟩⟩
  · split
    · exact (hf l).1
    · rfl
  · split
    · exact fun a => (congrArg (Row.get · a) (hf l).2.1).ge
    · exact fun a => le_rfl
  · split
    · exact fun hr => ⟨(hf l).2.2 hr, (hf l).2.1⟩
    · exact fun hr => ⟨hr, rfl⟩

theorem later_add (t : Ledgers) (l : Ledger) : Later t (t.add l) :=
  ⟨fun {_ q} hq => ⟨q, get_add_of_some hq, rfl, fun _ => le_rfl, fun hr => ⟨hr, rfl⟩⟩⟩

theorem chargeAbove_released (row : Row) : ∀ (fuel : Nat) (next : Option Nat) (t : Ledgers) (x : Nat),
    ((chargeAbove row fuel next t).states[x]?).map Ledger.released =
      (t.states[x]?).map Ledger.released := by
  intro fuel
  induction fuel with
  | zero => exact fun _ _ _ => rfl
  | succ fuel ih =>
    intro next t x
    cases next with
    | none => rfl
    | some current =>
      rw [chargeAbove]
      split
      · rfl
      · rw [ih, get_modify, Option.map_map]
        congr 1
        funext l
        show Ledger.released (if current = x then _ else _) = _
        split <;> rfl

theorem get_add_row {r s : Row} (hs : s.valid = true) (a : Axis) : r.get a ≤ (r + s).get a := by
  have := Row.get_nonneg hs a
  rw [Row.get_add]
  omega

theorem later_charge {t t' : Ledgers} (ht : t.Tree) {handle : Nat} {row : Row} {l : Ledger}
    (hl : t.states[handle]? = some l) (hlive : l.released = false) (hrow : row.valid = true)
    (hs : Spends row (t.Above l.parent) (t.modify handle (·.charge row)) t')
    (hrel : ∀ x : Nat, (t'.states[x]?).map Ledger.released =
      ((t.modify handle (·.charge row)).states[x]?).map Ledger.released) : Later t t' := by
  refine ⟨fun {x q} hq => ?_⟩
  have hq₁ : (t.modify handle (·.charge row)).states[x]? =
      some (if handle = x then q.charge row else q) := by rw [get_modify, hq]; rfl
  have hlt : x < t'.states.length := by
    rw [hs.length]
    exact (List.getElem?_eq_some_iff.mp hq₁).1
  have hq' := List.getElem?_eq_getElem hlt
  obtain ⟨q₁, he₁, habove, hbeside, -⟩ := hs.added hq'
  obtain rfl := Option.some.inj (hq₁.symm.trans he₁)
  have hpar : t'.parentOf = t.parentOf :=
    hs.parents.trans (parentOf_modify (f := (·.charge row)) fun _ => rfl)
  have hparent : (t'.states[x]).parent = q.parent := by
    have := congrFun hpar x
    rwa [parentOf_of_some hq', parentOf_of_some hq] at this
  have hreleased : (t'.states[x]).released = q.released := by
    have := hrel x
    rw [hq', hq₁] at this
    simp only [Option.map_some, Option.some.injEq] at this
    rw [this]
    split <;> rfl
  -- a ledger at or above the charged one is live
  have hup : q.released = true → handle ≠ x ∧ ¬t.Above l.parent x := by
    intro hr
    have hout : x ∉ lineage t.parentOf handle := fun hm => by
      obtain ⟨q', hq', hlive'⟩ := (ht.below x).live_above (mem_lineage_self _ x) hl hlive hm
      obtain rfl := Option.some.inj (hq.symm.trans hq')
      rw [hr] at hlive'
      cases hlive'
    refine ⟨fun he => hout (he ▸ mem_lineage_self _ _), ?_⟩
    rintro ⟨p, hp, hm⟩
    exact hout (mem_lineage_parent ht.rooted ((parentOf_of_some hl).trans hp) hm)
  refine ⟨_, hq', hparent, fun a => ?_, fun hr => ⟨hreleased.trans hr, ?_⟩⟩
  · have hbase : q.spent.get a ≤ (if handle = x then q.charge row else q).spent.get a := by
      split
      · exact get_add_row hrow a
      · exact le_rfl
    by_cases hx : t.Above l.parent x
    · rw [habove hx]
      exact hbase.trans (get_add_row hrow a)
    · rw [hbeside hx]
      exact hbase
  · obtain ⟨hne, hx⟩ := hup hr
    rw [hbeside hx, if_neg hne]

theorem later_cut {h : Nat} {t t' : Ledgers} (hc : Cut h t t') : Later t t' := by
  refine ⟨fun {x l} hl => ?_⟩
  obtain ⟨l', hl', hs⟩ := hc.same.exists hl
  refine ⟨l', hl', hs.parent, fun a => (congrArg (Row.get · a) hs.spent).ge, fun hr => ⟨?_, hs.spent⟩⟩
  by_cases hx : h ∈ lineage t.parentOf x
  · exact (hc.below hx hl').1
  · cases hlh : t.states[h]? with
    | none =>
      have hpar : t.parentOf h = none := by
        unfold parentOf
        rw [hlh]
        rfl
      rw [hc.other hx (by rw [hpar]; exact fun e => by cases e), hl] at hl'
      exact Option.some.inj hl' ▸ hr
    | some lh =>
      obtain ⟨q, hq, he⟩ := hc.still hlh hx hl'
      obtain rfl := Option.some.inj (hl.symm.trans hq)
      rw [he, (forget_or h lh.unspent l).2.1]
      exact hr

theorem later_foldl_narrow : ∀ (plans : List LedgerPlan) (t : Ledgers),
    Later t (plans.foldl narrowLedger t) := by
  intro plans
  induction plans with
  | nil => exact fun t => .refl t
  | cons plan plans ih =>
    intro t
    refine Later.trans ?_ (ih _)
    unfold narrowLedger
    split
    · exact .refl t
    · have h₁ : Later t (t.modify plan.handle fun l => { l with allocated := plan.row }) :=
        later_modify t _ fun _ => ⟨rfl, rfl, id⟩
      dsimp only
      split
      · exact h₁
      · exact h₁.trans (later_modify _ _ fun _ => ⟨rfl, rfl, id⟩)

theorem later_of_states {t t' : Ledgers} (h : t'.states = t.states) : Later t t' :=
  ⟨fun {_ l} hl => ⟨l, h ▸ hl, rfl, fun _ => le_rfl, fun hr => ⟨hr, rfl⟩⟩⟩

theorem Conserved.later {t : Ledgers} {log : List (Nat × Row)} (hc : t.Conserved log)
    (op : LedgerOp) : Later t (t.apply op).1 := by
  cases op with
  | create row =>
    show Later t (t.createPeerLedger row).1
    rcases t.createPeerLedger_cases row with he | ⟨-, he⟩
    · rw [he]
      exact .refl t
    · rw [he]
      exact later_add t _
  | reserve parent row =>
    show Later t (t.reservePeerLedger parent row).1
    rcases t.reservePeerLedger_cases parent row with he | ⟨p, -, -, -, -, he⟩
    · rw [he]
      exact .refl t
    · rw [he]
      have hadopt : Later t (t.modify parent (adopt t.states.length row)) :=
        later_modify t parent fun _ => ⟨rfl, rfl, id⟩
      exact hadopt.trans (later_add _ _)
  | charge handle row =>
    show Later t (t.chargePeerLedger handle row).1
    rcases t.chargePeerLedger_cases handle row with he | ⟨l, hl, hlive, hrow, hrem, he⟩
    · rw [he]
      exact .refl t
    · rw [he]
      obtain ⟨-, -, hs⟩ := charge_spec hc.tree hc.funded hl hlive hrow hrem rfl
      exact later_charge hc.tree hl hlive hrow hs fun x => chargeAbove_released _ _ _ _ x
  | release handle =>
    show Later t (t.releasePeerLedger handle).1
    rcases t.releasePeerLedger_cases handle with he | he | ⟨l, hl, hlive, he⟩
    · rw [he]
      exact .refl t
    · rw [he]
      exact .refl t
    · rw [he]
      exact later_cut (release_spec t.states.length handle t l (hc.tree.below handle) hl hlive
        (Nat.sub_le _ _))
  | narrow ledgers memory =>
    show Later t (t.narrowPeerReservations ledgers memory).1
    rcases t.narrowPeerReservations_cases ledgers memory with he | ⟨-, -, he⟩
    · rw [he]
      exact .refl t
    · rw [he]
      exact (later_foldl_narrow ledgers t).trans (later_of_states rfl)
  | memory memory => exact later_of_states rfl

/-- After a call of `releasePeerLedger` the ledger is released, with what it has spent. -/
theorem Conserved.released {t : Ledgers} {log : List (Nat × Row)} (hc : t.Conserved log) {h : Nat}
    {l : Ledger} (hl : t.states[h]? = some l) :
    ∃ l' : Ledger, (t.releasePeerLedger h).1.states[h]? = some l' ∧ l'.released = true ∧
      l'.spent = l.spent := by
  unfold releasePeerLedger
  rw [hl]
  dsimp only
  split
  · next hr => exact ⟨l, hl, hr, rfl⟩
  · next hr =>
    have hcut := release_spec t.states.length h t l (hc.tree.below h) hl (by simpa using hr)
      (Nat.sub_le _ _)
    obtain ⟨l', hl', hs⟩ := hcut.same.exists hl
    exact ⟨l', hl', (hcut.below (mem_lineage_self _ h) hl').1, hs.spent⟩

end Ledgers

end HyperDht.Private
