import HyperDht.Private.LedgerTree

/-!
# Runs of ledger operations

Releasing a ledger releases all below it (`Cut`), narrowing gives back to the
parents what it takes from the allocations. Then what holds after every sequence
of operations.
-/

namespace HyperDht.Private

namespace Ledgers

/-! ## Releases -/

/-- The tree from `h` down is well shaped: the parts of `Tree` that a release of
`h` relies on. The ledgers above `h` may be marked already. -/
structure Below (t : Ledgers) (h : Nat) : Prop where
  rooted : Rooted t.parentOf
  live : ∀ {c : Nat} {l : Ledger} {p : Nat}, h ∈ lineage t.parentOf p → t.states[c]? = some l →
    l.released = false → l.parent = some p → ∃ q : Ledger, t.states[p]? = some q ∧ q.released = false
  children : ∀ {p : Nat} {q : Ledger}, h ∈ lineage t.parentOf p → t.states[p]? = some q →
    ∀ c, c ∈ q.children ↔ ∃ l : Ledger, t.states[c]? = some l ∧ l.parent = some p ∧ l.released = false

theorem Tree.below {t : Ledgers} (ht : t.Tree) (h : Nat) : t.Below h :=
  ⟨ht.rooted, fun _ => ht.live, fun _ => ht.children⟩

/-- `l'` is `l` but for what a release changes. -/
structure SameCharges (l l' : Ledger) : Prop where
  parent : l'.parent = l.parent
  allocated : l'.allocated = l.allocated
  spent : l'.spent = l.spent
  direct : l'.directCellsSpent = l.directCellsSpent

theorem SameCharges.refl (l : Ledger) : SameCharges l l := ⟨rfl, rfl, rfl, rfl⟩

theorem SameCharges.trans {l₁ l₂ l₃ : Ledger} (h : SameCharges l₁ l₂) (h' : SameCharges l₂ l₃) :
    SameCharges l₁ l₃ :=
  ⟨h'.parent.trans h.parent, h'.allocated.trans h.allocated, h'.spent.trans h.spent,
    h'.direct.trans h.direct⟩

/-- The trees have the same ledgers, released or not. -/
structure Same (t t' : Ledgers) : Prop where
  length : t'.states.length = t.states.length
  memory : t'.memory = t.memory
  charges : ∀ {x : Nat} {l' : Ledger}, t'.states[x]? = some l' →
    ∃ l : Ledger, t.states[x]? = some l ∧ SameCharges l l'

theorem Same.refl (t : Ledgers) : Same t t := ⟨rfl, rfl, fun {_ l'} hl' => ⟨l', hl', .refl l'⟩⟩

theorem Same.trans {t₁ t₂ t₃ : Ledgers} (h : Same t₁ t₂) (h' : Same t₂ t₃) : Same t₁ t₃ := by
  refine ⟨h'.length.trans h.length, h'.memory.trans h.memory, fun {x l₃} hl₃ => ?_⟩
  obtain ⟨l₂, hl₂, h₂₃⟩ := h'.charges hl₃
  obtain ⟨l₁, hl₁, h₁₂⟩ := h.charges hl₂
  exact ⟨l₁, hl₁, h₁₂.trans h₂₃⟩

theorem Same.exists {t t' : Ledgers} (h : Same t t') {x : Nat} {l : Ledger}
    (hl : t.states[x]? = some l) : ∃ l' : Ledger, t'.states[x]? = some l' ∧ SameCharges l l' := by
  have hlt : x < t'.states.length := by
    rw [h.length]
    exact (List.getElem?_eq_some_iff.mp hl).1
  obtain ⟨l₀, hl₀, hs⟩ := h.charges (List.getElem?_eq_getElem hlt)
  obtain rfl := Option.some.inj (hl.symm.trans hl₀)
  exact ⟨_, List.getElem?_eq_getElem hlt, hs⟩

theorem Same.parentOf {t t' : Ledgers} (h : Same t t') : t'.parentOf = t.parentOf := by
  funext x
  cases hl : t.states[x]? with
  | none =>
    have hx := List.getElem?_eq_none_iff.mp hl
    have hl' : t'.states[x]? = none := List.getElem?_eq_none (h.length ▸ hx)
    unfold Ledgers.parentOf
    rw [hl, hl']
  | some l =>
    obtain ⟨l', hl', hs⟩ := h.exists hl
    rw [parentOf_of_some hl, parentOf_of_some hl', hs.parent]

theorem same_modify (t : Ledgers) (h : Nat) {f : Ledger → Ledger} (hf : ∀ l, SameCharges l (f l)) :
    Same t (t.modify h f) := by
  refine ⟨length_modify t h f, rfl, fun {x l'} hl' => ?_⟩
  obtain ⟨l, hl, rfl⟩ := exists_of_modify hl'
  refine ⟨l, hl, ?_⟩
  split
  · exact hf l
  · exact .refl l

/-- The effect of a release of `h`. -/
structure Cut (h : Nat) (t t' : Ledgers) : Prop where
  same : Same t t'
  below : ∀ {x : Nat} {l' : Ledger}, h ∈ lineage t.parentOf x → t'.states[x]? = some l' →
    l'.released = true ∧ l'.children = []
  other : ∀ {x : Nat}, h ∉ lineage t.parentOf x → t.parentOf h ≠ some x →
    t'.states[x]? = t.states[x]?
  parent : ∀ {p : Nat} {q l : Ledger}, t.parentOf h = some p → t.states[p]? = some q →
    t.states[h]? = some l → t'.states[p]? = some (q.forget h l.unspent)

/-- The effect of releasing the children `done` of `h`. -/
structure CutAll (h : Nat) (done : List Nat) (t t' : Ledgers) : Prop where
  same : Same t t'
  below : ∀ {x c : Nat} {l' : Ledger}, c ∈ done → c ∈ lineage t.parentOf x →
    t'.states[x]? = some l' → l'.released = true ∧ l'.children = []
  other : ∀ {x : Nat}, (∀ c ∈ done, c ∉ lineage t.parentOf x) → x ≠ h → t'.states[x]? = t.states[x]?
  self : ∀ {l' : Ledger}, t'.states[h]? = some l' → ∃ l : Ledger, t.states[h]? = some l ∧
    l'.released = l.released

theorem CutAll.refl (h : Nat) (t : Ledgers) : CutAll h [] t t :=
  ⟨.refl t, fun hc => absurd hc List.not_mem_nil, fun _ _ => rfl, fun {l'} hl' => ⟨l', hl', rfl⟩⟩

theorem mem_lineage_child {t : Ledgers} (hr : Rooted t.parentOf) {h c x : Nat}
    (hc : t.parentOf c = some h) (hx : c ∈ lineage t.parentOf x) : h ∈ lineage t.parentOf x :=
  lineage_trans hr hx (mem_lineage_parent hr hc (mem_lineage_self _ h))

theorem Below.child {t : Ledgers} {h c : Nat} (hb : t.Below h) (hc : t.parentOf c = some h) :
    t.Below c :=
  ⟨hb.rooted, fun hp => hb.live (mem_lineage_child hb.rooted hc hp),
    fun hp => hb.children (mem_lineage_child hb.rooted hc hp)⟩

theorem Below.congr {t t' : Ledgers} {h : Nat} (hb : t.Below h) (hpar : t'.parentOf = t.parentOf)
    (hsame : ∀ x, h ∈ lineage t.parentOf x → t'.states[x]? = t.states[x]?) : t'.Below h := by
  have hup : ∀ {c p : Nat} {l : Ledger}, h ∈ lineage t.parentOf p → t'.states[c]? = some l →
      l.parent = some p → h ∈ lineage t.parentOf c := by
    intro c p l hp hl hlp
    refine mem_lineage_parent hb.rooted ?_ hp
    rw [← hpar, parentOf_of_some hl, hlp]
  refine ⟨hpar ▸ hb.rooted, fun {c l p} hp hl hr hlp => ?_, fun {p q} hp hq c => ?_⟩
  · rw [hpar] at hp
    rw [hsame p hp]
    have hl₀ := hl
    rw [hsame c (hup hp hl hlp)] at hl₀
    exact hb.live hp hl₀ hr hlp
  · rw [hpar] at hp
    rw [hsame p hp] at hq
    rw [hb.children hp hq c]
    constructor
    · rintro ⟨l, hl, hlp, hr⟩
      refine ⟨l, ?_, hlp, hr⟩
      rw [hsame c (mem_lineage_parent hb.rooted ((parentOf_of_some hl).trans hlp) hp)]
      exact hl
    · rintro ⟨l, hl, hlp, hr⟩
      have hl₀ := hl
      rw [hsame c (hup hp hl hlp)] at hl₀
      exact ⟨l, hl₀, hlp, hr⟩

theorem not_mem_lineage_parent {t : Ledgers} (hr : Rooted t.parentOf) {h c : Nat}
    (hc : t.parentOf c = some h) : c ∉ lineage t.parentOf h := by
  intro hmem
  have := le_of_mem_lineage hr hmem
  have := hr c h hc
  omega

theorem CutAll.step {h c : Nat} {done : List Nat} {t t₁ t₂ : Ledgers} (hr : Rooted t.parentOf)
    (hall : CutAll h done t t₁) (hdone : ∀ d ∈ done, t.parentOf d = some h)
    (hc : t.parentOf c = some h) (hcut : Cut c t₁ t₂) : CutAll h (c :: done) t t₂ := by
  have hpar := hall.same.parentOf
  have hch : c ≠ h := by
    have := hr c h hc
    omega
  refine ⟨hall.same.trans hcut.same, fun {x d l'} hd hx hl' => ?_, fun {x} hx hne => ?_,
    fun {l'} hl' => ?_⟩
  · by_cases hdc : d = c
    · subst hdc
      exact hcut.below (hpar.symm ▸ hx) hl'
    · have hd' := (List.mem_cons.mp hd).resolve_left hdc
      rw [hcut.other] at hl'
      · exact hall.below hd' hx hl'
      · rw [hpar]
        intro hx'
        exact hdc (child_unique hr (hdone d hd') hc hx hx')
      · rw [hpar, hc]
        intro he
        obtain rfl := Option.some.inj he
        exact not_mem_lineage_parent hr (hdone d hd') hx
  · rw [hcut.other, hall.other (fun d hd => hx d (List.mem_cons_of_mem c hd)) hne]
    · rw [hpar]
      exact hx c List.mem_cons_self
    · rw [hpar, hc]
      exact fun he => hne (Option.some.inj he).symm
  · obtain ⟨q, hq, -⟩ := hcut.same.charges hl'
    have hlt : t₁.parentOf c = some h := by rw [hpar, hc]
    obtain ⟨lc, hlc, -⟩ := Option.bind_eq_some_iff.mp hlt
    have := hcut.parent hlt hq hlc
    obtain rfl := Option.some.inj (hl'.symm.trans this)
    obtain ⟨l, hl, he⟩ := hall.self hq
    exact ⟨l, hl, he⟩

/-- The loop over the children, if each of them releases itself. -/
theorem cutAll_foldl {h : Nat} {t : Ledgers} (hr : Rooted t.parentOf) {f : Ledgers → Nat → Ledgers}
    (hlive : ∀ {t₁ : Ledgers} {c : Nat} {l : Ledger}, t.parentOf c = some h →
      t₁.parentOf = t.parentOf → t₁.states.length = t.states.length →
      (∀ x, c ∈ lineage t.parentOf x → t₁.states[x]? = t.states[x]?) →
      t₁.states[c]? = some l → l.released = false → Cut c t₁ (f t₁ c))
    (hgone : ∀ {t₁ : Ledgers} {c : Nat} {l : Ledger}, t₁.states[c]? = some l → l.released = true →
      f t₁ c = t₁) :
    ∀ (cs done : List Nat) (t₁ : Ledgers), (∀ c ∈ cs, t.parentOf c = some h ∧
        ∃ l : Ledger, t.states[c]? = some l ∧ l.released = false) →
      (∀ c ∈ done, t.parentOf c = some h) → CutAll h done t t₁ →
      ∃ done', (∀ c, c ∈ done' ↔ c ∈ cs ∨ c ∈ done) ∧ CutAll h done' t (cs.foldl f t₁) := by
  intro cs
  induction cs with
  | nil =>
    intro done t₁ _ _ hall
    exact ⟨done, by simp, hall⟩
  | cons c cs ih =>
    intro done t₁ hcs hdone hall
    obtain ⟨hc, l, hl, hlr⟩ := hcs c List.mem_cons_self
    obtain ⟨l₁, hl₁, -⟩ := hall.same.exists hl
    rw [List.foldl_cons]
    have hrest : ∀ d ∈ cs, t.parentOf d = some h ∧
        ∃ l : Ledger, t.states[d]? = some l ∧ l.released = false :=
      fun d hd => hcs d (List.mem_cons_of_mem c hd)
    by_cases hmem : c ∈ done
    · obtain ⟨hrel, -⟩ := hall.below hmem (mem_lineage_self _ c) hl₁
      rw [hgone hl₁ hrel]
      obtain ⟨done', hd', hall'⟩ := ih done t₁ hrest hdone hall
      refine ⟨done', fun d => ?_, hall'⟩
      rw [hd', List.mem_cons]
      constructor
      · rintro (hd | hd)
        · exact .inl (.inr hd)
        · exact .inr hd
      · rintro ((rfl | hd) | hd)
        · exact .inr hmem
        · exact .inl hd
        · exact .inr hd
    · -- no ledger from `c` down is released yet
      have hsame : ∀ x, c ∈ lineage t.parentOf x → t₁.states[x]? = t.states[x]? := by
        intro x hx
        apply hall.other
        · intro d hd hx'
          exact hmem (child_unique hr (hdone d hd) hc hx' hx ▸ hd)
        · rintro rfl
          exact not_mem_lineage_parent hr hc hx
      have hself := hsame c (mem_lineage_self _ c)
      have hcut := hlive hc hall.same.parentOf hall.same.length hsame (hself.trans hl) hlr
      obtain ⟨done', hd', hall'⟩ := ih (c :: done) _ hrest
        (fun d hd => (List.mem_cons.mp hd).elim (fun he => he ▸ hc) (hdone d))
        (hall.step hr hdone hc hcut)
      refine ⟨done', fun d => ?_, hall'⟩
      rw [hd', List.mem_cons, List.mem_cons, ← or_assoc, or_comm (a := d ∈ cs)]

/-- A ledger below a live-closed tree is live only if all above it are. -/
theorem Below.live_above {t : Ledgers} {h c : Nat} (hb : t.Below h) (hc : h ∈ lineage t.parentOf c) :
    ∀ {x : Nat} {l : Ledger}, t.states[x]? = some l → l.released = false →
      c ∈ lineage t.parentOf x → ∃ q : Ledger, t.states[c]? = some q ∧ q.released = false := by
  intro x
  induction x using Nat.strongRecOn with
  | ind x ih =>
    intro l hl hlr hx
    rcases (mem_lineage_iff hb.rooted).mp hx with rfl | ⟨p, hp, hx'⟩
    · exact ⟨l, hl, hlr⟩
    · have hlp : l.parent = some p := (parentOf_of_some hl).symm.trans hp
      obtain ⟨q, hq, hqr⟩ := hb.live (lineage_trans hb.rooted hx' hc) hl hlr hlp
      exact ih p (hb.rooted x p hp) hq hqr hx'

theorem Below.children_nil {t : Ledgers} {h x : Nat} (hb : t.Below h) (hx : h ∈ lineage t.parentOf x)
    {l : Ledger} (hl : t.states[x]? = some l) (hr : l.released = true) : l.children = [] := by
  apply List.eq_nil_iff_forall_not_mem.mpr
  intro c hc
  obtain ⟨lc, hlc, hp, hlr⟩ := (hb.children hx hl c).mp hc
  obtain ⟨q, hq, hqr⟩ := hb.live hx hlc hlr hp
  obtain rfl := Option.some.inj (hl.symm.trans hq)
  rw [hr] at hqr
  cases hqr

/-- The ledger and all below it are released, the others are as they were. -/
structure Cleared (h : Nat) (t t' : Ledgers) : Prop where
  same : Same t t'
  below : ∀ {x : Nat} {l' : Ledger}, h ∈ lineage t.parentOf x → t'.states[x]? = some l' →
    l'.released = true ∧ l'.children = []
  other : ∀ {x : Nat}, h ∉ lineage t.parentOf x → t'.states[x]? = t.states[x]?

/-- The ledger is marked, its children are released and it forgets them. -/
theorem CutAll.cleared {h : Nat} {t t₂ : Ledgers} {l : Ledger} (hb : t.Below h)
    (hl : t.states[h]? = some l) {done : List Nat} (hdone : ∀ c, c ∈ done ↔ c ∈ l.children)
    (hall : CutAll h done (t.modify h fun l => { l with released := true }) t₂) :
    Cleared h t (t₂.modify h fun l => { l with children := [] }) := by
  have hr := hb.rooted
  have hs₁ : Same t (t.modify h fun l => { l with released := true }) :=
    same_modify t h fun _ => ⟨rfl, rfl, rfl, rfl⟩
  have hpar₁ := hs₁.parentOf
  have hkids : ∀ {c : Nat}, c ∈ done → t.parentOf c = some h := by
    intro c hc
    obtain ⟨lc, hlc, hp, -⟩ := (hb.children (mem_lineage_self _ h) hl c).mp ((hdone c).mp hc)
    exact (parentOf_of_some hlc).trans hp
  refine ⟨(hs₁.trans hall.same).trans (same_modify t₂ h fun _ => ⟨rfl, rfl, rfl, rfl⟩),
    fun {x l'} hx hl' => ?_, fun {x} hx => ?_⟩
  · obtain ⟨l₂, hl₂, rfl⟩ := exists_of_modify hl'
    by_cases he : h = x
    · subst he
      rw [if_pos rfl]
      obtain ⟨l₁, hl₁, hrel⟩ := hall.self hl₂
      rw [get_modify_self hl] at hl₁
      obtain rfl := Option.some.inj hl₁
      exact ⟨hrel, rfl⟩
    · rw [if_neg he]
      obtain ⟨c, hc, hcx⟩ := exists_child_of_mem_lineage hr hx (Ne.symm he)
      by_cases hd : c ∈ done
      · exact hall.below hd (hpar₁.symm ▸ hcx) hl₂
      · -- `c` was released before, and with it all below it
        have hun : ∀ d ∈ done, d ∉ lineage (t.modify h fun l => { l with released := true }).parentOf x := by
          intro d hd' hdx
          rw [hpar₁] at hdx
          exact hd (child_unique hr hc (hkids hd') hcx hdx ▸ hd')
        rw [hall.other hun (Ne.symm he), get_modify_ne he] at hl₂
        have hhc := mem_lineage_parent hr hc (mem_lineage_self _ h)
        have hrel : l₂.released = true := by
          by_contra hlr
          obtain ⟨q, hq, hqr⟩ := hb.live_above hhc hl₂ (by simpa using hlr) hcx
          have hqp : q.parent = some h := (parentOf_of_some hq).symm.trans hc
          exact hd ((hdone c).mpr ((hb.children (mem_lineage_self _ h) hl c).mpr ⟨q, hq, hqp, hqr⟩))
        exact ⟨hrel, hb.children_nil hx hl₂ hrel⟩
  · have hne : x ≠ h := by
      rintro rfl
      exact hx (mem_lineage_self _ x)
    rw [get_modify_ne (Ne.symm hne), hall.other _ hne, get_modify_ne (Ne.symm hne)]
    intro d hd hdx
    rw [hpar₁] at hdx
    exact hx (mem_lineage_child hr (hkids hd) hdx)

theorem Cleared.cut {h : Nat} {t t₃ : Ledgers} {l : Ledger} (hr : Rooted t.parentOf)
    (hl : t.states[h]? = some l) (hc : Cleared h t t₃) :
    Cut h t (match l.parent with
      | none => t₃
      | some parent => t₃.modify parent (·.forget h l.unspent)) := by
  cases hp : l.parent with
  | none =>
    refine ⟨hc.same, hc.below, fun hx _ => hc.other hx, fun {p q l'} hpar _ _ => ?_⟩
    rw [parentOf_of_some hl, hp] at hpar
    cases hpar
  | some p =>
    have hpar : t.parentOf h = some p := (parentOf_of_some hl).trans hp
    have hpx := not_mem_lineage_parent hr hpar
    refine ⟨hc.same.trans (same_modify t₃ p fun _ => ⟨rfl, rfl, rfl, rfl⟩), fun {x l'} hx hl' => ?_,
      fun {x} hx hne => ?_, fun {p' q l'} hpar' hq hl' => ?_⟩
    · rw [get_modify_ne] at hl'
      · exact hc.below hx hl'
      · rintro rfl
        exact hpx hx
    · rw [get_modify_ne, hc.other hx]
      rintro rfl
      exact hne hpar
    · obtain rfl := Option.some.inj (hpar.symm.trans hpar')
      obtain rfl := Option.some.inj (hl.symm.trans hl')
      exact get_modify_self ((hc.other hpx).trans hq) _

theorem release_spec : ∀ (fuel h : Nat) (t : Ledgers) (l : Ledger), t.Below h →
    t.states[h]? = some l → l.released = false → t.states.length - h ≤ fuel →
    Cut h t (release fuel h t) := by
  -- by induction on the depth; the children of a ledger are younger than it
  intro fuel
  induction fuel with
  | zero =>
    intro h t l _ hl _ hfuel
    have := (List.getElem?_eq_some_iff.mp hl).1
    omega
  | succ fuel ih =>
    intro h t l hb hl hlive hfuel
    have hr := hb.rooted
    rw [release, hl]
    dsimp only
    rw [if_neg (by rw [hlive]; exact Bool.false_ne_true)]
    set t₁ := t.modify h fun l => { l with released := true } with ht₁
    have hs₁ : Same t t₁ := same_modify t h fun _ => ⟨rfl, rfl, rfl, rfl⟩
    have hpar₁ := hs₁.parentOf
    have hl₁ : t₁.states[h]? = some { l with released := true } := get_modify_self hl _
    have hne₁ : ∀ {x : Nat}, x ≠ h → t₁.states[x]? = t.states[x]? := fun hx => get_modify_ne (Ne.symm hx) _
    have hkids : ∀ c ∈ l.children, t₁.parentOf c = some h ∧
        ∃ l : Ledger, t₁.states[c]? = some l ∧ l.released = false := by
      intro c hc
      obtain ⟨lc, hlc, hp, hlr⟩ := (hb.children (mem_lineage_self _ h) hl c).mp hc
      have hcp : t.parentOf c = some h := (parentOf_of_some hlc).trans hp
      have := hr c h hcp
      exact ⟨hpar₁ ▸ hcp, lc, (hne₁ (by omega)).trans hlc, hlr⟩
    obtain ⟨done, hmem, hall⟩ := cutAll_foldl (f := fun t child => release fuel child t)
      (hpar₁ ▸ hr)
      (fun {t₂ c lc} hc hpar₂ hlen₂ hsame hlc hlr => by
        rw [hpar₁] at hc hsame
        have hbc : t₂.Below c := by
          refine (hb.child hc).congr (hpar₂.trans hpar₁) fun x hx => ?_
          rw [hsame x hx]
          refine hne₁ ?_
          rintro rfl
          exact not_mem_lineage_parent hr hc hx
        have := hr c h hc
        have := hs₁.length
        exact ih c t₂ lc hbc hlc hlr (by omega))
      (fun {t₂ c lc} hlc hlr => by
        cases fuel with
        | zero => rfl
        | succ fuel =>
          show release (fuel + 1) c t₂ = t₂
          rw [release, hlc]
          dsimp only
          rw [if_pos hlr])
      l.children [] t₁ hkids (fun c hc => absurd hc List.not_mem_nil) (.refl h t₁)
    have hdone : ∀ c, c ∈ done ↔ c ∈ l.children := fun c =>
      (hmem c).trans (or_iff_left List.not_mem_nil)
    exact (hall.cleared hb hl hdone).cut hr hl

theorem Cut.still {h : Nat} {t t' : Ledgers} {lh : Ledger} (hlh : t.states[h]? = some lh)
    (hc : Cut h t t') {x : Nat} {l' : Ledger} (hx : h ∉ lineage t.parentOf x)
    (hl' : t'.states[x]? = some l') : ∃ l : Ledger, t.states[x]? = some l ∧
      l' = if lh.parent = some x then l.forget h lh.unspent else l := by
  have hpar := parentOf_of_some hlh
  by_cases hp : lh.parent = some x
  · obtain ⟨l, hl, -⟩ := hc.same.charges hl'
    have := hc.parent (hpar.trans hp) hl hlh
    exact ⟨l, hl, by rw [if_pos hp]; exact Option.some.inj (hl'.symm.trans this)⟩
  · rw [hc.other hx (hpar ▸ hp)] at hl'
    exact ⟨l', hl', by rw [if_neg hp]⟩

theorem forget_or {p : Prop} [Decidable p] (h : Nat) (u : Row) (l : Ledger) :
    (if p then l.forget h u else l).parent = l.parent ∧
      (if p then l.forget h u else l).released = l.released ∧
      (if p then l.forget h u else l).unspent = l.unspent := by
  split
  · exact ⟨rfl, rfl, rfl⟩
  · exact ⟨rfl, rfl, rfl⟩

/-- The live children of a ledger after a release: those before, but the released. -/
theorem Cut.child_iff {h : Nat} {t t' : Ledgers} {lh : Ledger} (hr : Rooted t.parentOf)
    (hlh : t.states[h]? = some lh) (hc : Cut h t t') {p : Nat} (hp : h ∉ lineage t.parentOf p)
    (c : Nat) :
    (∃ l' : Ledger, t'.states[c]? = some l' ∧ l'.parent = some p ∧ l'.released = false) ↔
      c ≠ h ∧ ∃ l : Ledger, t.states[c]? = some l ∧ l.parent = some p ∧ l.released = false := by
  constructor
  · rintro ⟨l', hl', hlp, hlr⟩
    have hcx : h ∉ lineage t.parentOf c := by
      intro hx
      rw [(hc.below hx hl').1] at hlr
      cases hlr
    obtain ⟨l, hl, rfl⟩ := hc.still hlh hcx hl'
    obtain ⟨h₁, h₂, -⟩ := forget_or (p := lh.parent = some c) h lh.unspent l
    refine ⟨?_, l, hl, h₁ ▸ hlp, h₂ ▸ hlr⟩
    rintro rfl
    exact hcx (mem_lineage_self _ c)
  · rintro ⟨hne, l, hl, hlp, hlr⟩
    have hcx : h ∉ lineage t.parentOf c := fun hx =>
      hp (mem_lineage_of_ne hr hx (Ne.symm hne) ((parentOf_of_some hl).trans hlp))
    obtain ⟨l', hl', -⟩ := hc.same.exists hl
    obtain ⟨l₀, hl₀, rfl⟩ := hc.still hlh hcx hl'
    obtain rfl := Option.some.inj (hl.symm.trans hl₀)
    obtain ⟨h₁, h₂, -⟩ := forget_or (p := lh.parent = some c) h lh.unspent l
    exact ⟨_, hl', h₁.trans hlp, h₂.trans hlr⟩

theorem Tree.cut {h : Nat} {t t' : Ledgers} {lh : Ledger} (ht : t.Tree)
    (hlh : t.states[h]? = some lh) (hc : Cut h t t') : t'.Tree := by
  have hr := ht.rooted
  have hpar := hc.same.parentOf
  have hnot : ∀ {x : Nat} {l' : Ledger}, t'.states[x]? = some l' → l'.released = false →
      h ∉ lineage t.parentOf x := by
    intro x l' hl' hlr hx
    rw [(hc.below hx hl').1] at hlr
    cases hlr
  refine ⟨hpar.symm ▸ hr, fun {c l' p} hl' hlr hlp => ?_, fun {p q'} hq' c => ?_⟩
  · have hcp : t.parentOf c = some p := by
      rw [← hpar, parentOf_of_some hl', hlp]
    have hpx : h ∉ lineage t.parentOf p := fun hx =>
      hnot hl' hlr (mem_lineage_parent hr hcp hx)
    obtain ⟨-, l, hl, hlp', hlr'⟩ := (hc.child_iff hr hlh hpx c).mp ⟨l', hl', hlp, hlr⟩
    obtain ⟨q, hq, hqr⟩ := ht.live hl hlr' hlp'
    obtain ⟨q', hq', -⟩ := hc.same.exists hq
    obtain ⟨q₀, hq₀, rfl⟩ := hc.still hlh hpx hq'
    obtain rfl := Option.some.inj (hq.symm.trans hq₀)
    exact ⟨_, hq', (forget_or h lh.unspent q).2.1.trans hqr⟩
  · by_cases hpx : h ∈ lineage t.parentOf p
    · rw [(hc.below hpx hq').2]
      constructor
      · intro hmem
        cases hmem
      · rintro ⟨l', hl', hlp, hlr⟩
        refine absurd (mem_lineage_parent hr ?_ hpx) (hnot hl' hlr)
        rw [← hpar, parentOf_of_some hl', hlp]
    · rw [hc.child_iff hr hlh hpx]
      obtain ⟨q, hq, rfl⟩ := hc.still hlh hpx hq'
      rw [← ht.children hq c]
      split
      · rw [Ledger.forget, List.mem_filter, decide_eq_true_eq, and_comm]
      · next hlp =>
        refine ⟨fun hmem => ⟨?_, hmem⟩, fun hmem => hmem.2⟩
        rintro rfl
        obtain ⟨l, hl, hp, -⟩ := (ht.children hq c).mp hmem
        obtain rfl := Option.some.inj (hlh.symm.trans hl)
        exact hlp hp

theorem Funded.cut {h : Nat} {t t' : Ledgers} {lh : Ledger} (ht : t.Tree)
    (hf : t.Funded fun _ _ => 0) (hlh : t.states[h]? = some lh) (hlive : lh.released = false)
    (hc : Cut h t t') : t'.Funded fun _ _ => 0 := by
  have hr := ht.rooted
  have hnot : ∀ {x : Nat} {l' : Ledger}, t'.states[x]? = some l' → l'.released = false →
      h ∉ lineage t.parentOf x := by
    intro x l' hl' hlr hx
    rw [(hc.below hx hl').1] at hlr
    cases hlr
  obtain ⟨lh', hlh', -⟩ := hc.same.exists hlh
  have hsum : ∀ {p : Nat}, h ∉ lineage t.parentOf p → ∀ a, t'.childSum p a =
      t.childSum p a - if lh.parent = some p then lh.unspent.get a else 0 := by
    intro p hp a
    rw [childSum_of_one hc.same.length h, held_of_some hlh, held_of_some hlh', hlive,
      (hc.below (mem_lineage_self _ h) hlh').1]
    · simp
    · intro c hne
      -- another ledger: below `h` it is no child of `p`, else it is as it was
      by_cases hcx : h ∈ lineage t.parentOf c
      · have hnp : t.parentOf c ≠ some p := fun hcp =>
          hp (mem_lineage_of_ne hr hcx (Ne.symm hne) hcp)
        unfold held
        rw [← hc.same.parentOf] at hnp
        split
        · next hl' =>
          rw [List.getElem?_eq_none_iff] at hl'
          rw [List.getElem?_eq_none (hc.same.length ▸ hl')]
        · next l' hl' =>
          obtain ⟨l, hl, hs⟩ := hc.same.charges hl'
          rw [parentOf_of_some hl'] at hnp
          rw [hl, if_neg fun h => hnp h.1]
          dsimp only
          rw [if_neg fun h => hnp (hs.parent.trans h.1)]
      · cases hl : t.states[c]? with
        | none =>
          rw [List.getElem?_eq_none_iff] at hl
          unfold held
          rw [List.getElem?_eq_none hl, List.getElem?_eq_none (hc.same.length ▸ hl)]
        | some l =>
          obtain ⟨l', hl', -⟩ := hc.same.exists hl
          rw [held_of_some hl, held_of_some hl']
          obtain ⟨l₀, hl₀, rfl⟩ := hc.still hlh hcx hl'
          obtain rfl := Option.some.inj (hl.symm.trans hl₀)
          obtain ⟨h₁, h₂, h₃⟩ := forget_or (p := lh.parent = some c) h lh.unspent l
          rw [h₁, h₂, h₃]
  refine ⟨fun {x l'} hl' a => ?_, fun {x l'} hl' hlr a => ?_, fun {x l'} hl' hlr a => ?_⟩
  · obtain ⟨l, hl, hs⟩ := hc.same.charges hl'
    rw [hs.spent, hs.allocated]
    exact hf.spent hl a
  · have hx := hnot hl' hlr
    rw [hsum hx]
    obtain ⟨l, hl, rfl⟩ := hc.still hlh hx hl'
    obtain ⟨-, hsame, -⟩ := forget_or (p := lh.parent = some x) h lh.unspent l
    have := hf.reserved hl (hsame ▸ hlr) a
    split
    · rw [Ledger.forget, Row.get_sub]
      omega
    · omega
  · have hx := hnot hl' hlr
    obtain ⟨l, hl, rfl⟩ := hc.still hlh hx hl'
    obtain ⟨-, hsame, -⟩ := forget_or (p := lh.parent = some x) h lh.unspent l
    have hroom := hf.room hl (hsame ▸ hlr) a
    have hpos := hf.spent hlh a
    split
    · show l.spent.get a + (l.reserved - lh.unspent).get a ≤ l.allocated.get a
      rw [Row.get_sub, Ledger.unspent, Row.get_sub]
      omega
    · exact hroom

theorem releasePeerLedger_cases (t : Ledgers) (h : Nat) :
    t.releasePeerLedger h = (t, .error .invalidRoute) ∨ t.releasePeerLedger h = (t, .ok false) ∨
      ∃ l, t.states[h]? = some l ∧ l.released = false ∧
        t.releasePeerLedger h = (release t.states.length h t, .ok true) := by
  unfold releasePeerLedger
  cases hl : t.states[h]? with
  | none => exact .inl rfl
  | some l =>
    dsimp only
    split
    · exact .inr (.inl rfl)
    · next hr => exact .inr (.inr ⟨l, rfl, by simpa using hr, rfl⟩)

/-! ## Narrowing -/

theorem get_returnedTo_cons (t : Ledgers) (x : Nat) (plan : LedgerPlan) (plans : List LedgerPlan)
    (a : Axis) : (t.returnedTo x (plan :: plans)).get a =
      (t.returnedBy x plan).get a + (t.returnedTo x plans).get a := by
  have hacc : ∀ (plans : List LedgerPlan) (acc : Row),
      (plans.foldl (fun sum plan => sum + t.returnedBy x plan) acc).get a =
        acc.get a + (t.returnedTo x plans).get a := by
    intro plans
    unfold returnedTo
    induction plans with
    | nil =>
      intro acc
      simp
    | cons plan plans ih =>
      intro acc
      rw [List.foldl_cons, List.foldl_cons, ih, ih (0 + _)]
      simp only [Row.get_add, Row.get_zero]
      omega
  unfold returnedTo
  rw [List.foldl_cons, hacc, Row.get_add, Row.get_zero]
  unfold returnedTo
  omega

theorem get_returnedTo_nil (t : Ledgers) (x : Nat) (a : Axis) : (t.returnedTo x []).get a = 0 :=
  Row.get_zero a

theorem returnedTo_congr {t t' : Ledgers} {x : Nat} {plans : List LedgerPlan} (a : Axis)
    (h : ∀ plan ∈ plans, t'.returnedBy x plan = t.returnedBy x plan) :
    (t'.returnedTo x plans).get a = (t.returnedTo x plans).get a := by
  induction plans with
  | nil => rfl
  | cons plan plans ih =>
    rw [get_returnedTo_cons, get_returnedTo_cons, h plan List.mem_cons_self,
      ih fun q hq => h q (List.mem_cons_of_mem plan hq)]

theorem returnedTo_nonneg {t : Ledgers} {plans : List LedgerPlan} (x : Nat) (a : Axis)
    (h : ∀ plan ∈ plans, ∀ l, t.states[plan.handle]? = some l → plan.row.fits l.allocated = true) :
    0 ≤ (t.returnedTo x plans).get a := by
  induction plans with
  | nil => exact (get_returnedTo_nil t x a).ge
  | cons plan plans ih =>
    have hrest := ih fun q hq => h q (List.mem_cons_of_mem plan hq)
    have hone : 0 ≤ (t.returnedBy x plan).get a := by
      unfold returnedBy
      split
      · exact (Row.get_zero a).ge
      · next l hl =>
        split
        · have := Row.get_le (h plan List.mem_cons_self l hl) a
          rw [Row.get_sub]
          omega
        · exact (Row.get_zero a).ge
    rw [get_returnedTo_cons]
    omega

theorem admissible_spec {t : Ledgers} : ∀ {plans : List LedgerPlan} {seen : List Nat},
    t.admissible seen plans = true →
      (∀ plan ∈ plans, ∃ l, t.states[plan.handle]? = some l ∧ l.released = false ∧
        plan.row.fits l.allocated = true) ∧
      (plans.map LedgerPlan.handle).Nodup ∧ ∀ plan ∈ plans, plan.handle ∉ seen := by
  intro plans
  induction plans with
  | nil =>
    intro seen _
    exact ⟨fun _ h => absurd h List.not_mem_nil, List.nodup_nil, fun _ h => absurd h List.not_mem_nil⟩
  | cons plan plans ih =>
    intro seen h
    rw [admissible] at h
    split at h
    · cases h
    · next l hl =>
      simp only [Bool.and_eq_true, Bool.not_eq_true'] at h
      obtain ⟨⟨⟨hlive, hseen⟩, hfit⟩, hrest⟩ := h
      obtain ⟨hall, hnodup, hout⟩ := ih hrest
      have hns : plan.handle ∉ seen := by simpa using hseen
      refine ⟨?_, ?_, ?_⟩
      · intro q hq
        rcases List.mem_cons.mp hq with rfl | hq
        · exact ⟨l, hl, hlive, hfit⟩
        · exact hall q hq
      · rw [List.map_cons, List.nodup_cons]
        refine ⟨?_, hnodup⟩
        intro hmem
        obtain ⟨q, hq, he⟩ := List.mem_map.mp hmem
        exact hout q hq (he ▸ List.mem_cons_self)
      · intro q hq
        rcases List.mem_cons.mp hq with rfl | hq
        · exact hns
        · exact fun hmem => hout q hq (List.mem_cons_of_mem _ hmem)

/-- The state of the narrowing when `plans` are still to take effect. Between two
rows a ledger may hold more than its allocation; what the rest gives back covers it. -/
structure Narrowing (plans : List LedgerPlan) (t : Ledgers) : Prop where
  spent : ∀ {x : Nat} {l : Ledger}, t.states[x]? = some l → ∀ a, 0 ≤ l.spent.get a
  gone : ∀ {x : Nat} {l : Ledger}, t.states[x]? = some l → l.released = true → ∀ a,
    l.spent.get a ≤ l.allocated.get a
  reserved : ∀ {x : Nat} {l : Ledger}, t.states[x]? = some l → l.released = false → ∀ a,
    l.reserved.get a = t.childSum x a
  free : ∀ {x : Nat} {l : Ledger}, t.states[x]? = some l → l.released = false →
    (∀ plan ∈ plans, plan.handle ≠ x) → ∀ a,
      l.spent.get a + l.reserved.get a - (t.returnedTo x plans).get a ≤ l.allocated.get a
  planned : ∀ {l : Ledger}, ∀ plan ∈ plans, t.states[plan.handle]? = some l → ∀ a,
    l.spent.get a + l.reserved.get a - (t.returnedTo plan.handle plans).get a ≤ plan.row.get a
  live : ∀ plan ∈ plans, ∃ l : Ledger, t.states[plan.handle]? = some l ∧ l.released = false
  nodup : (plans.map LedgerPlan.handle).Nodup

theorem Narrowing.funded {t : Ledgers} (ht : t.Tree) (hn : t.Narrowing []) :
    t.Funded fun _ _ => 0 := by
  have hroom : ∀ {x : Nat} {l : Ledger}, t.states[x]? = some l → l.released = false → ∀ a,
      l.spent.get a + l.reserved.get a ≤ l.allocated.get a := by
    intro x l hl hr a
    have := hn.free hl hr (fun _ h => absurd h List.not_mem_nil) a
    rw [get_returnedTo_nil] at this
    omega
  -- from the youngest ledger down: what the children hold is not negative
  have hspent : ∀ (k : Nat) {x : Nat} {l : Ledger}, t.states.length - x ≤ k →
      t.states[x]? = some l → ∀ a, l.spent.get a ≤ l.allocated.get a := by
    intro k
    induction k with
    | zero =>
      intro x l hk hl
      have := (List.getElem?_eq_some_iff.mp hl).1
      omega
    | succ k ih =>
      intro x l hk hl a
      by_cases hr : l.released = true
      · exact hn.gone hl hr a
      · have hr' : l.released = false := by simpa using hr
        have hnn : 0 ≤ t.childSum x a := by
          apply Finset.sum_nonneg
          intro c hc
          unfold held
          split
          · exact le_rfl
          · next lc hlc =>
            split
            · next hcp =>
              have hlt := ht.rooted c x ((parentOf_of_some hlc).trans hcp.1)
              have := ih (by omega) hlc a
              rw [Ledger.unspent, Row.get_sub]
              omega
            · exact le_rfl
        have h₁ := hroom hl hr' a
        have h₂ := hn.reserved hl hr' a
        omega
  exact ⟨fun hl a => ⟨hn.spent hl a, hspent _ le_rfl hl a⟩,
    fun hl hr a => (hn.reserved hl hr a).trans (Int.add_zero _).symm, hroom⟩

/-- A ledger after a row that narrows the ledger `l`. -/
def shrink (plan : LedgerPlan) (l : Ledger) (x : Nat) (q : Ledger) : Ledger :=
  { q with
    allocated := if plan.handle = x then plan.row else q.allocated
    reserved := if l.parent = some x then q.reserved - (l.allocated - plan.row) else q.reserved }

theorem keeps_shrink (plan : LedgerPlan) (l : Ledger) (x : Nat) : Keeps (shrink plan l x) :=
  ⟨fun _ => rfl, fun _ => rfl, fun _ => rfl⟩

theorem get_reserved_shrink (plan : LedgerPlan) (l : Ledger) (x : Nat) (q : Ledger) (a : Axis) :
    (shrink plan l x q).reserved.get a = q.reserved.get a -
      if l.parent = some x then (l.allocated - plan.row).get a else 0 := by
  show (if l.parent = some x then q.reserved - (l.allocated - plan.row) else q.reserved).get a = _
  split
  · exact Row.get_sub _ _ a
  · exact (Int.sub_zero _).symm

theorem get_narrowLedger {t : Ledgers} {plan : LedgerPlan} {l : Ledger}
    (hl : t.states[plan.handle]? = some l) (x : Nat) :
    (t.narrowLedger plan).states[x]? = (t.states[x]?).map (shrink plan l x) := by
  unfold narrowLedger
  rw [hl]
  dsimp only
  cases hp : l.parent with
  | none =>
    dsimp only
    rw [get_modify]
    congr 1
    funext q
    rw [shrink, hp]
    by_cases h₁ : plan.handle = x
    · rw [if_pos h₁, if_pos h₁]
      rfl
    · rw [if_neg h₁, if_neg h₁]
      rfl
  | some p =>
    dsimp only
    rw [get_modify, get_modify, Option.map_map]
    congr 1
    funext q
    rw [shrink, hp, Function.comp]
    simp only [Option.some.injEq]
    by_cases h₁ : plan.handle = x
    · rw [if_pos h₁, if_pos h₁]
      split
      · rfl
      · rfl
    · rw [if_neg h₁, if_neg h₁]
      split
      · rfl
      · rfl

theorem narrowLedger_memory (t : Ledgers) (plan : LedgerPlan) :
    (t.narrowLedger plan).memory = t.memory := by
  unfold narrowLedger
  split
  · rfl
  · split
    · rfl
    · rfl

theorem narrowLedger_length (t : Ledgers) (plan : LedgerPlan) :
    (t.narrowLedger plan).states.length = t.states.length := by
  unfold narrowLedger
  split
  · rfl
  · split
    · exact length_modify _ _ _
    · rw [length_modify, length_modify]

/-- A row moves what a ledger holds of its parent's reservation. -/
theorem childSum_narrowLedger {t : Ledgers} {plan : LedgerPlan} {l : Ledger}
    (hl : t.states[plan.handle]? = some l) (hlive : l.released = false) (p : Nat) (a : Axis) :
    (t.narrowLedger plan).childSum p a =
      t.childSum p a - if l.parent = some p then (l.allocated - plan.row).get a else 0 := by
  have hget := get_narrowLedger hl
  have hself : (t.narrowLedger plan).states[plan.handle]? = some (shrink plan l plan.handle l) := by
    rw [hget, hl, Option.map_some]
  rw [childSum_of_one (narrowLedger_length t plan) plan.handle, held_of_some hl, held_of_some hself]
  · rw [shrink, hlive, if_pos rfl]
    simp only [Ledger.unspent, Row.get_sub, and_true]
    split
    · omega
    · omega
  · intro c hc
    unfold held
    rw [hget]
    cases t.states[c]? with
    | none => rfl
    | some q =>
      rw [Option.map_some, shrink, if_neg (Ne.symm hc)]
      rfl

/-- After a row the others give back what they did before. -/
theorem returnedTo_narrowLedger {t : Ledgers} {plan : LedgerPlan} {plans : List LedgerPlan}
    {l : Ledger} (hl : t.states[plan.handle]? = some l) (hne : ∀ q ∈ plans, plan.handle ≠ q.handle)
    (x : Nat) (a : Axis) : (t.returnedTo x (plan :: plans)).get a =
      (if l.parent = some x then (l.allocated - plan.row).get a else 0) +
        ((t.narrowLedger plan).returnedTo x plans).get a := by
  rw [get_returnedTo_cons, returnedTo_congr a]
  · congr 1
    unfold returnedBy
    rw [hl]
    dsimp only
    split
    · rfl
    · exact Row.get_zero a
  · intro q hq
    unfold returnedBy
    rw [get_narrowLedger hl]
    cases t.states[q.handle]? with
    | none => rfl
    | some lq => rw [Option.map_some, shrink, if_neg (hne q hq)]

theorem Narrowing.step {t : Ledgers} {plan : LedgerPlan} {plans : List LedgerPlan}
    (hn : t.Narrowing (plan :: plans)) : (t.narrowLedger plan).Narrowing plans := by
  obtain ⟨l, hl, hlive⟩ := hn.live plan List.mem_cons_self
  have hget := get_narrowLedger hl
  obtain ⟨hout, hnodup⟩ := List.nodup_cons.mp hn.nodup
  have hne : ∀ q ∈ plans, plan.handle ≠ q.handle := fun q hq he =>
    hout (he ▸ List.mem_map_of_mem hq)
  have hsome : ∀ {x : Nat} {q' : Ledger}, (t.narrowLedger plan).states[x]? = some q' →
      ∃ q, t.states[x]? = some q ∧ q' = shrink plan l x q := by
    intro x q' hq'
    rw [hget] at hq'
    obtain ⟨q, hq, he⟩ := Option.map_eq_some_iff.mp hq'
    exact ⟨q, hq, he.symm⟩
  have hret := fun x a => returnedTo_narrowLedger hl hne x a
  refine ⟨fun {x q'} hq' a => ?_, fun {x q'} hq' hr a => ?_, fun {x q'} hq' hr a => ?_,
    fun {x q'} hq' hr hfree a => ?_, fun {q'} pl hpl hq' a => ?_, fun pl hpl => ?_, hnodup⟩
  · obtain ⟨q, hq, rfl⟩ := hsome hq'
    exact hn.spent hq a
  · obtain ⟨q, hq, rfl⟩ := hsome hq'
    have hx : plan.handle ≠ x := by
      rintro rfl
      obtain rfl := Option.some.inj (hl.symm.trans hq)
      have hr' : l.released = true := hr
      rw [hlive] at hr'
      cases hr'
    have := hn.gone hq hr a
    rw [shrink, if_neg hx]
    exact this
  · obtain ⟨q, hq, rfl⟩ := hsome hq'
    rw [childSum_narrowLedger hl hlive, ← hn.reserved hq hr a, get_reserved_shrink]
  · obtain ⟨q, hq, rfl⟩ := hsome hq'
    have hr₀ := hret x a
    rw [get_reserved_shrink]
    by_cases hx : plan.handle = x
    · subst hx
      have := hn.planned plan List.mem_cons_self hq a
      rw [shrink, if_pos rfl]
      show q.spent.get a + _ - _ ≤ plan.row.get a
      omega
    · have := hn.free hq hr (fun pl hpl => (List.mem_cons.mp hpl).elim (fun he => he ▸ hx) (hfree pl)) a
      rw [shrink, if_neg hx]
      show q.spent.get a + _ - _ ≤ q.allocated.get a
      omega
  · obtain ⟨q, hq, rfl⟩ := hsome hq'
    have hr₀ := hret pl.handle a
    have := hn.planned pl (List.mem_cons_of_mem plan hpl) hq a
    rw [get_reserved_shrink]
    show q.spent.get a + _ - _ ≤ pl.row.get a
    omega
  · obtain ⟨q, hq, hqr⟩ := hn.live pl (List.mem_cons_of_mem plan hpl)
    exact ⟨shrink plan l pl.handle q, by rw [hget, hq, Option.map_some], hqr⟩

theorem Logged.narrowLedger {t : Ledgers} {log : List (Nat × Row)} (hg : t.Logged log)
    {plan : LedgerPlan} {l : Ledger} (hl : t.states[plan.handle]? = some l) :
    (t.narrowLedger plan).Logged log := by
  refine hg.congr (narrowLedger_length t plan) ?_ fun {x q'} hq' => ?_
  · funext x
    unfold parentOf
    rw [get_narrowLedger hl]
    cases t.states[x]? with
    | none => rfl
    | some q => rfl
  · rw [get_narrowLedger hl] at hq'
    obtain ⟨q, hq, rfl⟩ := Option.map_eq_some_iff.mp hq'
    exact ⟨q, hq, rfl, rfl⟩

theorem narrow_foldl {log : List (Nat × Row)} : ∀ (plans : List LedgerPlan) (t : Ledgers), t.Tree →
    t.Logged log → t.Narrowing plans →
    (plans.foldl narrowLedger t).Tree ∧ (plans.foldl narrowLedger t).Logged log ∧
      (plans.foldl narrowLedger t).Narrowing [] := by
  intro plans
  induction plans with
  | nil =>
    intro t ht hg hn
    exact ⟨ht, hg, hn⟩
  | cons plan plans ih =>
    intro t ht hg hn
    obtain ⟨l, hl, -⟩ := hn.live plan List.mem_cons_self
    exact ih _ (ht.map (keeps_shrink plan l) (get_narrowLedger hl)) (hg.narrowLedger hl) hn.step

theorem narrowing_of_checked {t : Ledgers} (hf : t.Funded fun _ _ => 0) {plans : List LedgerPlan}
    (hadm : t.admissible [] plans = true) (hcov : plans.all (t.covers plans) = true) :
    t.Narrowing plans := by
  obtain ⟨hall, hnodup, -⟩ := admissible_spec hadm
  refine ⟨fun hl a => (hf.spent hl a).1, fun hl _ a => (hf.spent hl a).2,
    fun hl hr a => (hf.reserved hl hr a).trans (Int.add_zero _), fun {x l} hl hr _ a => ?_,
    fun {l} plan hplan hl a => ?_, fun plan hplan => ?_, hnodup⟩
  · have h₁ := hf.room hl hr a
    have h₂ : 0 ≤ (t.returnedTo x plans).get a := by
      apply returnedTo_nonneg
      intro plan hplan l hl
      obtain ⟨l', hl', -, hfit⟩ := hall plan hplan
      exact Option.some.inj (hl'.symm.trans hl) ▸ hfit
    omega
  · have := List.all_eq_true.mp hcov plan hplan
    unfold covers at this
    rw [hl] at this
    have := Row.get_le this a
    rw [Row.get_sub, Row.get_add] at this
    exact this
  · obtain ⟨l, hl, hlive, -⟩ := hall plan hplan
    exact ⟨l, hl, hlive⟩

theorem narrowPeerReservations_cases (t : Ledgers) (ledgers : List LedgerPlan)
    (memory : List MemoryPlan) :
    t.narrowPeerReservations ledgers memory = (t, .error .invalidRoute) ∨
      t.admissible [] ledgers = true ∧ ledgers.all (t.covers ledgers) = true ∧
        t.narrowPeerReservations ledgers memory =
          ({ ledgers.foldl narrowLedger t with
              memory := memory.foldl MemoryTree.narrowRow t.memory }, .ok ()) := by
  unfold narrowPeerReservations
  split
  · exact .inl rfl
  · split
    · exact .inl rfl
    · split
      · exact .inl rfl
      · split
        · exact .inl rfl
        · next _ hadm hcov _ => exact .inr ⟨by simpa using hadm, by simpa using hcov, rfl⟩

/-! ## Every run -/

/-- What holds of the tree after every operation, with the charges made so far. -/
structure Conserved (t : Ledgers) (log : List (Nat × Row)) : Prop where
  tree : t.Tree
  funded : t.Funded fun _ _ => 0
  logged : t.Logged log

theorem Conserved.memory {t t' : Ledgers} {log : List (Nat × Row)} (h : t.Conserved log)
    (hs : t'.states = t.states) : t'.Conserved log := by
  obtain ⟨states, memory⟩ := t
  obtain ⟨states', memory'⟩ := t'
  obtain rfl : states' = states := hs
  exact ⟨⟨h.tree.rooted, h.tree.live, h.tree.children⟩,
    ⟨h.funded.spent, h.funded.reserved, h.funded.room⟩,
    ⟨h.logged.handles, h.logged.spent, h.logged.direct⟩⟩

end Ledgers

/-- An operation on ledgers; `memory` stands for what else changes the memory
reservations. -/
inductive LedgerOp where
  | create (row : Row)
  | reserve (parent : Nat) (row : Row)
  | charge (handle : Nat) (row : Row)
  | release (handle : Nat)
  | narrow (ledgers : List Ledgers.LedgerPlan) (memory : List MemoryPlan)
  | memory (memory : MemoryTree)

namespace Ledgers

/-- An operation: the state it leaves, and whether it throws. -/
def apply (t : Ledgers) : LedgerOp → Ledgers × Except LedgerError Unit
  | .create row => ((t.createPeerLedger row).1, (t.createPeerLedger row).2.map fun _ => ())
  | .reserve parent row =>
    ((t.reservePeerLedger parent row).1, (t.reservePeerLedger parent row).2.map fun _ => ())
  | .charge handle row => t.chargePeerLedger handle row
  | .release handle => ((t.releasePeerLedger handle).1, (t.releasePeerLedger handle).2.map fun _ => ())
  | .narrow ledgers memory => t.narrowPeerReservations ledgers memory
  | .memory memory => ({ t with memory }, .ok ())

/-- The log after an operation: a charge that does not throw is added. -/
def record (t : Ledgers) (log : List (Nat × Row)) (op : LedgerOp) : List (Nat × Row) :=
  match op, (t.apply op).2 with
  | .charge handle row, .ok _ => (handle, row) :: log
  | _, _ => log

/-- A sequence of operations: the ledgers, and the charges made. -/
def run (t : Ledgers) (log : List (Nat × Row)) : List LedgerOp → Ledgers × List (Nat × Row)
  | [] => (t, log)
  | op :: ops => run (t.apply op).1 (t.record log op) ops

theorem conserved_empty (memory : MemoryTree) : (empty memory).Conserved [] := by
  have hnone : ∀ {x : Nat} {l : Ledger}, (empty memory).states[x]? ≠ some l := by
    intro x l h
    cases h
  have hpar : ∀ x, (empty memory).parentOf x = none := fun x => rfl
  refine ⟨⟨fun c p hp => ?_, fun hl => absurd hl hnone, fun hl => absurd hl hnone⟩,
    ⟨fun hl => absurd hl hnone, fun hl => absurd hl hnone, fun hl => absurd hl hnone⟩,
    ⟨fun e he => absurd he List.not_mem_nil, fun hl => absurd hl hnone, fun hl => absurd hl hnone⟩⟩
  rw [hpar] at hp
  cases hp

/-- An operation that throws changes nothing. -/
theorem apply_error {t : Ledgers} {op : LedgerOp} {e : LedgerError} (h : (t.apply op).2 = .error e) :
    (t.apply op).1 = t := by
  cases op with
  | create row =>
    rcases t.createPeerLedger_cases row with he | ⟨-, he⟩
    · rw [apply, he]
    · rw [apply, he] at h
      cases h
  | reserve parent row =>
    rcases t.reservePeerLedger_cases parent row with he | ⟨p, -, -, -, -, he⟩
    · rw [apply, he]
    · rw [apply, he] at h
      cases h
  | charge handle row =>
    rcases t.chargePeerLedger_cases handle row with he | ⟨l, -, -, -, -, he⟩
    · rw [apply, he]
    · rw [apply, he] at h
      cases h
  | release handle =>
    rcases t.releasePeerLedger_cases handle with he | he | ⟨l, -, -, he⟩
    · rw [apply, he]
    · rw [apply, he]
    · rw [apply, he] at h
      cases h
  | narrow ledgers memory =>
    rcases t.narrowPeerReservations_cases ledgers memory with he | ⟨-, -, he⟩
    · rw [apply, he]
    · rw [apply, he] at h
      cases h
  | memory memory => cases h

theorem Conserved.step {t : Ledgers} {log : List (Nat × Row)} (hc : t.Conserved log) (op : LedgerOp) :
    (t.apply op).1.Conserved (t.record log op) := by
  obtain ⟨ht, hf, hg⟩ := hc
  cases op with
  | create row =>
    show (t.createPeerLedger row).1.Conserved log
    rcases t.createPeerLedger_cases row with he | ⟨hrow, he⟩
    · rw [he]
      exact ⟨ht, hf, hg⟩
    · rw [he]
      exact ⟨ht.create row, hf.create ht hrow, hg.add ht.rooted rfl rfl⟩
  | reserve parent row =>
    show (t.reservePeerLedger parent row).1.Conserved log
    rcases t.reservePeerLedger_cases parent row with he | ⟨p, hp, hlive, hrow, hrem, he⟩
    · rw [he]
      exact ⟨ht, hf, hg⟩
    · rw [he]
      refine ⟨ht.reserve hp hlive row, hf.reserve ht hp hrow hrem, ?_⟩
      have hpar : (t.modify parent (adopt t.states.length row)).parentOf = t.parentOf :=
        parentOf_modify fun _ => rfl
      refine Logged.add (hpar ▸ ht.rooted) (hg.congr (length_modify _ _ _) hpar fun {x l'} hl' => ?_)
        rfl rfl
      obtain ⟨l, hl, rfl⟩ := exists_of_modify hl'
      refine ⟨l, hl, ?_⟩
      split
      · exact ⟨rfl, rfl⟩
      · exact ⟨rfl, rfl⟩
  | charge handle row =>
    unfold record
    rcases t.chargePeerLedger_cases handle row with he | ⟨l, hl, hlive, hrow, hrem, he⟩
    · rw [apply, he]
      exact ⟨ht, hf, hg⟩
    · rw [apply, he]
      obtain ⟨ht', hf', hs⟩ := charge_spec ht hf hl hlive hrow hrem rfl
      exact ⟨ht', hf', hg.charge ht hl hs⟩
  | release handle =>
    show (t.releasePeerLedger handle).1.Conserved log
    rcases t.releasePeerLedger_cases handle with he | he | ⟨l, hl, hlive, he⟩
    · rw [he]
      exact ⟨ht, hf, hg⟩
    · rw [he]
      exact ⟨ht, hf, hg⟩
    · rw [he]
      have hcut := release_spec t.states.length handle t l (ht.below handle) hl hlive (Nat.sub_le _ _)
      refine ⟨ht.cut hl hcut, hf.cut ht hl hlive hcut,
        hg.congr hcut.same.length hcut.same.parentOf fun {x l'} hl' => ?_⟩
      obtain ⟨l₀, hl₀, hs⟩ := hcut.same.charges hl'
      exact ⟨l₀, hl₀, hs.spent, hs.direct⟩
  | narrow ledgers memory =>
    have hrec : t.record log (.narrow ledgers memory) = log := rfl
    rw [hrec]
    show (t.narrowPeerReservations ledgers memory).1.Conserved log
    rcases t.narrowPeerReservations_cases ledgers memory with he | ⟨hadm, hcov, he⟩
    · rw [he]
      exact ⟨ht, hf, hg⟩
    · rw [he]
      obtain ⟨ht', hg', hn⟩ := narrow_foldl ledgers t ht hg (narrowing_of_checked hf hadm hcov)
      exact Conserved.memory ⟨ht', hn.funded ht', hg'⟩ rfl
  | memory memory => exact Conserved.memory ⟨ht, hf, hg⟩ rfl

theorem Conserved.run {t : Ledgers} {log : List (Nat × Row)} (hc : t.Conserved log)
    (ops : List LedgerOp) : (t.run log ops).1.Conserved (t.run log ops).2 := by
  induction ops generalizing t log with
  | nil => exact hc
  | cons op ops ih => exact ih (hc.step op)

/-- After every sequence of operations, on every axis: a live ledger keeps what it
has spent and reserved within its allocation, and reserves what its live children
may still spend; every ledger has spent what was charged to it and below it, which
is never more than its allocation; and an operation that throws leaves the tree. -/
theorem tree_conserved (memory : MemoryTree) (ops : List LedgerOp) :
    let t := ((empty memory).run [] ops).1
    let log := ((empty memory).run [] ops).2
    (∀ (h : Nat) (l : Ledger), t.states[h]? = some l → ∀ a,
      (l.released = false → 0 ≤ l.spent.get a ∧ 0 ≤ l.reserved.get a ∧
        l.spent.get a + l.reserved.get a ≤ l.allocated.get a ∧ l.reserved.get a = t.childSum h a) ∧
      l.spent.get a = directSum log h a + t.belowSum log h a ∧
      l.spent.get a ≤ l.allocated.get a) ∧
    ∀ (op : LedgerOp) (e : LedgerError), (t.apply op).2 = .error e → (t.apply op).1 = t := by
  intro t log
  have hc : t.Conserved log := (conserved_empty memory).run ops
  refine ⟨fun h l hl a => ⟨fun hr => ?_, hc.logged.spent hl a, (hc.funded.spent hl a).2⟩,
    fun op e he => apply_error he⟩
  have hres : l.reserved.get a = t.childSum h a :=
    (hc.funded.reserved hl hr a).trans (Int.add_zero _)
  exact ⟨(hc.funded.spent hl a).1, hres ▸ childSum_nonneg hc.funded h a, hc.funded.room hl hr a, hres⟩

-- A grandchild of an allocation of 10 cells is charged 4; its parent is released.
example : (((empty .empty).run [] [.create ⟨10, 100, 1⟩, .reserve 0 ⟨8, 80, 1⟩,
    .reserve 1 ⟨5, 50, 0⟩, .charge 2 ⟨4, 40, 0⟩, .release 1]).1.states.map
      fun l => (l.spent, l.reserved, l.released)) =
    [(⟨4, 40, 0⟩, ⟨0, 0, 0⟩, false), (⟨4, 40, 0⟩, ⟨0, 0, 0⟩, true), (⟨4, 40, 0⟩, ⟨0, 0, 0⟩, true)] := by
  decide

end Ledgers

end HyperDht.Private
