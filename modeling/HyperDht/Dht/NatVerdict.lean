import HyperDht.Dht.NatSamples

/-!
# What the NAT verdict depends on

The two hit lists of a firewalled sampler count the observed addresses and their hosts
(`Counts`), and the decision reads nothing of them but the hits of the addresses, the
number of hosts and the number of samples (`judge`). From that follows when the verdict
depends on the order of the samples (`order_irrelevant_iff`), and when two addresses of one
host, each hit twice, are taken for a consistent NAT (`consistent_justified_iff`).
-/

namespace HyperDht.NatSamples

open Messages (Firewall)

variable {α : Type} [DecidableEq α]

/-- The address a node was observed under, and the node that observed it. -/
abbrev Observation (α : Type) : Type := HostPort α × HostPort α

/-- Samples fed to a firewalled sampler. -/
def feed (l : List (Observation α)) : NatState α :=
  l.foldl (fun s o => s.add true o.1 o.2) (.new true)

/-- The nodes heard and the addresses counted: only the first answer of a node counts. -/
def countAnswer (p : List (HostPort α) × List (HostPort α)) (o : Observation α) :
    List (HostPort α) × List (HostPort α) :=
  if o.2 ∈ p.1 then p else (o.2 :: p.1, p.2 ++ [o.1])

def counted (l : List (Observation α)) : List (HostPort α) := (l.foldl countAnswer ([], [])).2

/-! ## The counts of the lists -/

structure Counts (s : NatState α) (keys : List (HostPort α)) : Prop where
  full : Tallies s.samplesFull keys
  host : Tallies s.samplesHost (keys.map fun k => ⟨k.host, 0⟩)
  sampled : s.sampled = keys.length
  thawed : s.frozen = false

def NatState.verdict (s : NatState α) : Firewall :=
  let before := if s.firewall = .opened then .unknown else s.firewall
  if s.sampled < 3 then before else s.decision.getD before

omit [DecidableEq α] in
theorem updateAddresses_eq (s : NatState α) : ∃ a, s.updateAddresses = { s with addresses := a } := by
  unfold NatState.updateAddresses
  split
  · exact ⟨_, rfl⟩
  · exact ⟨_, rfl⟩
  · exact ⟨_, rfl⟩
  · exact ⟨s.addresses, rfl⟩

omit [DecidableEq α] in
theorem updateFirewall_eq (s : NatState α) : s.updateFirewall true =
    { s with firewall := if s.sampled < 3 then s.firewall else s.decision.getD s.firewall } := by
  unfold NatState.updateFirewall
  rw [if_neg (by simp)]
  split
  · rfl
  · cases s.decision <;> rfl

omit [DecidableEq α] in
theorem update_eq (s : NatState α) :
    ∃ a, s.update true = { s with firewall := s.verdict, addresses := a } := by
  unfold NatState.update NatState.verdict
  dsimp only
  rw [updateFirewall_eq]
  obtain ⟨a, ha⟩ := updateAddresses_eq { s with
    firewall := if s.sampled < 3 then if s.firewall = .opened then .unknown else s.firewall
      else s.decision.getD (if s.firewall = .opened then .unknown else s.firewall) }
  refine ⟨a, Eq.trans ?_ ha⟩
  by_cases h : s.firewall = .opened
  · rw [if_pos ⟨rfl, h⟩, if_pos h]
    rfl
  · rw [if_neg (fun hc => h hc.2), if_neg h]

theorem Counts.update {s : NatState α} {keys : List (HostPort α)} (h : Counts s keys) :
    Counts (s.update true) keys := by
  obtain ⟨a, ha⟩ := update_eq s
  rw [ha]
  exact ⟨h.full, h.host, h.sampled, h.thawed⟩

/-- A new sample, before the update. -/
def NatState.count (s : NatState α) (o : Observation α) : NatState α :=
  { s with
    visited := o.2 :: s.visited
    samplesHost := addHit s.samplesHost ⟨o.1.host, 0⟩
    samplesFull := addHit s.samplesFull o.1
    sampled := s.sampled + 1 }

theorem Counts.count {s : NatState α} {keys : List (HostPort α)} (h : Counts s keys)
    (o : Observation α) : Counts (s.count o) (keys ++ [o.1]) where
  full := h.full.addHit o.1
  host := by
    rw [List.map_append]
    exact h.host.addHit ⟨o.1.host, 0⟩
  sampled := by
    rw [List.length_append, List.length_singleton, ← h.sampled]
    rfl
  thawed := h.thawed

theorem add_eq {s : NatState α} (hf : s.frozen = false) (o : Observation α) :
    s.add true o.1 o.2 = if o.2 ∈ s.visited then s
      else if 3 ≤ s.sampled + 1 then (s.count o).update true else s.count o := by
  unfold NatState.add
  split
  · rfl
  · by_cases h : 3 ≤ s.sampled + 1
    · simp [NatState.count, h, hf]
    · simp [NatState.count, h]

theorem feed_concat (l : List (Observation α)) (o : Observation α) :
    feed (l ++ [o]) = (feed l).add true o.1 o.2 := by
  unfold feed
  rw [List.foldl_concat]

/-- The state of a run with the nodes seen and the addresses counted. -/
theorem counts_feed (l : List (Observation α)) :
    Counts (feed l) (counted l) ∧ (feed l).visited = (l.foldl countAnswer ([], [])).1 := by
  induction l using List.reverseRecOn with
  | nil => exact ⟨⟨tallies_nil, tallies_nil, rfl, rfl⟩, rfl⟩
  | append_singleton l o ih =>
    obtain ⟨h, hv⟩ := ih
    have hstep : counted (l ++ [o]) = (countAnswer (l.foldl countAnswer ([], [])) o).2 := by
      unfold counted
      rw [List.foldl_concat]
    rw [feed_concat, add_eq h.thawed, hstep, List.foldl_concat, hv]
    by_cases ho : o.2 ∈ (l.foldl countAnswer ([], [])).1
    · rw [countAnswer, if_pos ho, if_pos ho]
      exact ⟨h, hv⟩
    · rw [countAnswer, if_neg ho, if_neg ho]
      have hc : Counts ((feed l).count o) (counted l ++ [o.1]) := h.count o
      have hvisited : ((feed l).count o).visited = o.2 :: (l.foldl countAnswer ([], [])).1 := by
        rw [← hv]
        rfl
      split
      · obtain ⟨a, ha⟩ := update_eq ((feed l).count o)
        exact ⟨hc.update, (congrArg NatState.visited ha).trans hvisited⟩
      · exact ⟨hc, hvisited⟩

/-! ## The decision from the hits -/

/-- `decision` on the hits of the addresses, the number of hosts and the number of samples. -/
def judge (hits : List Nat) (hosts n : Nat) : Option Firewall :=
  match hits with
  | [] => none
  | first :: rest =>
    if 3 ≤ first then some .consistent
    else if first = 1 then some .random
    else if hosts = 1 ∧ 3 < n then some .random
    else if 1 < hosts ∧ ∃ second ∈ rest[0]?, 1 < second then some .consistent
    else if 4 < n then some .random
    else none

omit [DecidableEq α] in
theorem decision_eq (s : NatState α) :
    s.decision = judge (s.samplesFull.map Hit.hits) s.samplesHost.length s.sampled := by
  unfold NatState.decision judge
  cases s.samplesFull with
  | nil => rfl
  | cons first rest => cases rest <;> simp

/-- The order of the counted addresses does not show in the decision. -/
theorem Counts.decision_perm {s s' : NatState α} {keys keys' : List (HostPort α)}
    (h : Counts s keys) (h' : Counts s' keys') (hp : keys.Perm keys') :
    s.decision = s'.decision := by
  have hhits := h.full.hits_perm h'.full hp
  have hhosts : s.samplesHost.length = s'.samplesHost.length := by
    rw [h.host.length_eq, h'.host.length_eq]
    exact (hp.map _).dedup.length_eq
  have hsampled : s.sampled = s'.sampled := by
    rw [h.sampled, h'.sampled, hp.length_eq]
  rw [decision_eq, decision_eq, hhits, hhosts, hsampled]

/-- Where nothing is decided there are two samples of one address, and one or two of others. -/
theorem judge_none {hits : List Nat} {hosts n : Nat} (hn : 3 ≤ n) (hsum : hits.sum = n)
    (hpos : ∀ h ∈ hits, 0 < h) (hsorted : hits.Pairwise fun a b => b ≤ a) (hhosts : 0 < hosts)
    (h : judge hits hosts n = none) :
    n = 3 ∧ hits = [2, 1] ∨ n = 4 ∧ hits = [2, 1, 1] ∧ 1 < hosts := by
  match hits with
  | [] =>
    simp at hsum
    omega
  | first :: rest =>
    have hfirst : 0 < first := hpos first List.mem_cons_self
    simp only [judge] at h
    split at h
    · cases h
    · split at h
      · cases h
      · split at h
        · cases h
        · next hone =>
          split at h
          · cases h
          · next htwo =>
            split at h
            · cases h
            · match rest with
              | [] =>
                simp at hsum
                omega
              | [b] =>
                have hb := hpos b (by simp)
                simp at hsum htwo
                obtain rfl : first = 2 := by omega
                obtain rfl : b = 1 := by
                  by_contra hb1
                  have := htwo (by omega)
                  omega
                exact .inl ⟨by omega, rfl⟩
              | [b, c] =>
                have hb := hpos b (by simp)
                have hc := hpos c (by simp)
                simp at hsum htwo
                obtain rfl : first = 2 := by omega
                obtain rfl : b = 1 := by omega
                obtain rfl : c = 1 := by omega
                exact .inr ⟨by omega, rfl, by omega⟩
              | b :: c :: d :: l =>
                have hb := hpos b (by simp)
                have hc := hpos c (by simp)
                have hd := hpos d (by simp)
                simp at hsum
                omega

/-! ## The verdict of a run -/

structure Ruled (s : NatState α) : Prop where
  firewalled : s.firewall ≠ .opened
  early : s.sampled < 3 → s.firewall = .unknown
  late : 3 ≤ s.sampled → ∀ f ∈ s.decision, s.firewall = f

omit [DecidableEq α] in
theorem decision_ne_opened (s : NatState α) : s.decision ≠ some .opened := by
  unfold NatState.decision
  split
  · simp
  · repeat' split
    all_goals simp

theorem Ruled.count {s : NatState α} (h : Ruled s) (o : Observation α) :
    Ruled (if 3 ≤ s.sampled + 1 then (s.count o).update true else s.count o) ∧
      ((s.count o).decision = none → (if 3 ≤ s.sampled + 1 then (s.count o).update true
        else s.count o).firewall = s.firewall) := by
  split
  · next hn =>
    obtain ⟨a, ha⟩ := update_eq (s.count o)
    have hverdict : (s.count o).verdict = (s.count o).decision.getD s.firewall := by
      have hlt : ¬ (s.count o).sampled < 3 := Nat.not_lt.mpr hn
      have hfw : ¬ (s.count o).firewall = .opened := h.firewalled
      unfold NatState.verdict
      dsimp only
      rw [if_neg hlt, if_neg hfw]
      rfl
    rw [ha, hverdict]
    refine ⟨⟨fun hopen => ?_, fun hlt => absurd hn (Nat.not_le.mpr hlt), fun _ f hf => ?_⟩,
      fun hnone => ?_⟩
    · have hd := decision_ne_opened (s.count o)
      dsimp only at hopen
      cases hdec : (s.count o).decision with
      | none => exact h.firewalled (by rwa [hdec] at hopen)
      | some f =>
        rw [hdec] at hopen hd
        exact hd (congrArg some hopen)
    · have hf : (s.count o).decision = some f := hf
      show (s.count o).decision.getD s.firewall = f
      rw [hf]
      rfl
    · show (s.count o).decision.getD s.firewall = s.firewall
      rw [hnone]
      rfl
  · next hn =>
    refine ⟨⟨h.firewalled, fun _ => h.early (by omega), fun hle => ?_⟩, fun _ => rfl⟩
    have hle : 3 ≤ s.sampled + 1 := hle
    omega

theorem ruled_feed (l : List (Observation α)) : Ruled (feed l) := by
  induction l using List.reverseRecOn with
  | nil => exact ⟨by simp [feed, NatState.new], fun _ => rfl, fun h => by simp [feed, NatState.new] at h⟩
  | append_singleton l o ih =>
    rw [feed_concat, add_eq (counts_feed l).1.thawed]
    split
    · exact ih
    · exact (ih.count o).1

/-! ## Samples of different nodes -/

theorem counted_of_nodup {l : List (Observation α)} (h : (l.map Prod.snd).Nodup) :
    counted l = l.map Prod.fst ∧ ∀ n, n ∈ (l.foldl countAnswer ([], [])).1 ↔ n ∈ l.map Prod.snd := by
  induction l using List.reverseRecOn with
  | nil => exact ⟨rfl, fun n => Iff.rfl⟩
  | append_singleton l o ih =>
    rw [List.map_append, List.nodup_append] at h
    obtain ⟨hl, -, hout⟩ := h
    obtain ⟨hc, hv⟩ := ih hl
    have ho : o.2 ∉ (l.foldl countAnswer ([], [])).1 := fun hm =>
      hout o.2 ((hv o.2).mp hm) o.2 (by simp) rfl
    have hstep : (l ++ [o]).foldl countAnswer ([], []) =
        (o.2 :: (l.foldl countAnswer ([], [])).1, counted l ++ [o.1]) := by
      rw [List.foldl_concat, countAnswer, if_neg ho]
      rfl
    refine ⟨?_, fun n => ?_⟩
    · rw [counted, hstep, hc, List.map_append]
      rfl
    · rw [hstep, List.mem_cons, hv, List.map_append, List.mem_append, or_comm]
      simp

/-- A node that has not answered yet: without a decision the verdict stays. -/
theorem firewall_concat {l : List (Observation α)} {o : Observation α}
    (h : ((l ++ [o]).map Prod.snd).Nodup) (hd : (feed (l ++ [o])).decision = none) :
    (feed (l ++ [o])).firewall = (feed l).firewall := by
  have hcounts := counts_feed l
  rw [List.map_append, List.nodup_append] at h
  obtain ⟨hl, -, hout⟩ := h
  have ho : o.2 ∉ (feed l).visited := by
    rw [hcounts.2]
    exact fun hm => hout o.2 (((counted_of_nodup hl).2 o.2).mp hm) o.2 (by simp) rfl
  rw [feed_concat, add_eq hcounts.1.thawed, if_neg ho] at hd ⊢
  refine ((ruled_feed l).count o).2 ?_
  split at hd
  · obtain ⟨a, ha⟩ := update_eq ((feed l).count o)
    rw [ha] at hd
    exact hd
  · exact hd

/-! ## When the order matters -/

/-- Four samples, two of one address and two of others, that do not share a host. -/
def Ambiguous (l : List (Observation α)) : Prop :=
  ∃ a b c : HostPort α, a ≠ b ∧ a ≠ c ∧ b ≠ c ∧ ¬ (a.host = b.host ∧ b.host = c.host) ∧
    (l.map Prod.fst).Perm [a, a, b, c]

theorem tallies_three {a b c : HostPort α} (hab : a ≠ b) (hac : a ≠ c) (hbc : b ≠ c) :
    Tallies [⟨a, 2⟩, ⟨b, 1⟩, ⟨c, 1⟩] [a, a, b, c] where
  sorted := by simp
  nodup := by simp [hab, hac, hbc]
  hits := by simp [List.count_cons, hab, hac, hbc, hab.symm, hac.symm, hbc.symm]
  mem := by simp

theorem tallies_two {a b : HostPort α} (hab : a ≠ b) :
    Tallies [⟨a, 2⟩, ⟨b, 1⟩] [a, a, b] where
  sorted := by simp
  nodup := by simp [hab]
  hits := by simp [List.count_cons, hab, hab.symm]
  mem := by simp

theorem tallies_distinct {a b c : HostPort α} (hab : a ≠ b) (hac : a ≠ c) (hbc : b ≠ c) :
    Tallies [⟨a, 1⟩, ⟨b, 1⟩, ⟨c, 1⟩] [a, b, c] where
  sorted := by simp
  nodup := by simp [hab, hac, hbc]
  hits := by simp [List.count_cons, hab, hac, hbc, hab.symm, hac.symm, hbc.symm]
  mem := by simp

theorem Counts.one_lt_hosts {s : NatState α} {keys : List (HostPort α)} (h : Counts s keys) :
    1 < s.samplesHost.length ↔ ∃ k ∈ keys, ∃ k' ∈ keys, k.host ≠ k'.host := by
  rw [h.host.one_lt_length_iff]
  constructor
  · rintro ⟨k, hk, k', hk', hne⟩
    obtain ⟨a, ha, rfl⟩ := List.mem_map.mp hk
    obtain ⟨b, hb, rfl⟩ := List.mem_map.mp hk'
    exact ⟨a, ha, b, hb, fun he => hne (by rw [he])⟩
  · rintro ⟨k, hk, k', hk', hne⟩
    exact ⟨⟨k.host, 0⟩, List.mem_map_of_mem hk, ⟨k'.host, 0⟩, List.mem_map_of_mem hk',
      fun he => hne (HostPort.mk.inj he).1⟩

theorem Counts.hosts_pos {s : NatState α} {keys : List (HostPort α)} (h : Counts s keys)
    (hk : keys ≠ []) : 0 < s.samplesHost.length := by
  obtain ⟨k, hk⟩ := List.exists_mem_of_ne_nil keys hk
  have hmem := h.host.mem ⟨k.host, 0⟩ (List.mem_map_of_mem hk)
  exact List.length_pos_of_mem (List.mem_map.mp hmem).choose_spec.1

theorem perm_three {t : List (Hit (HostPort α))} {keys : List (HostPort α)}
    (h : Tallies t keys) (hhits : t.map Hit.hits = [2, 1, 1]) :
    ∃ a b c, a ≠ b ∧ a ≠ c ∧ b ≠ c ∧ keys.Perm [a, a, b, c] := by
  match t, hhits with
  | [⟨a, x⟩, ⟨b, y⟩, ⟨c, z⟩], hhits =>
    simp at hhits
    obtain ⟨rfl, rfl, rfl⟩ := hhits
    have hnodup := h.nodup
    simp at hnodup
    obtain ⟨⟨hab, hac⟩, hbc⟩ := hnodup
    exact ⟨a, b, c, hab, hac, hbc, h.perm (tallies_three hab hac hbc)⟩

/-- Without a decision there are three samples, or the addresses are ambiguous. -/
theorem decision_none {l : List (Observation α)} (h : (l.map Prod.snd).Nodup)
    (hlen : 3 ≤ l.length) (hd : (feed l).decision = none) : l.length = 3 ∨ Ambiguous l := by
  have hc := (counts_feed l).1
  rw [(counted_of_nodup h).1] at hc
  have hsampled : (feed l).sampled = l.length := by rw [hc.sampled, List.length_map]
  have hne : l.map Prod.fst ≠ [] := by
    intro he
    rw [List.map_eq_nil_iff] at he
    simp [he] at hlen
  rw [decision_eq] at hd
  rcases judge_none (by rwa [hsampled]) (hc.full.sum_hits.trans hc.sampled.symm)
    (fun n hn => by
      obtain ⟨s, hs, rfl⟩ := List.mem_map.mp hn
      exact (hc.full.hits s hs).2)
    (List.pairwise_map.mpr hc.full.sorted) (hc.hosts_pos hne) hd with ⟨hn, -⟩ | ⟨-, hhits, hhosts⟩
  · exact .inl (hsampled.symm.trans hn)
  · obtain ⟨a, b, c, hab, hac, hbc, hp⟩ := perm_three hc.full hhits
    refine .inr ⟨a, b, c, hab, hac, hbc, fun hsame => ?_, hp⟩
    obtain ⟨k, hk, k', hk', hne⟩ := hc.one_lt_hosts.mp hhosts
    have hfirst : ∀ k ∈ l.map Prod.fst, k.host = c.host := by
      intro k hk
      have := hp.mem_iff.mp hk
      simp at this
      rcases this with rfl | rfl | rfl
      · exact hsame.1.trans hsame.2
      · exact hsame.2
      · rfl
    exact hne ((hfirst k hk).trans (hfirst k' hk').symm)

omit [DecidableEq α] in
theorem exists_perm_map {l : List (Observation α)} {m : List (HostPort α)}
    (h : (l.map Prod.fst).Perm m) : ∃ l' : List (Observation α), l'.Perm l ∧ l'.map Prod.fst = m := by
  have hcomp := List.eq_map_comp_perm (Prod.fst : Observation α → HostPort α)
  obtain ⟨l', hm, hp⟩ := (congrFun (congrFun hcomp m) l).mpr h.symm
  exact ⟨l', hp, hm.symm⟩

/-- Four ambiguous samples decide nothing, so the first three have the verdict. -/
theorem ambiguous_firewall {pre : List (Observation α)} {o : Observation α}
    (h : ((pre ++ [o]).map Prod.snd).Nodup) {a b c : HostPort α} (hab : a ≠ b) (hac : a ≠ c)
    (hbc : b ≠ c) (hhost : ¬ (a.host = b.host ∧ b.host = c.host))
    (hp : ((pre ++ [o]).map Prod.fst).Perm [a, a, b, c]) :
    (feed (pre ++ [o])).firewall = (feed pre).firewall := by
  have hc := (counts_feed (pre ++ [o])).1
  rw [(counted_of_nodup h).1] at hc
  refine firewall_concat h ?_
  have hhosts : 1 < (feed (pre ++ [o])).samplesHost.length := by
    refine hc.one_lt_hosts.mpr ?_
    have hmem : ∀ k ∈ [a, a, b, c], k ∈ (pre ++ [o]).map Prod.fst := fun k hk => hp.mem_iff.mpr hk
    by_cases hab1 : a.host = b.host
    · exact ⟨b, hmem b (by simp), c, hmem c (by simp), fun hbc1 => hhost ⟨hab1, hbc1⟩⟩
    · exact ⟨a, hmem a (by simp), b, hmem b (by simp), hab1⟩
  have hsampled : (feed (pre ++ [o])).sampled = 4 := hc.sampled.trans hp.length_eq
  rw [decision_eq, hsampled, hc.full.hits_perm (tallies_three hab hac hbc) hp]
  have hone : ¬ (feed (pre ++ [o])).samplesHost.length = 1 := by omega
  simp [judge, hone]

theorem firewall_undecided {l : List (Observation α)} (h : (l.map Prod.snd).Nodup)
    (hlen : l.length ≤ 3) (hd : (feed l).decision = none) : (feed l).firewall = .unknown := by
  cases l using List.reverseRecOn with
  | nil => rfl
  | append_singleton pre o =>
    rw [firewall_concat h hd]
    refine (ruled_feed pre).early ?_
    rw [List.map_append, List.nodup_append] at h
    rw [(counts_feed pre).1.sampled, (counted_of_nodup h.1).1, List.length_map]
    rw [List.length_append, List.length_singleton] at hlen
    omega

/-- The verdict after three samples, two of them of one address. -/
theorem firewall_pair {pre : List (Observation α)} (h : (pre.map Prod.snd).Nodup)
    {a b : HostPort α} (hab : a ≠ b) (hp : pre.map Prod.fst = [a, a, b]) :
    (feed pre).firewall = .unknown := by
  have hc := (counts_feed pre).1
  rw [(counted_of_nodup h).1, hp] at hc
  have hlen : pre.length = 3 := by simpa using congrArg List.length hp
  refine firewall_undecided h (Nat.le_of_eq hlen) ?_
  rw [decision_eq, hc.sampled, hc.full.hits_perm (tallies_two hab) (List.Perm.refl _)]
  simp [judge]

theorem firewall_distinct {pre : List (Observation α)} (h : (pre.map Prod.snd).Nodup)
    {a b c : HostPort α} (hab : a ≠ b) (hac : a ≠ c) (hbc : b ≠ c)
    (hp : pre.map Prod.fst = [a, b, c]) : (feed pre).firewall = .random := by
  have hc := (counts_feed pre).1
  rw [(counted_of_nodup h).1, hp] at hc
  refine (ruled_feed pre).late (by rw [hc.sampled]; simp) _ ?_
  rw [decision_eq, hc.sampled, hc.full.hits_perm (tallies_distinct hab hac hbc) (List.Perm.refl _)]
  simp [judge]

omit [DecidableEq α] in
theorem exists_concat_of_map {l : List (Observation α)} {a b c d : HostPort α}
    (h : l.map Prod.fst = [a, b, c, d]) :
    ∃ pre o, l = pre ++ [o] ∧ pre.map Prod.fst = [a, b, c] := by
  match l, h with
  | [o₁, o₂, o₃, o₄], h =>
    simp at h
    exact ⟨[o₁, o₂, o₃], o₄, rfl, by simp [h]⟩

/-- The verdict does not depend on the order of the samples, but for four samples of which
two are of one address: the verdict of the first three stays, and it is random only where
they are of three addresses. -/
theorem order_irrelevant_iff (l : List (Observation α)) (h : (l.map Prod.snd).Nodup) :
    (∀ l₁ l₂ : List (Observation α), l₁.Perm l → l₂.Perm l →
      (feed l₁).firewall = (feed l₂).firewall) ↔ ¬ Ambiguous l := by
  have hnodup : ∀ {l' : List (Observation α)}, l'.Perm l → (l'.map Prod.snd).Nodup :=
    fun hp => ((hp.map Prod.snd).nodup_iff).mpr h
  constructor
  · rintro hsame ⟨a, b, c, hab, hac, hbc, hhost, hp⟩
    obtain ⟨l₁, hp₁, hl₁⟩ := exists_perm_map hp
    obtain ⟨l₂, hp₂, hl₂⟩ := exists_perm_map (hp.trans
      (show [a, a, b, c].Perm [a, b, c, a] from (List.perm_append_singleton a [a, b, c]).symm))
    have hn₁ := hnodup hp₁
    have hn₂ := hnodup hp₂
    have hperm₁ : (l₁.map Prod.fst).Perm [a, a, b, c] := (hp₁.map _).trans hp
    have hperm₂ : (l₂.map Prod.fst).Perm [a, a, b, c] := (hp₂.map _).trans hp
    have hl := hsame l₁ l₂ hp₁ hp₂
    obtain ⟨pre₁, o₁, rfl, hpre₁⟩ := exists_concat_of_map hl₁
    obtain ⟨pre₂, o₂, rfl, hpre₂⟩ := exists_concat_of_map hl₂
    have hunknown : (feed (pre₁ ++ [o₁])).firewall = .unknown := by
      rw [ambiguous_firewall hn₁ hab hac hbc hhost hperm₁]
      rw [List.map_append, List.nodup_append] at hn₁
      exact firewall_pair hn₁.1 hab hpre₁
    have hrandom : (feed (pre₂ ++ [o₂])).firewall = .random := by
      rw [ambiguous_firewall hn₂ hab hac hbc hhost hperm₂]
      rw [List.map_append, List.nodup_append] at hn₂
      exact firewall_distinct hn₂.1 hab hac hbc hpre₂
    rw [hunknown, hrandom] at hl
    cases hl
  · intro hclear l₁ l₂ hp₁ hp₂
    have hc₁ := (counts_feed l₁).1
    have hc₂ := (counts_feed l₂).1
    rw [(counted_of_nodup (hnodup hp₁)).1] at hc₁
    rw [(counted_of_nodup (hnodup hp₂)).1] at hc₂
    have hd : (feed l₁).decision = (feed l₂).decision :=
      hc₁.decision_perm hc₂ ((hp₁.trans hp₂.symm).map Prod.fst)
    by_cases hlen : l.length < 3
    · rw [(ruled_feed l₁).early (by rw [hc₁.sampled, List.length_map, hp₁.length_eq]; exact hlen),
        (ruled_feed l₂).early (by rw [hc₂.sampled, List.length_map, hp₂.length_eq]; exact hlen)]
    · have hlen₁ : 3 ≤ l₁.length := by rw [hp₁.length_eq]; omega
      have hlen₂ : 3 ≤ l₂.length := by rw [hp₂.length_eq]; omega
      cases hdec : (feed l₁).decision with
      | some f =>
        rw [(ruled_feed l₁).late (by rwa [hc₁.sampled, List.length_map]) f hdec,
          (ruled_feed l₂).late (by rwa [hc₂.sampled, List.length_map]) f (hd.symm.trans hdec)]
      | none =>
        rcases decision_none (hnodup hp₁) hlen₁ hdec with hthree | ⟨a, b, c, hab, hac, hbc, hh, hp⟩
        · have hthree₂ : l₂.length = 3 := by rw [hp₂.length_eq, ← hp₁.length_eq, hthree]
          rw [firewall_undecided (hnodup hp₁) (Nat.le_of_eq hthree) hdec,
            firewall_undecided (hnodup hp₂) (Nat.le_of_eq hthree₂) (hd.symm.trans hdec)]
        · exact (hclear ⟨a, b, c, hab, hac, hbc, hh, (hp₁.map Prod.fst).symm.trans hp⟩).elim

/-- Three nodes see one address each, two of them the same. -/
theorem order_irrelevant_three :
    (([(⟨1, 1⟩, ⟨5, 1⟩), (⟨1, 1⟩, ⟨6, 1⟩), (⟨2, 1⟩, ⟨7, 1⟩)] : List (Observation Nat)).map
      Prod.snd).Nodup ∧
    ∀ l₁ l₂ : List (Observation Nat),
      l₁.Perm [(⟨1, 1⟩, ⟨5, 1⟩), (⟨1, 1⟩, ⟨6, 1⟩), (⟨2, 1⟩, ⟨7, 1⟩)] →
      l₂.Perm [(⟨1, 1⟩, ⟨5, 1⟩), (⟨1, 1⟩, ⟨6, 1⟩), (⟨2, 1⟩, ⟨7, 1⟩)] →
      (feed l₁).firewall = (feed l₂).firewall :=
  ⟨by decide, (order_irrelevant_iff _ (by decide)).mpr fun ⟨_, _, _, _, _, _, _, hp⟩ => by
    have := hp.length_eq
    simp at this⟩

/-- The same four samples in two orders: the fourth leaves `UNKNOWN`, or `RANDOM`. -/
theorem not_order_irrelevant : ¬ ∀ l : List (Observation Nat), (l.map Prod.snd).Nodup →
    ∀ l₁ l₂ : List (Observation Nat), l₁.Perm l → l₂.Perm l →
      (feed l₁).firewall = (feed l₂).firewall := by
  intro h
  have hsame := h [(⟨1, 1⟩, ⟨5, 1⟩), (⟨1, 1⟩, ⟨6, 1⟩), (⟨2, 1⟩, ⟨7, 1⟩), (⟨3, 1⟩, ⟨8, 1⟩)]
    (by decide) [(⟨1, 1⟩, ⟨5, 1⟩), (⟨1, 1⟩, ⟨6, 1⟩), (⟨2, 1⟩, ⟨7, 1⟩), (⟨3, 1⟩, ⟨8, 1⟩)]
    [(⟨1, 1⟩, ⟨6, 1⟩), (⟨2, 1⟩, ⟨7, 1⟩), (⟨3, 1⟩, ⟨8, 1⟩), (⟨1, 1⟩, ⟨5, 1⟩)]
    (List.Perm.refl _) (by decide)
  exact absurd hsame (by decide)

/-! ## What a consistent verdict rests on -/

/-- One address was seen three times, or two on different hosts twice. -/
def Justified (s : NatState α) : Prop :=
  (∃ a ∈ s.samplesFull, 3 ≤ a.hits) ∨
    ∃ a ∈ s.samplesFull, ∃ b ∈ s.samplesFull, a.key.host ≠ b.key.host ∧ 2 ≤ a.hits ∧ 2 ≤ b.hits

/-- The lists are sorted by hits and count every sample once, with an entry for each
address, and a consistent verdict is justified. -/
structure Sound (s : NatState α) : Prop where
  sortedFull : s.samplesFull.Pairwise fun a b => b.hits ≤ a.hits
  sortedHost : s.samplesHost.Pairwise fun a b => b.hits ≤ a.hits
  nodupFull : (s.samplesFull.map Hit.key).Nodup
  nodupHost : (s.samplesHost.map Hit.key).Nodup
  sumFull : (s.samplesFull.map Hit.hits).sum = s.sampled
  sumHost : (s.samplesHost.map Hit.hits).sum = s.sampled
  consistent : s.firewall = .consistent → Justified s

/-- No address was counted three times, and the two or more that were counted twice share
their host, which is not the only one. -/
def Lopsided (keys : List (HostPort α)) : Prop :=
  (∀ k, keys.count k ≤ 2) ∧
    ∃ a b c, a ≠ b ∧ keys.count a = 2 ∧ keys.count b = 2 ∧ c ∈ keys ∧ c.host ≠ a.host ∧
      ∀ k, keys.count k = 2 → k.host = a.host

theorem judge_consistent {hits : List Nat} {hosts n : Nat}
    (h : judge hits hosts n = some .consistent) :
    (∃ first rest, hits = first :: rest ∧ 3 ≤ first) ∨
      1 < hosts ∧ ∃ first second rest, hits = first :: second :: rest ∧ 1 < second := by
  match hits with
  | [] => cases h
  | first :: rest =>
    simp only [judge] at h
    split at h
    · next hle => exact .inl ⟨first, rest, rfl, hle⟩
    · split at h
      · cases h
      · split at h
        · cases h
        · split at h
          · next htwo =>
            obtain ⟨hhosts, second, hsecond, hlt⟩ := htwo
            match rest, hsecond with
            | second' :: rest, hsecond =>
              obtain rfl : second' = second := by simpa using hsecond
              exact .inr ⟨hhosts, first, second', rest, rfl, hlt⟩
          · split at h
            · cases h
            · cases h

theorem decision_of_consistent (l : List (Observation α)) (h : (feed l).firewall = .consistent) :
    3 ≤ (feed l).sampled ∧ (feed l).decision = some .consistent := by
  induction l using List.reverseRecOn with
  | nil => simp [feed, NatState.new] at h
  | append_singleton l o ih =>
    have hnew := (counts_feed (l ++ [o])).1
    have hruled := ruled_feed (l ++ [o])
    have hc := (counts_feed l).1
    have hstep : feed (l ++ [o]) = if o.2 ∈ (feed l).visited then feed l
        else if 3 ≤ (feed l).sampled + 1 then ((feed l).count o).update true
        else (feed l).count o := by
      rw [feed_concat, add_eq hc.thawed]
    split at hstep
    · rw [hstep] at h ⊢
      exact ih h
    · have hcount : (feed (l ++ [o])).decision = ((feed l).count o).decision ∧
          (feed (l ++ [o])).sampled = (feed l).sampled + 1 ∧
          Counts (feed (l ++ [o])) (counted l ++ [o.1]) := by
        have hk := hc.count o
        split at hstep
        · obtain ⟨a, ha⟩ := update_eq ((feed l).count o)
          rw [hstep]
          exact ⟨by rw [ha]; rfl, by rw [ha]; rfl, hk.update⟩
        · rw [hstep]
          exact ⟨rfl, rfl, hk⟩
      obtain ⟨hdec, hsampled, hkeys⟩ := hcount
      have hthree : 3 ≤ (feed (l ++ [o])).sampled := by
        by_contra hlt
        rw [hruled.early (by omega)] at h
        cases h
      refine ⟨hthree, ?_⟩
      cases hd : (feed (l ++ [o])).decision with
      | some f => rw [← hruled.late hthree f hd, h]
      | none =>
        have hstay := ((ruled_feed l).count o).2 (hdec.symm.trans hd)
        rw [← hstep, h] at hstay
        obtain ⟨hold, hdold⟩ := ih hstay.symm
        rw [decision_eq] at hd hdold
        have hne : counted l ++ [o.1] ≠ [] := by simp
        rcases judge_none hthree (hkeys.full.sum_hits.trans hkeys.sampled.symm)
          (fun n hn => by
            obtain ⟨s, hs, rfl⟩ := List.mem_map.mp hn
            exact (hkeys.full.hits s hs).2)
          (List.pairwise_map.mpr hkeys.full.sorted) (hkeys.hosts_pos hne) hd with
          ⟨hn, -⟩ | ⟨hn, hhits, -⟩
        · omega
        · -- three samples decided for one address: it now has three hits still
          exfalso
          rcases judge_consistent hdold with ⟨first, rest, hfull, hfirst⟩ |
            ⟨-, first, second, rest, hfull, hsecond⟩
          · have hmem : first ∈ (feed l).samplesFull.map Hit.hits := by
              rw [hfull]
              exact List.mem_cons_self
            obtain ⟨s, hs, rfl⟩ := List.mem_map.mp hmem
            have hs' := (hc.full.hits s hs).1
            have hk : s.key ∈ counted l := List.count_pos_iff.mp (by omega)
            obtain ⟨t, ht, -, hcount⟩ := hkeys.full.exists_hits (List.mem_append_left [o.1] hk)
            have hle : (counted l).count s.key ≤ (counted l ++ [o.1]).count s.key := by
              rw [List.count_append]
              omega
            have htwo : t.hits ≤ 2 := by
              have := hhits ▸ List.mem_map_of_mem (f := Hit.hits) ht
              simp at this
              omega
            omega
          · have hsum := hc.full.sum_hits
            have hsorted : ((feed l).samplesFull.map Hit.hits).Pairwise fun a b => b ≤ a :=
              List.pairwise_map.mpr hc.full.sorted
            rw [hfull] at hsum hsorted
            have hle : second ≤ first := (List.pairwise_cons.mp hsorted).1 second List.mem_cons_self
            rw [List.sum_cons, List.sum_cons, ← hc.sampled] at hsum
            omega

theorem hits_le_two {t : List (Hit (HostPort α))} {keys : List (HostPort α)}
    (h : Tallies t keys) (hj : ¬ ∃ a ∈ t, 3 ≤ a.hits) (k : HostPort α) : keys.count k ≤ 2 := by
  by_cases hk : k ∈ keys
  · obtain ⟨s, hs, rfl, hcount⟩ := h.exists_hits hk
    have hlt : ¬ 3 ≤ s.hits := fun hle => hj ⟨s, hs, hle⟩
    omega
  · rw [List.count_eq_zero_of_not_mem hk]
    omega

theorem lopsided_of_decision {s : NatState α} {keys : List (HostPort α)} (h : Counts s keys)
    (hd : s.decision = some .consistent) (hj : ¬ Justified s) : Lopsided keys := by
  have hthree : ¬ ∃ a ∈ s.samplesFull, 3 ≤ a.hits := fun ha => hj (.inl ha)
  have htwice : ∀ a ∈ s.samplesFull, ∀ b ∈ s.samplesFull, 2 ≤ a.hits → 2 ≤ b.hits →
      a.key.host = b.key.host := fun a ha b hb hah hbh => by
    by_contra hne
    exact hj (.inr ⟨a, ha, b, hb, hne, hah, hbh⟩)
  rw [decision_eq] at hd
  rcases judge_consistent hd with ⟨first, rest, hfull, hfirst⟩ |
    ⟨hhosts, first, second, rest, hfull, hsecond⟩
  · have hmem : first ∈ s.samplesFull.map Hit.hits := by
      rw [hfull]
      exact List.mem_cons_self
    obtain ⟨a, ha, rfl⟩ := List.mem_map.mp hmem
    exact (hthree ⟨a, ha, hfirst⟩).elim
  · obtain ⟨a, t, hat, rfl, ht⟩ := List.map_eq_cons_iff.mp hfull
    obtain ⟨b, t, rfl, rfl, -⟩ := List.map_eq_cons_iff.mp ht
    have ha : a ∈ s.samplesFull := by simp [hat]
    have hb : b ∈ s.samplesFull := by simp [hat]
    have hsorted := h.full.sorted
    have hnodup := h.full.nodup
    rw [hat] at hsorted hnodup
    have hle : b.hits ≤ a.hits := (List.pairwise_cons.mp hsorted).1 b List.mem_cons_self
    have hne : a.key ≠ b.key := fun he => by simp [he] at hnodup
    have hacount := (h.full.hits a ha).1
    have hbcount := (h.full.hits b hb).1
    have halt := hits_le_two h.full hthree a.key
    have hblt := hits_le_two h.full hthree b.key
    obtain ⟨k, hk, k', hk', hdiff⟩ := h.one_lt_hosts.mp hhosts
    obtain ⟨c, hc, hca⟩ : ∃ c ∈ keys, c.host ≠ a.key.host := by
      by_cases hka : k.host = a.key.host
      · exact ⟨k', hk', fun he => hdiff (hka.trans he.symm)⟩
      · exact ⟨k, hk, hka⟩
    refine ⟨hits_le_two h.full hthree, a.key, b.key, c, hne, by omega, by omega, hc, hca,
      fun k hk2 => ?_⟩
    have hpos : 0 < keys.count k := by omega
    obtain ⟨e, he, rfl, hecount⟩ := h.full.exists_hits (List.count_pos_iff.mp hpos)
    exact htwice e he a ha (by omega) (by omega)

theorem Lopsided.decision {s : NatState α} {keys : List (HostPort α)} (h : Counts s keys)
    (hl : Lopsided keys) : 3 ≤ s.sampled ∧ s.decision = some .consistent ∧ ¬ Justified s := by
  obtain ⟨hle, a, b, c, hab, ha, hb, hc, hca, hall⟩ := hl
  have hkey : ∀ k, keys.count k = 2 → ∃ e ∈ s.samplesFull, e.key = k ∧ e.hits = 2 := fun k hk => by
    obtain ⟨e, he, hek, heh⟩ := h.full.exists_hits (List.count_pos_iff.mp (by omega : 0 < keys.count k))
    exact ⟨e, he, hek, heh.trans hk⟩
  obtain ⟨ea, hea, rfl, hah⟩ := hkey a ha
  obtain ⟨eb, heb, rfl, hbh⟩ := hkey b hb
  have hne : ea ≠ eb := fun he => hab (congrArg Hit.key he)
  have htwo : ∀ e ∈ s.samplesFull, e.hits ≤ 2 := fun e he => by
    rw [(h.full.hits e he).1]
    exact hle e.key
  have hhosts : 1 < s.samplesHost.length :=
    h.one_lt_hosts.mpr ⟨c, hc, ea.key, List.count_pos_iff.mp (by omega), hca⟩
  obtain ⟨x, y, t, hxy, hx, hy⟩ : ∃ x y t, s.samplesFull = x :: y :: t ∧ x.hits = 2 ∧ y.hits = 2 := by
    have hsorted := h.full.sorted
    match hfull : s.samplesFull with
    | [] =>
      rw [hfull] at hea
      cases hea
    | [x] =>
      rw [hfull, List.mem_singleton] at hea heb
      exact (hne (hea.trans heb.symm)).elim
    | x :: y :: t =>
      rw [hfull] at hea heb hsorted htwo
      obtain ⟨hx, hrest⟩ := List.pairwise_cons.mp hsorted
      have hy := (List.pairwise_cons.mp hrest).1
      have hytwo : 2 ≤ y.hits := by
        rcases List.mem_cons.mp hea with rfl | hea
        · rcases List.mem_cons.mp heb with rfl | heb
          · exact (hne rfl).elim
          · rcases List.mem_cons.mp heb with rfl | heb
            · exact Nat.le_of_eq hbh.symm
            · have := hy eb heb
              omega
        · rcases List.mem_cons.mp hea with rfl | hea
          · exact Nat.le_of_eq hah.symm
          · have := hy ea hea
            omega
      have hxy := hx y List.mem_cons_self
      have hxle := htwo x List.mem_cons_self
      exact ⟨x, y, t, rfl, by omega, by omega⟩
  refine ⟨?_, ?_, ?_⟩
  · have hsum := h.full.sum_hits
    rw [hxy, List.map_cons, List.map_cons, List.sum_cons, List.sum_cons, hx, hy, ← h.sampled] at hsum
    omega
  · have hone : ¬ s.samplesHost.length = 1 := by omega
    rw [decision_eq, hxy]
    simp [judge, hx, hy, hhosts, hone]
  · rintro (⟨e, he, hthree⟩ | ⟨e, he, f, hf, hdiff, heh, hfh⟩)
    · have := htwo e he
      omega
    · have hecount := (h.full.hits e he).1
      have hfcount := (h.full.hits f hf).1
      have hele := hle e.key
      have hfle := hle f.key
      exact hdiff ((hall e.key (by omega)).trans (hall f.key (by omega)).symm)

theorem sound_iff (l : List (Observation α)) : Sound (feed l) ↔ ¬ Lopsided (counted l) := by
  have hc := (counts_feed l).1
  constructor
  · intro hs hl
    obtain ⟨hn, hd, hj⟩ := hl.decision hc
    exact hj (hs.consistent ((ruled_feed l).late hn _ hd))
  · intro hl
    refine ⟨hc.full.sorted, hc.host.sorted, hc.full.nodup, hc.host.nodup,
      hc.full.sum_hits.trans hc.sampled.symm, ?_, fun hcon => ?_⟩
    · rw [hc.host.sum_hits, List.length_map, ← hc.sampled]
    · by_contra hj
      exact hl (lopsided_of_decision hc (decision_of_consistent l hcon).2 hj)

/-- Every state of a run is sound, but where two addresses of one host were each seen twice
and another host was seen too: the decision counts the hosts and not whose hits they are. -/
theorem consistent_justified_iff (l : List (Observation α)) :
    (∀ l' : List (Observation α), l'.IsPrefix l → Sound (feed l')) ↔
      ∀ l' : List (Observation α), l'.IsPrefix l → ¬ Lopsided (counted l') :=
  forall_congr' fun l' => imp_congr_right fun _ => sound_iff l'

/-- Two ports of one host twice each, and another host. -/
theorem not_consistent_justified : ¬ ∀ l : List (Observation Nat), Sound (feed l) := by
  intro h
  have hs := h [(⟨1, 1⟩, ⟨5, 1⟩), (⟨1, 1⟩, ⟨6, 1⟩), (⟨1, 2⟩, ⟨7, 1⟩), (⟨2, 1⟩, ⟨8, 1⟩),
    (⟨1, 2⟩, ⟨9, 1⟩)]
  have hj := hs.consistent (by decide)
  have hfull : (feed [((⟨1, 1⟩ : HostPort Nat), (⟨5, 1⟩ : HostPort Nat)), (⟨1, 1⟩, ⟨6, 1⟩),
      (⟨1, 2⟩, ⟨7, 1⟩), (⟨2, 1⟩, ⟨8, 1⟩), (⟨1, 2⟩, ⟨9, 1⟩)]).samplesFull =
      [⟨⟨1, 1⟩, 2⟩, ⟨⟨1, 2⟩, 2⟩, ⟨⟨2, 1⟩, 1⟩] := by decide
  rw [Justified, hfull] at hj
  simp at hj

end HyperDht.NatSamples
