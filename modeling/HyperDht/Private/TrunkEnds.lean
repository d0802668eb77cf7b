import HyperDht.Private.OpenRun
import HyperDht.Private.TrunkFlow

/-!
# Credit at the destination, and the windows of the shared link

`Dest.account` is what the destination circuit counts of the windows of the shared link.
It counts a stream's window from the start, as long as its OPEN may still come. The
accounts of entry and destination fit over every turn of either (`Trunk`), so neither end
ever sends what the other does not take; nothing of the circuit's window is lost while
both are open. None of this rests on what the sources do.
-/

namespace HyperDht.Private

namespace Dest

/-- The window of a stream that the circuit may yet open. -/
def toCome (d : Dest) (id : Nat) : Nat :=
  if d.closed = false ∧ d.lastStreamId < id then streamWindow else 0

def account (d : Dest) : Account Lane where
  spent
    | .circuit => (if d.closed then 0 else (circuitWindow : Int) - d.sendPool.inFlight) +
        d.link.total Frame.cells
    | .stream id _ => d.spent id + d.toCome id
  lent
    | .circuit => (if d.closed then 0 else (circuitWindow : Int) - d.receiveCredit) +
        d.link.total (Frame.creditOf circuitStreamId)
    | .stream id _ => d.lent id

/-- `d'` is `d` after it took the frames `got` of the entry. -/
structure Deals (got : List Frame) (d d' : Dest) : Prop where
  moves : trunk.Moves got d.account d'.account
  keeps : d'.closed = false → trunk.Keeps .circuit got d.account d'.account

variable {d d' : Dest}

theorem deals_closed (h : d.Open) (hc : d'.closed = true) (hs : d'.streams = .empty)
    (hl : d'.link = d.link.destroy) (got : List Frame) : Deals got d d' := by
  have hin : d.sendPool.inFlight ≤ circuitWindow := by
    have := h.pool.sum
    omega
  have hrc : d.receiveCredit ≤ circuitWindow := by
    have := h.credit
    simp only [creditSum] at this
    omega
  have hnone : ∀ id, d'.stream? id = none := fun id => by
    rw [stream?_eq_bind, hs]
    rfl
  have hle : ∀ w, d'.link.total w ≤ d.link.total w := fun w => by
    rw [hl]
    exact d.link.total_destroy_le w
  have hcome : ∀ id, d'.toCome id = 0 := fun id => if_neg (by rw [hc]; simp)
  have hm : trunk.Moves [] d.account d'.account := by
    refine ⟨fun k => ?_, fun k => ?_⟩
    · rw [Windows.sum_nil]
      cases k with
      | circuit =>
        have := hle Frame.cells
        simp only [account, hc, h.live, if_true, Bool.false_eq_true, if_false]
        omega
      | stream id hid =>
        have h₁ := hle (Frame.dataOf id)
        have h₂ := hcome id
        simp only [account, Dest.spent, hnone, Option.elim_none]
        omega
    · rw [Windows.sum_nil]
      cases k with
      | circuit =>
        have := hle (Frame.creditOf circuitStreamId)
        simp only [account, hc, h.live, if_true, Bool.false_eq_true, if_false]
        omega
      | stream id hid =>
        have h₁ := hle (Frame.creditOf id)
        simp only [account, Dest.lent, hnone, Option.elim_none]
        cases hst : d.stream? id with
        | none =>
          simp only [Option.elim_none]
          omega
        | some s =>
          have := (h.sane id s hst).window
          simp only [Option.elim_some]
          omega
  exact ⟨hm.weaken got, fun ho => absurd (ho.symm.trans hc) (by decide)⟩

theorem deals_flow {δ : Int} (h : d.Open) (ho : d'.Open) (hf : Flow δ d d') : Deals [] d d' := by
  have hspent : d'.account.spent .circuit = d.account.spent .circuit := by
    have := hf.sent
    simp only [account, h.live, ho.live, Bool.false_eq_true, if_false]
    omega
  have hlent : d'.account.lent .circuit = d.account.lent .circuit := by
    have := hf.returned
    simp only [account, h.live, ho.live, Bool.false_eq_true, if_false]
    omega
  refine ⟨⟨fun k => ?_, fun k => ?_⟩, fun _ => ⟨?_, ?_⟩⟩
  · rw [Windows.sum_nil]
    cases k with
    | circuit => rw [hspent]; omega
    | stream id hid =>
      have := hf.spent id
      simp only [account, toCome, hf.lastStreamId, h.live, ho.live]
      omega
  · rw [Windows.sum_nil]
    cases k with
    | circuit => rw [hlent]; omega
    | stream id hid =>
      have := hf.lent id hid
      simp only [account]
      omega
  · rw [hspent, Windows.sum_nil]; omega
  · rw [hlent, Windows.sum_nil]; omega

theorem deals_flows {δ : Int} (h : d.Open) (hf : Flows δ d d') : Deals [] d d' := by
  rcases hf with hs | ⟨ho, hf⟩
  · exact deals_closed h hs.closed hs.streams hs.link []
  · exact deals_flow h ho hf

/-- An OPEN that a circuit takes moves its frontier from below to the new stream. -/
def Advances (f : Frame) (d d' : Dest) : Prop :=
  if f.body.isOpen then d.lastStreamId < f.streamId ∧ d'.lastStreamId = f.streamId
  else d'.lastStreamId = d.lastStreamId

theorem deals_took {δ : Int} {f : Frame} (h : d.Open) (ho : d'.Open) (ht : Took f δ d d')
    (ha : Advances f d d') : Deals [f] d d' := by
  have hspent : d'.account.spent .circuit =
      d.account.spent .circuit + f.creditOf circuitStreamId := by
    have := ht.sent
    simp only [account, h.live, ho.live, Bool.false_eq_true, if_false]
    omega
  have hlent : d'.account.lent .circuit = d.account.lent .circuit + f.cells := by
    have := ht.returned
    simp only [account, h.live, ho.live, Bool.false_eq_true, if_false]
    omega
  -- the window of the stream that is opened is counted already
  have hcome : ∀ id, (if f = ⟨id, .openStream⟩ then streamWindow else 0) + d'.toCome id ≤
      d.toCome id := by
    intro id
    unfold Advances at ha
    unfold toCome
    rw [h.live, ho.live]
    by_cases hf : f.body.isOpen = true
    · rw [if_pos hf] at ha
      by_cases he : f = ⟨id, .openStream⟩
      · have hid : f.streamId = id := by rw [he]
        rw [if_pos he, if_neg (by omega), if_pos ⟨rfl, by omega⟩, Nat.add_zero]
      · rw [if_neg he]
        split
        · rw [if_pos ⟨rfl, by omega⟩]
          omega
        · exact Nat.zero_le _
    · rw [if_neg hf] at ha
      have he : f ≠ ⟨id, .openStream⟩ := by
        rintro rfl
        exact hf rfl
      rw [if_neg he, ha]
      omega
  have hsum : ∀ w : Lane → Frame → Nat, ∀ k, Windows.sum w k [f] = w k f := fun w k =>
    Windows.sum_singleton w k f
  refine ⟨⟨fun k => ?_, fun k => ?_⟩, fun _ => ⟨?_, ?_⟩⟩
  · rw [hsum]
    cases k with
    | circuit => exact hspent.le
    | stream id hid =>
      have h₁ := ht.spent id hid
      have h₂ := hcome id
      unfold Frame.sendGain at h₁
      show (d'.spent id + d'.toCome id : Int) ≤ d.spent id + d.toCome id + f.creditOf id
      omega
  · rw [hsum]
    cases k with
    | circuit => exact hlent.le
    | stream id hid => exact ht.lent id hid
  · rw [hsum]; exact hspent
  · rw [hsum]; exact hlent

/-! ## Frames -/

/-- A circuit that is still open after an OPEN has moved its frontier. -/
theorem advances_open {now : Int} {f : Frame} (h : d.Open) (hf : f.body.isOpen = true)
    {a : Acceptance} (hc : (receive now d (.frame f) a).closed = false) :
    d.lastStreamId < f.streamId ∧
      (receive now d (.frame f) a).lastStreamId = f.streamId := by
  have hclosed : ∀ {d₀ : Dest} {g : DestFault}, (d₀.fault g).destroy.closed = false → False := by
    intro d₀ g h₀
    unfold destroy at h₀
    split at h₀
    · next hd => exact absurd (hd.symm.trans h₀) (by decide)
    · cases h₀
  unfold receive at hc ⊢
  rw [if_neg (by rw [h.live]; decide)] at hc ⊢
  cases hdec : decodeLogical (.frame f) with
  | none =>
    rw [hdec] at hc
    exact (hclosed hc).elim
  | some g =>
    obtain ⟨hg, -, -⟩ := decodeLogical_eq_some hdec
    obtain rfl := Payload.frame.inj hg
    rw [hdec] at hc
    obtain ⟨id, body⟩ := f
    dsimp only at hc ⊢
    split at hc
    · cases body with
      | openStream | spliceOpen => exact (hclosed hc).elim
      | data | fin | reset | credit | demand | release | spliceReady => cases hf
    · next hid =>
      rw [if_neg hid]
      split at hc
      · exact (hclosed hc).elim
      · next hzero =>
        rw [if_neg hzero]
        cases body with
        | openStream =>
          dsimp only at hc ⊢
          unfold openLogical at hc ⊢
          split at hc
          · exact (hclosed hc).elim
          · next hlast =>
            rw [if_neg hlast]
            refine ⟨by omega, ?_⟩
            dsimp only
            split
            · exact lastStreamId_sendOut _ _
            · split
              · exact lastStreamId_destroy _
              · split
                · rfl
                · exact lastStreamId_destroy _
        | spliceOpen down =>
          dsimp only at hc ⊢
          unfold openSpliced at hc ⊢
          split at hc
          · exact (hclosed hc).elim
          · next hlast =>
            rw [if_neg hlast]
            refine ⟨by omega, ?_⟩
            dsimp only
            split
            · exact lastStreamId_sendOut _ _
            · split
              · exact lastStreamId_sendOut _ _
              · split
                · exact lastStreamId_destroy _
                · split
                  · exact lastStreamId_sendOut _ _
                  · exact lastStreamId_destroy _
        | data | fin | reset | credit | demand | release | spliceReady => cases hf

/-- What becomes of a circuit that takes a frame. -/
inductive Reads (f : Frame) (d d' : Dest) : Prop
  | ended (h : Ended f d d')
  | took {δ : Int} (ho : d'.Open) (ht : Took f δ d d') (ha : Advances f d d')

/-- **What an open circuit makes of a frame**, DATA for a raw stream included. -/
theorem reads_receive (h : d.Open) (now : Int) {f : Frame}
    (hf : decodeLogical (.frame f) = some f) (a : Acceptance) :
    Reads f d (receive now d (.frame f) a) := by
  have hadv : (receive now d (.frame f) a).Open → Advances f d (receive now d (.frame f) a) := by
    intro ho
    unfold Advances
    split
    · next hopen => exact advances_open h hopen ho.live
    · next hopen =>
      rcases stays_receive h now (Bool.eq_false_of_not_eq_true hopen) a with hg | ⟨-, hlast⟩
      · exact absurd (hg.closed.symm.trans ho.live) (by decide)
      · exact hlast
  by_cases havoid : d.Avoids f
  · rcases takes_receive h now hf havoid a with he | ⟨ho, ht⟩
    · exact .ended he
    · exact .took ho ht (hadv ho)
  · -- DATA for the raw stream of a splice: the cell is charged and lost
    obtain ⟨-, -, hvalid⟩ := decodeLogical_eq_some hf
    unfold Avoids at havoid
    push Not at havoid
    obtain ⟨hne, b, hb, hdata⟩ := havoid
    have hids := h.ids _ _ hb
    obtain ⟨id, body⟩ := f
    cases body with
    | data chunk =>
      have hid : id ≠ circuitStreamId := by
        simp only [validLogicalPayload, Bool.and_eq_true, bne_iff_ne] at hvalid
        exact hvalid.2
      have hzero : id ≠ 0 := Nat.pos_iff_ne_zero.mp hids.1
      have he : receive now d (.frame ⟨id, .data chunk⟩) a =
          Dest.fault { d with receiveCredit := d.receiveCredit - 1 } .noReceive := by
        unfold receive
        rw [if_neg (by rw [h.live]; decide), hf]
        dsimp only
        rw [if_neg hid, if_neg hzero, if_neg hne]
        unfold receiveCharged
        rw [show ({ d with receiveCredit := d.receiveCredit - 1 } : Dest).streams.get? id =
          some (.spliced b) from hb]
        rfl
      have ht : Took ⟨id, .data chunk⟩ (-1) d
          (Dest.fault { d with receiveCredit := d.receiveCredit - 1 } .noReceive) :=
        (took_charge hid rfl hne).fault ⟨rfl, b, hb⟩
      rw [he] at hadv ⊢
      exact .took (h.charge.fault _) ht (hadv (h.charge.fault _))
    | openStream | fin | reset | credit | demand | release | spliceOpen | spliceReady =>
      exact absurd rfl hdata

theorem Reads.deals {f : Frame} (h : d.Open) (hr : Reads f d d') : Deals [f] d d' := by
  cases hr with
  | ended he => exact deals_closed h he.closed he.streams he.link [f]
  | took ho ht ha => exact deals_took h ho ht ha

/-! ## The other events -/

/-- The same windows, and no new fault but that of a stream's totals. -/
structure Own (d d' : Dest) : Prop where
  deals : Deals [] d d'
  faults : ∀ g ∈ d'.faults, g ∈ d.faults ∨ g = .stream .totals
  prompt : d.link.Prompt → d'.link.Prompt

theorem own_flows {δ : Int} (h : d.Open) (hf : Flows δ d d') : Own d d' := by
  have hdeals := deals_flows h hf
  rcases hf with hs | ⟨-, hf⟩
  · exact ⟨hdeals, hs.faults, fun _ => hs.link ▸ Link.prompt_destroy _⟩
  · obtain ⟨fs, hl⟩ := hf.link
    exact ⟨hdeals, hf.faults, fun hp => hl ▸ hp.admits fs⟩

/-- A change that the counters of the windows do not see. -/
theorem own_same (hs : d'.streams = d.streams) (hn : d'.lastStreamId = d.lastStreamId)
    (hc : d'.closed = d.closed) (hl : ∀ w, d'.link.total w = d.link.total w)
    (hin : d'.sendPool.inFlight = d.sendPool.inFlight) (hrc : d'.receiveCredit = d.receiveCredit)
    (hf : d'.faults = d.faults) (hp : d.link.Prompt → d'.link.Prompt) : Own d d' := by
  have ha : d'.account = d.account := by
    unfold account Dest.spent Dest.lent toCome
    simp only [hc, hl, hin, hrc, hn, stream?_eq_bind, hs]
  exact ⟨⟨ha ▸ .refl _, fun _ => ha ▸ .refl _ _⟩, fun g hg => .inl (hf ▸ hg), hp⟩

theorem own_link {ev : LinkEvent} (hev : ev ≠ .take) :
    Own d { d with link := d.link.progress ev } :=
  own_same rfl rfl rfl (d.link.total_progress hev) rfl rfl rfl fun hp => hp.progress hev

/-- **What the circuit does by itself moves no window up.** -/
theorem own_step (h : d.Open) {ev : DestEvent} (hev : ev.isReceive = false) : Own d (d.step ev) := by
  rcases step_cases h hev with hf | ⟨n, he⟩ | ⟨lev, hlev, he⟩
  · exact own_flows h hf
  · rw [he]
    exact own_same rfl rfl rfl (fun _ => rfl) rfl rfl rfl id
  · rw [he]
    exact own_link hlev

/-- The events of a closed circuit move its link alone. -/
theorem Gone.own_step (h : d.Gone) {ev : DestEvent} (hev : ev.isReceive = false) :
    Own d (d.step ev) := by
  rcases h.own_cases hev with ⟨p, b, n, -, hin, he⟩ | ⟨lev, hlev, he⟩
  · rw [he]
    exact own_same rfl rfl rfl (fun _ => rfl) hin rfl rfl id
  · rw [he]
    exact own_link hlev

end Dest

/-! ## Both ends -/

/-- The checks of a stream that are about credit. -/
def StreamFault.ofCredit : StreamFault → Bool
  | .window | .circuitReceiveCredit | .grantStream | .grantCircuit | .cancelCircuit | .overflow
  | .pool _ => true
  | .decode | .unexpected | .ended | .totals => false

/-- The checks of the circuit that are about credit. The circuit credit of its streams is
checked by the circuit itself. -/
def DestFault.ofCredit : DestFault → Bool
  | .receiveCredit | .returned _ | .grant | .overflow => true
  | .stream .circuitReceiveCredit => false
  | .stream f => f.ofCredit
  | .decode | .unexpected | .openId | .foreignId | .noReceive | .added _ | .acceptance => false

/-- A frame in flight is part of what is in flight. -/
theorem Link.take_le {l l' : Link} {f : Frame} (h : l.take = some (f, l')) (w : Frame → Nat) :
    w f ≤ l.total w := by
  rw [Link.total_take h]
  exact Nat.le_add_left _ _

theorem Entry.delivers_take {e : Entry} {l : Link} {f : Frame} (h : e.link.take = some (f, l)) :
    trunk.Delivers [f] e.account (Entry.account { e with link := l }) := by
  have ht := fun w => Link.total_take h w
  refine ⟨fun k => ?_, fun k => ?_⟩
  · rw [Windows.sum_singleton]
    cases k with
    | circuit =>
      have := ht Frame.cells
      simp only [account, trunk]
      omega
    | stream id hid =>
      have := ht (Frame.dataOf id)
      simp only [account, trunk, sendRoom]
      omega
  · rw [Windows.sum_singleton]
    cases k with
    | circuit =>
      have := ht (Frame.creditOf circuitStreamId)
      simp only [account, trunk]
      omega
    | stream id hid =>
      have := ht (Frame.creditOf id)
      simp only [account, trunk, recvRoom]
      omega

theorem Dest.delivers_take {d : Dest} {l : Link} {f : Frame} (h : d.link.take = some (f, l)) :
    trunk.Delivers [f] d.account (Dest.account { d with link := l }) := by
  have ht := fun w => Link.total_take h w
  have hs : ∀ id, ({ d with link := l } : Dest).stream? id = d.stream? id := fun _ => rfl
  refine ⟨fun k => ?_, fun k => ?_⟩
  · rw [Windows.sum_singleton]
    cases k with
    | circuit =>
      have := ht Frame.cells
      simp only [account, trunk]
      omega
    | stream id hid =>
      have := ht (Frame.dataOf id)
      simp only [account, trunk, Dest.spent, toCome, hs]
      omega
  · rw [Windows.sum_singleton]
    cases k with
    | circuit =>
      have := ht (Frame.creditOf circuitStreamId)
      simp only [account, trunk]
      omega
    | stream id hid =>
      have := ht (Frame.creditOf id)
      simp only [account, trunk, Dest.lent, hs]
      omega

/-- The invariant of the shared link. -/
structure Trunk (e : Entry) (d : Dest) : Prop where
  entry : e.Kept
  window : e.InWindow
  dest : d.Gone ∨ d.Open
  fit : trunk.Fit e.account d.account
  exact : e.closed = false → d.closed = false → trunk.Exact .circuit e.account d.account

namespace Trunk

variable {e e' : Entry} {d d' : Dest} {f : Frame} {l : Link}

theorem entryMoves (h : Trunk e d) (hd : e.Deals [] e') (hk : e'.Kept)
    (hstay : e'.closed = false → e.closed = false) : Trunk e' d where
  entry := hk
  window := hd.window
  dest := h.dest
  fit := h.fit.move hd.moves
  exact hc hc' := (h.exact (hstay hc) hc').move (hd.keeps hc)

theorem entryReads (h : Trunk e d) (ht : d.link.take = some (f, l)) (hd : e.Deals [f] e')
    (hk : e'.Kept) (hdest : Dest.Gone { d with link := l } ∨ Dest.Open { d with link := l })
    (hstay : e'.closed = false → e.closed = false) : Trunk e' { d with link := l } where
  entry := hk
  window := hd.window
  dest := hdest
  fit := h.fit.turn (Dest.delivers_take ht) hd.moves
  exact hc hc' := (h.exact (hstay hc) hc').turn (Dest.delivers_take ht) (hd.keeps hc)

theorem destMoves (h : Trunk e d) (hd : d.Deals [] d') (hdest : d'.Gone ∨ d'.Open)
    (hstay : d'.closed = false → d.closed = false) : Trunk e d' where
  entry := h.entry
  window := h.window
  dest := hdest
  fit := (h.fit.symm.move hd.moves).symm
  exact hc hc' := ((h.exact hc (hstay hc')).symm.move (hd.keeps hc')).symm

theorem destReads (h : Trunk e d) (ht : e.link.take = some (f, l)) (hd : d.Deals [f] d')
    (hk : Entry.Kept { e with link := l }) (hdest : d'.Gone ∨ d'.Open)
    (hstay : d'.closed = false → d.closed = false) : Trunk { e with link := l } d' where
  entry := hk
  window := h.window
  dest := hdest
  fit := (h.fit.symm.turn (Entry.delivers_take ht) hd.moves).symm
  exact hc hc' := ((h.exact hc (hstay hc')).symm.turn (Entry.delivers_take ht) (hd.keeps hc')).symm

theorem dest_inFlight (h : d.Gone ∨ d.Open) :
    (d.link.total Frame.cells : Int) ≤ d.account.spent .circuit ∧
      (d.link.total (Frame.creditOf circuitStreamId) : Int) ≤ d.account.lent .circuit ∧
      ∀ id hid, (d.link.total (Frame.dataOf id) : Int) ≤ d.account.spent (.stream id hid) ∧
        (d.link.total (Frame.creditOf id) : Int) ≤ d.account.lent (.stream id hid) := by
  have hlent : ∀ id, (d.link.total (Frame.creditOf id) : Int) ≤ d.lent id := by
    intro id
    unfold Dest.lent
    cases hs : d.stream? id with
    | none =>
      simp only [Option.elim_none]
      omega
    | some s =>
      simp only [Option.elim_some]
      rcases h with hg | ho
      · exact absurd ((hg.stream? id).symm.trans hs) (by simp)
      · have := (ho.sane id s hs).window
        omega
  have hcirc : (d.link.total Frame.cells : Int) ≤ d.account.spent .circuit ∧
      (d.link.total (Frame.creditOf circuitStreamId) : Int) ≤ d.account.lent .circuit := by
    rcases h with hg | ho
    · simp only [Dest.account, hg.closed, if_true]
      omega
    · have h₁ := ho.pool.sum
      have h₂ := ho.credit
      simp only [Dest.creditSum] at h₂
      simp only [Dest.account, ho.live, Bool.false_eq_true, if_false]
      omega
  refine ⟨hcirc.1, hcirc.2, fun id hid => ⟨?_, hlent id⟩⟩
  simp only [Dest.account, Dest.spent]
  omega

theorem entry_inFlight (h : e.Kept) (hw : e.InWindow) :
    (e.link.total Frame.cells : Int) ≤ e.account.spent .circuit ∧
      (e.link.total (Frame.creditOf circuitStreamId) : Int) ≤ e.account.lent .circuit ∧
      ∀ id hid, (e.link.total (Frame.dataOf id) : Int) ≤ e.account.spent (.stream id hid) ∧
        (e.link.total (Frame.creditOf id) : Int) ≤ e.account.lent (.stream id hid) := by
  have hcirc : (e.link.total Frame.cells : Int) ≤ e.account.spent .circuit ∧
      (e.link.total (Frame.creditOf circuitStreamId) : Int) ≤ e.account.lent .circuit := by
    rcases h with hg | ⟨ho, -, -⟩
    · simp only [Entry.account, hg.closed, if_true]
      omega
    · have h₁ := ho.pool.sum
      have h₂ := ho.reverse
      simp only [Entry.reverseSum] at h₂
      simp only [Entry.account, ho.live, Bool.false_eq_true, if_false]
      omega
  refine ⟨hcirc.1, hcirc.2, fun id hid => ⟨?_, ?_⟩⟩
  · simp only [Entry.account]
    omega
  · have := Entry.recvRoom_le hw id
    simp only [Entry.account]
    omega

/-- **No frame of the destination fails a check of credit at the entry.** -/
theorem entry_accepts (h : Trunk e d) (ho : e.Open) (ht : d.link.take = some (f, l))
    {g : EntryFault} (hg : e.Refuses f g) : g.ofCredit = false := by
  have hle := Link.take_le ht
  obtain ⟨h₁, h₂, h₃⟩ := dest_inFlight h.dest
  have hstream : ∀ r, e.sources.get? f.streamId = some r →
      r.sendCredit + f.creditOf f.streamId ≤ streamWindow ∧ f.dataOf f.streamId ≤ r.receiveCredit := by
    intro r hr
    have hid := ho.ne_circuit hr
    obtain ⟨h₄, h₅⟩ := h₃ _ hid
    have hforth := h.fit.forth (.stream _ hid)
    have hback := h.fit.back (.stream _ hid)
    have hdata := hle (Frame.dataOf f.streamId)
    have hcredit := hle (Frame.creditOf f.streamId)
    simp only [Entry.account, Entry.sendRoom, Entry.recvRoom, hr, trunk] at hforth hback
    exact ⟨by omega, by omega⟩
  cases g with
  | reverseCredit =>
    have hback := h.fit.back .circuit
    have hcells := hle Frame.cells
    simp only [Entry.account, ho.live, Bool.false_eq_true, if_false, trunk] at hback
    change e.reverseReceiveCredit < f.cells at hg
    omega
  | returned p =>
    have hforth := h.fit.forth .circuit
    have hcredit := hle (Frame.creditOf circuitStreamId)
    simp only [Entry.account, ho.live, Bool.false_eq_true, if_false, trunk] at hforth
    change e.forwardPool.inFlight < f.creditOf circuitStreamId at hg
    omega
  | sendCredit =>
    obtain ⟨r, hr, hlt⟩ := hg
    have := (hstream r hr).1
    omega
  | receiveCredit =>
    obtain ⟨r, hr, hlt⟩ := hg
    have := (hstream r hr).2
    omega
  | reverseInFlight | demand | release | sent | reverseOverflow => exact hg.elim
  | decode | foreignId | unexpected | ended | totals | splice => rfl

/-- **No frame of the entry fails a check of credit at the destination.** -/
theorem dest_accepts (h : Trunk e d) (ho : d.Open) (ht : e.link.take = some (f, l))
    {g : DestFault} (hg : d.Refuses f g) : g.ofCredit = false := by
  have hle := Link.take_le ht
  obtain ⟨h₁, h₂, h₃⟩ := entry_inFlight h.entry h.window
  have hstream : ∀ s, d.stream? f.streamId = some s → (f.dataOf f.streamId : Int) ≤ s.receiveCredit ∧
      s.sendCredit + f.creditOf f.streamId ≤ streamWindow := by
    intro s hs
    have hid := ho.ne_circuit hs
    obtain ⟨h₄, h₅⟩ := h₃ _ hid
    have hforth := h.fit.forth (.stream _ hid)
    have hback := h.fit.back (.stream _ hid)
    have hdata := hle (Frame.dataOf f.streamId)
    have hcredit := hle (Frame.creditOf f.streamId)
    simp only [Dest.account, Dest.spent, Dest.lent, hs, Option.elim_some, trunk] at hforth hback
    exact ⟨by omega, by omega⟩
  cases g with
  | receiveCredit =>
    obtain ⟨hone, hzero⟩ := hg
    have hforth := h.fit.forth .circuit
    have hcells := hle Frame.cells
    simp only [Dest.account, ho.live, Bool.false_eq_true, if_false, trunk] at hforth
    omega
  | returned p =>
    have hback := h.fit.back .circuit
    have hcredit := hle (Frame.creditOf circuitStreamId)
    simp only [Dest.account, ho.live, Bool.false_eq_true, if_false, trunk] at hback
    change d.sendPool.inFlight < f.creditOf circuitStreamId at hg
    omega
  | grant | overflow => exact hg.elim
  | stream g =>
    cases g with
    | window =>
      obtain ⟨s, hs, hlt⟩ := hg
      have := (hstream s hs).1
      omega
    | grantStream =>
      obtain ⟨s, hs, hlt⟩ := hg
      have := (hstream s hs).2
      omega
    | grantCircuit | cancelCircuit | overflow | pool => exact hg.elim
    | circuitReceiveCredit | decode | unexpected | ended | totals => rfl
  | decode | unexpected | openId | foreignId | noReceive | added | acceptance => rfl

theorem entry_pool (h : Trunk e d) (hc : e.closed = false) :
    e.forwardPool.available + e.forwardPool.granted + e.forwardPool.inFlight = circuitWindow := by
  rcases h.entry with hg | ⟨ho, -, -⟩
  · exact absurd (hc.symm.trans hg.closed) (by decide)
  · exact ho.pool.sum

theorem dest_pool (h : Trunk e d) (hc : d.closed = false) :
    d.sendPool.available + d.sendPool.granted + d.sendPool.inFlight = circuitWindow := by
  rcases h.dest with hg | ho
  · exact absurd (hc.symm.trans hg.closed) (by decide)
  · exact ho.pool.sum

theorem new (spliced : Bool) (others : Nat) : Trunk (.new spliced) (.new others) := by
  have hd : (Dest.new others).Open := by
    rcases Dest.accounted_new others with hg | ⟨ho, -⟩
    · exact absurd hg.closed Bool.false_ne_true
    · exact ho
  have hw : (Entry.new spliced).InWindow := fun id r hr => by cases hr
  have hroom : ∀ id, (Entry.new spliced).sendRoom id ≤ streamWindow := by
    intro id
    show (if _ then streamWindow else 0) ≤ streamWindow
    split
    · exact le_rfl
    · exact Nat.zero_le _
  have hcome : ∀ id, (Dest.new others).toCome id ≤ streamWindow := by
    intro id
    unfold Dest.toCome
    split
    · exact le_rfl
    · exact Nat.zero_le _
  refine ⟨Entry.kept_new spliced, hw, .inr hd, ⟨fun k => ?_, fun k => ?_⟩, fun _ _ => ⟨rfl, rfl⟩⟩
  · cases k with
    | circuit => exact le_rfl
    | stream id hid =>
      have := hroom id
      show ((Entry.new spliced).sendRoom id + (0 : Nat) + (0 + (0 : Nat)) : Int) ≤ streamWindow
      omega
  · cases k with
    | circuit => exact le_rfl
    | stream id hid =>
      have := hcome id
      show (((0 + 0 : Nat) : Int) + (Dest.new others).toCome id +
        ((streamWindow : Int) - streamWindow + (0 : Nat))) ≤ streamWindow
      omega

end Trunk

end HyperDht.Private
