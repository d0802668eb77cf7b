import HyperDht.Private.CellCodec
import HyperDht.Private.LinkLedger

/-!
# The receiving side of a circuit link

`_receive` cuts what arrives into cells, however the bytes are split, and
`_openCell` charges, opens and orders each one and emits the payloads the receiver
releases. A handler of a payload may destroy the link or its owner, and what throws
destroys the link. `start` first replays the bytes that were read together with the
last control bytes, before the caller has the link back.

The owner of a link is a parameter (`LinkOwner`): `Keeps` carries an invariant of
the owner through everything a link does with arriving bytes, and `Views` says which
bytes a link survives.
-/

namespace HyperDht.Private

def cellHeaderSize : Nat := 36

structure AeadOpening where
  key : Bytes
  nonce : Bytes
  associatedData : Bytes
  ciphertext : Bytes
  deriving DecidableEq, Repr

/-- `openInto` of a link's opener: the counter and the payload of a cell, or `none`
where it throws. -/
def openInto (aeadOpen : AeadOpening → Option Bytes) (o : SealOptions) (packet : Bytes) :
    Option (Nat × Bytes) :=
  if packet.length ≠ cellSize then none
  else if packet.take 28 ≠ (o.header 0).take 28 then none
  else
    let counter := readU64 (packet.drop 28)
    match aeadOpen ⟨o.key, o.noncePrefix ++ writeUintBE 8 counter,
      cellHeaderDomain ++ packet.take cellHeaderSize, packet.drop cellHeaderSize⟩ with
    | none => none
    | some body =>
      let payloadLength := (body.take 2).foldl (fun n b => n * 256 + b.toNat) 0
      if maxCellPayload < payloadLength then none
      else some (counter, (body.drop 2).take payloadLength)

/-- The bytes of a payload the receiver releases; a link pushes buffers only. -/
def Chunk.bytes : Chunk → Bytes
  | .buffer bytes => bytes
  | .text _ | .other _ => []

def cellsOf (bytes : Bytes) : List Bytes :=
  (List.range (bytes.length / cellSize)).map fun i => (bytes.drop (i * cellSize)).take cellSize

/-- The incomplete cell at the end of some bytes. -/
def restOf (bytes : Bytes) : Bytes := bytes.drop (bytes.length / cellSize * cellSize)

/-- The receiving state of a link; `incoming` is the part of a cell that has arrived. -/
structure Inbound where
  options : SealOptions
  receiver : OrderedReceiver
  ledgers : LinkLedgers
  incoming : Bytes
  started : Bool

namespace Inbound

def new (c : Crypto) (context : RouteContext) (initiator : Bool) (maxStreams : Nat) :
    Except CounterError Inbound := do
  let receiver ← CircuitLink.newReceiver c context initiator
  return ⟨CircuitLink.optionsOf context (CircuitLink.receiveDirection initiator), receiver,
    .new maxStreams .empty, [], false⟩

def destroy (i : Inbound) : Inbound :=
  { i with receiver := i.receiver.destroy, ledgers := i.ledgers.destroy, incoming := [] }

/-- The first part of `_openCell`: the payloads that the receiver releases, or `none`
where a check throws. -/
def openCell (aeadOpen : AeadOpening → Option Bytes) (now : Int) (i : Inbound) (cell : Bytes) :
    Option (Inbound × List Bytes) :=
  match i.ledgers.charge .receive with
  | (_, .error _) => none
  | (ledgers, .ok _) =>
    match openInto aeadOpen i.options cell with
    | none => none
    | some (counter, payload) =>
      match i.receiver.pushAuthenticated counter (.buffer payload) ⟨[], .value now⟩ with
      | (_, .error _) => none
      | (receiver, .ok payloads) => some ({ i with ledgers, receiver }, payloads.map Chunk.bytes)

def fund (i : Inbound) (payload : Bytes) : Option Inbound :=
  match i.ledgers._fundAdmission payload with
  | (_, .error _) => none
  | (ledgers, .ok _) => some { i with ledgers }

def funds : List Bytes → Inbound → Option Inbound
  | [], i => some i
  | p :: ps, i => (i.fund p).bind (funds ps)

/-- Does every one of these cells open? The payloads they release, in order, or `none`
where one is refused. -/
def opens (aeadOpen : AeadOpening → Option Bytes) (now : Int) :
    List Bytes → Inbound → Option (Inbound × List Bytes)
  | [], i => some (i, [])
  | cell :: cells, i =>
    match i.openCell aeadOpen now cell with
    | none => none
    | some (i, ps) =>
      match funds ps i with
      | none => none
      | some i => (opens aeadOpen now cells i).map fun (i, qs) => (i, ps ++ qs)

end Inbound

/-- What a link finds on its stream: whether the stream has a read buffer, the bytes
in it, and whether the address of the stream is still the one observed. -/
structure ReadBuffer where
  readable : Bool
  buffered : Bytes
  address : Bool
  deriving DecidableEq, Repr

/-- The owner of a link: how the link's own state sits in it, what its close handlers
do (`destroy`), and what its payload handler does (`emit`). -/
structure LinkOwner (σ : Type) where
  destroyed : σ → Bool
  inbound : σ → Inbound
  setInbound : Inbound → σ → σ
  destroy : σ → σ
  emit : Bytes → σ → σ

namespace LinkOwner

variable {σ : Type} (w : LinkOwner σ) (aeadOpen : AeadOpening → Option Bytes) (now : Int)

/-- The loop over the payloads of a cell; the flag says that nothing threw. -/
def emits : List Bytes → σ → σ × Bool
  | [], s => (s, true)
  | p :: ps, s =>
    if w.destroyed s then emits ps s
    else
      match (w.inbound s).fund p with
      | none => (s, false)
      | some i => emits ps (w.emit p (w.setInbound i s))

def _openCell (cell : Bytes) (s : σ) : σ × Bool :=
  match (w.inbound s).openCell aeadOpen now cell with
  | none => (s, false)
  | some (i, ps) => w.emits ps (w.setInbound i s)

/-- The loop over the cells; what throws destroys the link. -/
def openCells : List Bytes → σ → σ
  | [], s => s
  | cell :: cells, s =>
    if w.destroyed s then s
    else
      match w._openCell aeadOpen now cell s with
      | (s, false) => w.destroy s
      | (s, true) => openCells cells s

/-- `_receive`. The incomplete cell is completed first, so the cells are those of all
the bytes together. -/
def _receive (address : Bool) (chunk : Bytes) (s : σ) : σ :=
  if w.destroyed s then s
  else if chunk = [] then w.destroy s
  else if address = false then w.destroy s
  else
    let bytes := (w.inbound s).incoming ++ chunk
    let s := w.openCells aeadOpen now (cellsOf bytes)
      (w.setInbound { w.inbound s with incoming := [] } s)
    if w.destroyed s then s else w.setInbound { w.inbound s with incoming := restOf bytes } s

/-- `start`; the flag says that `takeBuffered` does not throw. -/
def start (raw : ReadBuffer) (s : σ) : σ × Bool :=
  if (w.inbound s).started ∨ w.destroyed s then (s, true)
  else
    let s := w.setInbound { w.inbound s with started := true } s
    if raw.readable = false then (s, false)
    else if raw.buffered = [] then (s, true)
    else (w._receive aeadOpen now raw.address raw.buffered s, true)

/-- `start` throws just if there is a link to start and no buffer to take. -/
theorem start_threw (raw : ReadBuffer) (s : σ) : (w.start aeadOpen now raw s).2 = false ↔
    (w.inbound s).started = false ∧ w.destroyed s = false ∧ raw.readable = false := by
  unfold start
  cases (w.inbound s).started <;> cases w.destroyed s <;> cases raw.readable <;>
    by_cases h : raw.buffered = [] <;> simp [h]

/-! ## An invariant of the owner -/

/-- What each thing a link does to its owner keeps. -/
structure Keeps (P : σ → Prop) : Prop where
  setInbound : ∀ i s, P s → P (w.setInbound i s)
  destroy : ∀ s, w.destroyed s = false → P s → P (w.destroy s)
  emit : ∀ p s, w.destroyed s = false → P s → P (w.emit p s)
  destroyed : ∀ i s, w.destroyed (w.setInbound i s) = w.destroyed s

variable {w} {P : σ → Prop}

theorem Keeps.emits (h : w.Keeps P) (ps : List Bytes) {s : σ} (hs : P s) : P (w.emits ps s).1 := by
  induction ps generalizing s with
  | nil => exact hs
  | cons p ps ih =>
    rw [LinkOwner.emits]
    split
    · exact ih hs
    · next hd =>
      split
      · exact hs
      · next i _ =>
        refine ih (h.emit p _ ?_ (h.setInbound i s hs))
        rw [h.destroyed]
        exact Bool.eq_false_of_not_eq_true hd

theorem emits_threw {ps : List Bytes} {s s' : σ} (h : w.emits ps s = (s', false)) :
    w.destroyed s' = false := by
  induction ps generalizing s with
  | nil => cases h
  | cons p ps ih =>
    rw [LinkOwner.emits] at h
    split at h
    · exact ih h
    · next hd =>
      split at h
      · cases h
        exact Bool.eq_false_of_not_eq_true hd
      · exact ih h

theorem Keeps.openCells (h : w.Keeps P) (cells : List Bytes) {s : σ} (hs : P s) :
    P (w.openCells aeadOpen now cells s) := by
  induction cells generalizing s with
  | nil => exact hs
  | cons cell cells ih =>
    have hcell : P (w._openCell aeadOpen now cell s).1 := by
      unfold _openCell
      split
      · exact hs
      · next i ps _ => exact h.emits ps (h.setInbound i s hs)
    rw [LinkOwner.openCells]
    split
    · exact hs
    · next hd =>
      split
      · next s' he =>
        rw [he] at hcell
        refine h.destroy s' ?_ hcell
        unfold _openCell at he
        split at he
        · cases he
          exact Bool.eq_false_of_not_eq_true hd
        · exact emits_threw he
      · next s' he =>
        rw [he] at hcell
        exact ih hcell

theorem Keeps._receive (h : w.Keeps P) (address : Bool) (chunk : Bytes) {s : σ} (hs : P s) :
    P (w._receive aeadOpen now address chunk s) := by
  unfold LinkOwner._receive
  split
  · exact hs
  · next hd =>
    have hlive := Bool.eq_false_of_not_eq_true hd
    split
    · exact h.destroy s hlive hs
    · split
      · exact h.destroy s hlive hs
      · have hcells := h.openCells aeadOpen now
          (cellsOf ((w.inbound s).incoming ++ chunk))
          (h.setInbound { w.inbound s with incoming := [] } s hs)
        dsimp only
        split
        · exact hcells
        · exact h.setInbound _ _ hcells

theorem Keeps.start (h : w.Keeps P) (raw : ReadBuffer) {s : σ} (hs : P s) :
    P (w.start aeadOpen now raw s).1 := by
  unfold LinkOwner.start
  split
  · exact hs
  · have hstarted := h.setInbound { w.inbound s with started := true } s hs
    dsimp only
    split
    · exact hstarted
    · split
      · exact hstarted
      · exact h._receive aeadOpen now raw.address raw.buffered hstarted

/-! ## The bytes that are accepted -/

/-- Does the owner accept all these payloads? `accept` says what one of them makes of
the part of the owner that decides. -/
def acceptAll {τ : Type} (accept : Bytes → τ → Option τ) : List Bytes → τ → Option τ
  | [], t => some t
  | p :: ps, t => (accept p t).bind (acceptAll accept ps)

/-- Does the owner accept everything that `start` replays? -/
def replay {τ : Type} (accept : Bytes → τ → Option τ) (raw : ReadBuffer) (i : Inbound) (t : τ) :
    Option τ :=
  if i.started ∨ raw.buffered = [] then some t
  else if raw.address = false then none
  else
    match Inbound.opens aeadOpen now (cellsOf raw.buffered) { i with started := true } with
    | none => none
    | some (_, ps) => acceptAll accept ps t

/-- An owner `s` accepts what `accept` accepts of `view s`, and a refused payload destroys
the link. -/
structure Views {τ : Type} (w : LinkOwner σ) (view : σ → τ) (accept : Bytes → τ → Option τ)
    (Ok : σ → Prop) : Prop where
  live : ∀ {s}, Ok s → w.destroyed s = false
  setInbound : ∀ {s} i, Ok s → Ok (w.setInbound i s) ∧ w.inbound (w.setInbound i s) = i ∧
    view (w.setInbound i s) = view s
  accepts : ∀ {p s t}, Ok s → accept p (view s) = some t →
    Ok (w.emit p s) ∧ w.inbound (w.emit p s) = w.inbound s ∧ view (w.emit p s) = t
  refuses : ∀ {p s}, Ok s → accept p (view s) = none → w.destroyed (w.emit p s) = true
  destroy : ∀ {s}, Ok s → w.destroyed (w.destroy s) = true

variable {τ : Type} {view : σ → τ} {accept : Bytes → τ → Option τ} {Ok : σ → Prop}

theorem emits_of_destroyed (ps : List Bytes) {s : σ} (h : w.destroyed s = true) :
    w.emits ps s = (s, true) := by
  induction ps with
  | nil => rfl
  | cons p ps ih => rw [LinkOwner.emits, if_pos h, ih]

theorem openCells_of_destroyed (cells : List Bytes) {s : σ} (h : w.destroyed s = true) :
    w.openCells aeadOpen now cells s = s := by
  cases cells with
  | nil => rfl
  | cons cell cells => rw [LinkOwner.openCells, if_pos h]

theorem acceptAll_append (ps qs : List Bytes) (t : τ) :
    acceptAll accept (ps ++ qs) t = (acceptAll accept ps t).bind (acceptAll accept qs) := by
  induction ps generalizing t with
  | nil => rfl
  | cons p ps ih =>
    rw [List.cons_append, acceptAll, acceptAll, Option.bind_assoc]
    exact congrArg _ (funext ih)

/-- The payloads of one cell: all are emitted, or the link does not survive the cell. -/
theorem Views.emits (h : w.Views view accept Ok) (ps : List Bytes) {s : σ} (hs : Ok s) :
    (∃ s' i t, w.emits ps s = (s', true) ∧ Ok s' ∧ Inbound.funds ps (w.inbound s) = some i ∧
      w.inbound s' = i ∧ acceptAll accept ps (view s) = some t ∧ view s' = t) ∨
    (Inbound.funds ps (w.inbound s) = none ∨ acceptAll accept ps (view s) = none) ∧
      (∃ s', w.emits ps s = (s', false) ∧ Ok s' ∨ w.emits ps s = (s', true) ∧
        w.destroyed s' = true) := by
  induction ps generalizing s with
  | nil => exact .inl ⟨s, _, _, rfl, hs, rfl, rfl, rfl, rfl⟩
  | cons p ps ih =>
    rw [LinkOwner.emits, h.live hs, if_neg (by decide), Inbound.funds, acceptAll]
    cases hfund : (w.inbound s).fund p with
    | none => exact .inr ⟨.inl rfl, s, .inl ⟨rfl, hs⟩⟩
    | some i =>
      obtain ⟨hset, hin, hview⟩ := h.setInbound i hs
      cases hacc : accept p (view s) with
      | none =>
        have hgone := h.refuses hset (by rw [hview]; exact hacc)
        exact .inr ⟨.inr rfl, _, .inr ⟨emits_of_destroyed ps hgone, hgone⟩⟩
      | some t =>
        obtain ⟨hemit, hin', hview'⟩ := h.accepts hset (by rw [hview]; exact hacc)
        rw [hin] at hin'
        have := ih hemit
        rw [hin', hview'] at this
        exact this

theorem Views.openCells (h : w.Views view accept Ok) (cells : List Bytes) {s : σ} (hs : Ok s) :
    match (Inbound.opens aeadOpen now cells (w.inbound s)).bind
      fun (_, ps) => acceptAll accept ps (view s) with
    | none => w.destroyed (w.openCells aeadOpen now cells s) = true
    | some t => Ok (w.openCells aeadOpen now cells s) ∧
        view (w.openCells aeadOpen now cells s) = t := by
  induction cells generalizing s with
  | nil => exact ⟨hs, rfl⟩
  | cons cell cells ih =>
    rw [LinkOwner.openCells, h.live hs, if_neg (by decide), Inbound.opens, _openCell]
    cases hcell : (w.inbound s).openCell aeadOpen now cell with
    | none => exact h.destroy hs
    | some r =>
      obtain ⟨i₁, ps⟩ := r
      obtain ⟨hset, hin, hview⟩ := h.setInbound i₁ hs
      have hps := h.emits ps hset
      rw [hin, hview] at hps
      dsimp only
      rcases hps with ⟨s', i, t, he, hs', hfund, hin', hacc, hview'⟩ | ⟨hno, s', hs'⟩
      · rw [he, hfund]
        have := ih hs'
        rw [hin', hview'] at this
        dsimp only
        rw [Option.bind_map]
        simp only [Function.comp_def, acceptAll_append, hacc, Option.bind_some]
        exact this
      · have hgone : w.destroyed (match w.emits ps (w.setInbound i₁ s) with
            | (s, false) => w.destroy s
            | (s, true) => w.openCells aeadOpen now cells s) = true := by
          rcases hs' with ⟨he, hok⟩ | ⟨he, hd⟩
          · rw [he]
            exact h.destroy hok
          · rw [he]
            dsimp only
            rw [openCells_of_destroyed aeadOpen now cells hd]
            exact hd
        rcases hno with hno | hno
        · rw [hno]
          exact hgone
        · cases hfund : Inbound.funds ps i₁ with
          | none => exact hgone
          | some i₂ =>
            dsimp only
            rw [Option.bind_map]
            simp only [Function.comp_def, acceptAll_append, hno, Option.bind_none,
              Option.bind_fun_none]
            exact hgone

theorem Views._receive (h : w.Views view accept Ok) {chunk : Bytes} (hchunk : chunk ≠ []) {s : σ}
    (hs : Ok s) (hempty : (w.inbound s).incoming = []) :
    match (Inbound.opens aeadOpen now (cellsOf chunk) (w.inbound s)).bind
      fun (_, ps) => acceptAll accept ps (view s) with
    | none => w.destroyed (w._receive aeadOpen now true chunk s) = true
    | some t => Ok (w._receive aeadOpen now true chunk s) ∧
        view (w._receive aeadOpen now true chunk s) = t := by
  obtain ⟨hset, hin, hview⟩ := h.setInbound { w.inbound s with incoming := [] } hs
  have hsame : { w.inbound s with incoming := [] } = w.inbound s := by rw [← hempty]
  have hcells := h.openCells aeadOpen now (cellsOf chunk) hset
  rw [hin, hview, hsame] at hcells
  rw [LinkOwner._receive, h.live hs, if_neg (by decide), if_neg hchunk, if_neg (by decide), hempty,
    List.nil_append, hsame]
  dsimp only
  split
  · next hnone =>
    rw [hnone] at hcells
    rw [if_pos hcells]
    exact hcells
  · next t hsome =>
    rw [hsome] at hcells
    obtain ⟨hok, hview'⟩ := hcells
    rw [h.live hok, if_neg (by decide)]
    obtain ⟨hset', -, hview''⟩ := h.setInbound _ hok
    exact ⟨hset', hview''.trans hview'⟩

/-- A link that starts replays what is buffered: if all of it is accepted the owner
stays open, and otherwise the link is destroyed before `start` returns. -/
theorem Views.start (h : w.Views view accept Ok) (raw : ReadBuffer) {s : σ} (hs : Ok s)
    (hempty : (w.inbound s).started = false → (w.inbound s).incoming = [])
    (hread : (w.inbound s).started = false → raw.readable = true) :
    (w.start aeadOpen now raw s).2 = true ∧
    match replay aeadOpen now accept raw (w.inbound s) (view s) with
    | none => w.destroyed (w.start aeadOpen now raw s).1 = true
    | some t => Ok (w.start aeadOpen now raw s).1 ∧ view (w.start aeadOpen now raw s).1 = t := by
  rw [LinkOwner.start, replay, h.live hs]
  cases hstarted : (w.inbound s).started with
  | true => exact ⟨rfl, hs, rfl⟩
  | false =>
    rw [if_neg (by decide), hread hstarted, if_neg (by decide)]
    obtain ⟨hset, hin, hview⟩ := h.setInbound { w.inbound s with started := true } hs
    by_cases hnil : raw.buffered = []
    · rw [if_pos hnil, if_pos (.inr hnil)]
      exact ⟨rfl, hset, hview⟩
    · rw [if_neg hnil, if_neg (by simp [hnil])]
      refine ⟨rfl, ?_⟩
      cases haddr : raw.address with
      | false =>
        rw [if_pos rfl]
        show w.destroyed (w._receive aeadOpen now false raw.buffered _) = true
        rw [LinkOwner._receive, h.live hset, if_neg (by decide), if_neg hnil, if_pos rfl]
        exact h.destroy hset
      | true =>
        have := h._receive aeadOpen now hnil hset (by rw [hin]; exact hempty hstarted)
        rw [hin, hview] at this
        rw [if_neg (by decide)]
        cases hopen : Inbound.opens aeadOpen now (cellsOf raw.buffered)
            { w.inbound s with started := true } with
        | none =>
          rw [hopen] at this
          exact this
        | some r =>
          rw [hopen] at this
          exact this

end LinkOwner

end HyperDht.Private
