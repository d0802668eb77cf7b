import HyperDht.Lib.Codec
import HyperDht.Lib.Double

/-!
# The codecs of `compact-encoding`

Integers of one, three, five or nine bytes, buffers with their length in front, blocks of
a fixed size, arrays, texts, and addresses of a host and a port. Every codec comes with
its bytes and one lemma for each pass: what is reserved is the length of the bytes, and
the bytes are what is written and read.
-/

namespace HyperDht

/-- An integer up to which a double holds every other. -/
abbrev Uint : Type := Fin (2 ^ 53 + 1)

instance (priority := 2000) Uint.neZero : NeZero (2 ^ 53 + 1) := ⟨Nat.succ_ne_zero _⟩

def Uint.toDouble (n : Uint) : Double := ⟨n.val, roundDouble_of_le (Nat.le_of_lt_succ n.isLt)⟩

theorem Uint.toDouble_lt (n : Uint) : n.toDouble.val < 2 ^ 64 :=
  Nat.lt_of_lt_of_le n.isLt (by decide)

/-- A list whose length is such an integer. -/
abbrev Arr (α : Type) : Type := { l : List α // l.length < 2 ^ 53 + 1 }

def Arr.take {α : Type} (n : Nat) (l : Arr α) : Arr α :=
  ⟨l.val.take n, Nat.lt_of_le_of_lt (List.length_take_le' n l.val) l.property⟩

abbrev Buffer : Type := Arr UInt8

/-- A buffer of `n` bytes. -/
abbrev Fixed (n : Nat) : Type := { bytes : List UInt8 // bytes.length = n }

def Fixed.replicate (n : Nat) (byte : UInt8) : Fixed n :=
  ⟨List.replicate n byte, List.length_replicate⟩

/-- A string with as many bytes as a buffer has. -/
abbrev Text : Type := { t : String // t.toByteArray.data.toList.length < 2 ^ 53 + 1 }

/-- A host of `n` bytes and a port. -/
structure Address (n : Nat) where
  host : Fixed n
  port : UInt16
deriving DecidableEq

namespace CompactEncoding

variable {α β : Type}

def size (l : Arr α) : Uint := ⟨l.val.length, l.property⟩

def empty : Arr α := ⟨[], Nat.zero_lt_succ _⟩

/-- A list that was read by its length. -/
def ofLength (n : Uint) (l : { l : List α // l.length = n.val }) : Arr α :=
  ⟨l.val, by rw [l.property]; exact n.isLt⟩

/-! ## Little-endian integers -/

def littleEndian : Nat → Nat → List UInt8
  | 0, _ => []
  | k + 1, n => UInt8.ofNat n :: littleEndian k (n / 256)

def ofLittleEndian : List UInt8 → Nat
  | [] => 0
  | b :: bytes => b.toNat + 256 * ofLittleEndian bytes

@[simp] theorem length_littleEndian : ∀ k n : Nat, (littleEndian k n).length = k
  | 0, _ => rfl
  | k + 1, n => congrArg (· + 1) (length_littleEndian k (n / 256))

theorem littleEndian_add : ∀ j k n : Nat,
    littleEndian (j + k) n = littleEndian j n ++ littleEndian k (n / 256 ^ j)
  | 0, k, n => by rw [Nat.zero_add, Nat.pow_zero, Nat.div_one]; rfl
  | j + 1, k, n => by
    rw [Nat.succ_add, littleEndian, littleEndian, littleEndian_add j k, Nat.div_div_eq_div_mul,
      Nat.pow_succ, Nat.mul_comm]
    rfl

theorem ofLittleEndian_mod : ∀ k n : Nat, ofLittleEndian (littleEndian k n) = n % 256 ^ k
  | 0, n => by rw [Nat.pow_zero, Nat.mod_one]; rfl
  | k + 1, n => by
    have hbyte : (UInt8.ofNat n).toNat = n % 256 := UInt8.toNat_ofNat'
    rw [littleEndian, ofLittleEndian, ofLittleEndian_mod k, hbyte, Nat.pow_succ,
      Nat.mul_comm (256 ^ k), Nat.mod_mul]

theorem ofLittleEndian_littleEndian {k n : Nat} (h : n < 256 ^ k) :
    ofLittleEndian (littleEndian k n) = n := by
  rw [ofLittleEndian_mod, Nat.mod_eq_of_lt h]

/-! ## Numbers -/

def uintBytes (n : Nat) : List UInt8 :=
  if n ≤ 0xfc then [UInt8.ofNat n]
  else if n ≤ 0xffff then 0xfd :: littleEndian 2 n
  else if n ≤ 0xffffffff then 0xfe :: littleEndian 4 n
  else 0xff :: littleEndian 8 n

def byte : Coder UInt8 := fun s =>
  match s.unread with
  | b :: _ => some (b, s.skip 1)
  | [] => none

/-- `uint` of any number. Eight bytes are two halves of four; a half is taken modulo `2 ^ 32`
when it is written, and their sum is rounded when they are read. -/
def number : Codec Double Double where
  preencode n :=
    grow (if n.val ≤ 0xfc then 1 else if n.val ≤ 0xffff then 3 else if n.val ≤ 0xffffffff then 5 else 9)
  encode n := pokes (uintBytes n.val)
  decode := do
    let a ← byte
    if a.toNat ≤ 0xfc then pure (.ofNat a.toNat)
    else if a = 0xfd then do
      let bytes ← take 2
      pure (.ofNat (ofLittleEndian bytes.val))
    else if a = 0xfe then do
      let bytes ← take 4
      pure (.ofNat (ofLittleEndian bytes.val))
    else do
      let low ← take 4
      let high ← take 4
      pure (.ofNat (ofLittleEndian low.val) + 0x100000000 * .ofNat (ofLittleEndian high.val))

/-- A number that is a `Uint`. -/
def small (n : Double) : Coder Uint := fun s =>
  if h : n.val < 2 ^ 53 + 1 then some (⟨n.val, h⟩, s) else none

/-- `uint` of the numbers up to `2 ^ 53`. A larger one is no length of a buffer. -/
def uint : Codec Uint Uint where
  preencode n := number.preencode n.toDouble
  encode n := number.encode n.toDouble
  decode := do
    let n ← number.decode
    small n

theorem length_uintBytes (n : Nat) : (uintBytes n).length =
    if n ≤ 0xfc then 1 else if n ≤ 0xffff then 3 else if n ≤ 0xffffffff then 5 else 9 := by
  unfold uintBytes
  split
  · rfl
  · split
    · rfl
    · split <;> rfl

theorem uintBytes_pos (n : Nat) : 1 ≤ (uintBytes n).length := by
  rw [length_uintBytes]
  split
  · omega
  · split
    · omega
    · split <;> omega

theorem length_uintBytes_eq_one {n : Nat} : (uintBytes n).length = 1 ↔ n < 253 := by
  rw [length_uintBytes]
  split
  · omega
  · split
    · omega
    · split <;> omega

theorem reserves_number (n : Double) : Reserves (number.preencode n) (uintBytes n.val).length := by
  rw [length_uintBytes]
  exact reserves_grow _

theorem writes_number (n : Double) : Writes (number.encode n) (uintBytes n.val) := writes_pokes _

theorem reads_byte (b : UInt8) : Reads byte [b] b := by
  intro s h
  obtain ⟨rest, hrest⟩ := h
  show (match s.unread with | b :: _ => some (b, s.skip 1) | [] => none) = _
  rw [← hrest]
  rfl

theorem reads_littleEndian {k n : Nat} (h : n < 256 ^ k) :
    Reads (do let bytes ← take k; pure (Double.ofNat (ofLittleEndian bytes.val)))
      (littleEndian k n) (.ofNat n) := by
  have hread := (reads_take ⟨littleEndian k n, length_littleEndian k n⟩).done
    (g := fun bytes => Double.ofNat (ofLittleEndian bytes.val))
  dsimp only at hread
  rwa [ofLittleEndian_littleEndian h] at hread

theorem reads_halves {n : Double} (h : n.val < 2 ^ 64) :
    Reads (do
      let low ← take 4
      let high ← take 4
      pure (.ofNat (ofLittleEndian low.val) + 0x100000000 * .ofNat (ofLittleEndian high.val)))
      (littleEndian 8 n.val) n := by
  have hlow : ofLittleEndian (littleEndian 4 n.val) = n.val % 2 ^ 32 := ofLittleEndian_mod 4 n.val
  have hhigh : ofLittleEndian (littleEndian 4 (n.val / 256 ^ 4)) = n.val / 2 ^ 32 :=
    ofLittleEndian_littleEndian (by omega)
  rw [littleEndian_add 4 4]
  refine (reads_take ⟨littleEndian 4 n.val, length_littleEndian _ _⟩).bind
    (Reads.as (reads_take ⟨littleEndian 4 (n.val / 256 ^ 4), length_littleEndian _ _⟩).done ?_)
  dsimp only
  rw [hlow, hhigh, Double.ofNat_halves (by omega) (by omega), Nat.mod_add_div, n.ofNat_val]

/-- Below `2 ^ 64` a number is read as it was written. -/
theorem reads_number {n : Double} (h : n.val < 2 ^ 64) : Reads number.decode (uintBytes n.val) n := by
  unfold uintBytes
  split
  · next hle =>
    have hbyte : (UInt8.ofNat n.val).toNat = n.val := by
      rw [UInt8.toNat_ofNat']
      omega
    refine (reads_byte _).bind (b := []) ?_
    rw [hbyte, if_pos hle, n.ofNat_val]
    exact .value n
  · split
    · exact (reads_byte 0xfd).bind ((reads_littleEndian (by omega)).as n.ofNat_val)
    · split
      · exact (reads_byte 0xfe).bind ((reads_littleEndian (by omega)).as n.ofNat_val)
      · exact (reads_byte 0xff).bind (reads_halves h)

/-- `2 ^ 64` is written as eight zeros. -/
theorem reads_zero : Reads number.decode (uintBytes (2 ^ 64)) 0 :=
  (reads_byte 0xff).bind (reads_halves (n := 0) (by decide))

theorem ofLittleEndian_lt : ∀ bytes : List UInt8, ofLittleEndian bytes < 256 ^ bytes.length
  | [] => Nat.one_pos
  | b :: bytes => by
    have hb := b.toNat_lt
    have hlt := ofLittleEndian_lt bytes
    rw [ofLittleEndian, List.length_cons, Nat.pow_succ]
    omega

/-- No larger number is read. -/
theorem number_decode_le {s s' : CodecState} {n : Double}
    (h : number.decode.run s = some (n, s')) : n.val ≤ 2 ^ 64 := by
  have hofNat : ∀ {m : Nat}, m < 2 ^ 64 → (Double.ofNat m).val ≤ 2 ^ 64 :=
    roundDouble_le (by decide)
  obtain ⟨a, t, -, h⟩ := run_bind_eq_some h
  have ha := a.toNat_lt
  split at h
  · rw [← run_pure_eq_some h]
    exact hofNat (by omega)
  · split at h
    · obtain ⟨bytes, _, -, h⟩ := run_bind_eq_some h
      have hlt := ofLittleEndian_lt bytes.val
      rw [bytes.property] at hlt
      rw [← run_pure_eq_some h]
      exact hofNat (by omega)
    · split at h
      · obtain ⟨bytes, _, -, h⟩ := run_bind_eq_some h
        have hlt := ofLittleEndian_lt bytes.val
        rw [bytes.property] at hlt
        rw [← run_pure_eq_some h]
        exact hofNat (by omega)
      · obtain ⟨low, t', -, h⟩ := run_bind_eq_some h
        obtain ⟨high, _, -, h⟩ := run_bind_eq_some h
        have hlow := ofLittleEndian_lt low.val
        have hhigh := ofLittleEndian_lt high.val
        rw [low.property] at hlow
        rw [high.property] at hhigh
        rw [← run_pure_eq_some h, Double.ofNat_halves (by omega) (by omega)]
        exact hofNat (by omega)

theorem reserves_uint (n : Uint) : Reserves (uint.preencode n) (uintBytes n.val).length :=
  reserves_number n.toDouble

theorem writes_uint (n : Uint) : Writes (uint.encode n) (uintBytes n.val) :=
  writes_number n.toDouble

theorem reads_uint (n : Uint) : Reads uint.decode (uintBytes n.val) n := by
  have hread := (reads_number n.toDouble_lt).bind (g := small)
    (b := []) (y := n) fun _ _ => dif_pos n.isLt
  rwa [List.append_nil] at hread

/-! ## Buffers -/

def bufferBytes : Option Buffer → List UInt8
  | some b => uintBytes b.val.length ++ b.val
  | none => [0]

/-- The list, where there is one and it is not empty; an empty buffer is decoded as `null`. -/
def nonEmpty (l : Option (Arr α)) : Option (Arr α) := l.filter fun l => !l.val.isEmpty

def buffer : Codec (Option Buffer) (Option Buffer) where
  preencode
    | some b => do
      uint.preencode (size b)
      grow b.val.length
    | none => grow 1
  encode
    | some b => do
      uint.encode (size b)
      put b.val
    | none => poke 0
  decode := do
    let length ← uint.decode
    if length.val = 0 then pure none
    else do
      let bytes ← take length.val
      pure (some (ofLength length bytes))

theorem reserves_buffer (b : Option Buffer) :
    Reserves (buffer.preencode b) (bufferBytes b).length := by
  cases b with
  | none => exact reserves_grow 1
  | some b =>
    rw [bufferBytes, List.length_append]
    exact (reserves_uint (size b)).seq (reserves_grow _)

theorem writes_buffer (b : Option Buffer) : Writes (buffer.encode b) (bufferBytes b) := by
  cases b with
  | none => exact writes_poke 0
  | some b => exact (writes_uint (size b)).seq (writes_put _)

theorem reads_buffer (b : Option Buffer) :
    Reads buffer.decode (bufferBytes b) (nonEmpty b) := by
  cases b with
  | none => exact (reads_uint 0).bind (b := []) (Reads.value none)
  | some b =>
    refine (reads_uint (size b)).bind ?_
    by_cases h : b.val = []
    · have hlen : (size b).val = 0 := by
        show b.val.length = 0
        rw [h, List.length_nil]
      rw [if_pos hlen, h]
      have hnull : nonEmpty (some b) = none := by simp [nonEmpty, h]
      rw [hnull]
      exact .value none
    · have hlen : (size b).val ≠ 0 := fun he => h (List.eq_nil_of_length_eq_zero he)
      have hsome : nonEmpty (some b) = some b := by simp [nonEmpty, h]
      rw [if_neg hlen, hsome]
      exact (reads_take (n := (size b).val) ⟨b.val, rfl⟩).done

/-! ## Blocks of a fixed size -/

def fixed (n : Nat) : Codec (Fixed n) (Fixed n) where
  preencode _ := grow n
  encode bytes := put bytes.val
  decode := take n

theorem reserves_fixed {n : Nat} (bytes : Fixed n) :
    Reserves ((fixed n).preencode bytes) bytes.val.length := by
  rw [bytes.property]
  exact reserves_grow n

theorem writes_fixed {n : Nat} (bytes : Fixed n) : Writes ((fixed n).encode bytes) bytes.val :=
  writes_put _

theorem reads_fixed {n : Nat} (bytes : Fixed n) : Reads (fixed n).decode bytes.val bytes :=
  reads_take bytes

/-- `raw`: the bytes themselves, and all that is left for the decoder. -/
def raw : Codec Buffer Buffer where
  preencode b := grow b.val.length
  encode b := put b.val
  decode := fun s =>
    if h : s.unread.length < 2 ^ 53 + 1 then some (⟨s.unread, h⟩, s.skip s.unread.length) else none

/-! ## Addresses -/

def addressBytes {n : Nat} (a : Address n) : List UInt8 := a.host.val ++ littleEndian 2 a.port.toNat

/-- `ipv4Address` and `ipv6Address`. -/
def address (n : Nat) : Codec (Address n) (Address n) where
  preencode _ := grow (n + 2)
  encode a := do
    pokes a.host.val
    pokes (littleEndian 2 a.port.toNat)
  decode := do
    let host ← take n
    let port ← take 2
    pure ⟨host, UInt16.ofNat (ofLittleEndian port.val)⟩

@[simp] theorem length_address {n : Nat} (a : Address n) : (addressBytes a).length = n + 2 := by
  rw [addressBytes, List.length_append, a.host.property, length_littleEndian]

theorem reserves_address {n : Nat} (a : Address n) :
    Reserves ((address n).preencode a) (addressBytes a).length := by
  rw [length_address]
  exact reserves_grow _

theorem writes_address {n : Nat} (a : Address n) :
    Writes ((address n).encode a) (addressBytes a) :=
  (writes_pokes _).seq (writes_pokes _)

theorem reads_address {n : Nat} (a : Address n) :
    Reads (address n).decode (addressBytes a) a := by
  have hport : UInt16.ofNat (ofLittleEndian (littleEndian 2 a.port.toNat)) = a.port := by
    rw [ofLittleEndian_littleEndian (UInt16.toNat_lt a.port), UInt16.ofNat_toNat]
  refine (reads_take a.host).bind ?_
  have hread := (reads_take (n := 2) ⟨littleEndian 2 a.port.toNat, length_littleEndian _ _⟩).done
    (g := fun port => (⟨a.host, UInt16.ofNat (ofLittleEndian port.val)⟩ : Address n))
  dsimp only at hread
  rwa [hport] at hread

/-! ## Arrays -/

def forEach (f : α → Coder Unit) : List α → Coder Unit
  | [] => pure ()
  | a :: l => do
    f a
    forEach f l

def times (f : Coder β) : (n : Nat) → Coder { l : List β // l.length = n }
  | 0 => pure ⟨[], rfl⟩
  | n + 1 => do
    let b ← f
    let l ← times f n
    pure ⟨b :: l.val, congrArg (· + 1) l.property⟩

def array (c : Codec α β) : Codec (Arr α) (Arr β) where
  preencode l := do
    uint.preencode (size l)
    forEach c.preencode l.val
  encode l := do
    uint.encode (size l)
    forEach c.encode l.val
  decode := do
    let length ← uint.decode
    let l ← times c.decode length.val
    pure (ofLength length l)

def arrayBytes (bytes : α → List UInt8) (l : Arr α) : List UInt8 :=
  uintBytes l.val.length ++ l.val.flatMap bytes

theorem reserves_forEach {f : α → Coder Unit} {bytes : α → List UInt8} : ∀ {l : List α},
    (∀ a ∈ l, Reserves (f a) (bytes a).length) → Reserves (forEach f l) (l.flatMap bytes).length
  | [], _ => .nothing
  | a :: l, h => by
    rw [List.flatMap_cons, List.length_append]
    exact (h a List.mem_cons_self).seq (reserves_forEach fun b hb => h b (List.mem_cons_of_mem a hb))

theorem writes_forEach {f : α → Coder Unit} {bytes : α → List UInt8} : ∀ {l : List α},
    (∀ a ∈ l, Writes (f a) (bytes a)) → Writes (forEach f l) (l.flatMap bytes)
  | [], _ => .nothing
  | a :: l, h => by
    rw [List.flatMap_cons]
    exact (h a List.mem_cons_self).seq (writes_forEach fun b hb => h b (List.mem_cons_of_mem a hb))

theorem reads_times {f : Coder β} {bytes : β → List UInt8} : ∀ {l : List β},
    (∀ b ∈ l, Reads f (bytes b) b) → Reads (times f l.length) (l.flatMap bytes) ⟨l, rfl⟩
  | [], _ => .value _
  | a :: l, h => by
    rw [List.flatMap_cons]
    exact (h a List.mem_cons_self).bind
      (reads_times fun b hb => h b (List.mem_cons_of_mem a hb)).done

theorem reserves_array {c : Codec α β} {bytes : α → List UInt8} {l : Arr α}
    (h : ∀ a ∈ l.val, Reserves (c.preencode a) (bytes a).length) :
    Reserves ((array c).preencode l) (arrayBytes bytes l).length := by
  rw [arrayBytes, List.length_append]
  exact (reserves_uint (size l)).seq (reserves_forEach h)

theorem writes_array {c : Codec α β} {bytes : α → List UInt8} {l : Arr α}
    (h : ∀ a ∈ l.val, Writes (c.encode a) (bytes a)) :
    Writes ((array c).encode l) (arrayBytes bytes l) :=
  (writes_uint (size l)).seq (writes_forEach h)

theorem reads_array {c : Codec α β} {bytes : β → List UInt8} {l : Arr β}
    (h : ∀ b ∈ l.val, Reads c.decode (bytes b) b) :
    Reads (array c).decode (arrayBytes bytes l) l :=
  (reads_uint (size l)).bind (reads_times h).done

/-! ## Texts -/

def textBytes (t : Text) : Buffer := ⟨t.val.toByteArray.data.toList, t.property⟩

/-- The text of UTF-8 bytes; other bytes are taken as an error. -/
def text (b : Buffer) : Coder Text := fun s =>
  if h : (ByteArray.mk b.val.toArray).IsValidUTF8 then
    some (⟨String.fromUTF8 ⟨b.val.toArray⟩ h, b.property⟩, s)
  else none

/-- `string`, in UTF-8. -/
def string : Codec Text Text where
  preencode t := do
    uint.preencode (size (textBytes t))
    grow (textBytes t).val.length
  encode t := do
    uint.encode (size (textBytes t))
    put (textBytes t).val
  decode := do
    let length ← uint.decode
    let bytes ← take length.val
    text (ofLength length bytes)

def stringBytes (t : Text) : List UInt8 :=
  uintBytes (textBytes t).val.length ++ (textBytes t).val

theorem reserves_string (t : Text) :
    Reserves (string.preencode t) (stringBytes t).length := by
  rw [stringBytes, List.length_append]
  exact (reserves_uint _).seq (reserves_grow _)

theorem writes_string (t : Text) : Writes (string.encode t) (stringBytes t) :=
  (writes_uint (size (textBytes t))).seq (writes_put _)

theorem reads_text (t : Text) : Reads (text (textBytes t)) [] t := fun _ _ => dif_pos t.val.isValidUTF8

theorem reads_string (t : Text) : Reads string.decode (stringBytes t) t := by
  have hread := (reads_take (n := (size (textBytes t)).val) ⟨(textBytes t).val, rfl⟩).bind
    (g := fun bytes => text (ofLength (size (textBytes t)) bytes)) (reads_text t)
  rw [List.append_nil] at hread
  exact (reads_uint (size (textBytes t))).bind hread

end CompactEncoding

end HyperDht
