import HyperDht.Lib.AddressText
import Mathlib.Data.List.TakeWhile
import Mathlib.Data.Nat.Bitwise

/-!
# Relay diversity keys

`relayDiversityKey` names the network of a relay's address: 24 bits of an IPv4 address, 48 of
an IPv6 address. `normalizedIP` reads the address with a parser of its own once `UDX.isIP` has
told its family; `isIP` is a parameter that accepts the texts of `Lib.AddressText`.

`relay_networks` says that the key is one of the address and not of its text.
-/

namespace HyperDht.Private

inductive AddressError where
  | rangeError
  | unavailable
  deriving DecidableEq, Repr

structure Ip where
  family : Nat
  bytes : List UInt8
  deriving DecidableEq, Repr

/-! ## The functions -/

/-- `Number` of decimal digits. A text that is no number is `NaN`, which its readers take
for 0. -/
def number (t : List Char) : Nat :=
  if t.all Char.isDigit then Nat.ofDigitChars 10 t 0 else 0

/-- `parseInt(t, 16)`: the digits at the start of the text, `none` for `NaN`. -/
def parseHex (t : List Char) : Option Nat :=
  match t.takeWhile isHexDigit with
  | [] => none
  | digits => some (ofHex digits)

/-- The bytes that `writeUInt16BE` writes; `NaN` is written as 0. -/
def writeUInt16BE (value : Option Nat) : Except AddressError (List UInt8) :=
  let value := value.getD 0
  if value > 65535 then .error .rangeError
  else .ok [UInt8.ofNat (value / 256), UInt8.ofNat (value % 256)]

/-- The host with its dotted quad as two groups. -/
def withoutQuad (host : List Char) : List Char :=
  let parts := ((afterLast ':' host).splitOn '.').map number
  let part := fun i => parts.getD i 0
  uptoLast ':' host ++ Nat.toDigits 16 ((part 0 <<< 8) ||| part 1) ++
    ':' :: Nat.toDigits 16 ((part 2 <<< 8) ||| part 3)

/-- `half ? half.split(':') : []`. -/
def splitHalf (half : List Char) : List (List Char) :=
  if half = [] then [] else half.splitOn ':'

def ipWords (host : List Char) : Except AddressError (List (List Char)) :=
  let halves := splitDouble ':' host
  let before := splitHalf (halves.getD 0 [])
  let after := if halves.length = 2 then splitHalf (halves.getD 1 []) else []
  if halves.length = 2 then
    -- `Array` of a negative length
    if before.length + after.length > 8 then .error .rangeError
    else
      .ok (before ++ (List.replicate (8 - before.length - after.length) ['0'] ++ after))
  else .ok before

def normalizedIP (isIP : String → Nat) (host : String) : Except AddressError (Option Ip) :=
  let family := isIP host
  let host := host.toList
  if family = 4 then
    .ok (some ⟨family, (host.splitOn '.').map fun part => UInt8.ofNat (number part)⟩)
  else if family ≠ 6 then .ok none
  else do
    let host := if host.contains '.' then withoutQuad host else host
    let words ← ipWords host
    if words.length ≠ 8 then .ok none
    else do
      let bytes := (← words.mapM fun word => writeUInt16BE (parseHex word)).flatten
      if (bytes.take 10).all (· = 0) && bytes.getD 10 0 = 255 && bytes.getD 11 0 = 255 then
        .ok (some ⟨4, bytes.drop 12⟩)
      else .ok (some ⟨family, bytes⟩)

def isLoopback (address : Ip) : Bool :=
  if address.family = 4 then address.bytes.getD 0 0 = 127
  else address.bytes.getD 15 0 = 1 && (address.bytes.take 15).all (· = 0)

/-- The addresses that `relayDiversityKey` has no key for: the unspecified one, multicast and
what is above. -/
def isReserved (address : Ip) : Bool :=
  address.bytes.all (· = 0) ||
    if address.family = 4 then address.bytes.getD 0 0 ≥ 224 else address.bytes.getD 0 0 = 255

def relayDiversityKey (isIP : String → Nat) (host : String) (port : Int) (allowLoopback : Bool) :
    Except AddressError String := do
  match ← normalizedIP isIP host with
  | none => .error .unavailable
  | some address =>
    if port ≤ 0 ∨ port > 65535 then .error .unavailable
    else if isReserved address then .error .unavailable
    else if isLoopback address then
      if allowLoopback = false then .error .unavailable
      else
        .ok ("loopback:" ++ toString address.family ++ ":" ++ hex address.bytes ++ ":" ++
          toString port)
    else if address.family = 4 then .ok ("ipv4/24:" ++ hex (address.bytes.take 3))
    else .ok ("ipv6/48:" ++ hex (address.bytes.take 6))

/-! ## Addresses -/

def wordBytes (w : Nat) : List UInt8 := [UInt8.ofNat (w / 256), UInt8.ofNat (w % 256)]

/-- `host` is a text of the address. -/
inductive Spells (zeros : Bool) : Ip → String → Prop
  | ipv4 {ns : List Nat} {host : String} : Quad zeros ns host.toList →
      Spells zeros ⟨4, ns.map UInt8.ofNat⟩ host
  | ipv6 {ws : List Nat} {host : String} : Text6 zeros ws host.toList →
      Spells zeros ⟨6, ws.flatMap wordBytes⟩ host

/-- `isIP` accepts exactly the texts of addresses, under their families. -/
structure Accepts (zeros : Bool) (isIP : String → Nat) : Prop where
  ipv4 : ∀ host, isIP host = 4 ↔ ∃ ns, Quad zeros ns host.toList
  ipv6 : ∀ host, isIP host = 6 ↔ ∃ ws, Text6 zeros ws host.toList

namespace Ip

/-- The address with `::ffff:a.b.c.d` as the IPv4 address `a.b.c.d`. -/
def unmapped (ip : Ip) : Ip :=
  if ip.family = 6 ∧ ip.bytes.take 12 = List.replicate 10 0 ++ [255, 255] then
    ⟨4, ip.bytes.drop 12⟩
  else ip

/-- The addresses share their family and its first 24 or 48 bits. -/
def SameNetwork (ip ip' : Ip) : Prop :=
  ip.family = ip'.family ∧
    if ip.family = 4 then ip.bytes.take 3 = ip'.bytes.take 3
    else ip.bytes.take 6 = ip'.bytes.take 6

end Ip

/-! ## Reading groups -/

section Groups

variable {ts us : List (List Char)} {ws vs : List Nat}

theorem splitHalf_joined (h : Parts ':' ts) : splitHalf (joined ':' ts) = ts := by
  unfold splitHalf
  split
  · next hnil => exact (joined_eq_nil h hnil).symm
  · next hne =>
    apply splitOn_joined h
    rintro rfl
    exact hne rfl

theorem parseHex_group {t : List Char} {w : Nat} (h : Group t w) : parseHex t = some w := by
  unfold parseHex
  rw [List.takeWhile_eq_self_iff.mpr h.digits]
  cases t with
  | nil => exact absurd rfl h.nonempty
  | cons c t => exact congrArg some h.value

theorem writeUInt16BE_word {w : Nat} (h : w < 65536) :
    writeUInt16BE (some w) = .ok (wordBytes w) := by
  unfold writeUInt16BE
  rw [Option.getD_some]
  exact if_neg (by omega)

theorem mapM_words (h : List.Forall₂ Group ts ws) :
    (ts.mapM fun word => writeUInt16BE (parseHex word)) = .ok (ws.map wordBytes) := by
  induction h with
  | nil => rfl
  | cons hg _ ih =>
    rw [List.mapM_cons, parseHex_group hg, writeUInt16BE_word hg.lt, ih]
    rfl

theorem ipWords_plain {t : List Char} (h : Plain6 ws t) :
    ∃ ts, ipWords t = .ok ts ∧ List.Forall₂ Group ts ws ∧ ws.length = 8 := by
  cases h with
  | @full ts ws hts hlength =>
    refine ⟨ts, ?_, hts, hlength⟩
    have hparts := parts_of_groups hts
    unfold ipWords
    rw [splitDouble_single hparts]
    exact congrArg Except.ok (splitHalf_joined hparts)
  | @compressed ts us ws vs hts hus hlt =>
    have hparts := parts_of_groups hts
    have hparts' := parts_of_groups hus
    have hlength := hts.length_eq
    have hlength' := hus.length_eq
    have hzeros : List.Forall₂ Group (List.replicate (8 - ws.length - vs.length) ['0'])
        (List.replicate (8 - ws.length - vs.length) 0) := by
      induction 8 - ws.length - vs.length with
      | zero => exact .nil
      | succ n ih => exact .cons group_zero ih
    refine ⟨ts ++ (List.replicate (8 - ts.length - us.length) ['0'] ++ us), ?_, ?_, ?_⟩
    · unfold ipWords
      rw [splitDouble_pair hparts hparts']
      show (if (splitHalf (joined ':' ts)).length + (splitHalf (joined ':' us)).length > 8 then
        Except.error AddressError.rangeError else .ok _) = _
      rw [splitHalf_joined hparts, splitHalf_joined hparts', if_neg (by omega)]
      show Except.ok (splitHalf (joined ':' ts) ++
        (List.replicate (8 - (splitHalf (joined ':' ts)).length -
          (splitHalf (joined ':' us)).length) ['0'] ++ splitHalf (joined ':' us))) = _
      rw [splitHalf_joined hparts, splitHalf_joined hparts']
    · rw [hlength, hlength', List.append_assoc]
      exact List.rel_append hts (List.rel_append hzeros hus)
    · rw [List.length_append, List.length_append, List.length_replicate]
      omega

end Groups

/-! ## Reading quads -/

section Quads

variable {zeros : Bool} {ts us : List (List Char)} {ws vs ns : List Nat} {q : List Char}

theorem number_octet {t : List Char} {n : Nat} (h : Octet zeros t n) : number t = n := by
  unfold number
  rw [if_pos (List.all_eq_true.mpr h.digits)]
  exact h.value

theorem numbers_quad (h : Quad zeros ns q) : (q.splitOn '.').map number = ns := by
  obtain ⟨hoctets, hlength⟩ := h
  rw [splitOn_joined (parts_of_octets hoctets)]
  · clear hlength
    induction hoctets with
    | nil => rfl
    | cons ho _ ih => rw [List.map_cons, number_octet ho, ih]
  · rintro rfl
    cases hoctets
    cases hlength

theorem shift_or {a b : Nat} (hb : b < 256) : (a <<< 8) ||| b = 256 * a + b := by
  rw [← Nat.shiftLeft_add_eq_or_of_lt (i := 8) hb, Nat.shiftLeft_eq, Nat.mul_comm]

/-- The quad at the end of a text becomes two groups. -/
theorem withoutQuad_append {a b c d : Nat} (h : Quad zeros [a, b, c, d] q) {t : List Char}
    (ht : t = [] ∨ ∃ s, t = s ++ [':']) :
    withoutQuad (t ++ q) = t ++ joined ':' [Nat.toDigits 16 (256 * a + b),
      Nat.toDigits 16 (256 * c + d)] := by
  obtain ⟨hupto, hafter⟩ := last_append h.colon_not_mem ht
  have hlt := h.lt
  unfold withoutQuad
  rw [hupto, hafter, numbers_quad h]
  show t ++ Nat.toDigits 16 ((a <<< 8) ||| b) ++ ':' :: Nat.toDigits 16 ((c <<< 8) ||| d) = _
  rw [shift_or (hlt b (by simp)), shift_or (hlt d (by simp)), joined_cons_cons, List.append_assoc,
    joined, List.intercalate_singleton]

theorem quad_groups {a b c d : Nat} (h : Quad zeros [a, b, c, d] q) :
    List.Forall₂ Group [Nat.toDigits 16 (256 * a + b), Nat.toDigits 16 (256 * c + d)]
      [256 * a + b, 256 * c + d] := by
  have hlt := h.lt
  have ha := hlt a (by simp)
  have hb := hlt b (by simp)
  have hc := hlt c (by simp)
  have hd := hlt d (by simp)
  exact .cons (group_toDigits (by omega)) (.cons (group_toDigits (by omega)) .nil)

/-- What `normalizedIP` goes on with has groups only, and writes the same address. -/
theorem plain_of_text {t : List Char} (h : Text6 zeros ws t) :
    Plain6 ws (if t.contains '.' then withoutQuad t else t) := by
  cases h with
  | plain h =>
    rw [if_neg (by simpa using h.dot_not_mem)]
    exact h
  | @quad ts ws a b c d q hts hq hlength =>
    have hdot : '.' ∈ joined ':' (ts ++ [q]) := by
      rw [joined_append, joined, List.intercalate_singleton]
      exact List.mem_append_right _ hq.dot_mem
    rw [if_pos (by simpa using hdot), joined_append, joined, List.intercalate_singleton,
      withoutQuad_append hq (stem_last ':' ts), ← joined_append]
    refine .full (List.rel_append hts (quad_groups hq)) ?_
    rw [List.length_append, hlength]
    rfl
  | @compressedQuad ts us ws vs a b c d q hts hus hq hlt =>
    have hsplit : ∀ u us', joined ':' ts ++ ':' :: ':' :: joined ':' (us ++ u :: us') =
        (joined ':' ts ++ ':' :: ':' :: stem ':' us) ++ joined ':' (u :: us') := by
      intro u us'
      rw [joined_append, List.append_assoc, List.cons_append, List.cons_append]
    have hlast : joined ':' ts ++ ':' :: ':' :: stem ':' us = [] ∨
        ∃ s, joined ':' ts ++ ':' :: ':' :: stem ':' us = s ++ [':'] := by
      rcases stem_last ':' us with hnil | ⟨s, hs⟩
      · exact .inr ⟨joined ':' ts ++ [':'], by rw [hnil, List.append_assoc]; rfl⟩
      · exact .inr ⟨joined ':' ts ++ ':' :: ':' :: s, by rw [hs, List.append_assoc]; rfl⟩
    have hquad : joined ':' [q] = q := List.intercalate_singleton
    have hdot : '.' ∈ joined ':' ts ++ ':' :: ':' :: joined ':' (us ++ [q]) := by
      rw [hsplit, hquad]
      exact List.mem_append_right _ hq.dot_mem
    have hcount : 6 - ws.length - vs.length = 8 - ws.length -
        (vs ++ [256 * a + b, 256 * c + d]).length := by
      rw [List.length_append]
      show _ = 8 - ws.length - (vs.length + 2)
      omega
    rw [if_pos (by simpa using hdot), hsplit, hquad, withoutQuad_append hq hlast, ← hsplit, hcount]
    refine .compressed hts (List.rel_append hus (quad_groups hq)) ?_
    rw [List.length_append]
    show ws.length + (vs.length + 2) < 8
    omega

end Quads

/-! ## Addresses read -/

theorem length_flatMap_wordBytes (ws : List Nat) :
    (ws.flatMap wordBytes).length = 2 * ws.length := by
  induction ws with
  | nil => rfl
  | cons w ws ih =>
    rw [List.flatMap_cons, List.length_append, ih, List.length_cons]
    show 2 + 2 * ws.length = _
    omega

/-- The test of `normalizedIP` for a mapped address. -/
theorem mapped_iff {bytes : List UInt8} (h : bytes.length = 16) :
    ((bytes.take 10).all (· = 0) && bytes.getD 10 0 = 255 && bytes.getD 11 0 = 255) = true ↔
      bytes.take 12 = List.replicate 10 0 ++ [255, 255] := by
  have h10 : bytes[10]? = some (bytes.getD 10 0) := by
    rw [List.getD_eq_getElem?_getD, List.getElem?_eq_getElem (by omega), Option.getD_some]
  have h11 : bytes[11]? = some (bytes.getD 11 0) := by
    rw [List.getD_eq_getElem?_getD, List.getElem?_eq_getElem (by omega), Option.getD_some]
  have htake : bytes.take 12 = bytes.take 10 ++ [bytes.getD 10 0, bytes.getD 11 0] := by
    rw [List.take_add_one, List.take_add_one, h10, h11, List.append_assoc]
    rfl
  have hlength : (bytes.take 10).length = 10 := by
    rw [List.length_take]
    omega
  rw [htake, Bool.and_eq_true, Bool.and_eq_true, List.all_eq_true, decide_eq_true_eq,
    decide_eq_true_eq]
  constructor
  · rintro ⟨⟨hzero, h10⟩, h11⟩
    rw [h10, h11, List.eq_replicate_iff.mpr ⟨hlength, fun b hb => of_decide_eq_true (hzero b hb)⟩]
  · intro heq
    obtain ⟨hzero, hlast⟩ := List.append_inj heq (hlength.trans List.length_replicate.symm)
    obtain ⟨h10, hlast⟩ := List.cons.inj hlast
    refine ⟨⟨fun b hb => decide_eq_true ?_, h10⟩, (List.cons.inj hlast).1⟩
    exact (List.eq_replicate_iff.mp hzero).2 b hb

variable {zeros : Bool} {isIP : String → Nat} {ip : Ip} {host : String}

theorem normalizedIP_spells (h : Accepts zeros isIP) (hspells : Spells zeros ip host) :
    normalizedIP isIP host = .ok (some ip.unmapped) := by
  cases hspells with
  | @ipv4 ns _ hquad =>
    have hfamily : isIP host = 4 := (h.ipv4 host).mpr ⟨ns, hquad⟩
    have hbytes : ((host.toList.splitOn '.').map fun part => UInt8.ofNat (number part)) =
        ns.map UInt8.ofNat := by
      rw [← numbers_quad hquad, List.map_map]
      rfl
    unfold normalizedIP
    rw [hfamily, if_pos rfl, hbytes]
    rfl
  | @ipv6 ws _ htext =>
    have hfamily : isIP host = 6 := (h.ipv6 host).mpr ⟨ws, htext⟩
    obtain ⟨ts, hwords, hgroups, hlength⟩ := ipWords_plain (plain_of_text htext)
    have hbytes : (ws.flatMap wordBytes).length = 16 := by
      rw [length_flatMap_wordBytes, hlength]
    unfold normalizedIP
    rw [hfamily, if_neg (by decide), if_neg (by decide)]
    dsimp only
    rw [hwords]
    show (if ts.length ≠ 8 then Except.ok none else _) = _
    rw [if_neg (by rw [hgroups.length_eq, hlength]; decide), mapM_words hgroups]
    show (if (_ && _ && _) = true then Except.ok (some (Ip.mk 4 _)) else .ok (some (Ip.mk 6 _))) = _
    rw [← List.flatMap_def, if_congr (mapped_iff hbytes) rfl rfl]
    unfold Ip.unmapped
    by_cases hmapped : (ws.flatMap wordBytes).take 12 = List.replicate 10 0 ++ [255, 255]
    · rw [if_pos hmapped, if_pos ⟨rfl, hmapped⟩]
    · rw [if_neg hmapped, if_neg fun h => hmapped h.2]

/-! ## Keys -/

def Ip.networkKey (ip : Ip) : String :=
  if ip.family = 4 then "ipv4/24:" ++ hex (ip.bytes.take 3)
  else "ipv6/48:" ++ hex (ip.bytes.take 6)

theorem append_hex_inj {t : String} {as bs : List UInt8} (h : t ++ hex as = t ++ hex bs) :
    as = bs := by
  have hlist := congrArg String.toList h
  rw [String.toList_append, String.toList_append] at hlist
  exact hex_inj.mp (String.toList_injective (List.append_cancel_left hlist))

theorem append_hex_ne (as bs : List UInt8) : "ipv4/24:" ++ hex as ≠ "ipv6/48:" ++ hex bs := by
  intro h
  have hlist := congrArg String.toList h
  rw [String.toList_append, String.toList_append] at hlist
  exact absurd (List.append_inj_left hlist (by decide)) (by decide)

theorem networkKey_eq {ip ip' : Ip} (h : ip.family = 4 ∨ ip.family = 6)
    (h' : ip'.family = 4 ∨ ip'.family = 6) :
    ip.networkKey = ip'.networkKey ↔ ip.SameNetwork ip' := by
  unfold Ip.networkKey Ip.SameNetwork
  rcases h with h | h <;> rcases h' with h' | h' <;> rw [h, h']
  · rw [if_pos rfl, if_pos rfl, if_pos rfl]
    exact ⟨fun heq => ⟨rfl, append_hex_inj heq⟩, fun heq => by rw [heq.2]⟩
  · rw [if_pos rfl, if_neg (by decide)]
    exact ⟨fun heq => absurd heq (append_hex_ne _ _), fun heq => absurd heq.1 (by decide)⟩
  · rw [if_neg (by decide), if_pos rfl]
    exact ⟨fun heq => absurd heq.symm (append_hex_ne _ _), fun heq => absurd heq.1 (by decide)⟩
  · rw [if_neg (by decide), if_neg (by decide), if_neg (by decide)]
    exact ⟨fun heq => ⟨rfl, append_hex_inj heq⟩, fun heq => by rw [heq.2]⟩

theorem unmapped_family (h : Spells zeros ip host) :
    ip.unmapped.family = 4 ∨ ip.unmapped.family = 6 := by
  unfold Ip.unmapped
  split
  · exact .inl rfl
  · cases h with
    | ipv4 => exact .inl rfl
    | ipv6 => exact .inr rfl

/-- An accepted address that is no loopback address has the key of its network. -/
theorem relayDiversityKey_network {port : Int} {allowLoopback : Bool} {k : String}
    (hip : normalizedIP isIP host = .ok (some ip)) (hloopback : isLoopback ip = false)
    (hkey : relayDiversityKey isIP host port allowLoopback = .ok k) : k = ip.networkKey := by
  unfold relayDiversityKey at hkey
  rw [hip] at hkey
  change (if port ≤ 0 ∨ port > 65535 then Except.error AddressError.unavailable else _) = _ at hkey
  by_cases hport : port ≤ 0 ∨ port > 65535
  · rw [if_pos hport] at hkey
    cases hkey
  · rw [if_neg hport] at hkey
    cases hreserved : isReserved ip with
    | true =>
      rw [hreserved, if_pos rfl] at hkey
      cases hkey
    | false =>
      rw [hreserved, if_neg Bool.false_ne_true, hloopback, if_neg Bool.false_ne_true] at hkey
      unfold Ip.networkKey
      by_cases hfamily : ip.family = 4
      · rw [if_pos hfamily] at hkey ⊢
        exact (Except.ok.inj hkey).symm
      · rw [if_neg hfamily] at hkey ⊢
        exact (Except.ok.inj hkey).symm

theorem spells_of_key {port : Int} {allowLoopback : Bool} {k : String} (h : Accepts zeros isIP)
    (hkey : relayDiversityKey isIP host port allowLoopback = .ok k) :
    ∃ ip, Spells zeros ip host := by
  by_cases h4 : isIP host = 4
  · obtain ⟨ns, hquad⟩ := (h.ipv4 host).mp h4
    exact ⟨_, .ipv4 hquad⟩
  · by_cases h6 : isIP host = 6
    · obtain ⟨ws, htext⟩ := (h.ipv6 host).mp h6
      exact ⟨_, .ipv6 htext⟩
    · have hnone : normalizedIP isIP host = .ok none := by
        unfold normalizedIP
        rw [if_neg h4, if_pos h6]
      unfold relayDiversityKey at hkey
      rw [hnone] at hkey
      cases hkey

/-- `normalizedIP` reads every text of an address as that address, and two addresses have one
key where they are in one network. -/
theorem relay_networks (h : Accepts zeros isIP) :
    (∀ host ip, Spells zeros ip host → normalizedIP isIP host = .ok (some ip.unmapped)) ∧
    (∀ host port allowLoopback k, relayDiversityKey isIP host port allowLoopback = .ok k →
      ∃ ip, Spells zeros ip host) ∧
    ∀ host host' ip ip' port port' allowLoopback allowLoopback' k k',
      Spells zeros ip host → Spells zeros ip' host' →
      isLoopback ip.unmapped = false → isLoopback ip'.unmapped = false →
      relayDiversityKey isIP host port allowLoopback = .ok k →
      relayDiversityKey isIP host' port' allowLoopback' = .ok k' →
      (k = k' ↔ ip.unmapped.SameNetwork ip'.unmapped) := by
  refine ⟨fun host ip hspells => normalizedIP_spells h hspells,
    fun host port allowLoopback k hkey => spells_of_key h hkey, ?_⟩
  intro host host' ip ip' port port' allowLoopback allowLoopback' k k' hspells hspells'
    hloopback hloopback' hkey hkey'
  rw [relayDiversityKey_network (normalizedIP_spells h hspells) hloopback hkey,
    relayDiversityKey_network (normalizedIP_spells h hspells') hloopback' hkey']
  exact networkKey_eq (unmapped_family hspells) (unmapped_family hspells')

/-- There is a function that accepts exactly the texts. -/
theorem exists_accepts (zeros : Bool) : ∃ isIP, Accepts zeros isIP := by
  classical
  refine ⟨fun host => if ∃ ns, Quad zeros ns host.toList then 4
    else if ∃ ws, Text6 zeros ws host.toList then 6 else 0, ?_, ?_⟩
  · intro host
    split_ifs with hquad
    · exact ⟨fun _ => hquad, fun _ => rfl⟩
    · exact ⟨fun h => absurd h (by decide), fun h => absurd h hquad⟩
    · exact ⟨fun h => absurd h (by decide), fun h => absurd h hquad⟩
  · intro host
    split_ifs with hquad htext
    · obtain ⟨ns, hquad⟩ := hquad
      exact ⟨fun h => absurd h (by decide),
        fun ⟨ws, htext⟩ => absurd htext.colon_mem hquad.colon_not_mem⟩
    · exact ⟨fun _ => htext, fun _ => rfl⟩
    · exact ⟨fun h => absurd h (by decide), fun h => absurd h htext⟩

theorem octet_of_digits {t : List Char} {n : Nat} (h : t ≠ [] ∧ t.length ≤ 3 ∧
    t.all Char.isDigit = true ∧ Nat.ofDigitChars 10 t 0 = n ∧ n < 256 ∧
    (t.head? = some '0' → t.length = 1)) : Octet false t n :=
  ⟨h.1, h.2.1, List.all_eq_true.mp h.2.2.1, h.2.2.2.1, h.2.2.2.2.1, fun _ => h.2.2.2.2.2⟩

theorem quad_sample : Quad false [192, 0, 2, 9] "192.0.2.9".toList := by
  have hoctets : List.Forall₂ (Octet false) ["192".toList, "0".toList, "2".toList, "9".toList]
      [192, 0, 2, 9] :=
    .cons (octet_of_digits (by decide)) (.cons (octet_of_digits (by decide))
      (.cons (octet_of_digits (by decide))
        (.cons (octet_of_digits (by decide)) .nil)))
  exact .mk hoctets rfl

theorem mapped_sample :
    Text6 false [0, 0, 0, 0, 0, 65535, 49152, 521] "::FFFF:192.0.2.9".toList := by
  have hgroup : List.Forall₂ Group ["FFFF".toList] [65535] :=
    .cons ⟨by decide, by decide, List.all_eq_true.mp rfl, by decide⟩ .nil
  exact .compressedQuad .nil hgroup quad_sample (by decide)

/-- An address and a text of it as a mapped address. -/
theorem relay_networks_mapped : ∃ isIP, Accepts false isIP ∧
    normalizedIP isIP "::FFFF:192.0.2.9" = .ok (some ⟨4, [192, 0, 2, 9]⟩) ∧
    normalizedIP isIP "192.0.2.9" = .ok (some ⟨4, [192, 0, 2, 9]⟩) ∧
    ∀ k k', relayDiversityKey isIP "::FFFF:192.0.2.9" 31001 false = .ok k →
      relayDiversityKey isIP "192.0.2.9" 31002 true = .ok k' → k = k' := by
  obtain ⟨isIP, haccepts⟩ := exists_accepts false
  obtain ⟨hread, -, hkeys⟩ := relay_networks haccepts
  have hmapped : Spells false _ "::FFFF:192.0.2.9" := .ipv6 mapped_sample
  have hquad : Spells false _ "192.0.2.9" := .ipv4 quad_sample
  refine ⟨isIP, haccepts, hread _ _ hmapped, hread _ _ hquad, fun k k' hk hk' => ?_⟩
  have hsame := hkeys _ _ _ _ _ _ _ _ k k' hmapped hquad (by decide) (by decide) hk hk'
  exact hsame.mpr ⟨rfl, rfl⟩

end HyperDht.Private
