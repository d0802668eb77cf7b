import HyperDht.Lib.Text
import Mathlib.Data.List.Forall2

/-!
# Address texts

The texts of an IPv4 address (a dotted quad) and of an IPv6 address (RFC 4291, 2.2): eight
groups of one to four hexadecimal digits, one `::` for one or more groups of zeros, and a
dotted quad for the last two groups. Whether an octet of a quad may have leading zeros is a
parameter, since readers differ there. A zone id is no part of a text.
-/

namespace HyperDht

/-! ## Groups and octets -/

/-- `t` writes the 16 bits `w` in hexadecimal. -/
structure Group (t : List Char) (w : Nat) : Prop where
  nonempty : t ≠ []
  short : t.length ≤ 4
  digits : ∀ c ∈ t, isHexDigit c = true
  value : ofHex t = w

/-- `t` writes the octet `n` in decimal. -/
structure Octet (zeros : Bool) (t : List Char) (n : Nat) : Prop where
  nonempty : t ≠ []
  short : t.length ≤ 3
  digits : ∀ c ∈ t, c.isDigit = true
  value : Nat.ofDigitChars 10 t 0 = n
  bound : n < 256
  leading : zeros = false → t.head? = some '0' → t.length = 1

/-- `t` is the dotted quad of the octets `ns`. -/
inductive Quad (zeros : Bool) : List Nat → List Char → Prop
  | mk {ts : List (List Char)} {ns : List Nat} : List.Forall₂ (Octet zeros) ts ns →
      ns.length = 4 → Quad zeros ns (joined '.' ts)

inductive Plain6 : List Nat → List Char → Prop
  | full {ts : List (List Char)} {ws : List Nat} : List.Forall₂ Group ts ws → ws.length = 8 →
      Plain6 ws (joined ':' ts)
  | compressed {ts us : List (List Char)} {ws vs : List Nat} :
      List.Forall₂ Group ts ws → List.Forall₂ Group us vs → ws.length + vs.length < 8 →
      Plain6 (ws ++ List.replicate (8 - ws.length - vs.length) 0 ++ vs)
        (joined ':' ts ++ ':' :: ':' :: joined ':' us)

/-- `t` writes the IPv6 address of the words `ws`. -/
inductive Text6 (zeros : Bool) : List Nat → List Char → Prop
  | plain {ws : List Nat} {t : List Char} : Plain6 ws t → Text6 zeros ws t
  | quad {ts : List (List Char)} {ws : List Nat} {a b c d : Nat} {q : List Char} :
      List.Forall₂ Group ts ws → Quad zeros [a, b, c, d] q → ws.length = 6 →
      Text6 zeros (ws ++ [256 * a + b, 256 * c + d]) (joined ':' (ts ++ [q]))
  | compressedQuad {ts us : List (List Char)} {ws vs : List Nat} {a b c d : Nat}
      {q : List Char} :
      List.Forall₂ Group ts ws → List.Forall₂ Group us vs → Quad zeros [a, b, c, d] q →
      ws.length + vs.length < 6 →
      Text6 zeros
        (ws ++ List.replicate (6 - ws.length - vs.length) 0 ++
          (vs ++ [256 * a + b, 256 * c + d]))
        (joined ':' ts ++ ':' :: ':' :: joined ':' (us ++ [q]))

/-! ## What the texts are made of -/

theorem not_mem_of_digits {p : Char → Bool} {t : List Char} (h : ∀ c ∈ t, p c = true) {a : Char}
    (ha : p a = false) : a ∉ t := by
  intro hmem
  rw [h a hmem] at ha
  cases ha

variable {zeros : Bool} {ts : List (List Char)} {ws ns : List Nat}

theorem Group.part {t : List Char} {w : Nat} (h : Group t w) {a : Char}
    (ha : isHexDigit a = false) : t ≠ [] ∧ a ∉ t :=
  ⟨h.nonempty, not_mem_of_digits h.digits ha⟩

theorem Octet.part {t : List Char} {n : Nat} (h : Octet zeros t n) {a : Char}
    (ha : a.isDigit = false) : t ≠ [] ∧ a ∉ t :=
  ⟨h.nonempty, not_mem_of_digits h.digits ha⟩

theorem forall_of_forall₂ {R : List Char → Nat → Prop} {P : List Char → Prop}
    (hR : ∀ t n, R t n → P t) (h : List.Forall₂ R ts ns) : ∀ t ∈ ts, P t := by
  induction h with
  | nil => exact fun t ht => absurd ht List.not_mem_nil
  | cons hr _ ih => exact List.forall_mem_cons.mpr ⟨hR _ _ hr, ih⟩

theorem parts_of_groups (h : List.Forall₂ Group ts ws) : Parts ':' ts :=
  forall_of_forall₂ (fun _ _ hg => hg.part (by decide)) h

theorem parts_of_octets (h : List.Forall₂ (Octet zeros) ts ns) : Parts '.' ts :=
  forall_of_forall₂ (fun _ _ ho => ho.part (by decide)) h

theorem not_mem_joined {a b : Char} (hab : b ≠ a) (h : ∀ t ∈ ts, b ∉ t) : b ∉ joined a ts := by
  induction ts with
  | nil => exact List.not_mem_nil
  | cons t ts ih =>
    cases ts with
    | nil =>
      rw [joined, List.intercalate_singleton]
      exact h t List.mem_cons_self
    | cons t' ts =>
      rw [joined_cons_cons, List.mem_append, List.mem_cons, not_or, not_or]
      exact ⟨h t List.mem_cons_self, hab, ih fun t ht => h t (List.mem_cons_of_mem _ ht)⟩

/-- Two parts have a separator between them. -/
theorem mem_joined {a : Char} (h : 2 ≤ ts.length) : a ∈ joined a ts := by
  match ts, h with
  | t :: t' :: ts, _ =>
    rw [joined_cons_cons]
    exact List.mem_append_right _ List.mem_cons_self

theorem dot_not_mem_groups (h : List.Forall₂ Group ts ws) : '.' ∉ joined ':' ts :=
  not_mem_joined (by decide) (forall_of_forall₂ (fun _ _ hg => (hg.part (by decide)).2) h)

theorem Plain6.dot_not_mem {t : List Char} (h : Plain6 ws t) : '.' ∉ t := by
  cases h with
  | full hts _ => exact dot_not_mem_groups hts
  | compressed hts hus _ =>
    rw [List.mem_append, List.mem_cons, List.mem_cons, not_or, not_or, not_or]
    exact ⟨dot_not_mem_groups hts, by decide, by decide, dot_not_mem_groups hus⟩

theorem Quad.colon_not_mem {q : List Char} (h : Quad zeros ns q) : ':' ∉ q := by
  obtain ⟨hoctets, -⟩ := h
  exact not_mem_joined (by decide)
    (forall_of_forall₂ (fun _ _ ho => (ho.part (by decide)).2) hoctets)

theorem Quad.dot_mem {q : List Char} (h : Quad zeros ns q) : '.' ∈ q := by
  obtain ⟨hoctets, hlength⟩ := h
  apply mem_joined
  rw [hoctets.length_eq, hlength]
  decide

theorem Quad.lt {q : List Char} (h : Quad zeros ns q) : ∀ n ∈ ns, n < 256 := by
  obtain ⟨hoctets, -⟩ := h
  induction hoctets with
  | nil => exact fun n hn => absurd hn List.not_mem_nil
  | cons ho _ ih => exact List.forall_mem_cons.mpr ⟨ho.bound, ih⟩

theorem group_toDigits {w : Nat} (h : w < 65536) : Group (Nat.toDigits 16 w) w where
  nonempty := Nat.toDigits_ne_nil
  short := (Nat.length_toDigits_le_iff (by decide) (by decide)).mpr h
  digits := isHexDigit_toDigits w
  value := ofHex_toDigits w

theorem group_zero : Group ['0'] 0 :=
  ⟨List.cons_ne_nil _ _, by decide, List.forall_mem_singleton.mpr rfl, rfl⟩

theorem Group.lt {t : List Char} {w : Nat} (h : Group t w) : w < 65536 := by
  rw [← h.value]
  calc ofHex t < 16 ^ t.length := ofHex_lt h.digits
    _ ≤ 16 ^ 4 := Nat.pow_le_pow_right (by decide) h.short

theorem Text6.colon_mem {t : List Char} (h : Text6 zeros ws t) : ':' ∈ t := by
  cases h with
  | plain h =>
    cases h with
    | full hts hlength =>
      apply mem_joined
      rw [hts.length_eq]
      omega
    | compressed => exact List.mem_append_right _ List.mem_cons_self
  | quad hts _ hlength =>
    apply mem_joined
    rw [List.length_append, hts.length_eq, hlength]
    omega
  | compressedQuad => exact List.mem_append_right _ List.mem_cons_self

end HyperDht
