import Mathlib.Algebra.Group.Nat.Defs
import Mathlib.Data.List.Basic

/-!
# Texts

Separators and hexadecimal digits. `ofHex` reads digits of either case and undoes
`Nat.toDigits 16`. `hex` is the text of a buffer, two lower-case digits for a byte, as
`toString(_, 'hex')` writes it; equal texts come from equal buffers.
-/

namespace HyperDht

/-! ## Separators -/

theorem append_cons_inj {α : Type} {a : α} {x x' z z' : List α} (hx : a ∉ x) (hx' : a ∉ x')
    (h : x ++ a :: z = x' ++ a :: z') : x = x' ∧ z = z' := by
  induction x generalizing x' with
  | nil =>
    cases x' with
    | nil => exact ⟨rfl, (List.cons.inj h).2⟩
    | cons b x' => exact absurd ((List.cons.inj h).1 ▸ List.mem_cons_self) hx'
  | cons b x ih =>
    cases x' with
    | nil => exact absurd ((List.cons.inj h).1 ▸ List.mem_cons_self) hx
    | cons b' x' =>
      obtain ⟨hb, htail⟩ := List.cons.inj h
      obtain ⟨hxx, hzz⟩ := ih (fun hmem => hx (List.mem_cons_of_mem _ hmem))
        (fun hmem => hx' (List.mem_cons_of_mem _ hmem)) htail
      exact ⟨by rw [hb, hxx], hzz⟩

/-- The text up to the last `a`, which it has, and the text after it. -/
def uptoLast {α : Type} [DecidableEq α] (a : α) (t : List α) : List α :=
  (t.reverse.dropWhile (· ≠ a)).reverse

def afterLast {α : Type} [DecidableEq α] (a : α) (t : List α) : List α :=
  (t.reverse.takeWhile (· ≠ a)).reverse

theorem last_append {α : Type} [DecidableEq α] {a : α} {t u : List α} (hu : a ∉ u)
    (ht : t = [] ∨ ∃ s, t = s ++ [a]) : uptoLast a (t ++ u) = t ∧ afterLast a (t ++ u) = u := by
  have hall : ∀ b ∈ u.reverse, decide (b ≠ a) = true := by
    intro b hb
    rw [decide_eq_true_eq]
    rintro rfl
    exact hu (List.mem_reverse.mp hb)
  unfold uptoLast afterLast
  rw [List.reverse_append, List.dropWhile_append_of_pos hall, List.takeWhile_append_of_pos hall]
  rcases ht with rfl | ⟨s, rfl⟩
  · exact ⟨rfl, by simp⟩
  · rw [List.reverse_append, List.reverse_singleton, List.singleton_append,
      List.dropWhile_cons_of_neg (by simp), List.takeWhile_cons_of_neg (by simp)]
    simp

/-- `split('::')`. -/
def splitDouble (a : Char) : List Char → List (List Char)
  | [] => [[]]
  | [c] => [[c]]
  | c :: d :: t =>
    if c = a ∧ d = a then [] :: splitDouble a t
    else (splitDouble a (d :: t)).modifyHead (c :: ·)

/-- A text without the separator stays in one part. -/
theorem splitDouble_append {a : Char} {t : List Char} (ht : a ∉ t) (u : List Char) :
    splitDouble a (t ++ u) = (splitDouble a u).modifyHead (t ++ ·) := by
  induction t with
  | nil =>
    rw [List.nil_append]
    cases splitDouble a u with
    | nil => rfl
    | cons p ps => rfl
  | cons c t ih =>
    rw [List.mem_cons, not_or] at ht
    have hcons : splitDouble a (c :: (t ++ u)) =
        (splitDouble a (t ++ u)).modifyHead (c :: ·) := by
      cases t ++ u with
      | nil => rfl
      | cons d v =>
        rw [splitDouble, if_neg fun h => ht.1 h.1.symm]
    rw [List.cons_append, hcons, ih ht.2, List.modifyHead_modifyHead]
    rfl

/-! ## Joined parts -/

/-- Parts joined by one separator. -/
abbrev joined (a : Char) (ts : List (List Char)) : List Char := [a].intercalate ts

/-- Parts without the separator and not empty. -/
def Parts (a : Char) (ts : List (List Char)) : Prop := ∀ t ∈ ts, t ≠ [] ∧ a ∉ t

theorem joined_cons_cons (a : Char) (t t' : List Char) (ts : List (List Char)) :
    joined a (t :: t' :: ts) = t ++ a :: joined a (t' :: ts) := by
  rw [joined, List.intercalate_cons_cons, List.append_assoc]
  rfl

theorem splitOn_joined {a : Char} {ts : List (List Char)} (h : Parts a ts) (hne : ts ≠ []) :
    (joined a ts).splitOn a = ts :=
  List.splitOn_intercalate a (fun t ht => (h t ht).2) hne

theorem joined_head {a : Char} {t : List Char} {ts : List (List Char)} (h : Parts a (t :: ts)) :
    ∃ c u, c ≠ a ∧ joined a (t :: ts) = c :: u := by
  obtain ⟨hne, ha⟩ := h t List.mem_cons_self
  obtain ⟨c, v, rfl⟩ := List.exists_cons_of_ne_nil hne
  have hc : c ≠ a := fun hca => ha (hca ▸ List.mem_cons_self)
  cases ts with
  | nil => exact ⟨c, v, hc, List.intercalate_singleton⟩
  | cons t' ts => exact ⟨c, _, hc, joined_cons_cons a (c :: v) t' ts⟩

theorem joined_eq_nil {a : Char} {ts : List (List Char)} (h : Parts a ts)
    (hnil : joined a ts = []) : ts = [] := by
  cases ts with
  | nil => rfl
  | cons t ts =>
    obtain ⟨c, u, -, heq⟩ := joined_head h
    rw [heq] at hnil
    cases hnil

theorem splitDouble_joined {a : Char} {ts : List (List Char)} (h : Parts a ts) (u : List Char) :
    splitDouble a (joined a ts ++ u) = (splitDouble a u).modifyHead (joined a ts ++ ·) := by
  induction ts with
  | nil => exact splitDouble_append List.not_mem_nil u
  | cons t ts ih =>
    have ht := (h t List.mem_cons_self).2
    cases ts with
    | nil =>
      rw [joined, List.intercalate_singleton]
      exact splitDouble_append ht u
    | cons t' ts =>
      have hts : Parts a (t' :: ts) := fun t ht => h t (List.mem_cons_of_mem _ ht)
      obtain ⟨c, v, hc, heq⟩ := joined_head hts
      have hstep : splitDouble a (a :: (joined a (t' :: ts) ++ u)) =
          (splitDouble a (joined a (t' :: ts) ++ u)).modifyHead (a :: ·) := by
        rw [heq, List.cons_append, splitDouble, if_neg fun h => hc h.2]
      rw [joined_cons_cons, List.append_assoc, List.cons_append, splitDouble_append ht, hstep,
        ih hts, List.modifyHead_modifyHead, List.modifyHead_modifyHead]
      congr 1
      funext w
      simp

/-- One part, where no two separators meet. -/
theorem splitDouble_single {a : Char} {ts : List (List Char)} (h : Parts a ts) :
    splitDouble a (joined a ts) = [joined a ts] := by
  have hsplit := splitDouble_joined h []
  rw [List.append_nil] at hsplit
  rw [hsplit]
  simp [splitDouble]

theorem splitDouble_pair {a : Char} {ts us : List (List Char)} (h : Parts a ts)
    (h' : Parts a us) :
    splitDouble a (joined a ts ++ a :: a :: joined a us) = [joined a ts, joined a us] := by
  rw [splitDouble_joined h, splitDouble, if_pos ⟨rfl, rfl⟩, splitDouble_single h']
  simp

/-- The parts before the last one, each with its separator. -/
def stem (a : Char) (ts : List (List Char)) : List Char := ts.flatMap (· ++ [a])

theorem joined_append (a : Char) (ts : List (List Char)) (u : List Char) (us : List (List Char)) :
    joined a (ts ++ u :: us) = stem a ts ++ joined a (u :: us) := by
  induction ts with
  | nil => rfl
  | cons t ts ih =>
    have hcons : ∃ t' ts', ts ++ u :: us = t' :: ts' := by
      cases ts with
      | nil => exact ⟨u, us, rfl⟩
      | cons t' ts => exact ⟨t', ts ++ u :: us, rfl⟩
    obtain ⟨t', ts', heq⟩ := hcons
    have hstem : stem a (t :: ts) = t ++ a :: stem a ts := by
      rw [stem, List.flatMap_cons, List.append_assoc]
      rfl
    rw [List.cons_append, heq, joined_cons_cons, ← heq, ih, hstem, List.append_assoc,
      List.cons_append]

theorem stem_last (a : Char) (ts : List (List Char)) :
    stem a ts = [] ∨ ∃ s, stem a ts = s ++ [a] := by
  rcases List.eq_nil_or_concat ts with rfl | ⟨ts, t, rfl⟩
  · exact .inl rfl
  · refine .inr ⟨stem a ts ++ t, ?_⟩
    rw [List.concat_eq_append, stem, List.flatMap_append, List.flatMap_singleton,
      ← List.append_assoc]
    rfl

/-! ## Hexadecimal digits -/

def isHexDigit (c : Char) : Bool :=
  c.isDigit || ('a'.toNat ≤ c.toNat && c.toNat ≤ 'f'.toNat) ||
    ('A'.toNat ≤ c.toNat && c.toNat ≤ 'F'.toNat)

def hexValue (c : Char) : Nat :=
  if c.isDigit then c.toNat - '0'.toNat
  else if 'a'.toNat ≤ c.toNat then c.toNat - 'a'.toNat + 10
  else c.toNat - 'A'.toNat + 10

/-- The number that hexadecimal digits of either case write. -/
def ofHex (t : List Char) : Nat := t.foldl (fun n c => 16 * n + hexValue c) 0

theorem hexValue_digitChar {n : Nat} (h : n < 16) : hexValue (Nat.digitChar n) = n := by
  have hall : ∀ n : Fin 16, hexValue (Nat.digitChar n) = n := by decide
  exact hall ⟨n, h⟩

theorem isHexDigit_digitChar {n : Nat} (h : n < 16) : isHexDigit (Nat.digitChar n) = true := by
  have hall : ∀ n : Fin 16, isHexDigit (Nat.digitChar n) = true := by decide
  exact hall ⟨n, h⟩

theorem toDigits_succ {m k : Nat} (hk : k < 16) (hm : 0 < m) :
    Nat.toDigits 16 (16 * m + k) = Nat.toDigits 16 m ++ [Nat.digitChar k] := by
  rw [← Nat.toDigits_append_toDigits (by decide) hm hk, Nat.toDigits_of_lt_base hk]

theorem ofHex_toDigits (n : Nat) : ofHex (Nat.toDigits 16 n) = n := by
  induction n using Nat.base_induction 16 (by decide) with
  | single m hm =>
    rw [Nat.toDigits_of_lt_base hm]
    exact (Nat.zero_add _).trans (hexValue_digitChar hm)
  | digit m k hk hm ih =>
    rw [toDigits_succ hk hm, ofHex, List.foldl_append]
    show 16 * ofHex (Nat.toDigits 16 m) + hexValue (Nat.digitChar k) = _
    rw [ih, hexValue_digitChar hk]

theorem isHexDigit_toDigits (n : Nat) : ∀ c ∈ Nat.toDigits 16 n, isHexDigit c = true := by
  induction n using Nat.base_induction 16 (by decide) with
  | single m hm =>
    rw [Nat.toDigits_of_lt_base hm, List.forall_mem_singleton]
    exact isHexDigit_digitChar hm
  | digit m k hk hm ih =>
    rw [toDigits_succ hk hm, List.forall_mem_append, List.forall_mem_singleton]
    exact ⟨ih, isHexDigit_digitChar hk⟩

theorem hexValue_lt {c : Char} (h : isHexDigit c = true) : hexValue c < 16 := by
  have h0 : '0'.toNat = 48 := rfl
  have h9 : '9'.toNat = 57 := rfl
  have ha : 'a'.toNat = 97 := rfl
  have hf : 'f'.toNat = 102 := rfl
  have hA : 'A'.toNat = 65 := rfl
  have hF : 'F'.toNat = 70 := rfl
  simp only [isHexDigit, Bool.or_eq_true, Bool.and_eq_true, decide_eq_true_eq] at h
  rw [Char.isDigit_iff_toNat] at h
  unfold hexValue
  split_ifs with hdigit
  · rw [Char.isDigit_iff_toNat] at hdigit
    omega
  all_goals
    rw [Char.isDigit_iff_toNat] at hdigit
    omega

theorem ofHex_lt {t : List Char} (h : ∀ c ∈ t, isHexDigit c = true) :
    ofHex t < 16 ^ t.length := by
  have hfold : ∀ n, t.foldl (fun n c => 16 * n + hexValue c) n < (n + 1) * 16 ^ t.length := by
    induction t with
    | nil =>
      intro n
      rw [List.foldl_nil, List.length_nil]
      omega
    | cons c t ih =>
      intro n
      rw [List.forall_mem_cons] at h
      have hc := hexValue_lt h.1
      calc t.foldl (fun n c => 16 * n + hexValue c) (16 * n + hexValue c)
          < (16 * n + hexValue c + 1) * 16 ^ t.length := ih h.2 _
        _ ≤ (n + 1) * 16 * 16 ^ t.length := Nat.mul_le_mul_right _ (by omega)
        _ = (n + 1) * 16 ^ (c :: t).length := by
          rw [List.length_cons, Nat.pow_succ', Nat.mul_assoc]
  have hzero := hfold 0
  rwa [Nat.zero_add, Nat.one_mul] at hzero

/-! ## Buffers -/

def hexByte (b : UInt8) : List Char :=
  [Nat.digitChar (b.toNat / 16), Nat.digitChar (b.toNat % 16)]

def hex (bytes : List UInt8) : String := String.ofList (bytes.flatMap hexByte)

theorem digitChar_inj {m n : Nat} (hm : m < 16) (hn : n < 16)
    (h : Nat.digitChar m = Nat.digitChar n) : m = n := by
  have hall : ∀ a b : Fin 16, Nat.digitChar a = Nat.digitChar b → a = b := by decide
  exact congrArg Fin.val (hall ⟨m, hm⟩ ⟨n, hn⟩ h)

theorem hexByte_inj {a b : UInt8} (h : hexByte a = hexByte b) : a = b := by
  have ha := a.toNat_lt
  have hb := b.toNat_lt
  obtain ⟨hhigh, hlow⟩ := List.cons.inj h
  have hhigh := digitChar_inj (by omega) (by omega) hhigh
  have hlow := digitChar_inj (by omega) (by omega) (List.cons.inj hlow).1
  apply UInt8.toNat_inj.mp
  omega

theorem flatMap_hexByte_inj {as bs : List UInt8} (h : as.flatMap hexByte = bs.flatMap hexByte) :
    as = bs := by
  induction as generalizing bs with
  | nil =>
    cases bs with
    | nil => rfl
    | cons b bs => cases h
  | cons a as ih =>
    cases bs with
    | nil => cases h
    | cons b bs =>
      rw [List.flatMap_cons, List.flatMap_cons] at h
      obtain ⟨hab, hrest⟩ := List.append_inj h rfl
      rw [hexByte_inj hab, ih hrest]

theorem hex_inj {as bs : List UInt8} : hex as = hex bs ↔ as = bs :=
  ⟨fun h => flatMap_hexByte_inj (String.ofList_injective h), congrArg hex⟩

end HyperDht
