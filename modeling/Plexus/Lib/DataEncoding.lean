import Mathlib.Data.List.Pairwise
import Mathlib.Data.Nat.Basic
import Mathlib.Tactic.Common
import Mathlib.Tactic.Ring

/-! Binary encodings built from combinators. An encoding writes a value as
bytes and reads a value from the front of some bytes; a variable encoding reads
all the bytes it is given. An encoding is exact when the bytes that are read as
a value are those that the value is written as, and no others. -/

namespace Data_encoding

open List Nat

abbrev Bytes := List UInt8

structure Encoding (α : Type) where
  write : α → Option Bytes
  read : Bytes → Option (α × Bytes)

structure Variable_encoding (α : Type) where
  write : α → Option Bytes
  read : Bytes → Option α

variable {α β : Type}

namespace Encoding

def Exact (e : Encoding α) : Prop :=
  ∀ a bs rest, e.read bs = some (a, rest) ↔ ∃ w, e.write a = some w ∧ bs = w ++ rest

/-- No value is written as the empty string. -/
def Visible (e : Encoding α) : Prop := ∀ a w, e.write a = some w → w ≠ []

end Encoding

namespace Variable_encoding

def Exact (v : Variable_encoding α) : Prop := ∀ a bs, v.read bs = some a ↔ v.write a = some bs

end Variable_encoding

/-- A recursive encoding, unrolled some times. -/
def mu (f : Encoding α → Encoding α) : Nat → Encoding α
  | 0 => ⟨fun _ => none, fun _ => none⟩
  | rounds + 1 => f (mu f rounds)

/-- A recursion is exact if its body is. -/
theorem mu_exact {f : Encoding α → Encoding α} (hf : ∀ e, e.Exact → (f e).Exact) (rounds : Nat) :
    (mu f rounds).Exact := by
  induction rounds with
  | zero =>
    intro a bs rest
    simp [mu]
  | succ rounds ih => exact hf _ ih

/-- No more than `limit` bytes are written or read. -/
def check_size (limit : Nat) (e : Encoding α) : Encoding α where
  write a := (e.write a).bind fun w => if w.length ≤ limit then some w else none
  read bs := (e.read (bs.take limit)).map fun r => (r.1, r.2 ++ bs.drop limit)

theorem check_size_exact {e : Encoding α} (he : e.Exact) (limit : Nat) :
    (check_size limit e).Exact := by
  intro a bs rest
  simp only [check_size, Option.map_eq_some_iff, Option.bind_eq_some_iff, Prod.exists,
    Prod.mk.injEq, Option.ite_none_right_eq_some, Option.some.injEq]
  constructor
  · rintro ⟨_, r, hread, rfl, rfl⟩
    obtain ⟨w, hw, htake⟩ := (he _ _ _).mp hread
    have hlen := congrArg List.length htake
    rw [length_take, length_append] at hlen
    refine ⟨w, ⟨w, hw, by omega, rfl⟩, ?_⟩
    rw [← append_assoc, ← htake, take_append_drop]
  · rintro ⟨_, ⟨w, hw, hle, rfl⟩, rfl⟩
    refine ⟨a, rest.take (limit - w.length), (he _ _ _).mpr ⟨w, hw, ?_⟩, rfl, ?_⟩
    · rw [take_append, take_of_length_le hle]
    · rw [drop_append, drop_of_length_le hle, nil_append, take_append_drop]

/-! Byte strings of a fixed length. -/

/-- The byte strings of length `n`. -/
abbrev Fixed (n : Nat) := { b : Bytes // b.length = n }

def fixed (n : Nat) : Encoding (Fixed n) where
  write b := some b.val
  read bs := if h : n ≤ bs.length then some (⟨bs.take n, List.length_take_of_le h⟩, bs.drop n) else none

theorem fixed_exact (n : Nat) : (fixed n).Exact := by
  intro a bs rest
  simp only [fixed, Option.some.injEq, exists_eq_left']
  constructor
  · intro h
    split at h
    · simp only [Option.some.injEq, Prod.mk.injEq] at h
      obtain ⟨rfl, rfl⟩ := h
      simp
    · cases h
  · rintro rfl
    have hlen := a.property
    have hle : n ≤ (a.val ++ rest).length := by
      rw [length_append]
      omega
    rw [dif_pos hle]
    simp only [Option.some.injEq, Prod.mk.injEq, Subtype.ext_iff]
    exact ⟨take_left' hlen, drop_left' hlen⟩

theorem fixed_visible {n : Nat} (h : 0 < n) : (fixed n).Visible := by
  intro a w hw hnil
  cases hw
  have := a.property
  rw [hnil] at this
  simp at this
  omega

/-! Naturals. -/

theorem toNat_ofNat {m : Nat} (h : m < 256) : (UInt8.ofNat m).toNat = m :=
  UInt8.toNat_ofNat_of_lt' h

/-- Big-endian bytes of a natural number below `256 ^ k`. -/
def write_be : Nat → Nat → Bytes
  | 0, _ => []
  | k + 1, n => UInt8.ofNat (n / 256 ^ k) :: write_be k (n % 256 ^ k)

def read_be : Nat → Bytes → Option (Nat × Bytes)
  | 0, bs => some (0, bs)
  | _ + 1, [] => none
  | k + 1, b :: bs => (read_be k bs).map fun r => (b.toNat * 256 ^ k + r.1, r.2)

/-- Reading a number takes exactly the bytes it is written with. -/
theorem read_be_iff (k n : Nat) (bs rest : Bytes) :
    read_be k bs = some (n, rest) ↔ n < 256 ^ k ∧ bs = write_be k n ++ rest := by
  induction k generalizing n bs with
  | zero =>
    simp only [read_be, write_be, Option.some.injEq, Prod.mk.injEq, pow_zero, lt_one_iff,
      nil_append]
    exact ⟨fun ⟨h1, h2⟩ => ⟨h1.symm, h2⟩, fun ⟨h1, h2⟩ => ⟨h1.symm, h2⟩⟩
  | succ k ih =>
    have hpos : 0 < 256 ^ k := Nat.pow_pos (by decide)
    cases bs with
    | nil => simp [read_be, write_be]
    | cons b bs =>
      simp only [read_be, write_be, Option.map_eq_some_iff, Prod.exists, Prod.mk.injEq,
        cons_append, List.cons.injEq]
      constructor
      · rintro ⟨m, r, hread, rfl, rfl⟩
        obtain ⟨hm, rfl⟩ := (ih m bs).mp hread
        have hb : b.toNat < 256 := b.toNat_lt
        have hdiv : (b.toNat * 256 ^ k + m) / 256 ^ k = b.toNat := by
          rw [mul_comm, mul_add_div hpos, div_eq_of_lt hm, add_zero]
        have hmod : (b.toNat * 256 ^ k + m) % 256 ^ k = m := by
          rw [mul_comm, mul_add_mod, mod_eq_of_lt hm]
        refine ⟨?_, ?_, ?_⟩
        · rw [pow_succ]
          calc b.toNat * 256 ^ k + m < b.toNat * 256 ^ k + 256 ^ k := by omega
            _ = (b.toNat + 1) * 256 ^ k := by ring
            _ ≤ 256 * 256 ^ k := mul_le_mul_right _ (by omega)
            _ = 256 ^ k * 256 := by ring
        · rw [hdiv, UInt8.ofNat_toNat]
        · rw [hmod]
      · rintro ⟨hn, rfl, rfl⟩
        have hdiv : n / 256 ^ k < 256 := by
          rw [div_lt_iff_lt_mul hpos, mul_comm, ← pow_succ]
          exact hn
        refine ⟨n % 256 ^ k, rest, (ih _ _).mpr ⟨mod_lt _ hpos, rfl⟩, ?_, rfl⟩
        rw [toNat_ofNat hdiv]
        exact div_add_mod' n (256 ^ k)

/-- Naturals below `bound`, on `k` bytes. -/
def nat_be (k bound : Nat) : Encoding Nat where
  write n := if n < bound then some (write_be k n) else none
  read bs := (read_be k bs).bind fun r => if r.1 < bound then some r else none

/-- Numbers of a fixed length, most significant byte first, are exact. -/
theorem nat_be_exact {k bound : Nat} (h : bound ≤ 256 ^ k) : (nat_be k bound).Exact := by
  intro n bs rest
  simp only [nat_be, Option.bind_eq_some_iff, Option.ite_none_right_eq_some, Option.some.injEq]
  constructor
  · rintro ⟨⟨m, r⟩, hread, hm, heq⟩
    cases heq
    obtain ⟨_, rfl⟩ := (read_be_iff k n bs rest).mp hread
    exact ⟨_, ⟨hm, rfl⟩, rfl⟩
  · rintro ⟨w, ⟨hn, rfl⟩, rfl⟩
    exact ⟨(n, rest), (read_be_iff k n _ rest).mpr ⟨by omega, rfl⟩, hn, rfl⟩

def uint8 : Encoding Nat := nat_be 1 256

def uint16 : Encoding Nat := nat_be 2 65536

/-- The lengths that are put in front of byte strings. -/
def uint30 : Encoding Nat := nat_be 4 (2 ^ 30)

theorem uint8_exact : uint8.Exact := nat_be_exact (by decide)

theorem uint16_exact : uint16.Exact := nat_be_exact (by decide)

theorem uint30_exact : uint30.Exact := nat_be_exact (by decide)

/-- Naturals in groups of seven bits, least significant first, on at most
`size` bytes. -/
def write_n : Nat → Nat → Option Bytes
  | 0, _ => none
  | k + 1, n =>
    if n < 128 then some [UInt8.ofNat n]
    else (write_n k (n / 128)).map (UInt8.ofNat (n % 128 + 128) :: ·)

/-- A last group that is zero is refused, unless it is the only one. -/
def read_n : Nat → Bytes → Option (Nat × Bytes)
  | 0, _ => none
  | _ + 1, [] => none
  | k + 1, b :: bs =>
    if b.toNat < 128 then some (b.toNat, bs)
    else (read_n k bs).bind fun r =>
      if r.1 = 0 then none else some (r.1 * 128 + (b.toNat - 128), r.2)

/-- `check_size size n` -/
def n (size : Nat) : Encoding Nat where
  write := write_n size
  read := read_n size

/-- So are numbers in groups of seven bits without needless groups. -/
theorem n_exact (size : Nat) : (n size).Exact := by
  intro m bs rest
  simp only [n]
  induction size generalizing m bs with
  | zero => simp [read_n, write_n]
  | succ k ih =>
    cases bs with
    | nil =>
      simp only [read_n, reduceCtorEq, false_iff, not_exists, not_and]
      intro w hw hnil
      have hw0 : w = [] := (append_eq_nil_iff.mp hnil.symm).1
      rw [hw0, write_n] at hw
      split at hw
      · cases hw
      · obtain ⟨_, _, hcons⟩ := Option.map_eq_some_iff.mp hw
        cases hcons
    | cons b bs =>
      have hb : b.toNat < 256 := b.toNat_lt
      simp only [read_n, write_n]
      constructor
      · intro h
        by_cases hlow : b.toNat < 128
        · rw [if_pos hlow] at h
          obtain ⟨rfl, rfl⟩ := h
          rw [if_pos hlow]
          exact ⟨_, rfl, by simp⟩
        · rw [if_neg hlow, Option.bind_eq_some_iff] at h
          obtain ⟨⟨q, r⟩, hread, h⟩ := h
          by_cases hq : q = 0
          · simp [hq] at h
          · simp only [hq, if_false, Option.some.injEq, Prod.mk.injEq] at h
            obtain ⟨rfl, rfl⟩ := h
            obtain ⟨w, hw, rfl⟩ := (ih q bs).mp hread
            have hdiv : (q * 128 + (b.toNat - 128)) / 128 = q := by omega
            have hmod : (q * 128 + (b.toNat - 128)) % 128 + 128 = b.toNat := by omega
            rw [if_neg (by omega), hdiv, hmod, hw]
            exact ⟨_, rfl, by simp⟩
      · rintro ⟨w, hw, hbs⟩
        by_cases hlow : m < 128
        · rw [if_pos hlow] at hw
          cases hw
          simp only [cons_append, nil_append, List.cons.injEq] at hbs
          obtain ⟨rfl, rfl⟩ := hbs
          have hm : (UInt8.ofNat m).toNat = m := toNat_ofNat (by omega)
          rw [hm, if_pos hlow]
        · rw [if_neg hlow, Option.map_eq_some_iff] at hw
          obtain ⟨w', hw', rfl⟩ := hw
          simp only [cons_append, List.cons.injEq] at hbs
          obtain ⟨rfl, rfl⟩ := hbs
          have hlow' : (UInt8.ofNat (m % 128 + 128)).toNat = m % 128 + 128 := toNat_ofNat (by omega)
          have hread := (ih (m / 128) (w' ++ rest)).mpr ⟨w', hw', rfl⟩
          rw [hlow', if_neg (by omega), hread, Option.bind_some, if_neg (by omega)]
          simp only [Option.some.injEq, Prod.mk.injEq, and_true]
          omega

/-! Combinators. -/

def pair (e : Encoding α) (e' : Encoding β) : Encoding (α × β) where
  write x := (e.write x.1).bind fun w => (e'.write x.2).map (w ++ ·)
  read bs := (e.read bs).bind fun r => (e'.read r.2).map fun r' => ((r.1, r'.1), r'.2)

variable {e : Encoding α}

/-- A pair is exact if both parts are. -/
theorem pair_exact {e' : Encoding β} (he : e.Exact) (he' : e'.Exact) : (pair e e').Exact := by
  rintro ⟨a, b⟩ bs rest
  simp only [pair, Option.bind_eq_some_iff, Option.map_eq_some_iff, Prod.exists, Prod.mk.injEq]
  constructor
  · rintro ⟨a', r, hread, b', r', hread', ⟨rfl, rfl⟩, rfl⟩
    obtain ⟨w, hw, rfl⟩ := (he _ _ _).mp hread
    obtain ⟨w', hw', rfl⟩ := (he' _ _ _).mp hread'
    exact ⟨w ++ w', ⟨w, hw, w', hw', rfl⟩, (append_assoc _ _ _).symm⟩
  · rintro ⟨_, ⟨w, hw, w', hw', rfl⟩, rfl⟩
    exact ⟨a, w' ++ rest, (he _ _ _).mpr ⟨w, hw, append_assoc _ _ _⟩, b, rest,
      (he' _ _ _).mpr ⟨w', hw', rfl⟩, ⟨rfl, rfl⟩, rfl⟩

/-- Encode a value as its image. Either direction may be refused. -/
def conv (f : α → Option β) (g : β → Option α) (e : Encoding β) : Encoding α where
  write a := (f a).bind e.write
  read bs := (e.read bs).bind fun r => (g r.1).map fun a => (a, r.2)

variable {f : α → Option β}

/-- A conversion that can be undone keeps exactness. -/
theorem conv_exact {g : β → Option α} {e : Encoding β} (hfg : ∀ a b, g b = some a ↔ f a = some b)
    (he : e.Exact) : (conv f g e).Exact := by
  intro a bs rest
  simp only [conv, Option.bind_eq_some_iff, Option.map_eq_some_iff, Prod.exists, Prod.mk.injEq]
  constructor
  · rintro ⟨b, r, hread, a', hg, rfl, rfl⟩
    obtain ⟨w, hw, rfl⟩ := (he _ _ _).mp hread
    exact ⟨w, ⟨b, (hfg _ _).mp hg, hw⟩, rfl⟩
  · rintro ⟨w, ⟨b, hf, hw⟩, rfl⟩
    exact ⟨b, rest, (he _ _ _).mpr ⟨w, hw, rfl⟩, a, (hfg _ _).mpr hf, rfl, rfl⟩

variable {g : β → α}

/-- A change of presentation keeps an encoding exact. -/
theorem conv_inverse_exact {f : α → β} {e : Encoding β} (hgf : ∀ a, g (f a) = a)
    (hfg : ∀ b, f (g b) = b) (he : e.Exact) :
    (conv (fun a => some (f a)) (fun b => some (g b)) e).Exact := by
  refine conv_exact ?_ he
  intro a b
  simp only [Option.some.injEq]
  constructor
  · rintro rfl
    exact hfg b
  · rintro rfl
    exact hgf a

/-- Integers of 32 bits, in two's complement. -/
def int32 : Encoding Int32 :=
  conv (fun i => some i.toBitVec.toNat)
    (fun m => if h : m < 2 ^ 32 then some (Int32.ofBitVec (BitVec.ofNatLT m h)) else none)
    (nat_be 4 (2 ^ 32))

theorem int32_exact : int32.Exact := by
  refine conv_exact ?_ (nat_be_exact (by decide))
  intro i m
  simp only [Option.some.injEq]
  constructor
  · intro h
    split at h
    · cases h
      rfl
    · cases h
  · rintro rfl
    rw [dif_pos i.toBitVec.isLt]
    rfl

/-- Integers of 64 bits, in two's complement. -/
def int64 : Encoding Int64 :=
  conv (fun i => some i.toBitVec.toNat)
    (fun m => if h : m < 2 ^ 64 then some (Int64.ofBitVec (BitVec.ofNatLT m h)) else none)
    (nat_be 8 (2 ^ 64))

theorem int64_exact : int64.Exact := by
  refine conv_exact ?_ (nat_be_exact (by decide))
  intro i m
  simp only [Option.some.injEq]
  constructor
  · intro h
    split at h
    · cases h
      rfl
    · cases h
  · rintro rfl
    rw [dif_pos i.toBitVec.isLt]
    rfl

/-- A constant takes no bytes. -/
def constant : Encoding Unit where
  write _ := some []
  read bs := some ((), bs)

theorem constant_exact : constant.Exact := by
  intro a bs rest
  simp [constant]

/-- `Fixed.add_padding`: `k` zeros after the value. They are read as they are
written. -/
def add_padding (e : Encoding α) (k : Nat) : Encoding α where
  write a := (e.write a).map (· ++ List.replicate k 0)
  read bs := (e.read bs).bind fun r =>
    if r.2.take k = List.replicate k 0 then some (r.1, r.2.drop k) else none

theorem add_padding_exact (he : e.Exact) (k : Nat) : (add_padding e k).Exact := by
  intro a bs rest
  simp only [add_padding, Option.bind_eq_some_iff, Option.map_eq_some_iff, Prod.exists,
    Option.ite_none_right_eq_some, Option.some.injEq, Prod.mk.injEq]
  constructor
  · rintro ⟨a', r, hread, hpad, rfl, rfl⟩
    obtain ⟨w, hw, rfl⟩ := (he _ _ _).mp hread
    refine ⟨_, ⟨w, hw, rfl⟩, ?_⟩
    rw [append_assoc, ← hpad, take_append_drop]
  · rintro ⟨_, ⟨w, hw, rfl⟩, rfl⟩
    refine ⟨a, replicate k 0 ++ rest, (he _ _ _).mpr ⟨w, hw, append_assoc _ _ _⟩, ?_, rfl, ?_⟩
    · exact take_left' (length_replicate)
    · exact drop_left' (length_replicate)

/-- An optional field: a byte says whether it is there. -/
def opt (e : Encoding α) : Encoding (Option α) where
  write
    | none => some [0]
    | some a => (e.write a).map (255 :: ·)
  read
    | [] => none
    | b :: bs =>
      if b = 0 then some (none, bs)
      else if b = 255 then (e.read bs).map fun r => (some r.1, r.2)
      else none

/-- An option is exact if what it holds is. -/
theorem opt_exact (he : e.Exact) : (opt e).Exact := by
  intro a bs rest
  cases bs with
  | nil =>
    cases a <;> simp [opt]
  | cons b bs =>
    simp only [opt]
    by_cases hnone : b = 0
    · subst hnone
      cases a <;> simp [eq_comm]
    · rw [if_neg hnone]
      by_cases hsome : b = 255
      · subst hsome
        rw [if_pos rfl]
        cases a with
        | none => simp [eq_comm]
        | some a =>
          simp only [Option.map_eq_some_iff, Prod.exists, Prod.mk.injEq, Option.some.injEq]
          constructor
          · rintro ⟨a', r, hread, rfl, rfl⟩
            obtain ⟨w, hw, rfl⟩ := (he _ _ _).mp hread
            exact ⟨_, ⟨w, hw, rfl⟩, rfl⟩
          · rintro ⟨_, ⟨w, hw, rfl⟩, hbs⟩
            simp only [cons_append, List.cons.injEq, true_and] at hbs
            exact ⟨a, rest, (he _ _ _).mpr ⟨w, hw, hbs⟩, rfl, rfl⟩
      · rw [if_neg hsome]
        cases a <;> simp_all

/-- A case of a union: what it is tagged with, and how the values of the case
are encoded. -/
structure Case (α : Type) where
  tag : UInt8
  content : Type
  encoding : Encoding content
  proj : α → Option content
  inj : content → α

/-- Write a value with the first case that it falls under, and read it with the
case of its tag. -/
def write_cases : List (Case α) → α → Option Bytes
  | [], _ => none
  | c :: rest, a =>
    match c.proj a with
    | some b => (c.encoding.write b).map (c.tag :: ·)
    | none => write_cases rest a

def read_cases : List (Case α) → UInt8 → Bytes → Option (α × Bytes)
  | [], _, _ => none
  | c :: rest, tag, bs =>
    if c.tag = tag then (c.encoding.read bs).map fun r => (c.inj r.1, r.2)
    else read_cases rest tag bs

def union (cases : List (Case α)) : Encoding α where
  write := write_cases cases
  read
    | [] => none
    | tag :: bs => read_cases cases tag bs

/-- The case encodes exactly the values it makes. -/
def Case.Exact (c : Case α) : Prop :=
  c.encoding.Exact ∧ ∀ a b, c.proj a = some b ↔ c.inj b = a

/-- A case is exact if its contents are. -/
theorem case_exact {tag : UInt8} {γ : Type} {e : Encoding γ} {proj : α → Option γ} {inj : γ → α}
    (he : e.Exact) (hinj : ∀ b, proj (inj b) = some b := by exact fun _ => rfl)
    (hproj : ∀ a b, proj a = some b → inj b = a := by rintro ⟨⟩ _ ⟨⟩; rfl) :
    Case.Exact ⟨tag, γ, e, proj, inj⟩ := by
  refine ⟨he, fun a b => ⟨hproj a b, ?_⟩⟩
  rintro rfl
  exact hinj b

variable {cases : List (Case α)} {l : List α}

theorem write_cases_tag {a : α} {w : Bytes} (h : write_cases cases a = some w) :
    ∃ c ∈ cases, ∃ bs, w = c.tag :: bs := by
  induction cases with
  | nil => cases h
  | cons c rest ih =>
    rw [write_cases] at h
    split at h
    · obtain ⟨bs, _, rfl⟩ := Option.map_eq_some_iff.mp h
      exact ⟨c, mem_cons_self, bs, rfl⟩
    · obtain ⟨c', hc', hw⟩ := ih h
      exact ⟨c', mem_cons_of_mem c hc', hw⟩

theorem read_cases_mem {tag : UInt8} {a : α} {bs rest : Bytes}
    (h : read_cases cases tag bs = some (a, rest)) : ∃ c ∈ cases, c.tag = tag ∧ ∃ b, c.inj b = a := by
  induction cases with
  | nil => cases h
  | cons c cases ih =>
    rw [read_cases] at h
    split at h
    · next htag =>
      obtain ⟨⟨b, r⟩, _, heq⟩ := Option.map_eq_some_iff.mp h
      cases heq
      exact ⟨c, mem_cons_self, htag, b, rfl⟩
    · obtain ⟨c', hc', hw⟩ := ih h
      exact ⟨c', mem_cons_of_mem c hc', hw⟩

/-- A union of exact cases with different tags and different values is exact. -/
theorem union_exact (hcases : ∀ c ∈ cases, c.Exact)
    (hapart : cases.Pairwise fun c c' => c.tag ≠ c'.tag ∧ ∀ b b', c.inj b ≠ c'.inj b') :
    (union cases).Exact := by
  intro a bs rest
  cases bs with
  | nil =>
    simp only [union, reduceCtorEq, false_iff, not_exists, not_and]
    intro w hw hnil
    obtain ⟨c, _, bs, rfl⟩ := write_cases_tag hw
    cases hnil
  | cons tag bs =>
    simp only [union]
    induction cases with
    | nil => simp [read_cases, write_cases]
    | cons c cases ih =>
      obtain ⟨hc, hproj⟩ := hcases c mem_cons_self
      obtain ⟨hfirst, hapart⟩ := pairwise_cons.mp hapart
      have ih := ih (fun c' hc' => hcases c' (mem_cons_of_mem c hc')) hapart
      simp only [read_cases, write_cases]
      by_cases htag : c.tag = tag
      · rw [if_pos htag]
        constructor
        · intro h
          obtain ⟨⟨b, r⟩, hread, heq⟩ := Option.map_eq_some_iff.mp h
          obtain ⟨rfl, rfl⟩ := heq
          obtain ⟨w, hw, rfl⟩ := (hc _ _ _).mp hread
          have hb : c.proj (c.inj b) = some b := (hproj _ _).mpr rfl
          simp only [hb, hw, Option.map_some]
          exact ⟨_, rfl, by rw [htag]; rfl⟩
        · rintro ⟨w, hw, hbs⟩
          split at hw
          · next b hb =>
            obtain ⟨u, hu, rfl⟩ := Option.map_eq_some_iff.mp hw
            simp only [cons_append, List.cons.injEq] at hbs
            rw [(hc b bs rest).mpr ⟨u, hu, hbs.2⟩, Option.map_some, (hproj a b).mp hb]
          · obtain ⟨c', hc', u, rfl⟩ := write_cases_tag hw
            simp only [cons_append, List.cons.injEq] at hbs
            exact absurd (htag.trans hbs.1) (hfirst c' hc').1
      · rw [if_neg htag, ih]
        constructor
        · intro h
          have hread := ih.mpr h
          obtain ⟨c', hc', _, b', hb'⟩ := read_cases_mem hread
          have hnone : c.proj a = none := by
            cases hb : c.proj a with
            | none => rfl
            | some b => exact absurd ((hproj a b).mp hb |>.trans hb'.symm) ((hfirst c' hc').2 b b')
          rw [hnone]
          exact h
        · rintro ⟨w, hw, hbs⟩
          split at hw
          · obtain ⟨u, _, rfl⟩ := Option.map_eq_some_iff.mp hw
            simp only [cons_append, List.cons.injEq] at hbs
            exact absurd hbs.1.symm htag
          · exact ⟨w, hw, hbs⟩

theorem union_visible (cases : List (Case α)) : (union cases).Visible := by
  intro a w hw hnil
  obtain ⟨_, _, _, rfl⟩ := write_cases_tag hw
  cases hnil

/-! Variable encodings. -/

/-- All the bytes. -/
def bytes_variable : Variable_encoding Bytes where
  write := some
  read := some

theorem bytes_variable_exact : bytes_variable.Exact := by
  intro a bs
  simp [bytes_variable, eq_comm]

/-- An encoding that has to read everything. -/
def whole (e : Encoding α) : Variable_encoding α where
  write := e.write
  read bs := (e.read bs).bind fun r => if r.2 = [] then some r.1 else none

theorem whole_exact (he : e.Exact) : (whole e).Exact := by
  intro a bs
  simp only [whole, Option.bind_eq_some_iff, Prod.exists, Option.ite_none_right_eq_some,
    Option.some.injEq]
  constructor
  · rintro ⟨a', r, hread, rfl, rfl⟩
    obtain ⟨w, hw, rfl⟩ := (he _ _ _).mp hread
    rw [hw, append_nil]
  · intro hw
    exact ⟨a, [], (he _ _ _).mpr ⟨bs, hw, (append_nil bs).symm⟩, rfl, rfl⟩

/-- The values of a list one after the other. -/
def write_list (e : Encoding α) : List α → Option Bytes
  | [] => some []
  | a :: l => (e.write a).bind fun w => (write_list e l).map (w ++ ·)

def read_list (e : Encoding α) : Nat → Bytes → Option (List α)
  | _, [] => some []
  | 0, _ :: _ => none
  | k + 1, b :: bs => (e.read (b :: bs)).bind fun r => (read_list e k r.2).map (r.1 :: ·)

def list_variable (e : Encoding α) : Variable_encoding (List α) where
  write := write_list e
  read bs := read_list e bs.length bs

/-- A written value is read back as its image. -/
def Encoding.Reads (e : Encoding α) (k : α → α) : Prop :=
  ∀ a w rest, e.write a = some w → e.read (w ++ rest) = some (k a, rest)

theorem Encoding.Exact.reads (he : e.Exact) : e.Reads id :=
  fun a w rest hw => (he a (w ++ rest) rest).mpr ⟨w, hw, rfl⟩

theorem write_list_of_read_list (he : e.Exact) {k : Nat} {bs : Bytes}
    (h : read_list e k bs = some l) : write_list e l = some bs := by
  induction k generalizing bs l with
  | zero =>
    cases bs with
    | nil =>
      cases h
      rfl
    | cons b bs => cases h
  | succ k ih =>
    cases bs with
    | nil =>
      cases h
      rfl
    | cons b bs =>
      obtain ⟨⟨a, r⟩, hread, h⟩ := Option.bind_eq_some_iff.mp h
      obtain ⟨l', hlist, rfl⟩ := Option.map_eq_some_iff.mp h
      obtain ⟨w, hw, hbs⟩ := (he _ _ _).mp hread
      rw [write_list, hw, Option.bind_some, ih hlist, Option.map_some, hbs]

variable {k : α → α}

theorem read_list_reads (he : e.Reads k) (hvisible : e.Visible) {w : Bytes}
    (h : write_list e l = some w) {n : Nat} (hn : w.length ≤ n) :
    read_list e n w = some (l.map k) := by
  induction l generalizing w n with
  | nil =>
    cases h
    simp [read_list]
  | cons a l ih =>
    obtain ⟨u, hu, hlist⟩ := Option.bind_eq_some_iff.mp h
    obtain ⟨w1, hw1, rfl⟩ := Option.map_eq_some_iff.mp hlist
    have hread := he a u w1 hu
    cases u with
    | nil => exact absurd rfl (hvisible a [] hu)
    | cons b u =>
      rw [cons_append] at hread hn ⊢
      cases n with
      | zero => cases hn
      | succ n =>
        rw [length_cons, length_append] at hn
        rw [read_list, hread, Option.bind_some, ih hw1 (by omega)]
        rfl

/-- A list is exact if its elements are, and are never empty strings. -/
theorem list_variable_exact (he : e.Exact) (hvisible : e.Visible) :
    (list_variable e).Exact := by
  refine fun l bs => ⟨write_list_of_read_list he, fun h => ?_⟩
  exact (read_list_reads he.reads hvisible h le_rfl).trans (by rw [map_id])

/-- A last field that may be missing. -/
def varopt (e : Encoding α) : Variable_encoding (Option α) where
  write
    | none => some []
    | some a => e.write a
  read
    | [] => some none
    | b :: bs => ((whole e).read (b :: bs)).map some

/-- So is an option at the end of a string. -/
theorem varopt_exact (he : e.Exact) (hvisible : e.Visible) : (varopt e).Exact := by
  intro a bs
  cases bs with
  | nil =>
    cases a with
    | none => simp [varopt]
    | some a =>
      simp only [varopt, Option.some.injEq, reduceCtorEq, false_iff]
      intro hw
      exact hvisible a [] hw rfl
  | cons b bs =>
    simp only [varopt, Option.map_eq_some_iff]
    cases a with
    | none => simp
    | some a =>
      simp only [Option.some.injEq, exists_eq_right]
      exact whole_exact he a (b :: bs)

def pair_variable (e : Encoding α) (v : Variable_encoding β) : Variable_encoding (α × β) where
  write x := (e.write x.1).bind fun w => (v.write x.2).map (w ++ ·)
  read bs := (e.read bs).bind fun r => (v.read r.2).map fun b => (r.1, b)

variable {v : Variable_encoding β}

theorem pair_variable_exact (he : e.Exact) (hv : v.Exact) : (pair_variable e v).Exact := by
  rintro ⟨a, b⟩ bs
  simp only [pair_variable, Option.bind_eq_some_iff, Option.map_eq_some_iff, Prod.exists,
    Prod.mk.injEq]
  constructor
  · rintro ⟨a', r, hread, b', hb, rfl, rfl⟩
    obtain ⟨w, hw, rfl⟩ := (he _ _ _).mp hread
    exact ⟨w, hw, r, (hv _ _).mp hb, rfl⟩
  · rintro ⟨w, hw, r, hr, rfl⟩
    exact ⟨a, r, (he _ _ _).mpr ⟨w, hw, rfl⟩, b, (hv _ _).mpr hr, rfl, rfl⟩

/-- A variable encoding followed by a byte string of a fixed length. -/
def followed (v : Variable_encoding α) (k : Nat) : Variable_encoding (α × Fixed k) where
  write x := (v.write x.1).map (· ++ x.2.val)
  read bs :=
    if h : k ≤ bs.length then
      (v.read (bs.take (bs.length - k))).map fun a =>
        (a, ⟨bs.drop (bs.length - k), by rw [List.length_drop]; omega⟩)
    else none

/-- What is followed by a fixed number of bytes. -/
theorem followed_exact {v : Variable_encoding α} (hv : v.Exact) (k : Nat) :
    (followed v k).Exact := by
  rintro ⟨a, s⟩ bs
  have hs := s.property
  simp only [followed, Option.map_eq_some_iff]
  constructor
  · intro h
    split at h
    · simp only [Option.map_eq_some_iff, Prod.mk.injEq] at h
      obtain ⟨a', hread, rfl, rfl⟩ := h
      exact ⟨_, (hv _ _).mp hread, take_append_drop _ _⟩
    · cases h
  · rintro ⟨w, hw, rfl⟩
    have hlen : (w ++ s.val).length - k = w.length := by
      rw [length_append]
      omega
    rw [dif_pos (by rw [length_append]; omega)]
    simp only [Option.map_eq_some_iff, Prod.mk.injEq, hlen, take_left, drop_left]
    exact ⟨a, (hv _ _).mpr hw, rfl, trivial⟩

def conv_variable (f : α → Option β) (g : β → Option α) (v : Variable_encoding β) :
    Variable_encoding α where
  write a := (f a).bind v.write
  read bs := (v.read bs).bind g

theorem conv_variable_exact {g : β → Option α} (hfg : ∀ a b, g b = some a ↔ f a = some b)
    (hv : v.Exact) : (conv_variable f g v).Exact := by
  intro a bs
  simp only [conv_variable, Option.bind_eq_some_iff]
  constructor
  · rintro ⟨b, hread, hg⟩
    exact ⟨b, (hfg _ _).mp hg, (hv _ _).mp hread⟩
  · rintro ⟨b, hf, hw⟩
    exact ⟨b, (hv _ _).mpr hw, (hfg _ _).mpr hf⟩

theorem conv_variable_inverse_exact {f : α → β} (hgf : ∀ a, g (f a) = a) (hfg : ∀ b, f (g b) = b)
    (hv : v.Exact) : (conv_variable (fun a => some (f a)) (fun b => some (g b)) v).Exact := by
  refine conv_variable_exact ?_ hv
  intro a b
  simp only [Option.some.injEq]
  constructor
  · rintro rfl
    exact hfg b
  · rintro rfl
    exact hgf a

/-- A variable encoding with its length in front. -/
def dynamic_size (v : Variable_encoding α) : Encoding α where
  write a := (v.write a).bind fun w => (uint30.write w.length).map (· ++ w)
  read bs := (uint30.read bs).bind fun r =>
    if r.1 ≤ r.2.length then (v.read (r.2.take r.1)).map fun a => (a, r.2.drop r.1) else none

theorem dynamic_size_reads {v : Variable_encoding α}
    (hv : ∀ a w, v.write a = some w → v.read w = some (k a)) : (dynamic_size v).Reads k := by
  intro a _ rest hwrite
  obtain ⟨w, hw, hlength⟩ := Option.bind_eq_some_iff.mp hwrite
  obtain ⟨u, hu, rfl⟩ := Option.map_eq_some_iff.mp hlength
  have hread := uint30_exact.reads _ u (w ++ rest) hu
  rw [append_assoc]
  simp only [dynamic_size, hread, Option.bind_some, id_eq]
  rw [if_pos (by simp), take_left, drop_left, hv a w hw]
  rfl

/-- A length in front keeps exactness. -/
theorem dynamic_size_exact {v : Variable_encoding α} (hv : v.Exact) : (dynamic_size v).Exact := by
  intro a bs rest
  constructor
  · simp only [dynamic_size, Option.bind_eq_some_iff, Option.map_eq_some_iff, Prod.exists,
      Option.ite_none_right_eq_some, Prod.mk.injEq]
    rintro ⟨l, r, hlength, hle, a', hread, rfl, rfl⟩
    obtain ⟨h, hh, rfl⟩ := (uint30_exact _ _ _).mp hlength
    have hlen : (r.take l).length = l := length_take_of_le hle
    refine ⟨h ++ r.take l, ⟨r.take l, (hv _ _).mp hread, h, by rw [hlen]; exact hh, rfl⟩, ?_⟩
    rw [append_assoc, take_append_drop]
  · rintro ⟨w, hw, rfl⟩
    exact dynamic_size_reads (fun a w => (hv a w).mpr) a w rest hw

/-- `bytes` -/
def bytes : Encoding Bytes := dynamic_size bytes_variable

theorem bytes_exact : bytes.Exact := dynamic_size_exact bytes_variable_exact

theorem write_be_length (k m : Nat) : (write_be k m).length = k := by
  induction k generalizing m with
  | zero => rfl
  | succ k ih => rw [write_be, length_cons, ih]

theorem dynamic_size_visible (v : Variable_encoding α) : (dynamic_size v).Visible := by
  intro a w hw hnil
  simp only [dynamic_size, Option.bind_eq_some_iff, Option.map_eq_some_iff] at hw
  obtain ⟨u, _, h, hh, rfl⟩ := hw
  simp only [uint30, nat_be, Option.ite_none_right_eq_some, Option.some.injEq] at hh
  have hlen := congrArg List.length hnil
  rw [length_append, ← hh.2, write_be_length] at hlen
  simp at hlen

/-- Strings of at most `k` characters, with their length on one byte. -/
def bounded_string (k : Nat) : Encoding Bytes where
  write s := if s.length ≤ k then some (UInt8.ofNat s.length :: s) else none
  read
    | [] => none
    | l :: bs =>
      if l.toNat ≤ k ∧ l.toNat ≤ bs.length then some (bs.take l.toNat, bs.drop l.toNat) else none

theorem bounded_string_exact {k : Nat} (hk : k < 256) : (bounded_string k).Exact := by
  intro s bs rest
  cases bs with
  | nil => simp [bounded_string]
  | cons l bs =>
    simp only [bounded_string, Option.ite_none_right_eq_some, Option.some.injEq, Prod.mk.injEq]
    constructor
    · rintro ⟨⟨hl, hle⟩, rfl, rfl⟩
      have hlen : (bs.take l.toNat).length = l.toNat := length_take_of_le hle
      refine ⟨_, ⟨by omega, rfl⟩, ?_⟩
      rw [hlen, UInt8.ofNat_toNat, cons_append, take_append_drop]
    · rintro ⟨_, ⟨hs, rfl⟩, hbs⟩
      simp only [cons_append, List.cons.injEq] at hbs
      obtain ⟨rfl, rfl⟩ := hbs
      have hl : (UInt8.ofNat s.length).toNat = s.length := toNat_ofNat (by omega)
      rw [hl, length_append]
      exact ⟨⟨hs, by omega⟩, take_left, drop_left⟩

/-! Encodings that go through another one. -/

/-- `e` writes a value as `w` writes what `f` makes of it, and reads the value
that `g` makes of what `w` reads. -/
def Factors (e : Encoding α) (w : Encoding β) (f : α → Option β) (g : β → α) : Prop :=
  (∀ a, e.write a = (f a).bind w.write) ∧
    ∀ bs, e.read bs = (w.read bs).map fun r => (g r.1, r.2)

theorem factors_refl (e : Encoding α) : Factors e e some id :=
  ⟨fun _ => rfl, fun bs => by cases e.read bs <;> rfl⟩

variable {w : Encoding β}

theorem Factors.congr {f' : α → Option β} {g' : β → α} (h : Factors e w f g) (hf : ∀ a, f a = f' a)
    (hg : ∀ b, g b = g' b) : Factors e w f' g' := by
  rw [← funext hf, ← funext hg]
  exact h

/-- Conversions are put in front. -/
theorem factors_conv {γ : Type} (h : Factors e w f g) (f' : γ → Option α) (g' : α → γ) :
    Factors (conv f' (fun a => some (g' a)) e) w (fun c => (f' c).bind f) (g' ∘ g) := by
  refine ⟨fun c => ?_, fun bs => ?_⟩
  · simp only [conv]
    cases f' c with
    | none => rfl
    | some a => exact h.1 a
  · simp only [conv, h.2]
    cases w.read bs <;> rfl

/-- Pairs factor if both parts do. -/
theorem factors_pair {α' β' : Type} {e' : Encoding α'} {w' : Encoding β'} {f' : α' → Option β'}
    {g' : β' → α'} (h : Factors e w f g) (h' : Factors e' w' f' g') :
    Factors (pair e e') (pair w w') (fun x => (f x.1).bind fun b => (f' x.2).map fun b' => (b, b'))
      (Prod.map g g') := by
  refine ⟨fun x => ?_, fun bs => ?_⟩
  · simp only [pair, h.1, h'.1]
    cases f x.1 with
    | none => rfl
    | some b =>
      cases f' x.2 with
      | none => cases hw : w.write b <;> simp [hw]
      | some b' => rfl
  · simp only [pair, h.2, h'.2]
    cases w.read bs with
    | none => rfl
    | some r =>
      simp only [Option.map_some, Option.bind_some]
      cases w'.read r.2 <;> rfl

/-- Options factor if what they hold does. -/
theorem factors_opt (h : Factors e w f g) :
    Factors (opt e) (opt w) (fun | none => some none | some a => (f a).map some) (Option.map g) := by
  refine ⟨fun x => ?_, fun bs => ?_⟩
  · cases x with
    | none => rfl
    | some a =>
      simp only [opt, h.1]
      cases f a <;> rfl
  · cases bs with
    | nil => rfl
    | cons b bs =>
      simp only [opt, h.2]
      split
      · rfl
      · split
        · cases w.read bs <;> rfl
        · rfl

/-- The cases of `c` are read as those of `c'`, up to `g`. -/
def Case_factors (g : β → α) (c : Case α) (c' : Case β) : Prop :=
  c.tag = c'.tag ∧ ∀ bs, (c.encoding.read bs).map (fun r => (c.inj r.1, r.2)) =
    (c'.encoding.read bs).map fun r => (g (c'.inj r.1), r.2)

theorem read_cases_factors {cases' : List (Case β)} (h : List.Forall₂ (Case_factors g) cases cases')
    (tag : UInt8) (bs : Bytes) :
    read_cases cases tag bs = (read_cases cases' tag bs).map fun r => (g r.1, r.2) := by
  induction h with
  | nil => rfl
  | cons hcase _ ih =>
    rw [read_cases, read_cases, hcase.1]
    split
    · rw [hcase.2, Option.map_map]
      rfl
    · exact ih

theorem forall₂_of_mapM {l' : List β} (h : l.mapM f = some l') :
    List.Forall₂ (fun a b => f a = some b) l l' := by
  induction l generalizing l' with
  | nil =>
    cases h
    exact .nil
  | cons a l ih =>
    rw [mapM_cons] at h
    obtain ⟨b, hb, h⟩ := Option.bind_eq_some_iff.mp h
    obtain ⟨l1, hl1, h⟩ := Option.bind_eq_some_iff.mp h
    cases h
    exact .cons hb (ih hl1)

/-- A list is its own image exactly when each of its elements is. -/
theorem mapM_map_eq_some_iff {l : List β} :
    (l.map g).mapM f = some l ↔ ∀ b ∈ l, f (g b) = some b := by
  induction l with
  | nil => simp
  | cons b l ih =>
    rw [map_cons, mapM_cons, forall_mem_cons, ← ih]
    constructor
    · intro h
      obtain ⟨b1, hb, h⟩ := Option.bind_eq_some_iff.mp h
      obtain ⟨l1, hl1, h⟩ := Option.bind_eq_some_iff.mp h
      cases h
      exact ⟨hb, hl1⟩
    · rintro ⟨hb, hl⟩
      rw [hb, hl]
      rfl

theorem write_list_factors (h : Factors e w f g) (l : List α) :
    write_list e l = (l.mapM f).bind (write_list w) := by
  induction l with
  | nil => rfl
  | cons a l ih =>
    rw [write_list, h.1, ih, mapM_cons]
    cases f a with
    | none => rfl
    | some b =>
      cases l.mapM f with
      | none => cases hw : w.write b <;> simp [hw]
      | some l' => simp [write_list]

theorem read_list_factors (h : Factors e w f g) (k : Nat) (bs : Bytes) :
    read_list e k bs = (read_list w k bs).map (List.map g) := by
  induction k generalizing bs with
  | zero => cases bs <;> rfl
  | succ k ih =>
    cases bs with
    | nil => rfl
    | cons b bs =>
      simp only [read_list, h.2]
      cases w.read (b :: bs) with
      | none => rfl
      | some r =>
        simp only [Option.map_some, Option.bind_some, ih]
        cases read_list w k r.2 <;> rfl

/-! What is read back may differ from what was written. -/

theorem conv_reads {f : α → Option β} {g : β → Option α} {e : Encoding β} (he : e.Exact)
    (hfg : ∀ a b, f a = some b → g b = some (k a)) : (conv f g e).Reads k := by
  intro a w rest hw
  obtain ⟨b, hb, hw⟩ := Option.bind_eq_some_iff.mp hw
  simp [conv, he.reads b w rest hw, hfg a b hb]

/-- Pairs are read back up to what their parts are. -/
theorem pair_reads {e' : Encoding β} {k' : β → β} (he : e.Reads k) (he' : e'.Reads k') :
    (pair e e').Reads (Prod.map k k') := by
  rintro ⟨a, b⟩ _ rest hwrite
  obtain ⟨w, hw, hwrite'⟩ := Option.bind_eq_some_iff.mp hwrite
  obtain ⟨w', hw', rfl⟩ := Option.map_eq_some_iff.mp hwrite'
  simp [pair, he a w (w' ++ rest) hw, he' b w' rest hw']

/-- So are lists. -/
theorem list_reads (he : e.Reads k) (hvisible : e.Visible) :
    (dynamic_size (list_variable e)).Reads (List.map k) :=
  dynamic_size_reads fun _ _ hw => read_list_reads he hvisible hw le_rfl

end Data_encoding
