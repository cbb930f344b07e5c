import Plexus.DelegateStorage
import Plexus.Encoding.OperationCanonicity

/-! How balance updates are written in receipts. -/

namespace plexus.operation_encoding

open Data_encoding List Qty Int64
open delegate_storage (Balance_update)

/-- Keys and cycles as they are written. -/
inductive Balance where
  | Contract (contract : Contract)
  | Rewards (delegate : Public_key_hash) (cycle : Int32)
  | Fees (delegate : Public_key_hash) (cycle : Int32)
  | Deposits (delegate : Public_key_hash) (cycle : Int32)

def balance_encoding : Encoding Balance :=
  union
    [⟨0, Contract, contract_encoding, fun | .Contract c => some c | _ => none, .Contract⟩,
      ⟨1, Public_key_hash × Int32, pair public_key_hash_encoding int32,
        fun | .Rewards d l => some (d, l) | _ => none, fun (d, l) => .Rewards d l⟩,
      ⟨2, Public_key_hash × Int32, pair public_key_hash_encoding int32,
        fun | .Fees d l => some (d, l) | _ => none, fun (d, l) => .Fees d l⟩,
      ⟨3, Public_key_hash × Int32, pair public_key_hash_encoding int32,
        fun | .Deposits d l => some (d, l) | _ => none, fun (d, l) => .Deposits d l⟩]

/-- `"change"` of an update -/
def change : Balance_update → Int64
  | .Credited v => v.to_mutez
  | .Debited v => -v.to_mutez
  | .MineCredited v => v.to_mutez
  | .MineDebited v => -v.to_mutez

def update_of (v : Int64) : Option Balance_update :=
  if v < 0 then (Qty.of_mutez (-v)).map .Debited else (Qty.of_mutez v).map .Credited

def balance_update_encoding : Encoding Balance_update :=
  conv (fun u => some (change u)) update_of int64

abbrev Balance_updates := List (Balance × Balance_update)

def balance_updates_encoding : Encoding Balance_updates :=
  dynamic_size (list_variable (pair balance_encoding balance_update_encoding))

theorem balance_encoding_exact : balance_encoding.Exact := by
  refine union_exact ?_ ?_
  · intro c hc
    simp only [mem_cons, not_mem_nil, or_false] at hc
    have hkey : (pair public_key_hash_encoding int32).Exact :=
      pair_exact public_key_hash_encoding_exact int32_exact
    rcases hc with rfl | rfl | rfl | rfl
    · exact case_exact contract_encoding_exact
    · exact case_exact hkey
    · exact case_exact hkey
    · exact case_exact hkey
  · simp

/-- What is read back: the token is lost, and a debit of nothing is a credit. -/
def credited {id : Token} (v : Qty id) : Balance_update := .Credited ⟨v.int64, v.nonneg⟩

def debited {id : Token} (v : Qty id) : Balance_update :=
  if v = .zero then .Credited .zero else .Debited ⟨v.int64, v.nonneg⟩

def read_back : Balance_update → Balance_update
  | .Credited v => credited v
  | .Debited v => debited v
  | .MineCredited v => credited v
  | .MineDebited v => debited v

theorem update_of_credit {id : Token} (v : Qty id) : update_of v.to_mutez = some (credited v) := by
  have hnonneg : ¬v.int64 < 0 := Int64.not_lt.mpr v.nonneg
  rw [update_of, to_mutez, if_neg hnonneg, of_mutez, dif_neg hnonneg]
  rfl

theorem update_of_debit {id : Token} (v : Qty id) : update_of (-v.to_mutez) = some (debited v) := by
  unfold debited
  by_cases hzero : v = .zero
  · have hread : update_of (-0) = some (.Credited .zero) := by decide
    rw [hzero, if_pos rfl]
    exact hread
  · have hlt := v.amount_lt
    have hpos : 0 < v.amount :=
      lt_of_le_of_ne v.amount_nonneg fun h => hzero (amount_eq_zero_iff.mp h.symm)
    have hneg : -v.to_mutez < 0 := by
      rw [lt_iff_toInt_lt, toInt_neg]
      unfold Qty.amount at hlt hpos
      rw [to_mutez, Int.bmod_eq_of_le (by omega) (by omega), toInt_zero]
      omega
    rw [update_of, if_pos hneg, if_neg hzero, Int64.neg_neg, of_mutez, to_mutez,
      dif_neg (Int64.not_lt.mpr v.nonneg)]
    rfl

theorem update_of_change (u : Balance_update) : update_of (change u) = some (read_back u) := by
  cases u with
  | Credited v => exact update_of_credit v
  | Debited v => exact update_of_debit v
  | MineCredited v => exact update_of_credit v
  | MineDebited v => exact update_of_debit v

theorem balance_updates_reads :
    balance_updates_encoding.Reads (List.map (Prod.map id read_back)) := by
  refine list_reads (pair_reads balance_encoding_exact.reads (conv_reads int64_exact ?_)) ?_
  · intro u i hi
    cases hi
    exact update_of_change u
  · rintro ⟨b, u⟩ w hw hnil
    obtain ⟨w1, hw1, hw⟩ := Option.bind_eq_some_iff.mp hw
    obtain ⟨w2, _, rfl⟩ := Option.map_eq_some_iff.mp hw
    exact union_visible _ b w1 hw1 (append_eq_nil_iff.mp hnil).1

/-- An update of tez. -/
def In_tez : Balance_update → Prop
  | .Credited _ => True
  | .Debited _ => True
  | .MineCredited _ => False
  | .MineDebited _ => False

theorem read_back_eq_iff {u : Balance_update} (h : change u ≠ 0) : read_back u = u ↔ In_tez u := by
  cases u with
  | Credited v => exact iff_of_true rfl trivial
  | Debited v =>
    have hv : v ≠ .zero := by
      rintro rfl
      exact h rfl
    exact iff_of_true (if_neg hv) trivial
  | MineCredited v => exact iff_of_false (by simp [read_back, credited]) id
  | MineDebited v =>
    refine iff_of_false (fun hread => ?_) id
    simp only [read_back, debited] at hread
    split at hread <;> cases hread

/-! Every entry takes at most 34 bytes. -/

theorem public_key_hash_written (k : Public_key_hash) :
    ∃ w, public_key_hash_encoding.write k = some w ∧ w.length = 21 := by
  cases k with
  | Ed25519 hash => exact ⟨_, rfl, congrArg Nat.succ hash.property⟩
  | Secp256k1 hash => exact ⟨_, rfl, congrArg Nat.succ hash.property⟩
  | P256 hash => exact ⟨_, rfl, congrArg Nat.succ hash.property⟩

theorem balance_written (b : Balance) :
    ∃ w, balance_encoding.write b = some w ∧ w.length ≤ 26 := by
  have hkey (d : Public_key_hash) (l : Int32) : ∃ w, (pair public_key_hash_encoding int32).write
      (d, l) = some w ∧ w.length = 25 := by
    obtain ⟨w, hw, hlength⟩ := public_key_hash_written d
    have hcycle : int32.write l = some (write_be 4 l.toBitVec.toNat) := if_pos l.toBitVec.isLt
    refine ⟨w ++ write_be 4 l.toBitVec.toNat, by simp only [pair, hw, hcycle]; rfl, ?_⟩
    rw [length_append, hlength, write_be_length]
  cases b with
  | Contract c =>
    cases c with
    | Implicit k =>
      obtain ⟨w, hw, hlength⟩ := public_key_hash_written k
      refine ⟨0 :: 0 :: w, ?_, by simp [hlength]⟩
      simp [balance_encoding, contract_encoding, union, write_cases, hw]
    | Originated hash => exact ⟨_, rfl, by simp [hash.property]⟩
  | Rewards d l =>
    obtain ⟨w, hw, hlength⟩ := hkey d l
    exact ⟨1 :: w, by simp [balance_encoding, union, write_cases, hw], by simp [hlength]⟩
  | Fees d l =>
    obtain ⟨w, hw, hlength⟩ := hkey d l
    exact ⟨2 :: w, by simp [balance_encoding, union, write_cases, hw], by simp [hlength]⟩
  | Deposits d l =>
    obtain ⟨w, hw, hlength⟩ := hkey d l
    exact ⟨3 :: w, by simp [balance_encoding, union, write_cases, hw], by simp [hlength]⟩

theorem balance_updates_written (l : Balance_updates) (hsize : 34 * l.length < 2 ^ 30) :
    ∃ w, balance_updates_encoding.write l = some w := by
  have hlist : ∃ w, write_list (pair balance_encoding balance_update_encoding) l = some w ∧
      w.length ≤ 34 * l.length := by
    clear hsize
    induction l with
    | nil => exact ⟨[], rfl, le_rfl⟩
    | cons x l ih =>
      obtain ⟨w, hw, hlength⟩ := ih
      obtain ⟨w1, hw1, _⟩ := balance_written x.1
      have hchange : balance_update_encoding.write x.2 =
          some (write_be 8 (change x.2).toBitVec.toNat) := if_pos (change x.2).toBitVec.isLt
      refine ⟨w1 ++ write_be 8 (change x.2).toBitVec.toNat ++ w, ?_, ?_⟩
      · rw [write_list, hw]
        simp only [pair, hw1, hchange]
        rfl
      · rw [length_append, length_append, write_be_length, length_cons]
        omega
  obtain ⟨w, hw, hlength⟩ := hlist
  refine ⟨write_be 4 w.length ++ w, ?_⟩
  have hprefixed : uint30.write w.length = some (write_be 4 w.length) := if_pos (by omega)
  simp only [balance_updates_encoding, dynamic_size, list_variable, hw, Option.bind_some, hprefixed]
  rfl

/-- Updates that are not zero are read back as they were written exactly when none is
of MINE. Lists that are not too long for their length are written. -/
theorem balance_updates_read_back_iff (l : Balance_updates) (hnonzero : ∀ x ∈ l, change x.2 ≠ 0) :
    (34 * l.length < 2 ^ 30 → ∃ w, balance_updates_encoding.write l = some w) ∧
      ∀ w, balance_updates_encoding.write l = some w →
        (balance_updates_encoding.read w = some (l, []) ↔ ∀ x ∈ l, In_tez x.2) := by
  refine ⟨balance_updates_written l, fun w hw => ?_⟩
  have hread := balance_updates_reads l w [] hw
  rw [append_nil] at hread
  rw [hread, Option.some.injEq, Prod.mk.injEq, and_iff_left rfl]
  have hmap : l.map (Prod.map id read_back) = l ↔ ∀ x ∈ l, Prod.map id read_back x = x := by
    conv_lhs => rw [← map_id l, map_map]
    exact map_inj_left
  rw [hmap]
  refine forall₂_congr fun x hx => ?_
  rw [← read_back_eq_iff (hnonzero x hx), Prod.ext_iff]
  exact and_iff_right rfl

/-- A debit of tez survives. -/
theorem balance_updates_read_back_tez :
    let delegate := Public_key_hash.Ed25519 ⟨replicate 20 0, rfl⟩
    ∃ w, balance_updates_encoding.write [(.Fees delegate 7, .Debited ⟨1, by decide⟩)] = some w ∧
      balance_updates_encoding.read w = some ([(.Fees delegate 7, .Debited ⟨1, by decide⟩)], []) := by
  intro delegate
  obtain ⟨hwritten, hread⟩ :=
    balance_updates_read_back_iff [(.Fees delegate 7, .Debited ⟨1, by decide⟩)]
      (forall_mem_singleton.mpr (by decide))
  obtain ⟨w, hw⟩ := hwritten (by decide)
  exact ⟨w, hw, (hread w hw).mpr (forall_mem_singleton.mpr trivial)⟩

/-- A debit of MINE is read as a debit of tez. -/
theorem balance_updates_read_back_mine :
    let delegate := Public_key_hash.Ed25519 ⟨replicate 20 0, rfl⟩
    ∃ w, balance_updates_encoding.write [(.Fees delegate 7, .MineDebited ⟨1, by decide⟩)] = some w ∧
      balance_updates_encoding.read w = some ([(.Fees delegate 7, .Debited ⟨1, by decide⟩)], []) := by
  intro delegate
  obtain ⟨w, hw⟩ := balance_updates_written
    [(.Fees delegate 7, .MineDebited ⟨1, by decide⟩)] (by decide)
  have hread := balance_updates_reads _ w [] hw
  rw [append_nil] at hread
  exact ⟨w, hw, hread⟩

end plexus.operation_encoding
