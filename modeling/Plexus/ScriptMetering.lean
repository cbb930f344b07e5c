import Plexus.Metering

/-! What is done to scripts and big maps is charged correctly, and is not seen
in the ledger. -/

namespace plexus

open raw_context

open Result (meets_ok)
open Indexed_data_storage (get_spec)
open Traced (outcome_inv)

/-- No exception is raised. -/
abbrev Never (_ : Exn) : Prop := False

/-- A part of an operation that is charged correctly, and what it returns. -/
structure Charged {α : Type} (R : Exn → Prop) (Q : α → Prop) (c : Context) (m : Carbonated α)
    (ctxt : α → Option Context) : Prop where
  within : Metered .content R c m ctxt
  of_ok : ∀ {a}, m.outcome = .ok a → Q a

section

variable {α β : Type} {c c' : Context} {ctxt : α → Option Context} {ctxt' : β → Option Context}

namespace Charged

variable {R : Exn → Prop} {P : α → Prop} {Q : β → Prop} {r : Tzresult α}

variable {m : Carbonated α}

/-- More exceptions may be allowed. -/
theorem mono {R' : Exn → Prop} (h : Charged R P c m ctxt) (hR : ∀ x, R x → R' x) :
    Charged R' P c m ctxt := ⟨h.within.mono hR, h.of_ok⟩

/-- What raises nothing may stand where exceptions are allowed. -/
theorem weaken (h : Charged Never P c m ctxt) : Charged R P c m ctxt := h.mono fun _ => False.elim

/-- A part that raises nothing can stand anywhere. -/
theorem metered {scope : Scope} (h : Charged Never P c m ctxt) :
    Metered scope R c m ctxt := h.weaken.within.of_content

theorem imp {P' : α → Prop} (h : Charged R P c m ctxt) (hP : ∀ a, P a → P' a) :
    Charged R P' c m ctxt where
  within := h.within
  of_ok ha := hP _ (h.of_ok ha)

/-- What is returned, named by the computation, belongs to the same operation. -/
theorem part (h : Charged R P c m ctxt) :
    Charged R (fun a => m.outcome = .ok a ∧ P a ∧ ∀ c', ctxt a = some c' → Same_operation c c') c m
      ctxt where
  within := h.within
  of_ok ha := ⟨ha, h.of_ok ha, fun _ => h.within.same_operation ha⟩

/-- Returning a context with the same meter is free. -/
theorem pure_of {a : α} (ha : ctxt a = some c') (h : Same_meter c c') (hP : P a) :
    Charged R P c (Pure.pure a : Carbonated α) ctxt where
  within := .pure_of ha h
  of_ok h := by
    cases h
    exact hP

theorem fail {e : Error} :
    Charged R P c (liftM (plexus.fail e : Tzresult α) : Carbonated α) ctxt where
  within := .fail
  of_ok h := absurd h fail_ne_ok

/-- A computation without events is free and may raise. -/
theorem lift_within (hr : r.Within R) (hP : ∀ a, r = .ok a → P a)
    (h : ∀ a c', r = .ok a → ctxt a = some c' → Same_meter c c') :
    Charged R P c (liftM r : Carbonated α) ctxt := ⟨.lift_within hr h, hP _⟩

theorem raise {x : Exn} (hx : R x) :
    Charged R P c (liftM (.raise x : Tzresult α) : Carbonated α) ctxt :=
  lift_within (Result.within_raise hx) (by simp) (by simp)

/-- A computation without events is free. -/
theorem lift (hr : r.Meets P) (h : ∀ a c', P a → ctxt a = some c' → Same_meter c c') :
    Charged R P c (liftM r : Carbonated α) ctxt where
  within := .lift hr h
  of_ok := hr.of_ok

/-- A check comes first; what it established is known afterwards. -/
theorem check_bind (hr : r.Meets P) {f : α → Carbonated β}
    (hf : ∀ a, P a → Charged R Q c (f a) ctxt') : Charged R Q c (liftM r >>= f) ctxt' where
  within := .check_bind hr fun a ha => (hf a ha).within
  of_ok hb := by
    obtain ⟨a, ha, hb⟩ := outcome_inv hb
    exact (hf a (hr.of_ok ha)).of_ok hb

/-- What the first part established holds where the second one starts. -/
theorem bind {f : α → Carbonated β} (hm : Charged R P c m ctxt)
    (hf : ∀ a, P a → ∃ c', ctxt a = some c' ∧ Charged R Q c' (f a) ctxt') :
    Charged R Q c (m >>= f) ctxt' where
  within := hm.within.bind fun a ha => (hf a (hm.of_ok ha)).imp fun _ h => ⟨h.1, h.2.within⟩
  of_ok hb := by
    obtain ⟨a, ha, hb⟩ := outcome_inv hb
    obtain ⟨c', _, hfa⟩ := hf a (hm.of_ok ha)
    exact hfa.of_ok hb

/-- The first part returns a context alone. -/
theorem bind_context {P : Context → Prop} {m : Carbonated Context} {f : Context → Carbonated β}
    (hm : Charged R P c m some) (hf : ∀ c', P c' → Charged R Q c' (f c') ctxt') :
    Charged R Q c (m >>= f) ctxt' :=
  hm.bind fun c' h => ⟨c', rfl, hf c' h⟩

/-- The first part returns a context and a value. -/
theorem bind_fst {P : Context × α → Prop} {m : Carbonated (Context × α)}
    {f : Context × α → Carbonated β} (hm : Charged R P c m fun r => some r.1)
    (hf : ∀ c' a, P (c', a) → Charged R Q c' (f (c', a)) ctxt') : Charged R Q c (m >>= f) ctxt' :=
  hm.bind fun r h => ⟨r.1, rfl, hf r.1 r.2 h⟩

/-- The first part returns a value and a context. -/
theorem bind_snd {P : α × Context → Prop} {m : Carbonated (α × Context)}
    {f : α × Context → Carbonated β} (hm : Charged R P c m fun r => some r.2)
    (hf : ∀ a c', P (a, c') → Charged R Q c' (f (a, c')) ctxt') : Charged R Q c (m >>= f) ctxt' :=
  hm.bind fun r h => ⟨r.2, rfl, hf r.1 r.2 h⟩

/-- Adding to the trace of an error changes nothing else. -/
theorem trace {e : Error} (hm : Charged R P c m ctxt) :
    Charged R P c (trace_carbonated e m) ctxt where
  within := hm.within.trace
  of_ok ha := hm.of_ok (trace_eq_ok_iff.mp ha)

theorem emit_bind {e : Event} (he : e.Allowed c.level) (hgas : e.gas = 0)
    (hburned : e.burned = 0) (hm : Charged R P c m ctxt) :
    Charged R P c (Traced.emit e >>= fun _ => m) ctxt where
  within := .emit_bind he hgas (fun _ => hburned) hm.within
  of_ok ha := by
    obtain ⟨_, _, ha⟩ := outcome_inv ha
    exact hm.of_ok ha

/-- The meter of the starting context is all that counts. -/
theorem of_same_meter (h : Same_meter c c') (hm : Charged R P c' m ctxt) :
    Charged R P c m ctxt where
  within := hm.within.of_same_meter h
  of_ok := hm.of_ok

end Charged

/-- A computation that is charged correctly and leaves the ledger as it is. -/
abbrev Off_ledger (c : Context) (m : Carbonated α) (ctxt : α → Option Context) : Prop :=
  Charged Never (fun a => ∀ c', ctxt a = some c' → c'.ledger = c.ledger) c m ctxt

namespace Off_ledger

variable {r : Tzresult α}

/-- Returning the ledger as it is. -/
theorem pure_of {a : α} (ha : ctxt a = some c') (h : Same_meter c c')
    (hledger : c'.ledger = c.ledger) : Off_ledger c (Pure.pure a : Carbonated α) ctxt := by
  refine Charged.pure_of ha h fun c'' hc'' => ?_
  rw [ha] at hc''
  cases hc''
  exact hledger

theorem check_bind {P : α → Prop} (hr : r.Meets P) {f : α → Carbonated β}
    (hf : ∀ a, P a → Off_ledger c (f a) ctxt') : Off_ledger c (liftM r >>= f) ctxt' :=
  Charged.check_bind hr hf

/-- Two parts off the ledger, one after the other. -/
theorem bind {m : Carbonated α} {f : α → Carbonated β} (hm : Off_ledger c m ctxt)
    (hf : ∀ a, ∃ c', ctxt a = some c' ∧ Off_ledger c' (f a) ctxt') :
    Off_ledger c (m >>= f) ctxt' := by
  refine Charged.bind hm fun a ha => ?_
  obtain ⟨c', hc', hfa⟩ := hf a
  exact ⟨c', hc', hfa.imp fun _ h c'' hc'' => (h c'' hc'').trans (ha c' hc')⟩

theorem bind_context {m : Carbonated Context} {f : Context → Carbonated β}
    (hm : Off_ledger c m some) (hf : ∀ c', Off_ledger c' (f c') ctxt') :
    Off_ledger c (m >>= f) ctxt' :=
  hm.bind fun c' => ⟨c', rfl, hf c'⟩

theorem bind_fst {m : Carbonated (Context × α)} {f : Context × α → Carbonated β}
    (hm : Off_ledger c m fun r => some r.1) (hf : ∀ c' a, Off_ledger c' (f (c', a)) ctxt') :
    Off_ledger c (m >>= f) ctxt' :=
  hm.bind fun r => ⟨r.1, rfl, hf r.1 r.2⟩

theorem bind_snd {m : Carbonated (α × Context)} {f : α × Context → Carbonated β}
    (hm : Off_ledger c m fun r => some r.2) (hf : ∀ a c', Off_ledger c' (f (a, c')) ctxt') :
    Off_ledger c (m >>= f) ctxt' :=
  hm.bind fun r => ⟨r.2, rfl, hf r.1 r.2⟩

/-- Charging gas is not seen in the ledger. -/
theorem consume_gas (c : Context) {cost : Cost} (hcost : gas_limit_repr.Cost_nonneg cost) :
    Off_ledger c (raw_context.consume_gas c cost) some where
  within := consume_gas_metered c hcost
  of_ok ha c' hc' := by
    cases hc'
    exact consume_gas_ledger ha

section Accessors

variable {K V : Type} [DecidableEq K] {s : Indexed_data_storage K V} {k : K} {v : V}
  (hs : ∀ ctxt store, Same_meter ctxt (s.update ctxt store) ∧
    (s.update ctxt store).ledger = ctxt.ledger)
include hs

/-- Setting a key of a store that is not in the ledger. -/
theorem set_value : Off_ledger c (liftM (s.set c k v)) some := by
  refine (Charged.lift Indexed_data_storage.set_spec ?_).imp ?_
  · rintro _ _ rfl ⟨⟩
    exact (hs c _).1
  · rintro _ rfl _ ⟨⟩
    exact (hs c _).2

/-- Initialising a key of a store that is not in the ledger. -/
theorem init_value : Off_ledger c (liftM (s.init c k v)) some := by
  refine (Charged.lift Indexed_data_storage.init_spec ?_).imp ?_
  · rintro _ _ ⟨_, rfl⟩ ⟨⟩
    exact (hs c _).1
  · rintro _ ⟨_, rfl⟩ _ ⟨⟩
    exact (hs c _).2

end Accessors

end Off_ledger

end

/-! Expressions. -/

namespace script_repr

variable [Environment]

/-- Decoding ends, and its cost is not negative. -/
theorem force_decode_spec {lexpr : Lazy_expr} :
    (force_decode lexpr).Meets fun r => gas_limit_repr.Cost_nonneg r.2 := by
  unfold force_decode
  split
  · exact meets_ok gas_limit_repr.free_nonneg
  · exact meets_ok gas_limit_repr.free_nonneg
  · split
    · exact meets_ok (deserialized_cost_nonneg _)
    · exact meets_fail

/-- Encoding ends, and its cost is not negative. -/
theorem force_bytes_spec {lexpr : Lazy_expr} :
    (force_bytes lexpr).Meets fun r => gas_limit_repr.Cost_nonneg r.2 := by
  unfold force_bytes
  split
  · split
    · exact meets_ok
        (gas_limit_repr.add_cost_nonneg (traversal_cost_nonneg _) (serialized_cost_nonneg _))
    · exact meets_fail
  · exact meets_ok gas_limit_repr.free_nonneg
  · exact meets_ok gas_limit_repr.free_nonneg

end script_repr

section Scripts

variable [Environment]

/-- Decoding a script costs gas and nothing else. -/
theorem script.force_decode_off_ledger (c : Context) (lexpr : Lazy_expr) :
    Off_ledger c (script.force_decode c lexpr) fun r => some r.2 := by
  refine .check_bind script_repr.force_decode_spec fun ⟨v, cost⟩ hcost => ?_
  refine .bind_context (.consume_gas c hcost) fun c1 => ?_
  exact .pure_of rfl (.refl c1) rfl

omit [Environment] in
theorem raw_context.total_check_enough_gas (c : Context) (cost : Cost) :
    (check_enough_gas c cost).Total := by
  refine Result.total_bind (gas_limit_repr.total_consume _ _ _ _) ?_
  intro _ _
  exact Result.total_ok ()

/-! Carbonated storage. -/

namespace Carbonated_map_expr

open gas_limit_repr

variable {s : Carbonated_map_expr} (c : Context) (contract : Contract)

omit [Environment] in
theorem stored_length_nonneg (bytes : MBytes) : 0 ≤ stored_length bytes := by
  unfold stored_length
  omega

omit [Environment] in
theorem mem_off_ledger : Off_ledger c (s.mem c contract) fun r => some r.1 := by
  refine .bind_context (.consume_gas c (read_bytes_cost_nonneg (le_refl 0))) fun c1 => ?_
  exact .pure_of rfl (.refl c1) rfl

theorem consume_deserialize_gas_off_ledger (value : Lazy_expr) :
    Off_ledger c (consume_deserialize_gas c value) some := by
  refine .check_bind (total_check_enough_gas c _).meets fun _ _ => ?_
  refine .check_bind script_repr.force_decode_spec fun ⟨_, cost⟩ hcost => ?_
  exact .consume_gas c hcost

/-- Reading pays for the length and for the decoding. -/
theorem get_option_off_ledger : Off_ledger c (s.get_option c contract) fun r => some r.1 := by
  refine .bind_context (.consume_gas c (read_bytes_cost_nonneg (le_refl 0))) fun c1 => ?_
  split
  · exact .pure_of rfl (.refl c1) rfl
  · refine .bind_context (.consume_gas c1 (read_bytes_cost_nonneg (stored_length_nonneg _)))
      fun c2 => ?_
    refine .bind_context (consume_deserialize_gas_off_ledger c2 _) fun c3 => ?_
    exact .pure_of rfl (.refl c3) rfl

/-- Writing pays for the encoding and for the bytes. -/
theorem consume_serialize_write_gas_off_ledger (value : Lazy_expr) :
    Off_ledger c (consume_serialize_write_gas c value) fun r => some r.1 := by
  refine .check_bind script_repr.force_bytes_spec fun ⟨bytes, cost⟩ hcost => ?_
  refine .bind_context (.consume_gas c hcost) fun c1 => ?_
  refine .bind_context (.consume_gas c1 (write_bytes_cost_nonneg (stored_length_nonneg bytes)))
    fun c2 => ?_
  exact .pure_of rfl (.refl c2) rfl

theorem set_off_ledger (hs : ∀ ctxt store, Same_meter ctxt (s.update ctxt store) ∧
    (s.update ctxt store).ledger = ctxt.ledger) (value : Lazy_expr) :
    Off_ledger c (s.set c contract value) fun r => some r.1 := by
  refine .bind_fst (consume_serialize_write_gas_off_ledger c value) fun c1 bytes => ?_
  obtain ⟨hmeter, hledger⟩ := hs c1 ((s.store c1).put contract (some bytes))
  dsimp only
  split
  · exact .fail
  · exact .pure_of rfl hmeter hledger

variable (hs : ∀ ctxt store, Same_meter ctxt (s.update ctxt store))

include hs

/-- After it is paid for, the bytes are stored under the contract. -/
theorem init_spec (value : Lazy_expr) : Charged Never (fun r => ∃ c1 bytes, c1.ledger = c.ledger ∧
    r.1 = s.update c1 ((s.store c1).put contract (some bytes))) c (s.init c contract value)
      fun r => some r.1 := by
  refine .bind_fst (consume_serialize_write_gas_off_ledger c value) fun c1 bytes hledger => ?_
  dsimp only
  split
  · exact .fail
  · exact .pure_of rfl (hs c1 _) ⟨c1, bytes, hledger c1 rfl, rfl⟩

omit [Environment] in
/-- After it is paid for, nothing is stored under the contract. -/
theorem remove_spec : Charged Never (fun r => ∃ c1, c1.ledger = c.ledger ∧
    r.1 = s.update c1 ((s.store c1).put contract none)) c (s.remove c contract)
      fun r => some r.1 := by
  refine .bind_context (Off_ledger.consume_gas c (write_bytes_cost_nonneg (le_refl 0)))
    fun c1 hledger => ?_
  exact .pure_of rfl (hs c1 _) ⟨c1, hledger c1 rfl, rfl⟩

end Carbonated_map_expr

namespace Storage.Big_map

open gas_limit_repr

variable (c : Context) (id : ℤ) (key_hash : Nat)

theorem contents_init_set_off_ledger (value : Expr) :
    Off_ledger c (Contents.init_set c id key_hash value) fun r => some r.1 := by
  have hlength : 0 ≤ Contents.length value := Int.natCast_nonneg _
  refine .bind_context (.consume_gas c (alloc_mbytes_cost_nonneg hlength)) fun c1 => ?_
  refine .bind_context (.consume_gas c1 (write_bytes_cost_nonneg hlength)) fun c2 => ?_
  exact .pure_of rfl ⟨rfl⟩ rfl

theorem contents_remove_off_ledger :
    Off_ledger c (Contents.remove c id key_hash) fun r => some r.1 := by
  refine .bind_context (.consume_gas c (write_bytes_cost_nonneg (le_refl 0))) fun c1 => ?_
  exact .pure_of rfl ⟨rfl⟩ rfl

omit [Environment] in
theorem copy_off_ledger (from_ to_ : ℤ) : Off_ledger c (liftM (copy c from_ to_)) some := by
  unfold copy
  split
  · exact .pure_of rfl ⟨rfl⟩ rfl
  · exact .fail

end Storage.Big_map

namespace contract_storage

omit [Environment] in
/-- Both branches of the test for temporary big maps return the same context. -/
theorem size_branch_off_ledger {c c' : Context} (hsame : Same_meter c c')
    (hledger : c'.ledger = c.ledger) {p : Prop} [Decidable p] (size size' : ℤ) :
    Off_ledger c (if p then pure (c', size) else pure (c', size') : Carbonated (Context × ℤ))
      fun r => some r.1 := by
  split
  · exact .pure_of rfl hsame hledger
  · exact .pure_of rfl hsame hledger

variable (c : Context) (contract : Contract)

/-- Every kind of change of a big map is off the ledger. -/
theorem update_script_big_map_item_off_ledger (total : ℤ) (item : Big_map_diff_item) :
    Off_ledger c (update_script_big_map_item c total item) fun r => some r.1 := by
  cases item with
  | Clear id =>
    refine .check_bind get_spec fun size _ => ?_
    apply size_branch_off_ledger
    · exact ⟨rfl⟩
    · rfl
  | Copy from_ to_ =>
    refine .bind_context (Storage.Big_map.copy_off_ledger c from_ to_) fun c1 => ?_
    split
    · exact .pure_of rfl (.refl c1) rfl
    · refine .check_bind get_spec fun size _ => ?_
      exact .pure_of rfl (.refl c1) rfl
  | Alloc big_map key_type value_type =>
    refine .bind_context (.init_value fun _ _ => ⟨⟨rfl⟩, rfl⟩) fun c1 => ?_
    refine .bind_context (.init_value fun _ _ => ⟨⟨rfl⟩, rfl⟩) fun c2 => ?_
    refine .bind_context (.init_value fun _ _ => ⟨⟨rfl⟩, rfl⟩) fun c3 => ?_
    exact size_branch_off_ledger (.refl c3) rfl _ _
  | Update big_map diff_key diff_key_hash diff_value =>
    cases diff_value with
    | none =>
      refine .bind_fst (Storage.Big_map.contents_remove_off_ledger c _ _) fun c1 r => ?_
      refine .check_bind get_spec fun size _ => ?_
      refine .bind_context (.set_value fun _ _ => ⟨⟨rfl⟩, rfl⟩) fun c2 => ?_
      exact size_branch_off_ledger (.refl c2) rfl _ _
    | some v =>
      refine .bind_fst (Storage.Big_map.contents_init_set_off_ledger c _ _ v) fun c1 r => ?_
      refine .check_bind get_spec fun size _ => ?_
      refine .bind_context (.set_value fun _ _ => ⟨⟨rfl⟩, rfl⟩) fun c2 => ?_
      exact size_branch_off_ledger (.refl c2) rfl _ _

/-- So is a list of changes, by induction on it. -/
theorem update_script_big_map_off_ledger (big_map_diff : Option Big_map_diff) :
    Off_ledger c (update_script_big_map c big_map_diff) fun r => some r.1 := by
  have hitems : ∀ (items : List Big_map_diff_item) (c : Context) (total : ℤ),
      Off_ledger c (update_script_big_map_items c total items) fun r => some r.1 := by
    intro items
    induction items with
    | nil =>
      intro c total
      exact .pure_of rfl (.refl c) rfl
    | cons item rest ih =>
      intro c total
      exact .bind_fst (update_script_big_map_item_off_ledger c total item) fun c1 total' =>
        ih c1 total'
  cases big_map_diff with
  | none => exact .pure_of rfl (.refl c) rfl
  | some diff => exact hitems diff c 0

/-- Reading a script takes gas and nothing else. -/
theorem get_script_off_ledger :
    Off_ledger c (get_script c contract) fun r => some r.1 := by
  refine .bind_fst (Carbonated_map_expr.get_option_off_ledger c contract) fun c1 code => ?_
  refine .bind_fst (Carbonated_map_expr.get_option_off_ledger c1 contract) fun c2 storage => ?_
  dsimp only
  split
  · exact .pure_of rfl (.refl c2) rfl
  · exact .pure_of rfl (.refl c2) rfl
  · exact .fail
  · exact .fail

/-- A new storage is written next to the ledger. -/
theorem update_script_storage_off_ledger (storage : Expr)
    (diff : Option Big_map_diff) :
    Off_ledger c (update_script_storage c contract storage diff) some := by
  refine .bind_fst (update_script_big_map_off_ledger c diff) fun c1 big_map_size => ?_
  refine .bind_fst (Carbonated_map_expr.set_off_ledger c1 contract
    (fun _ _ => ⟨⟨rfl⟩, rfl⟩) _) fun c2 size => ?_
  refine .check_bind get_spec fun previous_size _ => ?_
  exact .set_value fun _ _ => ⟨⟨rfl⟩, rfl⟩

omit [Environment] in
/-- The test for empty transactions reads only. -/
theorem check_not_empty_transaction_off_ledger (amount : Tez)
    (mine_amount : Mine) :
    Off_ledger c (check_not_empty_transaction c contract amount mine_amount) some := by
  unfold check_not_empty_transaction
  split
  · exact .pure_of rfl (.refl c) rfl
  · refine .bind_fst (Carbonated_map_expr.mem_off_ledger c contract) fun c1 _ => ?_
    refine .check_bind fail_unless_spec fun _ _ => ?_
    exact .pure_of rfl (.refl c1) rfl

end contract_storage

end Scripts

end plexus
