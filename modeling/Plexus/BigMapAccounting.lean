import Plexus.EnvironmentLaws

/-! The bytes of big maps: what is kept for each of them, and what a diff adds
to the size of a contract. -/

namespace plexus

open Indexed_data_storage Option Store

open Traced (outcome_inv outcome_pure outcome_bind_eq_ok_iff)

namespace contract_storage

variable [Environment] {c c' : Context}

/-- The bytes of one binding. -/
def binding_bytes (_ : Nat) (value : Expr) : ℤ :=
  Storage.Big_map.Contents.length value + big_map_key_cost

/-- The bytes of the bindings of a big map. -/
def contents_bytes (contents : Option (Store Nat Expr)) : ℤ :=
  (contents.getD Store.empty).sum binding_bytes

omit [Environment] in
/-- What a big map adds to the size of a contract. Temporary big maps add
nothing. -/
def charge (id : ℤ) (total_bytes : ℤ) : ℤ := if id < 0 then 0 else big_map_cost + total_bytes

omit [Environment] in
/-- What all big maps add to the sizes of contracts. -/
def charged (c : Context) : ℤ := c.big_maps.total_bytes.sum charge

/-- The bytes that are kept for a big map are those of its bindings. A big map
that is not allocated has none. -/
def Accounted (c : Context) : Prop :=
  ∀ id, (c.big_maps.total_bytes.lookup id).getD 0 = contents_bytes (c.big_maps.contents.lookup id)

/-- An item that allocates a big map, or copies to one, uses an identifier that
is not allocated. -/
def Fresh_item (c : Context) : Big_map_diff_item → Prop
  | .Copy _ to_ => c.big_maps.total_bytes.lookup to_ = none
  | .Alloc big_map _ _ => c.big_maps.total_bytes.lookup big_map = none
  | _ => True

/-- Every item of a diff is fresh in the context it is applied to. -/
def Fresh (c : Context) : List Big_map_diff_item → Prop
  | [] => True
  | item :: rest => Fresh_item c item ∧
      ∀ total c' total', (update_script_big_map_item c total item).outcome = .ok (c', total') →
        Fresh c' rest

/-- An item changes a single big map, keeps it accounted, and reports what the
change adds. -/
def Item_change (c c' : Context) (item : Big_map_diff_item) (difference : ℤ) : Prop :=
  ∃ id total_bytes contents,
    c'.big_maps.total_bytes = c.big_maps.total_bytes.put id total_bytes ∧
    c'.big_maps.contents = c.big_maps.contents.put id contents ∧
    (Fresh_item c item → Accounted c → total_bytes.getD 0 = contents_bytes contents) ∧
    (Fresh_item c item → difference =
      total_bytes.elim 0 (charge id) - (c.big_maps.total_bytes.lookup id).elim 0 (charge id))

/-- The size of an existing binding, as the storage reports it, and what it
accounts for. -/
theorem existing_size_bytes (c : Context) (id : ℤ) (key_hash : Nat) :
    ((Storage.Big_map.Contents.entries c id).lookup key_hash).elim 0 (binding_bytes key_hash) =
      (Storage.Big_map.Contents.existing_size c id key_hash).1 +
        if (Storage.Big_map.Contents.existing_size c id key_hash).2 then big_map_key_cost else 0 := by
  unfold Storage.Big_map.Contents.existing_size
  cases (Storage.Big_map.Contents.entries c id).lookup key_hash with
  | none => rfl
  | some value => rfl

omit [Environment] in
theorem consume_gas_big_maps {cost : Cost} (h : (raw_context.consume_gas c cost).outcome = .ok c') :
    c'.big_maps = c.big_maps := by
  obtain ⟨_, _, _, _, rfl⟩ := raw_context.consume_gas_success h
  rfl

variable {id : ℤ}

theorem with_entries_put {c1 : Context} (hsame : c1.big_maps = c.big_maps) (id : ℤ)
    (key_hash : Nat) (o : Option Expr) :
    ∃ contents, (Storage.Big_map.Contents.with_entries c1 id
        ((Storage.Big_map.Contents.entries c1 id).put key_hash o)).big_maps =
        { c.big_maps with contents := c.big_maps.contents.put id (some contents) } ∧
      contents_bytes (some contents) = contents_bytes (c.big_maps.contents.lookup id) +
        (o.elim 0 (binding_bytes key_hash) -
          ((Storage.Big_map.Contents.existing_size c id key_hash).1 +
            if (Storage.Big_map.Contents.existing_size c id key_hash).2 then big_map_key_cost
            else 0)) := by
  have hentries : Storage.Big_map.Contents.entries c1 id = Storage.Big_map.Contents.entries c id := by
    unfold Storage.Big_map.Contents.entries
    rw [hsame]
  refine ⟨(Storage.Big_map.Contents.entries c id).put key_hash o, ?_, ?_⟩
  · rw [← hentries, ← hsame]
    rfl
  · rw [← existing_size_bytes]
    exact sum_put (Storage.Big_map.Contents.entries c id) key_hash o binding_bytes

omit [Environment] in
/-- Temporary big maps are not charged, whatever happens to their bytes. -/
theorem charge_of_neg (h : id < 0) (o : Option ℤ) : o.elim 0 (charge id) = 0 := by
  cases o with
  | none => rfl
  | some total_bytes => exact if_pos h

omit [Environment] in
theorem charge_of_nonneg (h : ¬id < 0) (total_bytes : ℤ) :
    charge id total_bytes = big_map_cost + total_bytes := if_neg h

variable {total total' : ℤ}

theorem clear_change
    (h : (update_script_big_map_item c total (.Clear id)).outcome = .ok (c', total')) :
    Item_change c c' (.Clear id) (total' - total) := by
  obtain ⟨size, hsize, h⟩ := outcome_inv h
  have hlookup := (get_eq_ok_iff _).mp hsize
  split at h
  · next hneg =>
    cases h
    refine ⟨id, none, none, rfl, rfl, fun _ _ => rfl, fun _ => ?_⟩
    rw [charge_of_neg hneg, charge_of_neg hneg, sub_self, sub_self]
  · next hneg =>
    cases h
    refine ⟨id, none, none, rfl, rfl, fun _ _ => rfl, fun _ => ?_⟩
    rw [show c.big_maps.total_bytes.lookup id = some size from hlookup, elim_none,
      elim_some, charge_of_nonneg hneg]
    ring

theorem copy_change {from_ to_ : ℤ}
    (h : (update_script_big_map_item c total (.Copy from_ to_)).outcome = .ok (c', total')) :
    Item_change c c' (.Copy from_ to_) (total' - total) := by
  obtain ⟨c1, hcopy, h⟩ := outcome_inv h
  have hcopy : Storage.Big_map.copy c from_ to_ = .ok c1 := hcopy
  unfold Storage.Big_map.copy at hcopy
  split at hcopy
  · cases hcopy
    split at h
    · next hneg =>
      cases h
      refine ⟨to_, _, _, rfl, rfl, fun _ hc => hc from_, fun _ => ?_⟩
      rw [charge_of_neg hneg, charge_of_neg hneg, sub_self, sub_self]
    · next hneg =>
      obtain ⟨size, hsize, h⟩ := outcome_inv h
      have hlookup := (get_eq_ok_iff _).mp hsize
      cases h
      refine ⟨to_, _, _, rfl, rfl, fun _ hc => hc from_, fun hfresh => ?_⟩
      have hfresh : c.big_maps.total_bytes.lookup to_ = none := hfresh
      have hsource : c.big_maps.total_bytes.lookup from_ = some size := by
        have hlookup : (c.big_maps.total_bytes.put to_ (c.big_maps.total_bytes.lookup from_)).lookup
          from_ = some size := hlookup
        by_cases heq : from_ = to_
        · rw [heq, lookup_put_self] at hlookup
          rw [heq]
          exact hlookup
        · rw [lookup_put_ne _ heq] at hlookup
          exact hlookup
      rw [hfresh, hsource, elim_none, elim_some, charge_of_nonneg hneg]
      ring
  · exact absurd hcopy fail_ne_ok

theorem alloc_change {big_map : ℤ} {key_type value_type : Expr}
    (h : (update_script_big_map_item c total (.Alloc big_map key_type value_type)).outcome =
      .ok (c', total')) :
    Item_change c c' (.Alloc big_map key_type value_type) (total' - total) := by
  obtain ⟨c1, hinit1, h⟩ := outcome_inv h
  obtain ⟨c2, hinit2, h⟩ := outcome_inv h
  obtain ⟨c3, hinit3, h⟩ := outcome_inv h
  obtain ⟨hnone, rfl⟩ := (init_eq_ok_iff _).mp hinit1
  obtain ⟨_, rfl⟩ := (init_eq_ok_iff _).mp hinit2
  obtain ⟨_, rfl⟩ := (init_eq_ok_iff _).mp hinit3
  have hnone : c.big_maps.total_bytes.lookup big_map = none := hnone
  have hempty : Accounted c → (some 0 : Option ℤ).getD 0 =
      contents_bytes (c.big_maps.contents.lookup big_map) := by
    intro hc
    rw [← hc big_map, hnone]
    rfl
  split at h
  · next hneg =>
    cases h
    refine ⟨big_map, some 0, _, rfl, (put_lookup _ _).symm, fun _ hc => hempty hc, fun _ => ?_⟩
    rw [charge_of_neg hneg, charge_of_neg hneg, sub_self, sub_self]
  · next hneg =>
    cases h
    refine ⟨big_map, some 0, _, rfl, (put_lookup _ _).symm, fun _ hc => hempty hc, fun _ => ?_⟩
    rw [hnone, elim_none, elim_some, charge_of_nonneg hneg]
    ring

variable {item : Big_map_diff_item} {difference : ℤ}

/-- A binding is written or removed, and the kept bytes follow. -/
theorem update_change {big_map size : ℤ} {contents : Store Nat Expr} {c1 c2 : Context}
    (hput : c1.big_maps =
      { c.big_maps with contents := c.big_maps.contents.put big_map (some contents) })
    (hbytes : contents_bytes (some contents) =
      contents_bytes (c.big_maps.contents.lookup big_map) + difference)
    (hsize : Storage.Big_map.Total_bytes.get c1 big_map = .ok size)
    (hset : Storage.Big_map.Total_bytes.set c1 big_map (size + difference) = .ok c2)
    (h : (if big_map < 0 then pure (c2, total) else pure (c2, total + difference) :
      Carbonated (Context × ℤ)).outcome = .ok (c', total')) :
    Item_change c c' item (total' - total) := by
  obtain ⟨rfl, htotal⟩ : c2 = c' ∧ total' = if big_map < 0 then total else total + difference := by
    split at h <;> cases h <;> simp [*]
  have hlookup : c1.big_maps.total_bytes.lookup big_map = some size := (get_eq_ok_iff _).mp hsize
  have htotal_bytes : c1.big_maps.total_bytes = c.big_maps.total_bytes :=
    congrArg (·.total_bytes) hput
  rw [htotal_bytes] at hlookup
  obtain ⟨_, rfl⟩ := (set_eq_ok_iff _).mp hset
  refine ⟨big_map, some (size + difference), some contents, ?_, ?_, fun _ hc => ?_, fun _ => ?_⟩
  · rw [← htotal_bytes]
    rfl
  · exact congrArg (·.contents) hput
  · rw [hbytes, ← hc big_map, hlookup]
    rfl
  · rw [htotal, hlookup]
    by_cases hneg : big_map < 0
    · rw [if_pos hneg, charge_of_neg hneg, charge_of_neg hneg, sub_self, sub_self]
    · rw [if_neg hneg, elim_some, elim_some, charge_of_nonneg hneg, charge_of_nonneg hneg]
      ring

theorem item_change (h : (update_script_big_map_item c total item).outcome = .ok (c', total')) :
    Item_change c c' item (total' - total) := by
  cases item with
  | Clear id => exact clear_change h
  | Copy from_ to_ => exact copy_change h
  | Alloc big_map key_type value_type => exact alloc_change h
  | Update big_map diff_key diff_key_hash diff_value =>
    cases diff_value with
    | none =>
      simp only [update_script_big_map_item] at h
      obtain ⟨⟨c1, _, existed⟩, hremove, h⟩ := outcome_inv h
      unfold Storage.Big_map.Contents.remove at hremove
      rw [outcome_bind_eq_ok_iff] at hremove
      obtain ⟨c0, hgas, hremove⟩ := hremove
      obtain ⟨contents, hput, hbytes⟩ :=
        with_entries_put (consume_gas_big_maps hgas) big_map diff_key_hash none
      obtain ⟨size, hsize, h⟩ := outcome_inv h
      obtain ⟨c2, hset, h⟩ := outcome_inv h
      cases hremove
      have hset : Storage.Big_map.Total_bytes.set _ big_map (size - _) = .ok c2 := hset
      rw [sub_eq_add_neg] at hset
      refine update_change hput (hbytes.trans ?_) hsize hset h
      dsimp only [elim_none]
      split <;> ring
    | some v =>
      simp only [update_script_big_map_item] at h
      obtain ⟨⟨c1, _, existed⟩, hinit, h⟩ := outcome_inv h
      unfold Storage.Big_map.Contents.init_set at hinit
      simp only [outcome_bind_eq_ok_iff] at hinit
      obtain ⟨c3, hgas1, c0, hgas2, hinit⟩ := hinit
      have hsame := (consume_gas_big_maps hgas2).trans (consume_gas_big_maps hgas1)
      obtain ⟨contents, hput, hbytes⟩ := with_entries_put hsame big_map diff_key_hash (some v)
      obtain ⟨size, hsize, h⟩ := outcome_inv h
      obtain ⟨c2, hset, h⟩ := outcome_inv h
      cases hinit
      refine update_change hput (hbytes.trans ?_) hsize hset h
      dsimp only [elim_some, binding_bytes]
      split <;> ring

theorem Item_change.accounted (h : Item_change c c' item difference) (hfresh : Fresh_item c item)
    (hc : Accounted c) : Accounted c' := by
  obtain ⟨id, _, _, htotal_bytes, hcontents, hbytes, _⟩ := h
  intro id'
  rw [htotal_bytes, hcontents, lookup_put, lookup_put]
  by_cases heq : id' = id
  · rw [if_pos heq, if_pos heq]
    exact hbytes hfresh hc
  · rw [if_neg heq, if_neg heq]
    exact hc id'

theorem Item_change.charged (h : Item_change c c' item difference) (hfresh : Fresh_item c item) :
    charged c' = charged c + difference := by
  obtain ⟨id, _, _, htotal_bytes, _, _, hdifference⟩ := h
  unfold contract_storage.charged
  rw [htotal_bytes, sum_put, hdifference hfresh]

theorem items_change {items : List Big_map_diff_item} (hfresh : Fresh c items)
    (h : (update_script_big_map_items c total items).outcome = .ok (c', total')) :
    (Accounted c → Accounted c') ∧ charged c' - charged c = total' - total := by
  induction items generalizing c total with
  | nil =>
    obtain ⟨rfl, rfl⟩ := h
    exact ⟨id, by ring⟩
  | cons item rest ih =>
    rw [update_script_big_map_items] at h
    obtain ⟨⟨c1, total1⟩, hitem, h⟩ := outcome_inv h
    have hchange := item_change hitem
    obtain ⟨haccounted, hcharged⟩ := ih (hfresh.2 total c1 total1 hitem) h
    refine ⟨fun hc => haccounted (hchange.accounted hfresh.1 hc), ?_⟩
    rw [hchange.charged hfresh.1] at hcharged
    linarith

/-- The contexts that updates of big maps lead to, from one without big maps.
Between updates the rest of the context may change. -/
inductive Updated : Context → Prop
  | start {c : Context} (htotal_bytes : c.big_maps.total_bytes = Store.empty)
      (hcontents : c.big_maps.contents = Store.empty) : Updated c
  | update {c c' : Context} {diff : Option Big_map_diff} {size : ℤ} (hc : Updated c)
      (hfresh : ∀ items, diff = some items → Fresh c items)
      (hupdate : (update_script_big_map c diff).outcome = .ok (c', size)) : Updated c'
  | other {c c' : Context} (hc : Updated c)
      (htotal_bytes : c'.big_maps.total_bytes = c.big_maps.total_bytes)
      (hcontents : c'.big_maps.contents = c.big_maps.contents) : Updated c'

theorem update_script_big_map_change {diff : Option Big_map_diff} {size : ℤ}
    (hfresh : ∀ items, diff = some items → Fresh c items)
    (h : (update_script_big_map c diff).outcome = .ok (c', size)) :
    (Accounted c → Accounted c') ∧ charged c' - charged c = size := by
  cases diff with
  | none =>
    obtain ⟨rfl, rfl⟩ := h
    exact ⟨id, sub_self _⟩
  | some items =>
    obtain ⟨haccounted, hcharged⟩ := items_change (hfresh items rfl) h
    exact ⟨haccounted, by rw [hcharged, sub_zero]⟩

theorem Updated.accounted (h : Updated c) : Accounted c := by
  induction h with
  | start htotal_bytes hcontents =>
    intro id
    rw [htotal_bytes, hcontents]
    rfl
  | update _ hfresh hupdate ih => exact (update_script_big_map_change hfresh hupdate).1 ih
  | other _ htotal_bytes hcontents ih =>
    intro id
    rw [htotal_bytes, hcontents]
    exact ih id

/-- After any updates with fresh identifiers, the bytes kept for an allocated
big map are those of its bindings. The size an update returns is the change of
what the big maps that are not temporary add to the sizes of contracts. -/
theorem big_map_bytes_accounted (c : Context) (hc : Updated c) :
    (∀ id total_bytes, c.big_maps.total_bytes.lookup id = some total_bytes →
      total_bytes = (Storage.Big_map.Contents.entries c id).sum fun _ value =>
        Storage.Big_map.Contents.length value + 65) ∧
    ∀ diff c' size, (∀ items, diff = some items → Fresh c items) →
      (update_script_big_map c diff).outcome = .ok (c', size) →
      size =
        (c'.big_maps.total_bytes.sum fun id total_bytes => if 0 ≤ id then 33 + total_bytes else 0) -
        c.big_maps.total_bytes.sum fun id total_bytes => if 0 ≤ id then 33 + total_bytes else 0 := by
  have hcharge : (fun id total_bytes => if 0 ≤ id then 33 + total_bytes else 0 : ℤ → ℤ → ℤ) =
      charge := by
    funext id total_bytes
    unfold charge big_map_cost
    split <;> split <;> omega
  constructor
  · intro id total_bytes hlookup
    have haccounted := hc.accounted id
    rw [hlookup] at haccounted
    exact haccounted
  · intro diff c' size hfresh h
    rw [hcharge]
    exact (update_script_big_map_change hfresh h).2.symm

omit [Environment] in
/-- A big map is allocated and a binding with an empty value is written: 33
bytes for the big map and 65 for the binding. -/
theorem big_map_bytes_accounted_alloc :
    let _ := unscripted_environment
    let c := raw_context.prepare_first_block default_parameters.constants_mainnet 1 0 0
    let diff : Big_map_diff := [.Alloc 0 (.Seq []) (.Seq []), .Update 0 (.Seq []) 7 (some (.Seq []))]
    ∃ c', (update_script_big_map c (some diff)).outcome = .ok (c', 98) ∧
      98 = c'.big_maps.total_bytes.sum fun id total_bytes => if 0 ≤ id then 33 + total_bytes else 0 := by
  intro _ c diff
  have hreturns : (update_script_big_map c (some diff)).outcome.returns
      (fun r => decide (r.2 = 98)) = true := by
    decide +kernel
  rw [Result.returns_iff] at hreturns
  obtain ⟨⟨c', size⟩, hupdate, hsize⟩ := hreturns
  have hsize : size = 98 := of_decide_eq_true hsize
  subst hsize
  have hfresh : ∀ items, some diff = some items → Fresh c items := by
    rintro items ⟨⟩
    exact ⟨rfl, fun _ _ _ _ => ⟨trivial, fun _ _ _ _ => trivial⟩⟩
  have haccounted := (big_map_bytes_accounted c (.start rfl rfl)).2 (some diff) c' 98 hfresh hupdate
  exact ⟨c', hupdate, haccounted.trans (sub_zero _)⟩

end contract_storage

end plexus
