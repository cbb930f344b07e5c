import Plexus.Atomicity

/-! The exceptions that can come out of the operations and the beginning of a
block. -/

namespace plexus

open seed_repr fitness_repr

open Result (raises_bind raises_raise raises_div raises_foldlM total_bind total_ok)

/-- What drawing a random roll can raise. -/
inductive Draw_raised : Exn → Prop where
  | Assert_cycle_offset : Draw_raised .Assert_cycle_offset
  | Invalid_arg_take_int32 : Draw_raised .Invalid_arg_take_int32

theorem cycle_repr.sub_raises (c : Cycle) (i : Nat) : (cycle_repr.sub c i).Raises Draw_raised := by
  unfold cycle_repr.sub
  split
  · exact raises_raise .Assert_cycle_offset
  · exact (total_ok _).raises

section

variable [Environment]

/-- Drawing below a bound that is positive returns a remainder or goes on for
ever. The remainder can be negative, as the absolute value of the least integer
is. -/
theorem seed_repr.take_int32_cases (s : Sequence) (bound : Int32) :
    take_int32 s bound = .raise .Invalid_arg_take_int32 ∧ bound.toInt ≤ 0 ∨
      0 < bound.toInt ∧ (take_int32 s bound = .div ∨
        ∃ v s', take_int32 s bound = .ok (v, s') ∧ v.toInt =
          (int32_abs (get_int32 s'.bytes)).toInt.tmod bound.toInt) := by
  unfold take_int32
  split
  · next hbound => exact .inl ⟨rfl, Int32.le_iff_toInt_le.mp hbound⟩
  · next hbound =>
    rw [Int32.not_le, Int32.lt_iff_toInt_lt] at hbound
    refine .inr ⟨hbound, ?_⟩
    generalize Environment.rounds = fuel
    induction fuel generalizing s with
    | zero => exact .inl rfl
    | succ fuel ih =>
      rw [take_int32_loop]
      dsimp only
      split
      · exact ih _
      · exact .inr ⟨_, _, rfl, Int32.toInt_mod _ _⟩

/-- A draw raises for bounds that are not positive. -/
theorem seed_repr.take_int32_raises (s : Sequence) (bound : Int32) :
    (take_int32 s bound).Raises Draw_raised := by
  rcases take_int32_cases s bound with ⟨h, _⟩ | ⟨_, h | ⟨_, _, h, _⟩⟩ <;> rw [h]
  · exact raises_raise .Invalid_arg_take_int32
  · exact raises_div
  · exact (total_ok _).raises

omit [Environment] in
/-- Reading a seed raises in cycles before the first. -/
theorem seed_storage.for_cycle_raises (c : Context) (cycle : Cycle) :
    (seed_storage.for_cycle c cycle).Raises Draw_raised := by
  refine raises_bind (cycle_repr.sub_raises _ _) fun oldest _ => ?_
  refine raises_bind fail_unless_spec.total.raises fun _ _ => ?_
  exact Indexed_data_storage.get_spec.total.raises

namespace roll_storage.Random

/-- Drawing goes on until a roll with an owner is found. -/
theorem owner_loop_raises (c : Context) (id : Cycle × Nat) (bound : Roll) (fuel : Nat)
    (sequence : Sequence) :
    (owner_loop c id bound fuel sequence).Raises Draw_raised := by
  induction fuel generalizing sequence with
  | zero => exact raises_div
  | succ fuel ih =>
    rw [owner_loop]
    refine raises_bind (take_int32_raises sequence bound) fun r _ => ?_
    obtain ⟨_, sequence'⟩ := r
    dsimp only
    split
    · exact ih sequence'
    · exact (total_ok _).raises

/-- Drawing the owner of a slot. -/
theorem owner_raises (c : Context) (kind : String) (level : Level) (offset : Nat) :
    (owner c kind level offset).Raises Draw_raised := by
  refine raises_bind (seed_storage.for_cycle_raises c _) fun seed _ => ?_
  refine raises_bind (Storage.Roll.total_Snapshot_for_cycle_get c _).raises fun index _ => ?_
  refine raises_bind Indexed_data_storage.get_spec.total.raises fun bound _ => ?_
  refine raises_bind fail_unless_spec.total.raises fun _ _ => ?_
  exact owner_loop_raises c _ _ _ _

end roll_storage.Random

namespace baking

/-- Drawing the owners of all slots. -/
theorem endorsement_rights_raises (c : Context) (level : Level) :
    (endorsement_rights c level).Raises Draw_raised := by
  refine raises_foldlM (fun rights slot => ?_) _ _
  refine raises_bind (roll_storage.Random.owner_raises c _ level slot) fun pk _ => ?_
  exact (total_ok _).raises

theorem check_endorsement_rights_raises (c : Context) (chain_id : Chain_id)
    (op : Endorsement_operation) : (check_endorsement_rights c chain_id op).Raises Draw_raised := by
  refine raises_bind ?_ fun rights _ => ?_
  · split
    · exact (total_ok _).raises
    · exact endorsement_rights_raises c _
  · split
    · exact (total_fail _).raises
    · exact (total_ok _).raises

theorem total_check_signature (block : Block_header) (chain_id : Chain_id) (key : Public_key) :
    (check_signature block chain_id key).Total := by
  unfold check_signature
  split
  · exact total_ok _
  · exact total_fail _

end baking

end

theorem raw_level_repr.of_int32_spec {l : Int32} :
    (raw_level_repr.of_int32 l).Meets (· = l.toInt.toNat) := by
  unfold raw_level_repr.of_int32
  split
  · exact Result.meets_ok rfl
  · exact meets_fail

theorem level_storage.last_allowed_fork_level_raises (c : Context) :
    (level_storage.last_allowed_fork_level c).Raises Draw_raised := by
  refine raises_bind (cycle_repr.sub_raises _ _) fun cycle _ => ?_
  cases cycle <;> exact (total_ok _).raises

/-! Operations. -/

/-- What an operation of a block can raise. The assertions on endorsements and
on the storage space to pay are not among them. -/
inductive Operation_raised (c : Context) : Exn → Prop where
  | draw {x : Exn} (h : Draw_raised x) : Operation_raised c x
  | manager {x : Exn} (h : Raised True x) : Operation_raised c x
  | longer_than (h : amendment.Overrun c) : Operation_raised c .Assert_longer_than

/-! The beginning of a block. -/

/-- Reading a fitness returns or fails. -/
theorem fitness_repr.total_to_int64 (fitness : List MBytes) :
    (to_int64 fitness).Total := by
  have hbytes b : (int64_of_bytes b).Total := by
    unfold int64_of_bytes
    split
    · exact total_fail _
    · exact total_ok _
  unfold to_int64
  split
  · exact total_ok _
  · split
    · exact hbytes _
    · split
      · exact total_ok _
      · exact total_fail _
  · exact total_fail _

namespace baking

theorem total_cumsum_time_between_blocks (acc : Int64) (durations : List Int64) (p : Int32) :
    (cumsum_time_between_blocks acc durations p).Total := by
  have hmult : ∀ (i : Int32) (period acc : Int64),
      (do let period ← period_repr.mult i period; pure (acc + period) : Tzresult Int64).Total := by
    intro i period acc
    refine total_bind ?_ fun _ _ => total_ok _
    unfold period_repr.mult
    split
    · exact total_fail _
    · exact total_ok _
  fun_induction cumsum_time_between_blocks acc durations p with
  | case1 => exact total_ok _
  | case2 => exact hmult _ _ _
  | case3 => exact total_ok _
  | case4 => exact hmult _ _ _
  | case5 => exact total_ok _
  | case6 _ _ _ _ _ _ ih => exact ih

/-- Checking a timestamp returns or fails. -/
theorem total_check_timestamp (c : Context) (priority : Nat) (pred_timestamp : Int64) :
    (check_timestamp c priority pred_timestamp).Total := by
  refine total_bind (total_cumsum_time_between_blocks _ _ _) fun _ _ => ?_
  refine total_trace _ (total_trace _ ?_)
  unfold period_repr.of_seconds
  split
  · exact total_ok _
  · exact total_fail _

theorem total_check_fitness_gap (c : Context) (block : Block_header) :
    (check_fitness_gap c block).Total := by
  refine total_bind (total_to_int64 _) fun _ _ => ?_
  dsimp only
  split
  · exact total_fail _
  · exact total_ok _

variable [Environment]

theorem total_check_proof_of_work_stamp (c : Context) (block : Block_header) :
    (check_proof_of_work_stamp c block).Total := by
  unfold check_proof_of_work_stamp
  split
  · exact total_ok _
  · exact total_fail _

/-- Drawing the baker of a priority. -/
theorem check_baking_rights_raises (c : Context) (contents : Block_header_contents)
    (pred_timestamp : Int64) :
    (check_baking_rights c contents pred_timestamp).Raises Draw_raised := by
  refine raises_bind (roll_storage.Random.owner_raises c _ _ _) fun _ _ => ?_
  refine raises_bind (total_check_timestamp c _ _).raises fun _ _ => ?_
  exact (total_ok _).raises

end baking

/-- What the beginning of a block can raise. -/
inductive Begin_raised (endorsers_per_block : Nat) : Exn → Prop where
  | draw {x : Exn} (h : Draw_raised x) : Begin_raised endorsers_per_block x
  | Assert_genesis : Begin_raised endorsers_per_block .Assert_genesis
  | init_endorsements (h : endorsers_per_block = 0) :
      Begin_raised endorsers_per_block .Assert_init_endorsements

theorem Draw_raised.begin {α : Type} {n : Nat} {r : Tzresult α} (h : r.Raises Draw_raised) :
    r.Raises (Begin_raised n) := fun x hx => .draw (h x hx)

end plexus
