import Plexus.Metering

/-! What the instructions that concatenate are charged. -/

namespace plexus

open gas_limit_repr List

/-- Exactly the cost is drawn from the block gas and the internal gas. -/
theorem gas_limit_repr.Solvent.drawn {left r : ℤ × Gas × ℤ} {x : Cost} (h : Solvent left)
    (hlimited : left.2.1 ≠ .Unaccounted) (hx : Cost_nonneg x)
    (hr : consume left.1 left.2.1 left.2.2 x = .ok r) :
    r.2.1 ≠ .Unaccounted ∧
      128 * (left.1 - r.1) + (r.2.2 - left.2.2) = cost_to_internal_gas x := by
  obtain ⟨_, gas, _⟩ := left
  cases gas with
  | Unaccounted => exact absurd rfl hlimited
  | Limited remaining =>
    obtain ⟨_, _, rfl⟩ := (h.consume_iff hx rfl).mp hr
    refine ⟨by simp, ?_⟩
    dsimp only
    omega

namespace michelson_v1_gas

def concat_loop {α : Type} : List α → ℤ → ℤ
  | [], _ => 30
  | _ :: tl, acc => concat_loop tl (acc + 30)

def concat_string (string_list : List String) : Cost :=
  atomic_step_cost (concat_loop string_list 0)

def concat_bytes (bytes_list : List MBytes) : Cost := atomic_step_cost (concat_loop bytes_list 0)

/-- What was accumulated is dropped at the end of the list. -/
theorem concat_loop_eq {α : Type} (l : List α) (acc : ℤ) : concat_loop l acc = 30 := by
  induction l generalizing acc with
  | nil => rfl
  | cons _ l ih => exact ih (acc + 30)

end michelson_v1_gas

namespace script_interpreter

open michelson_v1_gas

/-- The instructions that concatenate, with what they take from the stack. -/
inductive Concat where
  | Concat_string_pair (x y : String)
  | Concat_string (ss : List String)
  | Concat_bytes_pair (x y : MBytes)
  | Concat_bytes (ss : List MBytes)

def Concat.cost : Concat → Cost
  | .Concat_string_pair x y => concat_string [x, y]
  | .Concat_string ss => concat_string ss
  | .Concat_bytes_pair x y => concat_bytes [x, y]
  | .Concat_bytes ss => concat_bytes ss

def Concat.result : Concat → String ⊕ MBytes
  | .Concat_string_pair x y => .inl (String.join [x, y])
  | .Concat_string ss => .inl (String.join ss)
  | .Concat_bytes_pair x y => .inr [x, y].flatten
  | .Concat_bytes ss => .inr ss.flatten

/-- The number of elements that are concatenated. -/
def Concat.elements : Concat → ℕ
  | .Concat_string_pair _ _ => 2
  | .Concat_string ss => ss.length
  | .Concat_bytes_pair _ _ => 2
  | .Concat_bytes ss => ss.length

/-- One instruction, from what is left of the block gas, the operation gas and
the internal gas. -/
def step (left : ℤ × Gas × ℤ) (instr : Concat) : Tzresult ((String ⊕ MBytes) × ℤ × Gas × ℤ) := do
  let left ← consume left.1 left.2.1 left.2.2 instr.cost
  pure (instr.result, left)

/-- A run of a script and how many elements each of its instructions
concatenates. Of the other instructions only the cost counts. -/
inductive Run : ℤ × Gas × ℤ → ℤ × Gas × ℤ → List ℕ → Prop where
  | done (left : ℤ × Gas × ℤ) : Run left left []
  | concat {left left' left'' : ℤ × Gas × ℤ} {instr : Concat} {v : String ⊕ MBytes} {ns : List ℕ}
      (hstep : step left instr = .ok (v, left')) (hrun : Run left' left'' ns) :
      Run left left'' (instr.elements :: ns)
  | other {left left' left'' : ℤ × Gas × ℤ} {cost : Cost} {ns : List ℕ} (hcost : Cost_nonneg cost)
      (hconsume : consume left.1 left.2.1 left.2.2 cost = .ok left') (hrun : Run left' left'' ns) :
      Run left left'' ns

theorem Concat.cost_eq (instr : Concat) : instr.cost = atomic_step_cost 30 := by
  cases instr <;> exact congrArg atomic_step_cost (concat_loop_eq _ 0)

theorem Concat.cost_nonneg (instr : Concat) : Cost_nonneg instr.cost := by
  rw [instr.cost_eq]
  exact { free_nonneg with steps := by decide }

variable {left left' : ℤ × Gas × ℤ} {ns : List ℕ}

/-- A run that concatenates lists of at most one element pays for each of them. -/
theorem Run.paid (hrun : Run left left' ns) (h : Solvent left) (hlimited : left.2.1 ≠ .Unaccounted)
    (hns : ∀ n ∈ ns, n ≤ 1) :
    60 * (ns.sum : ℤ) ≤ 128 * (left.1 - left'.1) + (left'.2.2 - left.2.2) ∧ left'.2.2 < 128 := by
  induction hrun with
  | done left => exact ⟨by simp, h.rest⟩
  | @concat left left1 left' instr v ns hstep _ ih =>
    obtain ⟨_, hconsume, ⟨⟩⟩ := Result.bind_inv hstep
    obtain ⟨hlimited1, hdrawn⟩ := h.drawn hlimited instr.cost_nonneg hconsume
    rw [forall_mem_cons] at hns
    obtain ⟨hpaid, hrest⟩ := ih (h.consumed instr.cost_nonneg hconsume) hlimited1 hns.2
    have hcost : cost_to_internal_gas instr.cost = 60 := congrArg cost_to_internal_gas instr.cost_eq
    refine ⟨?_, hrest⟩
    rw [sum_cons]
    omega
  | @other left left1 left' cost ns hcost hconsume _ ih =>
    obtain ⟨hlimited1, hdrawn⟩ := h.drawn hlimited hcost hconsume
    obtain ⟨hpaid, hrest⟩ := ih (h.consumed hcost hconsume) hlimited1 hns
    have hnonneg := hcost.internal_gas
    exact ⟨by omega, hrest⟩

/-- Every instruction is charged 30 atomic steps, however many elements it
concatenates; what a run concatenates is bounded by its gas where no list has
two elements. -/
theorem concatenation_charged_iff (instr : Concat) :
    ((atomic_step_cost (30 * instr.elements)).steps ≤ instr.cost.steps ↔ instr.elements ≤ 1) ∧
    ∀ {left left' : ℤ × Gas × ℤ} {ns : List ℕ}, Run left left' ns → Solvent left →
      left.2.1 ≠ .Unaccounted → (∀ n ∈ ns, n ≤ 1) →
      60 * (ns.sum : ℤ) ≤ 128 * (left.1 - left'.1) + 127 := by
  refine ⟨?_, fun hrun h hlimited hns => ?_⟩
  · have hsteps : instr.cost.steps = 60 := congrArg Cost.steps instr.cost_eq
    rw [hsteps]
    simp only [atomic_step_cost]
    omega
  · have hpaid := hrun.paid h hlimited hns
    have hinternal := h.internal
    omega

theorem concatenation_charged_single :
    step (10, .Limited 10, 100) (.Concat_string ["a"]) = .ok (.inl "a", 9, .Limited 9, 32) ∧
      60 * (([1] : List ℕ).sum : ℤ) ≤ 128 * (10 - 9) + 127 := by
  have hstep : step (10, .Limited 10, 100) (.Concat_string ["a"]) =
      .ok (.inl "a", 9, .Limited 9, 32) := rfl
  have hsolvent : Solvent (10, .Limited 10, 100) :=
    ⟨by decide, by rintro _ ⟨⟩; decide, by decide, by decide⟩
  exact ⟨hstep, (concatenation_charged_iff (.Concat_string ["a"])).2 (.concat hstep (.done _))
    hsolvent (by simp) (by simp [Concat.elements])⟩

/-- Two strings cost as much as one, and lists of any length are concatenated
without a unit of gas. -/
theorem concatenation_undercharged :
    (concat_string ["a", "b"]).steps < (atomic_step_cost (30 * 2)).steps ∧
    ∀ n, ∃ left', Run (0, .Limited 0, 0) left' [n] ∧ left'.1 = 0 := by
  refine ⟨by decide, fun n => ⟨(0, .Limited 0, 60), ?_, rfl⟩⟩
  have hstep : step (0, .Limited 0, 0) (.Concat_string (replicate n "a")) =
      .ok (.inl (String.join (replicate n "a")), 0, .Limited 0, 60) := by
    rw [step, Concat.cost_eq]
    rfl
  have hrun := Run.concat hstep (.done _)
  rwa [Concat.elements, length_replicate] at hrun

end script_interpreter

end plexus
