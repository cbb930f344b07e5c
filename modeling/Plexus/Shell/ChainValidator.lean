import Plexus.Shell.MainBranch

/-! The acceptance of new heads (`chain_validator.ml`). -/

namespace plexus.chain_validator

open state chain

abbrev Protocol_hash := Nat

/-- The block under construction above `predecessor`: its fitness, unless the
construction failed. It is fitter than its predecessor. -/
structure Construction (predecessor : Block) where
  fitness : Option Fitness
  fitter : ∀ f, fitness = some f → Fitness.compare predecessor.fitness f = .lt

/-- What is read of a prevalidator. -/
structure Prevalidator where
  protocol_hash : Protocol_hash
  predecessor : Block
  validation_state : Construction predecessor

def Prevalidator.fitness (pv : Prevalidator) : Fitness :=
  match pv.validation_state.fitness with
  | some fitness => fitness
  | none => pv.predecessor.fitness

structure Types_state where
  chain_state : Chain_state
  prevalidator : Option Prevalidator

inductive Event where
  | Ignored_head
  | Branch_switch
  | Head_increment
deriving DecidableEq, Repr

/-- How the calls made for a new head end: `none` is a failure. A flush that
fails leaves the prevalidator as it was. -/
structure Calls (block : Block) where
  fuel : Nat
  may_update_checkpoint : Option Unit
  protocol_hash : Option Protocol_hash
  safe_get_prevalidator_filter : Option Unit
  create : Option (Construction block)
  flush : Option (Construction block)

def Types_state.head (nv : Types_state) : Block := nv.chain_state.data.current_head

def context_fitness (nv : Types_state) : Fitness :=
  match nv.prevalidator with
  | none => nv.head.fitness
  | some pv => pv.fitness

def accepted_head (nv : Types_state) (block : Block) : Bool :=
  if Fitness.compare (context_fitness nv) nv.head.fitness = .eq then
    Fitness.compare block.fitness nv.head.fitness = .gt
  else Fitness.compare block.fitness (context_fitness nv) ≠ .lt

/-- The prevalidator after a switch to `block`, and whether the switch failed. -/
def switch_prevalidator (prevalidator : Option Prevalidator) (block : Block)
    (calls : Calls block) : Option Prevalidator × Option Unit :=
  match prevalidator with
  | none => (none, some ())
  | some old_prevalidator =>
    match calls.protocol_hash with
    | none => (prevalidator, none)
    | some new_protocol =>
      if old_prevalidator.protocol_hash ≠ new_protocol then
        match calls.safe_get_prevalidator_filter with
        | none => (prevalidator, none)
        -- when no other can be created the node goes on without
        | some _ => (calls.create.map fun state => ⟨new_protocol, block, state⟩, some ())
      else
        match calls.flush with
        | none => (prevalidator, none)
        | some state => (some ⟨old_prevalidator.protocol_hash, block, state⟩, some ())

instance : Std.TransCmp Fitness.compare_bytes :=
  inferInstanceAs (Std.TransCmp (compareLex (compareOn List.length) (List.compareLex compare)))

instance : Std.TransCmp Fitness.compare :=
  inferInstanceAs (Std.TransCmp (compareLex (compareOn List.length)
    (List.compareLex Fitness.compare_bytes)))

variable {nv nv' : Types_state}

/-- The block under construction is not behind the head. -/
def Caught_up (nv : Types_state) : Prop :=
  (Fitness.compare nv.head.fitness (context_fitness nv)).isLE

/-- Unless the block under construction is behind the head, only fitter blocks than the
head are accepted. -/
theorem Caught_up.accepted (h : Caught_up nv) {block : Block}
    (haccepted : accepted_head nv block = true) :
    Fitness.compare nv.head.fitness block.fitness = .lt := by
  unfold accepted_head at haccepted
  split at haccepted
  next => exact Std.OrientedCmp.lt_of_gt (of_decide_eq_true haccepted)
  next hne =>
    have hcontext : Fitness.compare nv.head.fitness (context_fitness nv) = .lt :=
      (Ordering.isLE_iff_eq_lt_or_eq_eq.mp h).resolve_right fun heq =>
        hne (Std.OrientedCmp.eq_symm heq)
    refine Std.TransCmp.lt_of_lt_of_isLE hcontext ?_
    rw [← Std.OrientedCmp.isGE_iff_isLE]
    exact Ordering.isGE_iff_ne_lt.mpr (of_decide_eq_true haccepted)

/-- The prevalidator works on the head. -/
def On_head (nv : Types_state) : Prop := ∀ pv, nv.prevalidator = some pv → pv.predecessor = nv.head

theorem On_head.caught_up (h : On_head nv) : Caught_up nv := by
  unfold Caught_up context_fitness
  split
  next => exact Std.ReflCmp.isLE_rfl
  next pv hpv =>
    rw [← h pv hpv, Prevalidator.fitness]
    split
    next f hf => rw [pv.validation_state.fitter f hf]; rfl
    next => exact Std.ReflCmp.isLE_rfl

theorem switch_prevalidator_on_head {prevalidator : Option Prevalidator} {block : Block}
    {calls : Calls block} {pv : Prevalidator} :
    (switch_prevalidator prevalidator block calls).2.isSome →
      (switch_prevalidator prevalidator block calls).1 = some pv → pv.predecessor = block := by
  fun_cases switch_prevalidator prevalidator block calls with
  | case1 => rintro - ⟨⟩
  | case2 => rintro ⟨⟩
  | case3 => rintro ⟨⟩
  | case4 =>
    intro _ hpv
    obtain ⟨_, _, rfl⟩ := Option.map_eq_some_iff.mp hpv
    rfl
  | case5 => rintro ⟨⟩
  | case6 =>
    rintro - ⟨⟩
    rfl

section

variable [Chain_env]

def on_request (nv : Types_state) (block : Block) (calls : Calls block) :
    Types_state × Option Event :=
  if accepted_head nv block then
    match set_head calls.fuel nv.chain_state block with
    | .ok (previous, chain_state) =>
      match calls.may_update_checkpoint with
      | none => ({ nv with chain_state }, none)
      | some _ =>
        let (prevalidator, switched) := switch_prevalidator nv.prevalidator block calls
        ({ chain_state, prevalidator }, switched.map fun _ =>
          if previous.hash = block.header.shell.predecessor then .Head_increment
          else .Branch_switch)
    | _ => (nv, none)
  else (nv, some .Ignored_head)

/-- The worker. `on_error` hands the error of a request on, and the worker is then closed. -/
structure Worker where
  state : Types_state
  closed : Bool

/-- The prevalidator goes on with its block, or an open worker handles a validated block. -/
inductive Step (w : Worker) : Worker → Prop where
  | construct {pv : Prevalidator} (hpv : w.state.prevalidator = some pv)
      (validation_state : Construction pv.predecessor) :
    Step w { w with state.prevalidator := some { pv with validation_state } }
  | validated (hopen : w.closed = false) (block : Block) (calls : Calls block) :
    Step w
      { state := (on_request w.state block calls).1
        closed := (on_request w.state block calls).2.isNone }

/-- A request changes nothing, or makes an accepted block the head; one that does not
fail leaves the prevalidator on the head. -/
theorem on_request_cases (nv : Types_state) (block : Block) (calls : Calls block) :
    (on_request nv block calls).1 = nv ∨
      accepted_head nv block = true ∧ (on_request nv block calls).1.head = block ∧
        ((on_request nv block calls).2.isSome → On_head (on_request nv block calls).1) := by
  unfold on_request
  split
  next haccepted =>
    split
    next previous chain_state hset =>
      obtain ⟨_, _, _, _, _, -, -, -, -, -, rfl⟩ := set_head_eq_ok hset
      split
      next => exact .inr ⟨haccepted, rfl, fun h => by cases h⟩
      next =>
        refine .inr ⟨haccepted, rfl, fun h pv hpv => ?_⟩
        rw [Option.isSome_map] at h
        exact switch_prevalidator_on_head h hpv
    next => exact .inl rfl
  next => exact .inl rfl

variable {w w' : Worker}

/-- While it is open, a worker has its prevalidator on the head. -/
def Worker.Attached (w : Worker) : Prop := w.closed = false → On_head w.state

theorem Step.attached (h : Step w w') (hw : w.Attached) : w'.Attached := by
  intro hopen'
  cases h with
  | @construct old hold validation_state =>
    rintro pv ⟨⟩
    exact hw hopen' old hold
  | validated hopen block calls =>
    rcases on_request_cases w.state block calls with hsame | ⟨-, -, hon_head⟩
    · dsimp only
      rw [hsame]
      exact hw hopen
    · exact hon_head (Option.isNone_eq_false_iff.mp hopen')

/-- A step leaves the head, or replaces it by a fitter one. -/
theorem Step.head (h : Step w w') (hw : w.Attached) :
    w'.state.head = w.state.head ∨
      Fitness.compare w.state.head.fitness w'.state.head.fitness = .lt := by
  cases h with
  | construct => exact .inl rfl
  | validated hopen block calls =>
    rcases on_request_cases w.state block calls with hsame | ⟨haccepted, hhead, -⟩
    · exact .inl (congrArg Types_state.head hsame)
    · dsimp only
      rw [hhead]
      exact .inr ((hw hopen).caught_up.accepted haccepted)

/-- In every run of a worker that was launched with its prevalidator on the head, whichever
calls fail, every change of the head is to a strictly fitter one, and so is the whole run. -/
theorem head_improves (hlaunched : On_head nv)
    (hrun : Relation.ReflTransGen Step { state := nv, closed := false } w) (hstep : Step w w') :
    (w'.state.head = w.state.head ∨
      Fitness.compare w.state.head.fitness w'.state.head.fitness = .lt) ∧
    (w'.state.head = nv.head ∨
      Fitness.compare nv.head.fitness w'.state.head.fitness = .lt) := by
  have hinv : w.Attached ∧
      (w.state.head = nv.head ∨ Fitness.compare nv.head.fitness w.state.head.fitness = .lt) := by
    refine hrun.preserves (P := fun w => w.Attached ∧ (w.state.head = nv.head ∨
      Fitness.compare nv.head.fitness w.state.head.fitness = .lt)) ?_
      ⟨fun _ => hlaunched, .inl rfl⟩
    rintro w1 w2 hstep ⟨hattached, hhead⟩
    refine ⟨hstep.attached hattached, ?_⟩
    rcases hstep.head hattached with hsame | hfitter
    · rw [hsame]
      exact hhead
    · exact .inr (hhead.elim (fun hsame => hsame ▸ hfitter)
        fun hfitter' => Std.TransCmp.lt_trans hfitter' hfitter)
  have hlast := hstep.head hinv.1
  refine ⟨hlast, ?_⟩
  rcases hlast with hsame | hfitter
  · rw [hsame]
    exact hinv.2
  · exact .inr (hinv.2.elim (fun hsame => hsame ▸ hfitter)
      fun hfitter' => Std.TransCmp.lt_trans hfitter' hfitter)

end

/-- A block above the first one, and its fitness. -/
def scored (hash : state.Block_hash) (score : UInt8) : Block where
  hash := hash
  header :=
    { (bare_contents hash 0).header with
      shell := { (bare_contents hash 0).header.shell with fitness := [[score]] } }

/-- Two blocks above the head, and a block under construction as fit as the first one. -/
def forked [Chain_env] : Types_state where
  chain_state :=
    { block_store := ((Locked_block.store_genesis Block_store.empty).update 1 fun tables =>
        { tables with contents := some { bare_contents 1 0 with header := (scored 1 1).header } }).update
          2 fun tables =>
            { tables with contents := some { bare_contents 2 0 with header := (scored 2 2).header } }
      data := ⟨⟨Chain_env.genesis.block, Locked_block.genesis_header⟩, ∅, ∅, (0, 0), (0, 0)⟩
      checkpoint := Locked_block.genesis_header
      known_heads := []
      in_main_branch := fun _ => none }
  prevalidator := some
    { protocol_hash := 0
      predecessor := ⟨Chain_env.genesis.block, Locked_block.genesis_header⟩
      validation_state := ⟨some [[1]], by rintro f ⟨⟩; rfl⟩ }

/-- The calls for a new head, whose flush ends in a given way. -/
def flushed (block : Block) (flush : Option (Construction block)) : Calls block :=
  ⟨9, some (), some 0, some (), none, flush⟩

/-- A block is flushed to, and a fitter one becomes the head although its flush fails. -/
theorem head_improves_twice :
    let _ := Chain_env.numbered
    let nv := (on_request forked (scored 1 1) (flushed _ (some ⟨none, nofun⟩))).1
    let nv' := (on_request nv (scored 2 2) (flushed _ none)).1
    nv'.head = scored 2 2 ∧ Fitness.compare nv.head.fitness nv'.head.fitness = .lt := by
  intro _ nv nv'
  have hlaunched : On_head forked := by
    rintro pv ⟨⟩
    rfl
  have hfirst : Step { state := forked, closed := false } { state := nv, closed := false } :=
    .validated rfl (scored 1 1) (flushed _ (some ⟨none, nofun⟩))
  have hsecond := head_improves hlaunched (.single hfirst)
    (.validated rfl (scored 2 2) (flushed _ none))
  have hhead : nv.head = scored 1 1 := rfl
  have hhead' : nv'.head = scored 2 2 := rfl
  refine ⟨hhead', ?_⟩
  dsimp only at hsecond
  rcases hsecond.1 with hsame | hfitter
  · exact absurd (hhead'.symm.trans (hsame.trans hhead)) (by decide)
  · exact hfitter

end plexus.chain_validator
