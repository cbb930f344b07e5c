import Plexus.Shell.Classification

/-! The sets of operations the prevalidator keeps, and when they stay in
step. -/

namespace plexus.shell

open List

open Result (bind_inv)

namespace prevalidator

open prevalidation OrderedMap

variable {Proto : Registered_protocol} {filter : Filter Proto} [Rings]

/-- No two of the propositions hold together. -/
def Exclusive (l : List Prop) : Prop := l.Pairwise fun a b => ¬(a ∧ b)

/-- A ring holds exactly the keys of its map, each of them once. -/
def Mirrors (ring : EvictionRing.Ring Operation_hash) (map : Refusals Proto) : Prop :=
  (EvictionRing.elements ring).Nodup ∧ ∀ h, h ∈ EvictionRing.elements ring ↔ h ∈ map.keys

variable {map : Refusals Proto} {k : Operation_hash} {e : Option Operation_hash}

omit [Rings] in
/-- What the ring gives up leaves the map. -/
theorem mem_bindings_evict {v : Operation × List (Error Proto.error)} :
    (k, v) ∈ (evict map e).bindings ↔ (k, v) ∈ map.bindings ∧ e ≠ some k := by
  cases e with
  | none => simp [evict]
  | some e =>
    rw [evict, mem_bindings_remove, and_comm]
    simp [eq_comm]

omit [Rings] in
theorem mem_keys_evict : k ∈ (evict map e).keys ↔ k ∈ map.keys ∧ e ≠ some k := by
  simp only [OrderedMap.mem_keys, mem_bindings_evict, exists_and_right]

omit [Rings] in
theorem mem_evict_set {set : Finset Operation_hash} :
    k ∈ evict_set set e ↔ k ∈ set ∧ e ≠ some k := by
  cases e with
  | none => simp [evict_set]
  | some e =>
    rw [evict_set, Finset.mem_erase, and_comm]
    simp [eq_comm]

variable {h : Operation_hash} {ring : EvictionRing.Ring Operation_hash}

/-- An operation that was not in the ring is added to the ring and the map,
and what the ring gives up leaves the map. -/
theorem Mirrors.add [LawfulEvictionRing Operation_hash] (hmirrors : Mirrors ring map)
    (hnew : h ∉ map.keys) (v : Operation × List (Error Proto.error)) :
    Mirrors (EvictionRing.add ring h) ((evict map (EvictionRing.erased ring h)).add h v) := by
  obtain ⟨hnodup, hmem⟩ := hmirrors
  refine ⟨EvictionRing.nodup_add hnodup (by rwa [hmem]), ?_⟩
  intro k
  rw [EvictionRing.mem_add hnodup, mem_keys_add, mem_keys_evict, hmem]

/-- The places where the prevalidator keeps operations. -/
inductive Place where
  | Waiting
  | Refusals
  | Fetching
  | Live
  | Applied
  | Branch_delays
  | Branch_refusals

/-- An operation is kept in a place. -/
def In (waiting : List Operation_hash) (pv : Types_state Proto filter) (h : Operation_hash) :
    Place → Prop
  | .Waiting => h ∈ waiting
  | .Refusals => h ∈ pv.refusals.keys
  | .Fetching => h ∈ pv.fetching
  | .Live => h ∈ pv.live_operations
  | .Applied => h ∈ pv.applied.map Prod.fst
  | .Branch_delays => h ∈ pv.branch_delays.keys
  | .Branch_refusals => h ∈ pv.branch_refusals.keys

omit [Rings] in
/-- Operations that were nowhere come to one place. -/
theorem one_place_of_new {P Q : Operation_hash → Place → Prop} {F : Operation_hash → Prop}
    (target : Place) (hold : ∀ k p p', P k p → P k p' → p = p')
    (hfresh : ∀ k p, F k → ¬P k p) (hnew : ∀ k p, Q k p → (F k ∧ p = target) ∨ P k p)
    (k : Operation_hash) (p p' : Place) (hp : Q k p) (hp' : Q k p') : p = p' := by
  rcases hnew k p hp with ⟨hk, rfl⟩ | hp
  · rcases hnew k p' hp' with ⟨_, rfl⟩ | hp'
    · rfl
    · exact absurd hp' (hfresh k p' hk)
  · rcases hnew k p' hp' with ⟨hk, rfl⟩ | hp'
    · exact absurd hp (hfresh k p hk)
    · exact hold k p p' hp hp'

/-- The five places where an operation is looked for. -/
theorem already_handled_iff {pv : Types_state Proto filter} :
    already_handled pv h = true ↔ h ∈ pv.refusals.keys ∨ h ∈ pv.pending.keys ∨ h ∈ pv.fetching ∨
      h ∈ pv.live_operations ∨ h ∈ pv.in_mempool := by
  simp only [already_handled, Bool.or_eq_true, decide_eq_true_eq, mem_iff, or_assoc]

/-- Advertising changes the advertisement only. -/
theorem on_advertise_frame (w : Worker Proto filter) :
    (on_advertise w).requests = w.requests ∧
    ∃ a, (on_advertise w).state = { w.state with advertisement := a } := by
  unfold on_advertise
  split
  · exact ⟨rfl, _, rfl⟩
  · exact ⟨rfl, _, rfl⟩

variable [Node]

/-- The delayed operations are bound to their own hashes. -/
def Refusals_keyed (map : Refusals Proto) : Prop :=
  ∀ k v, (k, v) ∈ map.bindings → Node.hash v.1 = k

omit [Rings] in
theorem Refusals_keyed.add (hkeyed : Refusals_keyed map) (e : Option Operation_hash)
    (op : Operation) (errors : List (Error Proto.error)) :
    Refusals_keyed ((evict map e).add (Node.hash op) (op, errors)) := by
  intro k v hkv
  rcases mem_bindings_add.mp hkv with ⟨rfl, rfl⟩ | ⟨_, hold⟩
  · rfl
  · exact hkeyed k v (mem_bindings_evict.mp hold).1

/-- Every operation is in one place at most, and the other sets are in step
with the places. -/
structure Consistent (waiting : List Operation_hash) (pv : Types_state Proto filter) : Prop where
  one_place : ∀ h p p', In waiting pv h p → In waiting pv h p' → p = p'
  in_mempool : ∀ h, h ∈ pv.in_mempool ↔ h ∈ pv.applied.map Prod.fst ∨
    h ∈ pv.branch_delays.keys ∨ h ∈ pv.branch_refusals.keys
  refused : Mirrors pv.refused pv.refusals
  branch_refused : Mirrors pv.branch_refused pv.branch_refusals
  branch_delayed : Mirrors pv.branch_delayed pv.branch_delays
  applied_keyed : ∀ b ∈ pv.applied, Node.hash b.2 = b.1
  branch_delays_keyed : Refusals_keyed pv.branch_delays
  branch_refusals_keyed : Refusals_keyed pv.branch_refusals

namespace Consistent

variable {waiting : List Operation_hash} {pv : Types_state Proto filter} {op : Operation}

/-- Fewer operations may be waiting. -/
theorem mono {waiting' : List Operation_hash} (h : Consistent waiting pv)
    (hsub : ∀ k ∈ waiting', k ∈ waiting) : Consistent waiting' pv := by
  have hin k p (hk : In waiting' pv k p) : In waiting pv k p := by
    cases p with
    | Waiting => exact hsub k hk
    | _ => exact hk
  refine { h with one_place := ?_ }
  intro k p p' hp hp'
  exact h.one_place k p p' (hin k p hp) (hin k p' hp')

/-- An operation is in one place only. -/
theorem apart {p q : Place} (h : Consistent waiting pv) (hp : In waiting pv k p) (hne : p ≠ q) :
    ¬In waiting pv k q :=
  fun hq => hne (h.one_place k p q hp hq)

/-- The operation that is classified next is nowhere else. -/
theorem fresh (h : Consistent (Node.hash op :: waiting) pv) (p : Place) (hp : p ≠ .Waiting) :
    ¬In (Node.hash op :: waiting) pv (Node.hash op) p :=
  h.apart (mem_cons_self : In _ _ _ .Waiting) hp.symm

/-- When the next operation moves to the place `target` and no other place
gains an operation, every operation is still in one place at most. -/
theorem moved (h : Consistent (Node.hash op :: waiting) pv) (hnew : Node.hash op ∉ waiting)
    {pv' : Types_state Proto filter} (target : Place)
    (hmove : ∀ k p, p ≠ .Waiting → In waiting pv' k p →
      (k = Node.hash op ∧ p = target) ∨ In (Node.hash op :: waiting) pv k p) :
    ∀ k p p', In waiting pv' k p → In waiting pv' k p' → p = p' := by
  refine one_place_of_new (F := (· = Node.hash op))
    (P := fun k p => k ≠ Node.hash op ∧ In (Node.hash op :: waiting) pv k p) target ?_ ?_ ?_
  · rintro k p p' ⟨_, hp⟩ ⟨_, hp'⟩
    exact h.one_place k p p' hp hp'
  · rintro k p rfl ⟨hne, _⟩
    exact hne rfl
  · intro k p hp
    by_cases hwaiting : p = .Waiting
    · subst hwaiting
      refine .inr ⟨?_, mem_cons_of_mem _ hp⟩
      rintro rfl
      exact hnew hp
    · rcases hmove k p hwaiting hp with hmoved | hold
      · exact .inl hmoved
      · refine .inr ⟨?_, hold⟩
        rintro rfl
        exact h.fresh p hwaiting hold

/-- An operation that waits becomes applied. -/
theorem add_applied (h : Consistent (Node.hash op :: waiting) pv) (hnew : Node.hash op ∉ waiting) :
    Consistent waiting { pv with
      applied := (Node.hash op, op) :: pv.applied
      in_mempool := insert (Node.hash op) pv.in_mempool } := by
  refine { h with one_place := ?_, in_mempool := ?_, applied_keyed := ?_ }
  · apply h.moved hnew .Applied
    intro k p _ hp
    cases p with
    | Waiting => contradiction
    | Applied =>
      rcases mem_cons.mp hp with rfl | hold
      · exact .inl ⟨rfl, rfl⟩
      · exact .inr hold
    | _ => exact .inr hp
  · intro k
    simp only [Finset.mem_insert, map_cons, mem_cons, h.in_mempool k, or_assoc]
  · exact forall_mem_cons.mpr ⟨rfl, h.applied_keyed⟩

/-- What a ring gives up was in its own map, and so nowhere else. -/
theorem kept [LawfulEvictionRing Operation_hash] {p q : Place} (h : Consistent waiting pv)
    (hmirrors : Mirrors ring map) (hplace : k ∈ map.keys → In waiting pv k q) (hne : p ≠ q)
    (hin : In waiting pv k p) {x : Operation_hash} : EvictionRing.erased ring x ≠ some k :=
  fun hk => h.apart hin hne (hplace ((hmirrors.2 k).mp (EvictionRing.mem_of_erased hk)))

variable [LawfulEvictionRing Operation_hash] (hpv : Consistent (Node.hash op :: waiting) pv)
  (hnew : Node.hash op ∉ waiting) (errors : List (Error Proto.error))

include hpv hnew

/-- An operation that waits becomes delayed. -/
theorem add_branch_delay :
    Consistent waiting (add_branch_delay pv op (Node.hash op) errors) := by
  have hdelays : Node.hash op ∉ pv.branch_delays.keys := hpv.fresh .Branch_delays nofun
  rw [add_branch_delay_eq]
  refine { hpv with
    one_place := ?_, in_mempool := ?_
    branch_delayed := hpv.branch_delayed.add hdelays _
    branch_delays_keyed := hpv.branch_delays_keyed.add _ op errors }
  · apply hpv.moved hnew .Branch_delays
    intro k p _ hp
    cases p with
    | Waiting => contradiction
    | Branch_delays =>
      rcases mem_keys_add.mp hp with rfl | hold
      · exact .inl ⟨rfl, rfl⟩
      · exact .inr (mem_keys_evict.mp hold).1
    | _ => exact .inr hp
  · intro k
    have happlied : k ∈ pv.applied.map Prod.fst → _ :=
      hpv.kept (p := .Applied) (q := .Branch_delays) hpv.branch_delayed id nofun
    have hrefused : k ∈ pv.branch_refusals.keys → _ :=
      hpv.kept (p := .Branch_refusals) (q := .Branch_delays) hpv.branch_delayed id nofun
    simp only [Finset.mem_insert, mem_evict_set, hpv.in_mempool k, mem_keys_add,
      mem_keys_evict]
    tauto

/-- An operation that waits becomes refused on its branch. -/
theorem add_branch_refusal :
    Consistent waiting (add_branch_refusal pv op (Node.hash op) errors) := by
  have hrefusals : Node.hash op ∉ pv.branch_refusals.keys := hpv.fresh .Branch_refusals nofun
  rw [add_branch_refusal_eq]
  refine { hpv with
    one_place := ?_, in_mempool := ?_
    branch_refused := hpv.branch_refused.add hrefusals _
    branch_refusals_keyed := hpv.branch_refusals_keyed.add _ op errors }
  · apply hpv.moved hnew .Branch_refusals
    intro k p _ hp
    cases p with
    | Waiting => contradiction
    | Branch_refusals =>
      rcases mem_keys_add.mp hp with rfl | hold
      · exact .inl ⟨rfl, rfl⟩
      · exact .inr (mem_keys_evict.mp hold).1
    | _ => exact .inr hp
  · intro k
    have happlied : k ∈ pv.applied.map Prod.fst → _ :=
      hpv.kept (p := .Applied) (q := .Branch_refusals) hpv.branch_refused id nofun
    have hdelayed : k ∈ pv.branch_delays.keys → _ :=
      hpv.kept (p := .Branch_delays) (q := .Branch_refusals) hpv.branch_refused id nofun
    simp only [Finset.mem_insert, mem_evict_set, hpv.in_mempool k, mem_keys_add,
      mem_keys_evict]
    tauto

/-- An operation that waits becomes refused. -/
theorem add_refusal :
    Consistent waiting (add_refusal pv op (Node.hash op) errors) := by
  have hrefusals : Node.hash op ∉ pv.refusals.keys := hpv.fresh .Refusals nofun
  rw [add_refusal_eq]
  refine { hpv with one_place := ?_, refused := hpv.refused.add hrefusals _ }
  apply hpv.moved hnew .Refusals
  intro k p _ hp
  cases p with
  | Waiting => contradiction
  | Refusals =>
    rcases mem_keys_add.mp hp with rfl | hold
    · exact .inl ⟨rfl, rfl⟩
    · exact .inr (mem_keys_evict.mp hold).1
  | _ => exact .inr hp

end Consistent

variable {pv : Types_state Proto filter} {op : Operation} {w : Worker Proto filter}

section Batch

variable [LawfulEvictionRing Operation_hash]

/-- Classifying the next of the waiting operations keeps the sets in step. -/
theorem Classified.consistent {state : T Proto} {waiting : List Operation_hash}
    {pv' : Types_state Proto filter} {s s' : T Proto} {c : Class}
    (hround : Classified state op pv s pv' s' c) (hnew : Node.hash op ∉ waiting)
    (h : Consistent (Node.hash op :: waiting) pv) : Consistent waiting pv' := by
  cases hround with
  | applied _ _ _ => exact h.add_applied hnew
  | dropped _ => exact h.mono fun k hk => mem_cons_of_mem _ hk
  | branch_delayed errors => exact h.add_branch_delay hnew errors
  | branch_refused errors => exact h.add_branch_refusal hnew errors
  | refused errors => exact h.add_refusal hnew errors

/-- An operation that the protocol can read is dropped when it is live. -/
def Outdated (state : T Proto) (op : Operation) : Prop :=
  ∃ parsed, parse Proto op = .ok parsed ∧ apply_operation state parsed = .Outdated

omit [LawfulEvictionRing Operation_hash] in
/-- A round drops an outdated operation. -/
theorem Outdated.round {state : T Proto} (h : Outdated state op) (acc : Batch Proto filter) :
    (Batch.round state acc op).w.state = acc.w.state := by
  obtain ⟨parsed, hparse, happly⟩ := h
  simp only [Batch.round, hparse, happly, Worker.classify]

/-- Of the operations of a batch, those in `live` are outdated. -/
theorem rounds_consistent {state : T Proto} {ops : List Operation} (acc : Batch Proto filter)
    {live : Finset Operation_hash} (hnodup : (ops.map Node.hash).Nodup)
    (hlive : ∀ op ∈ ops, Node.hash op ∈ live → Outdated state op)
    (h : Consistent ((ops.map Node.hash).filter (· ∉ live)) acc.w.state) :
    Consistent [] (ops.foldl (Batch.round state) acc).w.state := by
  induction ops generalizing acc with
  | nil => exact h
  | cons op ops ih =>
    rw [map_cons, nodup_cons] at hnodup
    refine ih _ hnodup.2 (fun op' hop' => hlive op' (mem_cons_of_mem op hop')) ?_
    by_cases hop : Node.hash op ∈ live
    · rw [(hlive op mem_cons_self hop).round]
      rwa [map_cons, filter_cons_of_neg (by simpa using hop)] at h
    · rw [map_cons, filter_cons_of_pos (by simpa using hop)] at h
      obtain ⟨c, _, hround⟩ := Batch.round_classified state acc op
      exact hround.consistent (fun hmem => hnodup.1 (mem_filter.mp hmem).1) h

/-- Without a validation state all that waits is delayed. -/
theorem delays_consistent (errors : List (Error Proto.error))
    {l : List (Operation_hash × Operation)} (pv : Types_state Proto filter)
    (hkeyed : ∀ b ∈ l, Node.hash b.2 = b.1) (hnodup : (l.map Prod.fst).Nodup)
    (h : Consistent (l.map Prod.fst) pv) :
    Consistent [] (l.foldl (fun pv b => add_branch_delay pv b.2 b.1 errors) pv) := by
  induction l generalizing pv with
  | nil => exact h
  | cons b l ih =>
    rw [map_cons, nodup_cons] at hnodup
    have hb := hkeyed b mem_cons_self
    apply ih
    · intro b' hb'
      exact hkeyed b' (mem_cons_of_mem b hb')
    · exact hnodup.2
    · rw [map_cons, ← hb] at h
      rw [← hb] at hnodup
      dsimp only
      rw [← hb]
      exact h.add_branch_delay hnodup.1 errors

/-- The pending operations are nowhere else, except that outdated ones may be
live. -/
structure Waiting (pv : Types_state Proto filter) : Prop where
  keyed : Keyed pv.pending
  consistent : Consistent (pv.pending.keys.filter (· ∉ pv.live_operations)) pv
  outdated : ∀ b ∈ pv.pending.bindings, b.1 ∈ pv.live_operations →
    ∃ state, pv.validation_state = .ok state ∧ Outdated state b.2

omit [LawfulEvictionRing Operation_hash] in
/-- Operations that are nowhere else. -/
theorem Waiting.of_consistent (hkeyed : Keyed pv.pending)
    (h : Consistent pv.pending.keys pv) : Waiting pv := by
  refine ⟨hkeyed, h.mono fun k hk => (mem_filter.mp hk).1, fun b hb hlive => ?_⟩
  have hkey : b.1 ∈ pv.pending.keys := mem_map_of_mem hb
  exact absurd hlive (h.apart (p := .Waiting) (q := .Live) hkey nofun)

/-- Handling the pending operations keeps the sets in step. -/
theorem handle_unprocessed_consistent (h : Waiting w.state) :
    Consistent [] (handle_unprocessed w).state := by
  obtain ⟨hkeyed, h, hlive⟩ := h
  have hprocess : Consistent [] (process_pending w).state := by
    cases hstate : w.state.validation_state with
    | error errors =>
      have hnone : ∀ k ∈ w.state.pending.keys, k ∉ w.state.live_operations := by
        intro k hk hklive
        obtain ⟨b, hb, rfl⟩ := mem_map.mp hk
        obtain ⟨state, hok, _⟩ := hlive b hb hklive
        rw [hstate] at hok
        cases hok
      rw [process_pending_failure hstate]
      rw [filter_eq_self.mpr (by simpa using hnone)] at h
      have hdelays := delays_consistent errors w.state
        (fun b hb => hkeyed b.1 b.2 hb) w.state.pending.keys_nodup h
      exact { hdelays with }
    | ok state =>
      have hhashes : (w.state.pending.bindings.map Prod.snd).map Node.hash = w.state.pending.keys := by
        rw [map_map, OrderedMap.keys]
        apply map_congr_left
        intro b hb
        exact hkeyed b.1 b.2 hb
      have hsub : ((first_batch w).map Node.hash).Sublist w.state.pending.keys := by
        rw [← hhashes]
        exact (take_sublist _ _).map _
      have houtdated : ∀ op ∈ first_batch w, Node.hash op ∈ w.state.live_operations →
          Outdated state op := by
        intro op hop hoplive
        obtain ⟨b, hb, rfl⟩ := mem_map.mp (mem_of_mem_take hop)
        rw [hkeyed b.1 b.2 hb] at hoplive
        obtain ⟨state', hok, houtdated⟩ := hlive b hb hoplive
        rw [hstate] at hok
        cases hok
        exact houtdated
      have hbatch : Consistent [] (run_batch w state).w.state :=
        rounds_consistent ⟨w, state, Mempool.empty⟩ (w.state.pending.keys_nodup.sublist hsub)
          houtdated (h.mono fun k hk => (hsub.filter _).subset hk)
      obtain ⟨⟨a, hsuccess⟩, _⟩ := process_pending_success hstate
      rw [hsuccess]
      exact { hbatch with }
  exact { hprocess with }

end Batch

namespace Consistent

variable {pv : Types_state Proto filter}

section

variable (hpv : Consistent [] pv)

include hpv

/-- An operation that is not handled yet is nowhere. -/
theorem nowhere (hnot : already_handled pv h = false) (p : Place) :
    ¬In [] pv h p := by
  rw [← Bool.not_eq_true, already_handled_iff, hpv.in_mempool] at hnot
  intro hp
  cases p with
  | Waiting => cases hp
  | Refusals => exact hnot (.inl hp)
  | Fetching => exact hnot (.inr (.inr (.inl hp)))
  | Live => exact hnot (.inr (.inr (.inr (.inl hp))))
  | Applied => exact hnot (.inr (.inr (.inr (.inr (.inl hp)))))
  | Branch_delays => exact hnot (.inr (.inr (.inr (.inr (.inr (.inl hp))))))
  | Branch_refusals => exact hnot (.inr (.inr (.inr (.inr (.inr (.inr hp))))))

/-- A live operation is neither refused nor fetched. -/
theorem live_excludes (hlive : h ∈ pv.live_operations) :
    h ∉ pv.refusals.keys ∧ h ∉ pv.fetching :=
  ⟨hpv.apart (p := .Live) (q := .Refusals) hlive nofun,
    hpv.apart (p := .Live) (q := .Fetching) hlive nofun⟩

/-- An operation of the mempool is neither refused, nor fetched, nor live. -/
theorem mempool_excludes (hmem : h ∈ pv.in_mempool) :
    h ∉ pv.refusals.keys ∧ h ∉ pv.fetching ∧ h ∉ pv.live_operations := by
  have hplace : ∃ p, In [] pv h p ∧ p ≠ .Refusals ∧ p ≠ .Fetching ∧ p ≠ .Live := by
    rcases (hpv.in_mempool h).mp hmem with happlied | hdelayed | hrefused
    · exact ⟨.Applied, happlied, by simp, by simp, by simp⟩
    · exact ⟨.Branch_delays, hdelayed, by simp, by simp, by simp⟩
    · exact ⟨.Branch_refusals, hrefused, by simp, by simp, by simp⟩
  obtain ⟨p, hp, hrefusals, hfetching, hlive⟩ := hplace
  exact ⟨hpv.apart hp hrefusals, hpv.apart hp hfetching, hpv.apart hp hlive⟩

/-- Operations that are nowhere can wait. -/
theorem wait (waiting : List Operation_hash) (hnowhere : ∀ h ∈ waiting, ∀ p, ¬In [] pv h p) :
    Consistent waiting pv := by
  refine { hpv with one_place := ?_ }
  refine one_place_of_new .Waiting hpv.one_place (fun k p hk => hnowhere k hk p) ?_
  intro k p hp
  cases p with
  | Waiting => exact .inl ⟨hp, rfl⟩
  | _ => exact .inr hp

/-- An operation that is not handled may wait. -/
theorem wait_one (hnot : already_handled pv h = false) :
    Consistent [h] pv := by
  apply hpv.wait
  intro k hk p hp
  rw [mem_singleton] at hk
  subst hk
  exact hpv.nowhere hnot p hp

theorem erase_fetching (h : Operation_hash) :
    Consistent [] { pv with fetching := pv.fetching.erase h } := by
  have hplace k p (hp : In [] { pv with fetching := pv.fetching.erase h } k p) : In [] pv k p := by
    cases p with
    | Fetching => exact Finset.mem_of_mem_erase hp
    | _ => exact hp
  refine { hpv with one_place := ?_ }
  intro k p p' hp hp'
  exact hpv.one_place k p p' (hplace k p hp) (hplace k p' hp')

/-- What is not handled may be fetched. -/
theorem fetch {set : Finset Operation_hash} (hset : ∀ h ∈ set, already_handled pv h = false) :
    Consistent [] { pv with fetching := set ∪ pv.fetching } := by
  refine { hpv with one_place := ?_ }
  refine one_place_of_new .Fetching hpv.one_place (fun k p hk => hpv.nowhere (hset k hk) p) ?_
  intro k p hp
  cases p with
  | Fetching =>
    rcases Finset.mem_union.mp hp with hk | hold
    · exact .inl ⟨hk, rfl⟩
    · exact .inr hold
  | _ => exact .inr hp

end

end Consistent

/-- The operations of the blocks from `header` down to the ancestor, which the
new branch does not contain. -/
def popped (ancestor : Block_hash) (header : Header) (ancestors : List Header) : List Operation :=
  if header.hash = ancestor then []
  else
    match ancestors with
    | [] => header.operations.flatten
    | pred :: ancestors => header.operations.flatten ++ popped ancestor pred ancestors

omit [Rings] in
/-- The operations of the blocks that are left come back. -/
theorem pop_blocks_eq {E : Type} {ancestor : Block_hash} {header : Header}
    {ancestors : List Header} {mempool mempool' : OrderedMap Operation_hash Operation}
    (h : pop_blocks (E := E) ancestor header ancestors mempool = .ok mempool') :
    mempool' = (popped ancestor header ancestors).foldl
      (fun mempool op => mempool.add (Node.hash op) op) mempool := by
  induction ancestors generalizing header mempool with
  | nil =>
    unfold pop_blocks at h
    unfold popped
    split at h
    next heq =>
      cases h
      rw [if_pos heq, foldl_nil]
    next => cases h
  | cons pred ancestors ih =>
    unfold pop_blocks at h
    unfold popped
    split at h
    next heq =>
      cases h
      rw [if_pos heq, foldl_nil]
    next hne =>
      rw [if_neg hne, foldl_append]
      exact ih h

/-- The operations of the new blocks. -/
def pushed (path : List Header) : List Operation_hash :=
  path.flatMap chain_traversal.operation_hashes

omit [Rings] in
/-- The operations of the new blocks are taken out. -/
theorem mem_push_blocks (path : List Header) (mempool : OrderedMap Operation_hash Operation) :
    (k, op) ∈ (path.foldl push_block mempool).bindings ↔
      (k, op) ∈ mempool.bindings ∧ k ∉ pushed path := by
  have hremove : ∀ (l : List Operation_hash) (m : OrderedMap Operation_hash Operation),
      (k, op) ∈ (l.foldl (fun m h => m.remove h) m).bindings ↔ (k, op) ∈ m.bindings ∧ k ∉ l := by
    intro l
    induction l with
    | nil => simp
    | cons a l ih =>
      intro m
      rw [foldl_cons, ih, mem_bindings_remove, mem_cons, not_or, and_left_comm, and_assoc]
  induction path generalizing mempool with
  | nil => simp [pushed]
  | cons header path ih =>
    refine (ih _).trans ?_
    rw [push_block, hremove, and_assoc, pushed, pushed, flatMap_cons, mem_append, not_or]

omit [Node] in
theorem mem_operations_keys : k ∈ (operations pv).keys ↔
    k ∈ pv.applied.map Prod.fst ∨ k ∈ pv.branch_delays.keys ∨ k ∈ pv.branch_refusals.keys := by
  rw [operations, mem_keys_fold_add, mem_keys_fold_add, or_assoc,
    mem_keys_foldl_add (fun b : Operation_hash × Operation => b)]
  simp

/-- The operations of the mempool are those that were applied or delayed. -/
theorem operations_success (hpv : Consistent [] pv) :
    Keyed (operations pv) ∧ ∀ k ∈ (operations pv).keys, k ∈ pv.in_mempool := by
  constructor
  · apply forall_bindings_fold_add
    · apply forall_bindings_fold_add
      · refine forall_bindings_foldl_add
          (fun b : Operation_hash × Operation => b) _ _ ?_ ?_
        · intro k op hk
          cases hk
        · intro b hb
          exact hpv.applied_keyed b (mem_reverse.mp hb)
      · exact hpv.branch_delays_keyed
    · exact hpv.branch_refusals_keyed
  · intro k hk
    exact (hpv.in_mempool k).mpr (mem_operations_keys.mp hk)

omit [Rings] in
/-- Where the operations that are pending after a flush come from. -/
theorem list_pendings_success {E : Type} {from_block to_block : Block}
    {live_blocks : Finset Block_hash} {old pending : OrderedMap Operation_hash Operation}
    (h : list_pendings (E := E) from_block to_block live_blocks old = .ok pending)
    (hkeyed : Keyed old) :
    ∃ ancestor path, chain_traversal.new_blocks (E := E) from_block to_block = .ok (ancestor, path) ∧
      Keyed pending ∧ ∀ b ∈ pending.bindings, b.1 ∉ pushed path ∧ b.2.branch ∈ live_blocks ∧
        (b ∈ old.bindings ∨
          b.2 ∈ popped ancestor.header.hash from_block.header from_block.ancestors) := by
  obtain ⟨⟨ancestor, path⟩, hblocks, h⟩ := bind_inv h
  obtain ⟨_, hpop, h⟩ := bind_inv h
  cases h
  obtain rfl := pop_blocks_eq hpop
  have hkeyed' := forall_bindings_foldl_add (fun op => (Node.hash op, op))
    (popped ancestor.header.hash from_block.header from_block.ancestors) old hkeyed fun _ _ => rfl
  refine ⟨ancestor, path, hblocks, ?_, ?_⟩
  · intro k op hk
    obtain ⟨hk, _⟩ := mem_bindings_filter.mp hk
    exact hkeyed' k op ((mem_push_blocks path _).mp hk).1
  · rintro ⟨k, op⟩ hb
    obtain ⟨hb, hbranch⟩ := mem_bindings_filter.mp hb
    obtain ⟨hmem, hnot⟩ := (mem_push_blocks path _).mp hb
    refine ⟨hnot, of_decide_eq_true hbranch, ?_⟩
    exact forall_bindings_foldl_add (P := fun k op => (k, op) ∈ old.bindings ∨
        op ∈ popped ancestor.header.hash from_block.header from_block.ancestors)
      (fun op => (Node.hash op, op)) _ old (fun _ _ hold => .inl hold) (fun _ hop => .inr hop) k op
      hmem

/-- A change of head that leaves the sets in step. The operations that are live
for the new head are not being fetched and were not refused. No more are those
that come back from the blocks that are left. Operations that come back but are
live again are dropped, if the protocol can read them and begin a block. -/
structure Compatible (pv : Types_state Proto filter) (block : Block) (now : Int)
    (live : Finset Block_hash × Finset Operation_hash) (ancestor : Block) (path : List Header) :
    Prop where
  gone : ∀ h ∈ live.2, h ∉ pv.refusals.keys ∧ h ∉ pv.fetching
  back : ∀ op ∈ popped ancestor.header.hash pv.predecessor.header pv.predecessor.ancestors,
    Node.hash op ∉ pushed path → op.branch ∈ live.1 →
      Node.hash op ∉ pv.refusals.keys ∧ Node.hash op ∉ pv.fetching
  again : ∀ op, (Node.hash op, op) ∈ (operations pv).bindings ∨
      op ∈ popped ancestor.header.hash pv.predecessor.header pv.predecessor.ancestors →
    Node.hash op ∉ pushed path → op.branch ∈ live.1 → Node.hash op ∈ live.2 →
      (∃ parsed, parse Proto op = .ok parsed) ∧
        ∀ errors, Proto.begin_construction block now ≠ .error errors

def Flush_compatible (pv : Types_state Proto filter) (block : Block) (now : Int) : Prop :=
  ∀ live ancestor path,
    chain_traversal.live_blocks (E := Proto.error) block block.header.max_operations_ttl = .ok live →
    chain_traversal.new_blocks (E := Proto.error) pv.predecessor block = .ok (ancestor, path) →
    Compatible pv block now live ancestor path

variable {w1 : Worker Proto filter} {now : Int}

/-- A request is handled: what is pending now can be classified, and no request
was sent. -/
def Handled (w w1 : Worker Proto filter) : Prop :=
  Waiting w1.state ∧ w1.requests = w.requests

omit [Rings] in
/-- Unless the protocol fails to begin a block, there is a validation state. -/
theorem create_attempt {block : Block} {live : Finset Block_hash × Finset Operation_hash}
    {validation_state : Except (List (Error Proto.error)) (T Proto)}
    (hlive : chain_traversal.live_blocks (E := Proto.error) block
      block.header.max_operations_ttl = .ok live)
    (hbegin : ∀ errors, Proto.begin_construction block now ≠ .error errors)
    (h : (create Proto block now).attempt = .ok validation_state) :
    ∃ state, validation_state = .ok state ∧ state.live_operations = live.2 := by
  unfold create at h
  rw [hlive, Result.bind_ok] at h
  cases hstate : Proto.begin_construction block now with
  | ok state =>
    rw [hstate] at h
    cases h
    exact ⟨_, rfl, rfl⟩
  | error errors => exact absurd hstate (hbegin errors)
  | raise _ =>
    rw [hstate] at h
    cases h
  | div =>
    rw [hstate] at h
    cases h

/-- Of the sets of an old head the refusals and the fetches are left. -/
theorem Consistent.flushed [LawfulEvictionRing Operation_hash] {block : Block}
    {live : Finset Block_hash × Finset Operation_hash}
    {pending : OrderedMap Operation_hash Operation}
    {validation_state : Except (List (Error Proto.error)) (T Proto)} (hpv : Consistent [] pv)
    (hout : ∀ h ∈ live.2, h ∉ pv.refusals.keys ∧ h ∉ pv.fetching) :
    Consistent [] { pv with
      predecessor := block
      live_blocks := live.1
      live_operations := live.2
      mempool := Mempool.empty
      pending := pending
      in_mempool := ∅
      branch_delayed := EvictionRing.clear pv.branch_delayed
      branch_delays := .empty
      branch_refused := EvictionRing.clear pv.branch_refused
      branch_refusals := .empty
      applied := []
      applied_count := 0
      validation_state := validation_state } := by
  refine ⟨?_, by simp, hpv.refused, by simp [Mirrors], by simp [Mirrors], by simp, ?_, ?_⟩
  · refine one_place_of_new (F := (· ∈ live.2))
      (P := fun k p => In [] pv k p ∧ (p = .Refusals ∨ p = .Fetching)) .Live
      (fun k p p' hp hp' => hpv.one_place k p p' hp.1 hp'.1) ?_ ?_
    · rintro k p hk ⟨hp, rfl | rfl⟩
      · exact (hout k hk).1 hp
      · exact (hout k hk).2 hp
    · intro k p hp
      cases p with
      | Refusals => exact .inr ⟨hp, .inl rfl⟩
      | Fetching => exact .inr ⟨hp, .inr rfl⟩
      | Live => exact .inl ⟨hp, rfl⟩
      | _ => cases hp
  · intro k v hk
    cases hk
  · intro k v hk
    cases hk

/-- After a compatible change of head, what waits to be classified again is
nowhere else. -/
theorem on_flush_consistent [LawfulEvictionRing Operation_hash] {block : Block}
    (hpv : Consistent [] w.state) (hcompatible : Flush_compatible w.state block now)
    (h : on_flush w block now = .ok w1) : Handled w w1 := by
  obtain ⟨⟨live_blocks, live_operations⟩, hlive, h⟩ := bind_inv h
  obtain ⟨pending, hpending, h⟩ := bind_inv h
  obtain ⟨validation_state, hcreate, h⟩ := bind_inv h
  cases h
  obtain ⟨hkeyed, hmempool⟩ := operations_success hpv
  obtain ⟨ancestor, path, hblocks, hkeyed', hbindings⟩ := list_pendings_success hpending hkeyed
  obtain ⟨hout, hback, hagain⟩ := hcompatible _ ancestor path hlive hblocks
  refine ⟨⟨hkeyed', (hpv.flushed hout).wait _ ?_, ?_⟩, rfl⟩
  · intro k hk p hp
    obtain ⟨hk, hnot⟩ := mem_filter.mp hk
    obtain ⟨op, hb⟩ := mem_keys.mp hk
    obtain ⟨hpushed, hbranch, hold⟩ := hbindings _ hb
    have hexcluded : k ∉ w.state.refusals.keys ∧ k ∉ w.state.fetching := by
      rcases hold with hold | hop
      · obtain ⟨hrefusals, hfetching, _⟩ := hpv.mempool_excludes (hmempool k (mem_map_of_mem hold))
        exact ⟨hrefusals, hfetching⟩
      · rw [← hkeyed' _ _ hb] at hpushed ⊢
        exact hback op hop hpushed hbranch
    cases p with
    | Refusals => exact hexcluded.1 hp
    | Fetching => exact hexcluded.2 hp
    | Live => exact of_decide_eq_true hnot hp
    | _ => cases hp
  · rintro ⟨k, op⟩ hb hklive
    obtain ⟨hpushed, hbranch, hold⟩ := hbindings _ hb
    obtain rfl := hkeyed' _ _ hb
    obtain ⟨⟨parsed, hparse⟩, hbegin⟩ := hagain op hold hpushed hbranch hklive
    obtain ⟨state, rfl, hstate⟩ := create_attempt hlive hbegin hcreate
    refine ⟨state, rfl, parsed, hparse, ?_⟩
    rw [apply_operation, if_pos]
    rw [hstate, (parse_success hparse).1]
    exact hklive

/-- What the requests must not do for the sets to stay in step: an operation
that arrives for an unknown branch is not handled yet, and a flush is
compatible. -/
def Request_compatible (w : Worker Proto filter) (now : Int) : Request → Prop
  | .Arrived oph op => op.branch ∉ w.state.live_blocks →
      already_handled { w.state with fetching := w.state.fetching.erase oph } oph = false
  | .Flush hash => ∀ block, Node.read hash = some block → Flush_compatible w.state block now
  | _ => True

/-- Between requests: the sets are in step, nothing is pending, and operations
that have arrived are announced under their own hashes. -/
structure Between_requests (w : Worker Proto filter) : Prop where
  consistent : Consistent [] w.state
  pending : w.state.pending = .empty
  arrived : ∀ oph op, Request.Arrived oph op ∈ w.requests → Node.hash op = oph

omit [Rings] in
theorem nothing_pending {pending : OrderedMap Operation_hash Operation} (h : pending = .empty) :
    Keyed pending ∧ ∀ k ∈ pending.keys, k ∈ ([] : List Operation_hash) := by
  subst h
  refine ⟨?_, fun k hk => hk⟩
  intro k op hk
  cases hk

omit [Rings] in
theorem keyed_add_empty (op : Operation) : Keyed (empty.add (Node.hash op) op) := by
  intro k op' hk
  rcases mem_bindings_add.mp hk with ⟨rfl, rfl⟩ | ⟨_, hk⟩
  · rfl
  · cases hk

/-- An operation that arrives keeps the sets in step. -/
theorem on_operation_arrived_consistent [LawfulEvictionRing Operation_hash]
    (hw : Consistent [] w.state) (hpending : w.state.pending = .empty)
    (hcompatible : Request_compatible w now (.Arrived (Node.hash op) op)) :
    Handled w (on_operation_arrived w (Node.hash op) op) := by
  obtain ⟨hkeyed, hnone⟩ := nothing_pending hpending
  have herased := hw.erase_fetching (Node.hash op)
  unfold on_operation_arrived
  dsimp only
  split
  · next hbranch =>
    have hadded := (herased.wait_one (hcompatible hbranch)).add_branch_refusal not_mem_nil
      [.Exn "Unknown branch operation"]
    have hsame := congrArg Types_state.pending (add_branch_refusal_eq
      { w.state with fetching := w.state.fetching.erase (Node.hash op) } op (Node.hash op)
      [.Exn "Unknown branch operation"])
    simp only [Handled, handle_branch_refused, notify_operation_state, notify_operation_requests,
      Worker.output, and_true]
    refine .of_consistent ?_ ?_
    · rw [hsame]
      exact hkeyed
    · rw [hsame]
      exact hadded.mono hnone
  · split
    · exact ⟨.of_consistent hkeyed (herased.mono hnone), rfl⟩
    · next hnot =>
      split
      · rw [hpending]
        have hfresh := herased.wait_one (Bool.eq_false_iff.mpr hnot)
        exact ⟨.of_consistent (keyed_add_empty op) { hfresh with }, rfl⟩
      · exact ⟨.of_consistent hkeyed (herased.mono hnone), rfl⟩

/-- An operation that is injected keeps the sets in step. -/
theorem on_inject_consistent (hw : Consistent [] w.state) (hpending : w.state.pending = .empty)
    (h : on_inject w op = .ok w1) : Handled w w1 := by
  obtain ⟨hkeyed, hnone⟩ := nothing_pending hpending
  unfold on_inject at h
  dsimp only at h
  split at h
  · cases h
    exact ⟨.of_consistent hkeyed (hw.mono hnone), rfl⟩
  · next hnot =>
    split at h
    · cases h
    · split at h
      · cases h
      · next parsed hparse =>
        obtain ⟨hhash, _⟩ := parse_success hparse
        split at h
        · cases h
          rw [hhash]
          dsimp only [Worker.output]
          rw [hpending]
          have hfresh := hw.wait_one (Bool.eq_false_iff.mpr hnot)
          exact ⟨.of_consistent (keyed_add_empty op) { hfresh with }, rfl⟩
        · cases h

/-- A compatible request leaves pending operations that are nowhere else. -/
theorem request_handler_consistent [LawfulEvictionRing Operation_hash] {request : Request}
    (hw : Consistent [] w.state) (hpending : w.state.pending = .empty)
    (harrived : ∀ oph op, request = .Arrived oph op → Node.hash op = oph)
    (hcompatible : Request_compatible w now request) (h : request_handler w now request = .ok w1) :
    Handled w w1 := by
  obtain ⟨hkeyed, hnone⟩ := nothing_pending hpending
  obtain ⟨hrequests, a, hadvertise⟩ := on_advertise_frame w
  cases request with
  | Flush hash =>
    simp only [request_handler] at h
    split at h
    · cases h
    · next block hread =>
      have hstate : Consistent [] (on_advertise w).state := by
        rw [hadvertise]
        exact { hw with }
      have hflush : Flush_compatible (on_advertise w).state block now := by
        rw [hadvertise]
        exact fun live ancestor path hlive hblocks =>
          { hcompatible block hread live ancestor path hlive hblocks with }
      rw [Handled, ← hrequests]
      exact on_flush_consistent hstate hflush h
  | Notify peer mempool =>
    cases h
    refine ⟨.of_consistent hkeyed (Consistent.mono (hw.fetch ?_) hnone), rfl⟩
    intro k hk
    simpa [to_fetch] using (Finset.mem_filter.mp hk).2
  | Leftover =>
    cases h
    exact ⟨.of_consistent hkeyed (hw.mono hnone), rfl⟩
  | Inject op => exact on_inject_consistent hw hpending h
  | Arrived oph op =>
    cases h
    have hhash := harrived oph op rfl
    subst hhash
    exact on_operation_arrived_consistent hw hpending hcompatible
  | Advertise =>
    cases h
    rw [Handled, hadvertise, hrequests]
    exact ⟨.of_consistent hkeyed { hw.mono hnone with }, rfl⟩

/-- One step of the node around the worker: a request is sent from outside, a
fetched operation comes back, a fetch is cancelled or times out, the time to
advertise has come, the RPC sets the filter, or the worker handles its next
request, which meets `condition`. An operation that comes back has the hash it
was fetched under. A request to inject that fails leaves the worker as it was. -/
inductive Step (condition : Worker Proto filter → Int → Request → Prop) :
    Worker Proto filter → Worker Proto filter → Prop
  | sent {w : Worker Proto filter} (request : Request)
      (hrequest : ∀ oph op, request ≠ .Arrived oph op) : Step condition w (w.push_request request)
  | fetched {w : Worker Proto filter} {op : Operation} (hfetch : Node.hash op ∈ w.fetches) :
      Step condition w ({ w with fetches := w.fetches.erase (Node.hash op) }.push_request
        (.Arrived (Node.hash op) op))
  | not_fetched {w : Worker Proto filter} {oph : Operation_hash} (hfetch : oph ∈ w.fetches) :
      Step condition w { w with fetches := w.fetches.erase oph }
  | advertised {w : Worker Proto filter} (hsleep : 0 < w.advertisers) :
      Step condition w ({ w with advertisers := w.advertisers - 1 }.push_request .Advertise)
  | set_filter {w : Worker Proto filter} {config : filter.json} :
      Step condition w { w with state.filter_config := some config }
  | handled {w w' : Worker Proto filter} {request : Request} {requests : List Request} {now : Int}
      (hnext : w.requests = request :: requests) (hcondition : condition w now request)
      (hhandle : on_request { w with requests := requests } now request = .ok w') :
      Step condition w w'
  | failed {w : Worker Proto filter} {op : Operation} {requests : List Request} {now : Int}
      {errors : List (Error Proto.error)} (hnext : w.requests = .Inject op :: requests)
      (hhandle : on_request { w with requests := requests } now (.Inject op) = .error errors) :
      Step condition w { w with requests := requests }

/-- The workers of a node that was started with no live operation in its stored
mempool. -/
inductive Reached (condition : Worker Proto filter → Int → Request → Prop) :
    Worker Proto filter → Prop
  | launch {limits : Limits} {predecessor : Block} {mempool : Mempool}
      {live_blocks : Finset Block_hash} {live_operations : Finset Operation_hash} {now : Int}
      {w : Worker Proto filter}
      (hstored : ∀ h ∈ mempool.known_valid, h ∉ live_operations)
      (hlaunch : on_launch limits predecessor mempool live_blocks live_operations now = .ok w) :
      Reached condition w
  | step {w w' : Worker Proto filter} (hreached : Reached condition w)
      (hstep : Step condition w w') : Reached condition w'

theorem handle_unprocessed_requests (w : Worker Proto filter) :
    (handle_unprocessed w).requests = w.requests ∨
      (handle_unprocessed w).requests = w.requests ++ [.Leftover] := by
  have hframe : (handle_unprocessed w).requests = (process_pending w).requests := rfl
  rw [hframe]
  cases hstate : w.state.validation_state with
  | ok state => exact (process_pending_success hstate).2.2.2
  | error errors =>
    rw [process_pending_failure hstate]
    exact .inl rfl

/-- A worker that has just been launched. -/
theorem on_launch_between_requests [LawfulEvictionRing Operation_hash] {limits : Limits}
    {predecessor : Block} {mempool : Mempool}
    {live_blocks : Finset Block_hash} {live_operations : Finset Operation_hash}
    (hstored : ∀ h ∈ mempool.known_valid, h ∉ live_operations)
    (h : on_launch limits predecessor mempool live_blocks live_operations now = .ok w) :
    Between_requests w := by
  have hfetch : ∀ (l : List Operation_hash) (w : Worker Proto filter),
      (l.foldl fetch_operation w).state = w.state ∧
        (l.foldl fetch_operation w).requests = w.requests := by
    intro l
    induction l with
    | nil => exact fun _ => ⟨rfl, rfl⟩
    | cons oph l ih => exact fun w => ih (fetch_operation w oph)
  obtain ⟨_, _, h⟩ := bind_inv h
  cases h
  refine ⟨?_, by rw [(hfetch _ _).1], by rw [(hfetch _ _).2]; simp⟩
  rw [(hfetch _ _).1]
  refine ⟨?_, by simp, ?_, ?_, ?_, by simp, ?_, ?_⟩
  · refine one_place_of_new (F := (· ∈ mempool.known_valid))
      (P := fun k p => k ∈ live_operations ∧ p = .Live) .Fetching ?_ ?_ ?_
    · rintro k p p' ⟨_, rfl⟩ ⟨_, rfl⟩
      rfl
    · rintro k p hk ⟨hlive, _⟩
      exact hstored k hk hlive
    · intro k p hp
      cases p with
      | Fetching =>
        rcases mem_foldl_insert.mp hp with hk | hk
        · cases hk
        · exact .inl ⟨hk, rfl⟩
      | Live => exact .inr ⟨hp, rfl⟩
      | _ => cases hp
  all_goals simp [Mirrors, LawfulEvictionRing.elements_create limits.max_refused_operations_pos,
    Refusals_keyed, empty, OrderedMap.keys]

/-- A request may be pushed at any time. -/
theorem Between_requests.push_request {request : Request} (hw : Between_requests w)
    (hrequest : ∀ oph op, request = .Arrived oph op → Node.hash op = oph) :
    Between_requests (w.push_request request) := by
  refine ⟨hw.consistent, hw.pending, ?_⟩
  intro oph op hmem
  rcases mem_append.mp hmem with hmem | hmem
  · exact hw.arrived oph op hmem
  · exact hrequest oph op (mem_singleton.mp hmem).symm

/-- Steps whose requests are compatible keep the sets in step. -/
theorem Step.between_requests [LawfulEvictionRing Operation_hash] {w' : Worker Proto filter}
    (h : Step Request_compatible w w') (hw : Between_requests w) : Between_requests w' := by
  cases h with
  | sent request hrequest =>
    exact hw.push_request fun oph op heq => absurd heq (hrequest oph op)
  | @fetched op hfetch =>
    have hw' : Between_requests { w with fetches := w.fetches.erase (Node.hash op) } :=
      ⟨hw.consistent, hw.pending, hw.arrived⟩
    refine hw'.push_request fun oph op heq => ?_
    cases heq
    rfl
  | not_fetched hfetch => exact ⟨hw.consistent, hw.pending, hw.arrived⟩
  | advertised hsleep =>
    have hw' : Between_requests { w with advertisers := w.advertisers - 1 } :=
      ⟨hw.consistent, hw.pending, hw.arrived⟩
    exact hw'.push_request fun oph op heq => by cases heq
  | set_filter => exact ⟨{ hw.consistent with }, hw.pending, hw.arrived⟩
  | @handled _ request requests now hnext hcondition hhandle =>
    obtain ⟨w1, hhandler, hhandle⟩ := bind_inv hhandle
    cases hhandle
    have harrived : ∀ oph op, request = .Arrived oph op → Node.hash op = oph := by
      rintro oph op rfl
      exact hw.arrived oph op (by rw [hnext]; exact mem_cons_self)
    have hcondition' : Request_compatible { w with requests := requests } now request := by
      cases request <;> exact hcondition
    have hstate : Consistent [] { w with requests := requests }.state := hw.consistent
    obtain ⟨hwaiting, hrequests⟩ :=
      request_handler_consistent hstate hw.pending harrived hcondition' hhandler
    refine ⟨handle_unprocessed_consistent hwaiting, process_pending_pending w1, ?_⟩
    intro oph op hmem
    have hold : Request.Arrived oph op ∈ requests := by
      rcases handle_unprocessed_requests w1 with h | h
      · rw [h, hrequests] at hmem
        exact hmem
      · rw [h, hrequests, mem_append] at hmem
        rcases hmem with hmem | hmem
        · exact hmem
        · cases mem_singleton.mp hmem
    exact hw.arrived oph op (by rw [hnext]; exact mem_cons_of_mem _ hold)
  | failed hnext hhandle =>
    refine ⟨hw.consistent, hw.pending, ?_⟩
    intro oph op hmem
    exact hw.arrived oph op (by rw [hnext]; exact mem_cons_of_mem _ hmem)

/-- The sets are in step in every reached state. -/
theorem Reached.between_requests [LawfulEvictionRing Operation_hash]
    (h : Reached Request_compatible w) : Between_requests w := by
  induction h with
  | launch hstored hlaunch => exact on_launch_between_requests hstored hlaunch
  | step _ hstep ih => exact hstep.between_requests ih

section Runs

variable {condition : Worker Proto filter → Int → Request → Prop} {w' : Worker Proto filter}

/-- A worker that has nothing to do is sent a request. -/
theorem Reached.request {request : Request} (h : Reached condition w)
    (hidle : w.requests = []) (hrequest : ∀ oph op, request ≠ .Arrived oph op)
    (hcondition : condition (w.push_request request) now request)
    (hhandle : on_request w now request = .ok w') : Reached condition w' := by
  obtain ⟨state, requests, fetches, advertisers, outputs, classified⟩ := w
  obtain rfl : requests = [] := hidle
  exact .step (.step h (.sent request hrequest)) (.handled rfl hcondition hhandle)

/-- A worker that has nothing to do gets an operation that it fetched. -/
theorem Reached.arrived {op : Operation} (h : Reached condition w) (hidle : w.requests = [])
    (hfetch : Node.hash op ∈ w.fetches)
    (hcondition : condition ({ w with fetches := w.fetches.erase (Node.hash op) }.push_request
      (.Arrived (Node.hash op) op)) now (.Arrived (Node.hash op) op))
    (hhandle : on_request { w with fetches := w.fetches.erase (Node.hash op) } now
      (.Arrived (Node.hash op) op) = .ok w') : Reached condition w' := by
  obtain ⟨state, requests, fetches, advertisers, outputs, classified⟩ := w
  obtain rfl : requests = [] := hidle
  exact .step (.step h (.fetched hfetch)) (.handled rfl hcondition hhandle)

end Runs

/-- The invariants of the prevalidator's state: an operation is in only one of
the five domains, the mempool is what was applied or delayed, and the rings hold
the keys of their maps. -/
def Sets_in_step (pv : Types_state Proto filter) : Prop :=
  (∀ h, Exclusive [h ∈ pv.refusals.keys, h ∈ pv.pending.keys, h ∈ pv.fetching,
    h ∈ pv.live_operations, h ∈ pv.in_mempool]) ∧
  (∀ h, h ∈ pv.in_mempool ↔ h ∈ pv.applied.map Prod.fst ∨ h ∈ pv.branch_delays.keys ∨
    h ∈ pv.branch_refusals.keys) ∧
  Mirrors pv.refused pv.refusals ∧ Mirrors pv.branch_refused pv.branch_refusals ∧
  Mirrors pv.branch_delayed pv.branch_delays

/-- A node with a block that contains an operation. -/
@[reducible] def including_block : Node where
  hash op := op.proto.length
  length op := op.proto.length
  read h := if h = 1 then some ⟨⟨1, 60, [[⟨0, [7]⟩]], 10⟩, [⟨0, 0, [], 10⟩]⟩ else none
  genesis := 0

/-- As long as no operation of a new block is being fetched or was refused, and
no operation arrives for an unknown branch that is already handled, the
invariants of the prevalidator's state hold between requests. -/
theorem prevalidator_sets_in_step [LawfulEvictionRing Operation_hash] (w : Worker Proto filter)
    (h : Reached Request_compatible w) : Sets_in_step w.state := by
  have hw := h.between_requests
  have hpv := hw.consistent
  refine ⟨?_, hpv.in_mempool, hpv.refused, hpv.branch_refused, hpv.branch_delayed⟩
  intro k
  have hpending : k ∉ w.state.pending.keys := by
    rw [hw.pending]
    exact not_mem_nil
  have hmempool : k ∈ w.state.in_mempool → k ∉ w.state.refusals.keys ∧ k ∉ w.state.fetching ∧
      k ∉ w.state.live_operations := hpv.mempool_excludes
  have hlive : k ∈ w.state.live_operations → _ := hpv.live_excludes
  have hrefusals : k ∈ w.state.refusals.keys → k ∉ w.state.fetching :=
    fun h => hpv.apart (p := .Refusals) (q := .Fetching) h nofun
  simp only [Exclusive, pairwise_cons, mem_cons, not_mem_nil, or_false,
    forall_eq_or_imp, forall_eq, hpending, false_imp_iff, implies_true, List.Pairwise.nil, and_true,
    and_false, false_and, not_false_eq_true]
  tauto

omit [Node] [Rings] in
/-- One of two operations that are fetched is applied, and again after a block that
contains another one. -/
theorem prevalidator_sets_in_step_flushed :
    let _ := including_block
    let _ := queues
    ∃ w : Worker single_operation (no_filter single_operation), Reached Request_compatible w ∧
      w.state.fetching = {3} ∧ w.state.live_operations = {1} ∧ w.state.in_mempool = {2} ∧
      Sets_in_step w.state := by
  intro _ _
  let _ := EvictionRing.queue_lawful Operation_hash
  let notified := handle_unprocessed (on_notify (started 50 .empty) ⟨[2, 3], ∅⟩)
  let applied := handle_unprocessed
    (on_operation_arrived { notified with fetches := notified.fetches.erase 2 } 2 ⟨0, [7, 7]⟩)
  have hlaunch : on_launch ⟨2, 50, by decide⟩ ⟨⟨0, 0, [], 10⟩, []⟩ Mempool.empty {0} ∅ 0 =
      .ok (started 50 .empty) := rfl
  have hnotify : on_request (started 50 .empty) 0 (.Notify 0 ⟨[2, 3], ∅⟩) = .ok notified := rfl
  have harrived : on_request { notified with fetches := notified.fetches.erase 2 } 0
      (.Arrived 2 ⟨0, [7, 7]⟩) = .ok applied := rfl
  have hnotified : Reached Request_compatible notified :=
    .request (.launch (by simp [Mempool.empty]) hlaunch) rfl (by simp) (by trivial) hnotify
  have hfetch : Node.hash ⟨0, [7, 7]⟩ ∈ notified.fetches := by decide
  have hreached : Reached Request_compatible applied :=
    hnotified.arrived rfl hfetch (fun h => absurd h (by decide)) harrived
  have hpredecessor : applied.state.predecessor = ⟨⟨0, 0, [], 10⟩, []⟩ := rfl
  have hrefusals : applied.state.refusals = .empty := rfl
  have hfetching : applied.state.fetching = {3} := by decide +kernel
  have hrequests : applied.requests = [] := by decide +kernel
  have hreturns : (on_request applied 60 (.Flush 1)).returns (fun w =>
      decide (w.state.fetching = {3}) && decide (w.state.live_operations = {1}) &&
        decide (w.state.in_mempool = {2})) = true := by
    decide +kernel
  clear_value applied
  have hcompatible : Request_compatible (applied.push_request (.Flush 1)) 60 (.Flush 1) := by
    intro block hread live ancestor path hlive hblocks
    change chain_traversal.new_blocks applied.state.predecessor block = _ at hblocks
    rw [hpredecessor] at hblocks
    cases hread
    cases hlive
    cases hblocks
    refine ⟨?_, ?_, fun op _ hpushed _ hagain => absurd ?_ hpushed⟩
    · change ∀ h ∈ ({1} : Finset Nat), h ∉ applied.state.refusals.keys ∧ h ∉ applied.state.fetching
      rw [hrefusals, hfetching]
      decide
    · change ∀ op ∈ popped 0 applied.state.predecessor.header applied.state.predecessor.ancestors, _
      rw [hpredecessor]
      exact fun op hop => nomatch hop
    · exact mem_singleton.mpr (Finset.mem_singleton.mp hagain)
  rw [Result.returns_iff] at hreturns
  obtain ⟨w, hflush, htest⟩ := hreturns
  simp only [Bool.and_eq_true, decide_eq_true_eq] at htest
  obtain ⟨⟨hfetching', hlive⟩, hmempool⟩ := htest
  have hreached' := hreached.request hrequests (by simp) hcompatible hflush
  exact ⟨w, hreached', hfetching', hlive, hmempool, prevalidator_sets_in_step w hreached'⟩

omit [Node] [Rings] in
/-- An operation is being fetched when a block that contains it becomes the new
head. It is now live, the fetch is cancelled, and nothing ever takes it out of
the set of fetched operations. -/
theorem prevalidator_sets_in_step_cancelled :
    let _ := including_block
    let _ := queues
    ∃ w : Worker single_operation (no_filter single_operation),
      Reached (fun _ _ _ => True) w ∧ w.requests = [] ∧ w.fetches = 0 ∧
      1 ∈ w.state.fetching ∧ 1 ∈ w.state.live_operations := by
  intro _ _
  have hlaunch : on_launch ⟨2, 50, by decide⟩ ⟨⟨0, 0, [], 10⟩, []⟩ Mempool.empty {0} ∅ 0 =
      .ok (started 50 .empty) := rfl
  let notified := handle_unprocessed (on_notify (started 50 .empty) ⟨[1], ∅⟩)
  let cancelled := { notified with fetches := notified.fetches.erase 1 }
  have hnotify : on_request (started 50 .empty) 0 (.Notify 0 ⟨[1], ∅⟩) = .ok notified := rfl
  have hreached : Reached (fun _ _ _ => True) cancelled := by
    refine .step (.request (.launch (by simp [Mempool.empty]) hlaunch) rfl (by simp) trivial hnotify)
      (.not_fetched ?_)
    decide
  have hreturns : (on_request cancelled 60 (.Flush 1)).returns (fun w =>
      w.requests.isEmpty && decide (w.fetches = 0) && decide (1 ∈ w.state.fetching) &&
        decide (1 ∈ w.state.live_operations)) = true := by
    decide
  rw [Result.returns_iff] at hreturns
  obtain ⟨w, hflush, htest⟩ := hreturns
  simp only [Bool.and_eq_true, decide_eq_true_eq, List.isEmpty_iff] at htest
  obtain ⟨⟨⟨hrequests, hfetches⟩, hfetching⟩, hlive⟩ := htest
  exact ⟨w, hreached.request rfl (by simp) trivial hflush, hrequests, hfetches, hfetching, hlive⟩

end prevalidator

end plexus.shell
