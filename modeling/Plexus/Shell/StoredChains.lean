import Plexus.Shell.Flush

/-! The blocks of the prevalidator, which carry their ancestors, stand for blocks
of the store. The walks along both of them agree. -/

namespace plexus.shell

open chain_traversal List

open state (Block_store Stored Chain_env Timed)

/-- What a function returns on the blocks of the store and on those of the
prevalidator. -/
inductive Agree {α β E : Type} (R : α → β → Prop) : state.Tzresult α → Tzresult E β → Prop where
  | ok {a : α} {b : β} (h : R a b) : Agree R (.ok a) (.ok b)
  | not_found (hash : Block_hash) :
      Agree R (.error [.Block_not_found hash]) (.error [.Block_not_found hash])
  | assert : Agree R (.raise .Assert_failure) (.raise .Assert_false)
  | div : Agree R .div .div

/-- Sequences agree if their parts do. -/
theorem Agree.bind {α β γ δ E : Type} {R : α → β → Prop} {S : γ → δ → Prop}
    {x : state.Tzresult α} {y : Tzresult E β} {f : α → state.Tzresult γ} {g : β → Tzresult E δ}
    (h : Agree R x y) (hf : ∀ a b, R a b → Agree S (f a) (g b)) : Agree S (x >>= f) (y >>= g) := by
  cases h with
  | ok h => exact hf _ _ h
  | not_found hash => exact .not_found hash
  | assert => exact .assert
  | div => exact .div

variable [Node]

/-- A header as it is read from the tables of a block. -/
structure Reads (store : Block_store) (b : state.Block) (header : Header) : Prop where
  hash : header.hash = b.hash
  timestamp : header.timestamp = b.timestamp
  operations :
    state.Block.all_operation_hashes store b = .ok (header.operations.map (·.map Node.hash))
  max_operations_ttl : state.Block.max_operations_ttl store b = .ok header.max_operations_ttl

/-- A block whose ancestors are those that the store has below `b`. -/
inductive Represents (store : Block_store) : state.Block → Block → Prop where
  | first {b : state.Block} {header : Header} (h : Reads store b header)
      (hpred : state.Block.predecessor store b = none) : Represents store b ⟨header, []⟩
  | above {b p : state.Block} {header : Header} {block : Block} (h : Reads store b header)
      (hpred : state.Block.predecessor store b = some p) (hp : Represents store p block) :
      Represents store b ⟨header, block.chain⟩

variable {store : Block_store} {b b1 b2 : state.Block} {block block1 block2 : Block} {E : Type}

omit [Node] in
/-- The search ends within as many steps as there are blocks below the two. -/
theorem common_ancestor_fuel {fuel fuel' : Nat}
    (hfuel : block1.ancestors.length + block2.ancestors.length < fuel)
    (hfuel' : block1.ancestors.length + block2.ancestors.length < fuel') :
    chain_traversal.common_ancestor (E := E) fuel block1 block2 =
      chain_traversal.common_ancestor fuel' block1 block2 := by
  induction fuel generalizing fuel' block1 block2 with
  | zero => omega
  | succ fuel ih =>
    obtain ⟨fuel', rfl⟩ := Nat.exists_eq_add_one.mpr (Nat.zero_lt_of_lt hfuel')
    rw [chain_traversal.common_ancestor, chain_traversal.common_ancestor]
    split
    · rfl
    split
    · cases hbelow : block2.ancestors with
      | nil => simp only [chain_traversal.predecessor, hbelow]
      | cons header ancestors =>
        rw [hbelow, length_cons] at hfuel hfuel'
        simp only [chain_traversal.predecessor, hbelow]
        exact ih (by simp only; omega) (by simp only; omega)
    · cases hbelow : block1.ancestors with
      | nil => simp only [chain_traversal.predecessor, hbelow]
      | cons header ancestors =>
        rw [hbelow, length_cons] at hfuel hfuel'
        simp only [chain_traversal.predecessor, hbelow]
        exact ih (by simp only; omega) (by simp only; omega)

/-- The hashes of all operations are added one after the other. -/
theorem operation_hashes_foldl (header : Header) (oacc : Finset Operation_hash) :
    (header.operations.map (·.map Node.hash)).foldl
      (fun oacc ops => ops.foldl (fun oacc op => insert op oacc) oacc) oacc =
      (operation_hashes header).foldl (fun oacc op => insert op oacc) oacc := by
  rw [operation_hashes, map_flatten, foldl_flatten]

namespace Represents

theorem reads (h : Represents store b block) : Reads store b block.header := by
  cases h with
  | first h => exact h
  | above h => exact h

theorem predecessor (h : Represents store b block) :
    (state.Block.predecessor store b = none ∧ block.ancestors = []) ∨
      ∃ p pred, state.Block.predecessor store b = some p ∧ block.ancestors = pred.chain ∧
        Represents store p pred := by
  cases h with
  | first _ hpred => exact .inl ⟨hpred, rfl⟩
  | above _ hpred hp => exact .inr ⟨_, _, hpred, rfl, hp⟩

theorem equal_iff (h1 : Represents store b1 block1) (h2 : Represents store b2 block2) :
    b1.equal b2 = true ↔ block1.header.hash = block2.header.hash := by
  rw [state.Block.equal_iff, h1.reads.hash, h2.reads.hash]

/-- The searches for a common ancestor take the same steps. -/
theorem common_ancestor (h1 : Represents store b1 block1) (h2 : Represents store b2 block2)
    (fuel : Nat) :
    Agree (Represents store) (state.chain_traversal.common_ancestor fuel store b1 b2)
      (chain_traversal.common_ancestor (E := E) fuel block1 block2) := by
  induction fuel generalizing b1 b2 block1 block2 with
  | zero => exact .div
  | succ fuel ih =>
    rw [state.chain_traversal.common_ancestor, chain_traversal.common_ancestor, ← h1.reads.timestamp,
      ← h2.reads.timestamp]
    by_cases heq : block1.header.hash = block2.header.hash
    · rw [if_pos ((h1.equal_iff h2).mpr heq), if_pos heq]
      exact .ok h1
    rw [if_neg (mt (h1.equal_iff h2).mp heq), if_neg heq]
    split
    · rcases h2.predecessor with ⟨hpred, hnone⟩ | ⟨p, pred, hpred, hsome, hp⟩
      · rw [hpred, chain_traversal.predecessor, hnone]
        exact .assert
      · rw [hpred, chain_traversal.predecessor, hsome]
        exact ih h1 hp
    · rcases h1.predecessor with ⟨hpred, hnone⟩ | ⟨p, pred, hpred, hsome, hp⟩
      · rw [hpred, chain_traversal.predecessor, hnone]
        exact .assert
      · rw [hpred, chain_traversal.predecessor, hsome]
        exact ih hp h2

/-- The walks down to a block collect the same path. -/
theorem path_loop (h1 : Represents store b1 block1) (h2 : Represents store b2 block2) {fuel : Nat}
    (hfuel : block2.ancestors.length < fuel) {acc : List state.Block} {headers : List Header}
    (hacc : Forall₂ (Reads store) acc headers) :
    ∃ found, state.chain_traversal.path.loop fuel store b1 acc b2 = .ok found ∧
      Option.Rel (Forall₂ (Reads store)) found
        (path block1 block2.header block2.ancestors headers) := by
  induction fuel generalizing b2 block2 acc headers with
  | zero => omega
  | succ fuel ih =>
    rw [state.chain_traversal.path.loop, path.eq_def]
    by_cases heq : block1.header.hash = block2.header.hash
    · rw [if_pos ((h1.equal_iff h2).mpr heq), if_pos heq]
      exact ⟨_, rfl, .some hacc⟩
    rw [if_neg (mt (h1.equal_iff h2).mp heq), if_neg heq]
    rcases h2.predecessor with ⟨hpred, hnone⟩ | ⟨p, pred, hpred, hsome, hp⟩
    · rw [hpred, hnone]
      exact ⟨_, rfl, .none⟩
    · rw [hsome, Block.chain, length_cons] at hfuel
      rw [hpred, hsome]
      exact ih hp (by omega) (.cons h2.reads hacc)

/-- Both models find the same new blocks. -/
theorem new_blocks (h1 : Represents store b1 block1) (h2 : Represents store b2 block2) {fuel : Nat}
    (hfuel : block1.ancestors.length + block2.ancestors.length < fuel) :
    Agree (fun r r' => Represents store r.1 r'.1 ∧ Forall₂ (Reads store) r.2 r'.2)
      (state.chain_traversal.new_blocks fuel store b1 b2)
      (chain_traversal.new_blocks (E := E) block1 block2) := by
  rw [state.chain_traversal.new_blocks, chain_traversal.new_blocks,
    common_ancestor_fuel (Nat.lt_add_one _) hfuel]
  refine (h1.common_ancestor h2 fuel).bind fun a ancestor ha => ?_
  have hpath : block2.ancestors.length < fuel := by omega
  obtain ⟨found, hfound, hrel⟩ := ha.path_loop h2 hpath .nil
  rw [state.chain_traversal.path, hfound]
  generalize path ancestor block2.header block2.ancestors [] = found' at hrel
  cases hrel with
  | none => exact .assert
  | some h => exact .ok ⟨ha, h⟩

/-- The windows of live blocks and operations are the same. -/
theorem live_blocks [Chain_env] (hgenesis : Node.genesis = Chain_env.genesis.block)
    (h : Represents store b block) (n : Nat) (bacc : Finset Block_hash)
    (oacc : Finset Operation_hash) :
    Agree Eq (state.chain_traversal.live_blocks.loop store bacc oacc b n)
      (live_blocks_loop (E := E) bacc oacc block.header block.ancestors n) := by
  induction n generalizing b block bacc oacc with
  | zero =>
    rw [state.chain_traversal.live_blocks.loop, live_blocks_loop.eq_def, h.reads.operations,
      Result.bind_ok, operation_hashes_foldl, if_pos rfl, h.reads.hash]
    exact .ok rfl
  | succ n ih =>
    rw [state.chain_traversal.live_blocks.loop, live_blocks_loop.eq_def, h.reads.operations,
      Result.bind_ok, operation_hashes_foldl, if_neg (Nat.succ_ne_zero n), h.reads.hash]
    rcases h.predecessor with ⟨hpred, hnone⟩ | ⟨p, pred, hpred, hsome, hp⟩
    · rw [hpred, hnone, hgenesis]
      dsimp only
      split
      · exact .ok rfl
      · exact .not_found b.hash
    · rw [hpred, hsome]
      exact ih hp _ _

end Represents

/-! The blocks of a store form a tree. -/

section Tree

variable {header header' : Header} (hhash : Function.Injective Node.hash)

include hhash

/-- The tables of a block determine its header. -/
theorem Reads.unique (h : Reads store b header) (h' : Reads store b header') :
    header = header' := by
  obtain ⟨hash, timestamp, operations, ttl⟩ := header
  obtain ⟨hash', timestamp', operations', ttl'⟩ := header'
  have hoperations := h.operations.symm.trans h'.operations
  have httl := h.max_operations_ttl.symm.trans h'.max_operations_ttl
  rw [Result.ok.injEq] at hoperations httl
  rw [Header.mk.injEq]
  exact ⟨h.hash.trans h'.hash.symm, h.timestamp.trans h'.timestamp.symm,
    (map_injective_iff.mpr (map_injective_iff.mpr hhash)) hoperations, httl⟩

/-- A stored block is stood for by one block. -/
theorem Represents.unique {block' : Block} (h : Represents store b block)
    (h' : Represents store b block') : block = block' := by
  induction h generalizing block' with
  | first hreads hpred =>
    cases h' with
    | first hreads' => rw [hreads.unique hhash hreads']
    | above _ hpred' => cases hpred.symm.trans hpred'
  | above hreads hpred _ ih =>
    cases h' with
    | first _ hpred' => cases hpred.symm.trans hpred'
    | above hreads' hpred' hp' =>
      cases hpred.symm.trans hpred'
      rw [hreads.unique hhash hreads', ih hp']

omit hhash

/-- Every header of a chain is read from a stored block. -/
theorem Represents.mem_chain (h : Represents store b block) (hb : Stored store b) {x : Header}
    (hx : x ∈ block.chain) : ∃ b, Stored store b ∧ Reads store b x := by
  induction h with
  | first hreads =>
    obtain rfl := mem_singleton.mp hx
    exact ⟨_, hb, hreads⟩
  | above hreads hpred _ ih =>
    rcases mem_cons.mp hx with rfl | hx
    · exact ⟨_, hb, hreads⟩
    · exact ih (state.Block.predecessor_eq_some hb (.refl store) hpred).1 hx

/-- A chain goes back in time. -/
theorem Represents.later (htimed : Timed (state.Header.read_opt store))
    (h : Represents store b block) (hb : Stored store b) :
    block.chain.Pairwise fun x y => y.timestamp < x.timestamp := by
  induction h with
  | first => exact pairwise_singleton _ _
  | @above b p header block hreads hpred hp ih =>
    obtain ⟨hstored, hparent⟩ := state.Block.predecessor_eq_some hb (.refl store) hpred
    have hlater := ih hstored
    have hlt : block.header.timestamp < header.timestamp := by
      rw [hreads.timestamp, hp.reads.timestamp]
      exact htimed _ _ _ hb hparent _ hstored
    refine .cons (fun x hx => ?_) hlater
    rcases mem_cons.mp hx with rfl | hx
    · exact hlt
    · exact (rel_of_pairwise_cons hlater hx).trans hlt

variable [Chain_env] (htree : state.Tree (state.Header.read_opt store))

include htree

/-- A chain ends at the first block. -/
theorem Represents.getLast (h : Represents store b block) (hb : Stored store b) :
    ∃ b header, Stored store b ∧ b.hash = Chain_env.genesis.block ∧ Reads store b header ∧
      block.chain.getLast? = some header := by
  induction h with
  | @first b header hreads hpred =>
    refine ⟨b, header, hb, ?_, hreads, rfl⟩
    by_contra hne
    obtain ⟨_, hsome, -⟩ := state.Block.exists_predecessor htree hb hne
    cases hpred.symm.trans hsome
  | above _ hpred _ ih =>
    obtain ⟨b, header, hstored, hgenesis, hreads, hlast⟩ :=
      ih (state.Block.predecessor_eq_some hb (.refl store) hpred).1
    refine ⟨b, header, hstored, hgenesis, hreads, ?_⟩
    rw [Block.chain, Block.chain, getLast?_cons_cons]
    exact hlast

/-- Where the tables of every block can be read, every block is stood for. -/
theorem exists_represents (hreads : ∀ b, Stored store b → ∃ header, Reads store b header)
    (hb : Stored store b) : ∃ block, Represents store b block := by
  obtain ⟨n, hn⟩ := htree.rooted _ _ hb
  induction n generalizing b with
  | zero =>
    obtain ⟨header, hheader⟩ := hreads b hb
    have hpred := state.Block.predecessor_genesis htree hb (.refl store) (Option.some.inj hn)
    exact ⟨_, .first hheader hpred⟩
  | succ n ih =>
    obtain ⟨header, hheader⟩ := hreads b hb
    by_cases hgenesis : b.hash = Chain_env.genesis.block
    · have hpred := state.Block.predecessor_genesis htree hb (.refl store) hgenesis
      exact ⟨_, .first hheader hpred⟩
    · obtain ⟨p, hpred, hp, hparent⟩ := state.Block.exists_predecessor htree hb hgenesis
      rw [Ancestry.climb_succ, hparent, Option.bind_some] at hn
      obtain ⟨block, hblock⟩ := ih hp hn
      exact ⟨_, .above hheader hpred hblock⟩

include hhash

/-- The blocks that stand for those of a store form a tree, if the store has the
ancestors of its blocks and timestamps grow. -/
theorem stored_block_tree (htimed : Timed (state.Header.read_opt store)) :
    Block_tree fun block => ∃ b, Stored store b ∧ Represents store b block where
  pred := by
    rintro block pred ⟨b, hb, h⟩ hpred
    rcases h.predecessor with ⟨-, hnone⟩ | ⟨p, below, hread, hsome, hp⟩
    · rw [predecessor, hnone] at hpred
      cases hpred
    · rw [predecessor, hsome] at hpred
      cases hpred
      exact ⟨p, (state.Block.predecessor_eq_some hb (.refl store) hread).1, hp⟩
  root := by
    rintro block1 block2 ⟨b1, hb1, h1⟩ ⟨b2, hb2, h2⟩
    obtain ⟨g1, header1, hg1, hhash1, hreads1, hlast1⟩ := h1.getLast htree hb1
    obtain ⟨g2, header2, hg2, hhash2, hreads2, hlast2⟩ := h2.getLast htree hb2
    obtain rfl := hg1.eq_of_hash_eq hg2 (hhash1.trans hhash2.symm)
    rw [hlast1, hlast2, hreads1.unique hhash hreads2]
  hash := by
    rintro block1 block2 ⟨b1, hb1, h1⟩ ⟨b2, hb2, h2⟩ x hx y hy heq
    obtain ⟨c1, hc1, hreads1⟩ := h1.mem_chain hb1 hx
    obtain ⟨c2, hc2, hreads2⟩ := h2.mem_chain hb2 hy
    obtain rfl := hc1.eq_of_hash_eq hc2 (hreads1.hash.symm.trans (heq.trans hreads2.hash))
    exact hreads1.unique hhash hreads2
  same := by
    rintro block1 block2 ⟨b1, hb1, h1⟩ ⟨b2, hb2, h2⟩ heq
    have hsame : b1.hash = b2.hash := by rw [← h1.reads.hash, heq, h2.reads.hash]
    obtain rfl := hb1.eq_of_hash_eq hb2 hsame
    exact h1.unique hhash h2
  later := by
    rintro block ⟨b, hb, h⟩
    exact h.later htimed hb

end Tree

end plexus.shell
