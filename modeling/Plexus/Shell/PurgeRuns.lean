import Plexus.Shell.Purge

/-! Sequences of purges along a main chain keep what the validation of blocks
needs. -/

namespace plexus.state

open Ancestry Nat Locked_block
open Header (read_opt)

variable [Chain_env]

/-- A main chain, from the first block up to `head`, of which nothing has been
purged. -/
structure Main_chain (s : Chain_state) (head : Block_hash) : Prop where
  tree : Levelled (read_opt s.block_store)
  contents : ∀ x, Ancestor (parent (read_opt s.block_store)) x head →
    ∃ contents, (s.block_store.blocks x).contents = some contents
  operations : ∀ x header i, Ancestor (parent (read_opt s.block_store)) x head →
    read_opt s.block_store x = some header → i < header.shell.validation_passes →
    ∃ ops, (s.block_store.blocks x).operation_hashes i = some ops
  ttl_level : ∀ x contents, Ancestor (parent (read_opt s.block_store)) x head →
    (s.block_store.blocks x).contents = some contents →
    contents.max_operations_ttl ≤ level_of (read_opt s.block_store) x
  ttl_parent : ∀ x pred contents contents',
    Ancestor (parent (read_opt s.block_store)) x head →
    parent (read_opt s.block_store) x = some pred →
    (s.block_store.blocks x).contents = some contents →
    (s.block_store.blocks pred).contents = some contents' →
    contents.max_operations_ttl ≤ contents'.max_operations_ttl + 1
  save_point : s.data.save_point.1 = 0

/-- A purge at a checkpoint of the main chain above the one before. -/
inductive Purge (tree : Block_hash → Option Block_header) (head : Block_hash) :
    Chain_state → Chain_state → Prop where
  | full {s s' : Chain_state} (hash : Block_hash) (hanc : Ancestor (parent tree) hash head)
      (hlt : s.data.save_point.1 < level_of tree hash)
      (h : Result.Yields (fun fuel => purge_full fuel s (level_of tree hash, hash)) (.ok s')) :
      Purge tree head s s'
  | rolling {s s' : Chain_state} (hash : Block_hash) (hanc : Ancestor (parent tree) hash head)
      (hlt : s.data.save_point.1 < level_of tree hash)
      (h : Result.Yields (fun fuel => purge_rolling fuel s (level_of tree hash, hash)) (.ok s')) :
      Purge tree head s s'

/-- What is left of a main chain whose save point is at level `c` and whose
lowest block, above the first one, is at level `low`. -/
structure Purged (s0 : Chain_state) (head : Block_hash) (c low : Nat) (s : Chain_state) :
    Prop where
  save_point : s.data.save_point.1 = c
  low_le : low ≤ c
  upper : ∀ x, ¬ Ancestor (parent (read_opt s0.block_store)) x head ∨
      c ≤ level_of (read_opt s0.block_store) x ∨ x = Chain_env.genesis.block →
    s.block_store.blocks x = s0.block_store.blocks x
  middle : ∀ x, low ≤ level_of (read_opt s0.block_store) x →
    s.block_store.blocks x = s0.block_store.blocks x ∨
      s.block_store.blocks x = (s0.block_store.blocks x).prune
  lower : ∀ x, Ancestor (parent (read_opt s0.block_store)) x head →
    x ≠ Chain_env.genesis.block → level_of (read_opt s0.block_store) x < low →
    s.block_store.blocks x = Tables.empty
  window : ∀ x contents, Ancestor (parent (read_opt s0.block_store)) x head →
    (s0.block_store.blocks x).contents = some contents →
    c ≤ level_of (read_opt s0.block_store) x →
    low + contents.max_operations_ttl ≤ level_of (read_opt s0.block_store) x

variable {x : Block_hash}

namespace Purged

variable {s0 s : Chain_state} {head : Block_hash} {c low : Nat}

theorem start (hmain : Main_chain s0 head) : Purged s0 head 0 0 s0 where
  save_point := hmain.save_point
  low_le := le_refl 0
  upper _ _ := rfl
  middle _ _ := .inl rfl
  lower _ _ _ h := absurd h (not_lt_zero _)
  window x contents hx hcontents _ := by
    have := hmain.ttl_level x contents hx hcontents
    omega

/-- The header and the operations of a block that is left. -/
theorem kept (h : Purged s0 head c low s)
    (hx : low ≤ level_of (read_opt s0.block_store) x ∨ x = Chain_env.genesis.block) :
    read_opt s.block_store x = read_opt s0.block_store x ∧
      (s.block_store.blocks x).operation_hashes = (s0.block_store.blocks x).operation_hashes := by
  unfold read_opt
  obtain hx | hx := hx
  · obtain heq | heq := h.middle x hx
    · rw [heq]
      exact ⟨rfl, rfl⟩
    · rw [heq]
      exact ⟨rfl, rfl⟩
  · rw [h.upper x (.inr (.inr hx))]
    exact ⟨rfl, rfl⟩

theorem part (h : Purged s0 head c low s) :
    Part s.block_store (read_opt s0.block_store) := by
  intro x header hheader
  by_cases hlow : low ≤ level_of (read_opt s0.block_store) x
  · rw [(h.kept (.inl hlow)).1] at hheader
    exact hheader
  · by_cases hanc : Ancestor (parent (read_opt s0.block_store)) x head ∧
        x ≠ Chain_env.genesis.block
    · unfold read_opt at hheader
      rw [h.lower x hanc.1 hanc.2 (by omega)] at hheader
      cases hheader
    · unfold read_opt at hheader
      rw [h.upper x (by tauto)] at hheader
      exact hheader

/-- The blocks of the main chain that are left are those from `low` on. -/
theorem stored (hmain : Main_chain s0 head) (h : Purged s0 head c low s)
    (hx : Ancestor (parent (read_opt s0.block_store)) x head)
    (hlow : low ≤ level_of (read_opt s0.block_store) x ∨ x = Chain_env.genesis.block) :
    ∃ header, read_opt s.block_store x = some header := by
  obtain ⟨contents, hcontents⟩ := hmain.contents x hx
  refine ⟨contents.header, ?_⟩
  rw [(h.kept hlow).1]
  unfold read_opt Tables.header
  rw [hcontents]

theorem cut_below (hmain : Main_chain s0 head) (h : Purged s0 head c low s) {y : Block_hash}
    (hy : Ancestor (parent (read_opt s0.block_store)) y head) :
    Cut_below (read_opt s0.block_store) s.block_store y := by
  intro x hx hne
  by_cases hlow : low ≤ level_of (read_opt s0.block_store) x
  · exact .inl (h.stored hmain (hx.trans hy) (.inl hlow))
  · refine .inr fun z hz hzne => ?_
    have := hmain.tree.level_le hz
    exact h.lower z ((hz.trans hx).trans hy) hzne (by omega)

end Purged

variable {s0 : Chain_state} {head : Block_hash} {contents : Contents}

/-- Up the main chain the window of a block does not move down. -/
theorem Main_chain.window_mono (hmain : Main_chain s0 head) {n : Nat} {a : Block_hash}
    {contents' : Contents} (hx : Ancestor (parent (read_opt s0.block_store)) x head)
    (hclimb : climb (parent (read_opt s0.block_store)) n x = some a)
    (hcontents : (s0.block_store.blocks x).contents = some contents)
    (hcontents' : (s0.block_store.blocks a).contents = some contents') :
    contents.max_operations_ttl ≤ contents'.max_operations_ttl + n := by
  induction n generalizing x contents with
  | zero =>
    cases Option.some.inj hclimb
    rw [hcontents] at hcontents'
    cases hcontents'
    omega
  | succ n ih =>
    rw [climb_succ, Option.bind_eq_some_iff] at hclimb
    obtain ⟨p, hparent, hclimb⟩ := hclimb
    have hp := (Ancestor.of_parent hparent).trans hx
    obtain ⟨pcontents, hpcontents⟩ := hmain.contents p hp
    have hstep := hmain.ttl_parent x p contents pcontents hx hparent hcontents hpcontents
    have := ih hp hclimb hpcontents
    omega

namespace Purged

variable {s0 s : Chain_state} {head hash : Block_hash} {c low : Nat}

section

variable (hmain : Main_chain s0 head) (h : Purged s0 head c low s)
  (hanc : Ancestor (parent (read_opt s0.block_store)) hash head)
  (hlt : c < level_of (read_opt s0.block_store) hash)

include hmain h hanc hlt

/-- A full purge at a checkpoint above the save point. -/
theorem full :
    ∃ s', Result.Yields (fun fuel =>
        purge_full fuel s (level_of (read_opt s0.block_store) hash, hash)) (.ok s') ∧
      Purged s0 head (level_of (read_opt s0.block_store) hash) low s' ∧
      ∀ x, level_of (read_opt s0.block_store) hash ≤ level_of (read_opt s0.block_store) x →
        s'.block_store.blocks x = s.block_store.blocks x := by
  have hlow := h.low_le
  obtain ⟨store', hyields, htreated⟩ := purge_full_spec hmain.tree h.save_point hlt h.part
    (fun x hx hc => h.stored hmain (hx.trans hanc) (.inl (by omega)))
    (level_of (read_opt s0.block_store) hash)
  have habove x (hx : level_of (read_opt s0.block_store) hash ≤ level_of (read_opt s0.block_store)
      x) : store'.blocks x = s.block_store.blocks x := by
    apply htreated.kept
    rintro ⟨hxh, hne, -, -⟩
    have := hmain.tree.level_lt hxh hne
    omega
  refine ⟨_, hyields, ⟨rfl, by omega, fun x hx => ?_, fun x hx => ?_, fun x hx hne hlev => ?_,
    fun x contents hx hcontents hlev => h.window x contents hx hcontents (by omega)⟩, habove⟩
  · have hout : ¬ (Ancestor (parent (read_opt s0.block_store)) x hash ∧ x ≠ hash ∧
        c ≤ level_of (read_opt s0.block_store) x ∧ x ≠ Chain_env.genesis.block) := by
      rintro ⟨hxh, hne, -, hgen⟩
      obtain hnot | hle | hg := hx
      · exact hnot (hxh.trans hanc)
      · have := hmain.tree.level_lt hxh hne
        omega
      · exact hgen hg
    rw [htreated.kept x hout]
    apply h.upper
    obtain hnot | hle | hg := hx
    · exact .inl hnot
    · exact .inr (.inl (by omega))
    · exact .inr (.inr hg)
  · by_cases hP : Ancestor (parent (read_opt s0.block_store)) x hash ∧ x ≠ hash ∧
        c ≤ level_of (read_opt s0.block_store) x ∧ x ≠ Chain_env.genesis.block
    · right
      rw [htreated.changed x hP]
      obtain heq | heq := h.middle x hx
      · rw [heq]
      · rw [heq, Tables.prune_prune]
    · dsimp only
      rw [htreated.kept x hP]
      exact h.middle x hx
  · dsimp only
    rw [htreated.kept x fun hP => by omega]
    exact h.lower x hx hne hlev

/-- A rolling purge at a checkpoint above the save point. -/
theorem rolling (hcontents : (s0.block_store.blocks hash).contents = some contents) :
    ∃ s' caboose, Result.Yields (fun fuel =>
        purge_rolling fuel s (level_of (read_opt s0.block_store) hash, hash)) (.ok s') ∧
      climb (parent (read_opt s0.block_store)) contents.max_operations_ttl hash = some caboose ∧
      s'.data.caboose = ((level_of (read_opt s0.block_store) caboose : Int), caboose) ∧
      Purged s0 head (level_of (read_opt s0.block_store) hash)
        (level_of (read_opt s0.block_store) hash - contents.max_operations_ttl) s' ∧
      ∀ x, level_of (read_opt s0.block_store) hash ≤ level_of (read_opt s0.block_store) x →
        s'.block_store.blocks x = s.block_store.blocks x := by
  have hlow := h.low_le
  have hwindow := h.window hash contents hanc hcontents (by omega)
  have hown : (s.block_store.blocks hash).contents = some contents := by
    rw [h.upper hash (.inr (.inl (by omega))), hcontents]
  have hmem : read_opt s0.block_store hash = some contents.header := by
    unfold read_opt Tables.header
    rw [hcontents]
  have hgenesis : hash ≠ Chain_env.genesis.block := by
    rintro rfl
    rw [hmain.tree.level_genesis] at hlt
    omega
  have hparent := hmain.tree.parent_eq hmem hgenesis
  have hstep := hmain.tree.level_parent _ _ hparent
  have hp := (Ancestor.of_parent hparent).trans hanc
  obtain ⟨caboose, store', hyields, hclimb, hrolled⟩ := purge_rolling_spec hmain.tree hown hparent
    h.part (fun x hx _ hlev => h.stored hmain (hx.trans hp) (.inl (by omega)))
    (h.cut_below hmain hp) (level_of (read_opt s0.block_store) hash)
  have hmin : min contents.max_operations_ttl (level_of (read_opt s0.block_store) hash) =
      contents.max_operations_ttl := by omega
  rw [hmin] at hclimb
  have hcaboose := hmain.tree.level_climb hclimb
  have habove x (hx : level_of (read_opt s0.block_store) hash ≤ level_of (read_opt s0.block_store)
      x) : store'.blocks x = s.block_store.blocks x := by
    apply hrolled.kept
    left
    intro hxp
    have := hmain.tree.level_le hxp
    omega
  refine ⟨_, caboose, hyields, hclimb, ?_, ⟨rfl, by omega, fun x hx => ?_, fun x hx => ?_,
    fun x hx hne hlev => ?_, fun x xcontents hx hxcontents hlev => ?_⟩, habove⟩
  · dsimp only
    congr 1
    omega
  · have hout : ¬ Ancestor (parent (read_opt s0.block_store)) x
          contents.header.shell.predecessor ∨ x = Chain_env.genesis.block := by
      obtain hnot | hle | hg := hx
      · exact .inl fun hxp => hnot (hxp.trans hp)
      · left
        intro hxp
        have := hmain.tree.level_le hxp
        omega
      · exact .inr hg
    rw [hrolled.kept x hout]
    apply h.upper
    obtain hnot | hle | hg := hx
    · exact .inl hnot
    · exact .inr (.inl (by omega))
    · exact .inr (.inr hg)
  · dsimp only
    by_cases hin : Ancestor (parent (read_opt s0.block_store)) x
        contents.header.shell.predecessor ∧ x ≠ Chain_env.genesis.block
    · right
      rw [hrolled.window x hin.1 hin.2 (by omega)]
      obtain heq | heq := h.middle x (by omega)
      · rw [heq]
      · rw [heq, Tables.prune_prune]
    · rw [hrolled.kept x (by tauto)]
      exact h.middle x (by omega)
  · have hxh := hmain.tree.ancestor_of_level_le hx hanc (by omega)
    have hne' : x ≠ hash := by
      rintro rfl
      omega
    exact hrolled.below x (hxh.to_parent hne' hparent) hne (by omega)
  · have hhx := hmain.tree.ancestor_of_level_le hanc hx hlev
    have := hmain.window_mono hx (hmain.tree.climb_level hhx) hxcontents hcontents
    omega

omit hanc hlt

/-- Every step of a run. -/
theorem step {s' : Chain_state}
    (hstep : Purge (read_opt s0.block_store) head s s') :
    ∃ c' low', Purged s0 head c' low' s' := by
  have hsave := h.save_point
  cases hstep with
  | full hash hanc hlt hyields =>
    obtain ⟨s'', hyields', hpurged, -⟩ := h.full hmain hanc (by omega)
    cases hyields.unique hyields'
    exact ⟨_, _, hpurged⟩
  | rolling hash hanc hlt hyields =>
    obtain ⟨contents, hcontents⟩ := hmain.contents hash hanc
    obtain ⟨s'', _, hyields', -, -, hpurged, -⟩ := h.rolling hmain hanc (by omega) hcontents
    cases hyields.unique hyields'
    exact ⟨_, _, hpurged⟩

/-- The live blocks of a block at or above the save point are as they were. -/
theorem live_blocks_eq {b : Block} (hb : Stored s0.block_store b)
    (hanc : Ancestor (parent (read_opt s0.block_store)) b.hash head)
    (hlevel : c ≤ level_of (read_opt s0.block_store) b.hash)
    (hcontents : (s0.block_store.blocks b.hash).contents = some contents) :
    chain_traversal.live_blocks s.block_store b contents.max_operations_ttl =
      chain_traversal.live_blocks s0.block_store b contents.max_operations_ttl := by
  have hwindow := h.window b.hash contents hanc hcontents hlevel
  apply live_blocks.loop_congr (.refl _) hb
  intro k hk x hclimb
  have := hmain.tree.level_climb hclimb
  exact h.kept (.inl (by omega))

end

end Purged

/-- What the validation of the blocks from the checkpoint `hash` on needs is as
before the purge. -/
structure Undisturbed (s0 : Chain_state) (head hash : Block_hash) (s s' : Chain_state) : Prop where
  blocks : ∀ x, level_of (read_opt s0.block_store) hash ≤
      level_of (read_opt s0.block_store) x →
    s'.block_store.blocks x = s.block_store.blocks x
  live : ∀ b contents, Stored s0.block_store b →
    Ancestor (parent (read_opt s0.block_store)) hash b.hash →
    Ancestor (parent (read_opt s0.block_store)) b.hash head →
    (s0.block_store.blocks b.hash).contents = some contents →
    ∃ live, chain_traversal.live_blocks s.block_store b contents.max_operations_ttl = .ok live ∧
      chain_traversal.live_blocks s'.block_store b contents.max_operations_ttl = .ok live

theorem Purged.undisturbed {s s' : Chain_state} {hash : Block_hash} {c low low' : Nat}
    (hmain : Main_chain s0 head) (h : Purged s0 head c low s)
    (hlt : c < level_of (read_opt s0.block_store) hash)
    (h' : Purged s0 head (level_of (read_opt s0.block_store) hash) low' s')
    (habove : ∀ x, level_of (read_opt s0.block_store) hash ≤ level_of (read_opt s0.block_store) x →
      s'.block_store.blocks x = s.block_store.blocks x) : Undisturbed s0 head hash s s' := by
  refine ⟨habove, fun b contents hb hhash hhead hcontents => ?_⟩
  have hlevel := hmain.tree.level_le hhash
  obtain ⟨live, hlive⟩ := live_blocks.loop_spec hmain.tree.toTree hb
    (fun x header i hx => hmain.operations x header i (hx.trans hhead)) ∅ ∅
  refine ⟨live, ?_, ?_⟩
  · rw [h.live_blocks_eq hmain hb hhead (by omega) hcontents]
    exact hlive
  · rw [h'.live_blocks_eq hmain hb hhead hlevel hcontents]
    exact hlive

/-- Purging keeps what validation needs, after any sequence of purges at
increasing checkpoints, in both modes. -/
theorem purge_keeps_validation {s0 s : Chain_state} {head hash : Block_hash}
    (hmain : Main_chain s0 head)
    (hrun : Relation.ReflTransGen (Purge (read_opt s0.block_store) head) s0 s)
    (hanc : Ancestor (parent (read_opt s0.block_store)) hash head)
    (hlt : s.data.save_point.1 < level_of (read_opt s0.block_store) hash) :
    (∃ s', Result.Yields (fun fuel =>
        purge_full fuel s (level_of (read_opt s0.block_store) hash, hash)) (.ok s') ∧
      Undisturbed s0 head hash s s') ∧
    ∃ s' contents caboose, Result.Yields (fun fuel =>
        purge_rolling fuel s (level_of (read_opt s0.block_store) hash, hash)) (.ok s') ∧
      Undisturbed s0 head hash s s' ∧
      (s0.block_store.blocks hash).contents = some contents ∧
      climb (parent (read_opt s0.block_store)) contents.max_operations_ttl hash =
        some caboose ∧
      s'.data.caboose = ((level_of (read_opt s0.block_store) caboose : Int), caboose) ∧
      (∃ header, read_opt s'.block_store caboose = some header ∧
        read_opt s0.block_store caboose = some header) ∧
      (s'.block_store.blocks caboose).operation_hashes =
        (s0.block_store.blocks caboose).operation_hashes ∧
      ∀ x, Ancestor (parent (read_opt s0.block_store)) x caboose → x ≠ caboose →
        x ≠ Chain_env.genesis.block → s'.block_store.blocks x = Tables.empty := by
  obtain ⟨c, low, hpurged⟩ := hrun.preserves (P := fun s => ∃ c low, Purged s0 head c low s)
    (fun _ _ hstep ⟨_, _, h⟩ => h.step hmain hstep) ⟨0, 0, Purged.start hmain⟩
  rw [hpurged.save_point] at hlt
  have hlt' : c < level_of (read_opt s0.block_store) hash := by omega
  constructor
  · obtain ⟨s', hyields, hpurged', habove⟩ := hpurged.full hmain hanc hlt'
    exact ⟨s', hyields, hpurged.undisturbed hmain hlt' hpurged' habove⟩
  · obtain ⟨contents, hcontents⟩ := hmain.contents hash hanc
    obtain ⟨s', caboose, hyields, hclimb, hcaboose, hpurged', habove⟩ :=
      hpurged.rolling hmain hanc hlt' hcontents
    have hlevel := hmain.tree.level_climb hclimb
    have hhead : Ancestor (parent (read_opt s0.block_store)) caboose head :=
      Ancestor.trans ⟨_, hclimb⟩ hanc
    have hin : level_of (read_opt s0.block_store) hash - contents.max_operations_ttl ≤
        level_of (read_opt s0.block_store) caboose := by omega
    obtain ⟨hread, hops⟩ := hpurged'.kept (.inl hin)
    obtain ⟨header, hheader⟩ := hpurged'.stored hmain hhead (.inl hin)
    refine ⟨s', contents, caboose, hyields, hpurged.undisturbed hmain hlt' hpurged' habove,
      hcontents, hclimb, hcaboose, ⟨header, hheader, by rw [← hread, hheader]⟩, hops,
      fun x hx hne hgen => ?_⟩
    have := hmain.tree.level_lt hx hne
    exact hpurged'.lower x (hx.trans hhead) hgen (by omega)

/-- Two blocks above each other. -/
def short_chain : Chain_state where
  block_store := ((Locked_block.store_genesis Block_store.empty).update 1 fun tables =>
    { tables with contents := some (bare_contents 1 0) }).update 2 fun tables =>
      { tables with contents := some (bare_contents 2 1) }
  data := {
    current_head := { hash := 2, header := (bare_contents 2 1).header }
    live_blocks := ∅, live_operations := ∅, save_point := (0, 0), caboose := (0, 0) }
  checkpoint := Locked_block.genesis_header
  known_heads := [2]
  in_main_branch _ := none

omit [Chain_env] in
/-- With the operations of the upper block live in that block only, a rolling purge
deletes the other one. -/
theorem purge_keeps_validation_short :
    let _ := Chain_env.numbered
    (∃ s', Result.Yields (fun fuel => purge_full fuel short_chain
        (level_of (read_opt short_chain.block_store) 2, 2)) (.ok s') ∧
      Undisturbed short_chain 2 2 short_chain s') ∧
    ∃ s', Result.Yields (fun fuel => purge_rolling fuel short_chain
        (level_of (read_opt short_chain.block_store) 2, 2)) (.ok s') ∧
      Undisturbed short_chain 2 2 short_chain s' ∧ s'.data.caboose = (2, 2) ∧
      s'.block_store.blocks 1 = Tables.empty := by
  intro _
  have hread h : read_opt short_chain.block_store h = if h = 2 then some (bare_contents 2 1).header
      else if h = 1 then some (bare_contents 1 0).header else if h = 0 then some
      genesis_header else none := by
    unfold short_chain
    rw [Header.read_opt_update, Header.read_opt_update, read_opt_genesis_store]
    rfl
  have hone : Levelled fun h => if h = 1 then some (bare_contents 1 0).header
      else if h = 0 then some genesis_header else none := by
    have hsplit h : (if h = 1 then some (bare_contents 1 0).header else if h = 0 then some
        genesis_header else none) = if h = 1 then some (bare_contents 1 0).header else
        read_opt (store_genesis Block_store.empty) h := by
      rw [read_opt_genesis_store]
      rfl
    exact levelled_genesis.insert rfl rfl rfl hsplit
  have htree : Levelled (read_opt short_chain.block_store) :=
    hone.insert (by rfl) (by rfl) (by rfl) hread
  have hblock x (hx : Ancestor (parent (read_opt short_chain.block_store)) x 2) : x = 2 ∨ x = 1 ∨
      x = 0 := by
    obtain ⟨header, hheader⟩ := htree.ancestor_mem hx ⟨_, rfl⟩
    rw [hread] at hheader
    by_contra hnone
    rw [not_or, not_or] at hnone
    rw [if_neg hnone.1, if_neg hnone.2.1, if_neg hnone.2.2] at hheader
    cases hheader
  have hmain : Main_chain short_chain 2 := by
    refine ⟨htree, fun x hx => ?_, fun x header i hx hheader hi => ?_,
      fun x contents hx hcontents => ?_, fun x pred contents contents' hx hparent hc hc' => ?_, rfl⟩
    · obtain rfl | rfl | rfl := hblock x hx
      · exact ⟨_, rfl⟩
      · exact ⟨_, rfl⟩
      · exact ⟨_, rfl⟩
    · obtain rfl | rfl | rfl := hblock x hx
      all_goals
        cases hheader
        exact absurd hi (not_lt_zero i)
    · obtain rfl | rfl | rfl := hblock x hx
      all_goals
        cases hcontents
        decide
    · obtain rfl | rfl | rfl := hblock x hx
      all_goals
        cases hc
        exact le_trans (by decide) (le_add_left 1 _)
  obtain ⟨hfull, s', contents, caboose, hrolling, hundisturbed, hcontents, hclimb, hcaboose, _, _,
    hdeleted⟩ := purge_keeps_validation hmain .refl (.refl 2) (by decide)
  cases hcontents
  cases hclimb
  exact ⟨hfull, s', hrolling, hundisturbed, hcaboose,
    hdeleted 1 (.of_parent rfl) (by decide) (by decide)⟩

end plexus.state
