import Plexus.Repr

namespace plexus

/-! Manager operations. -/

inductive Manager_operation where
  | Reveal (public_key : Public_key)
  | Transaction (amount : Tez) (parameters : Lazy_expr) (entrypoint : String)
      (destination : Contract)
  | MineTransaction (amount : Mine) (parameters : Lazy_expr) (entrypoint : String)
      (destination : Contract)
  | Origination (delegate : Option Public_key_hash) (script : Script) (credit : Tez)
      (preorigination : Option Contract)
  | Delegation (delegate : Option Public_key_hash)

inductive Manager_kind where
  | Reveal_manager_kind
  | Transaction_manager_kind
  | MineTransaction_manager_kind
  | Origination_manager_kind
  | Delegation_manager_kind
deriving DecidableEq, Repr

def manager_kind : Manager_operation → Manager_kind
  | .Reveal _ => .Reveal_manager_kind
  | .Transaction .. => .Transaction_manager_kind
  | .MineTransaction .. => .MineTransaction_manager_kind
  | .Origination .. => .Origination_manager_kind
  | .Delegation _ => .Delegation_manager_kind

/-- One content of a manager operation. -/
structure Manager_contents where
  source : Public_key_hash
  fee : Mine
  counter : Int
  operation : Manager_operation
  gas_limit : Int
  storage_limit : Int

/-- An operation emitted by a script. -/
structure Internal_operation where
  source : Contract
  operation : Manager_operation
  nonce : Nat

/-! Blocks and operations. The kinds that are not manager operations come
alone in an operation. -/

/-- `Block_header.contents` -/
structure Block_header_contents where
  priority : Nat
  seed_nonce_hash : Option Nat
  proof_of_work_nonce : MBytes
deriving DecidableEq

/-- The fields of a block header that the protocol reads. -/
structure Block_header where
  level : Int32
  predecessor : Block_hash
  timestamp : Int64
  fitness : List MBytes
  contents : Block_header_contents
  signature : Nat
deriving DecidableEq

/-- A signed endorsement, as it is found in an evidence. -/
structure Endorsement_operation where
  branch : Block_hash
  level : Raw_level
  signature : Option Nat
deriving DecidableEq

inductive Ballot where
  | Yay
  | Nay
  | Pass
deriving DecidableEq, Repr

inductive Contents_list where
  | Endorsement (level : Raw_level)
  | Seed_nonce_revelation (level : Raw_level) (nonce : MBytes)
  | Double_endorsement_evidence (op1 op2 : Endorsement_operation)
  | Double_baking_evidence (bh1 bh2 : Block_header)
  | Activate_account (id : Nat) (activation_code : Nat)
  | Proposals (source : Public_key_hash) (period : Voting_period) (proposals : List Nat)
  | Ballot (source : Public_key_hash) (period : Voting_period) (proposal : Nat) (ballot : Ballot)
  | Manager_operations (op : Manager_contents) (rest : List Manager_contents)

structure Operation where
  branch : Block_hash
  contents : Contents_list
  signature : Option Nat

inductive Watermark where
  | Block_header (chain_id : Chain_id)
  | Endorsement (chain_id : Chain_id)
  | Generic_operation
deriving DecidableEq, Repr

end plexus
