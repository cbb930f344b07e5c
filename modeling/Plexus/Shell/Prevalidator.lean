import Mathlib.Data.Finset.Union
import Plexus.Lib.EvictionRing
import Plexus.Lib.OrderedMap
import Plexus.Shell.Prevalidation

/-! The prevalidator: the worker that classifies the operations the node
receives and keeps the mempool. -/

namespace plexus.shell

/-- Run a function over the first `n` elements of a list. The elements that
are left over come back with the result. A negative `n` never reaches zero. -/
def fold_left_s_n {α β : Type} (n : ℤ) (f : α → β → α) (acc : α) (l : List β) : α × List β :=
  if n = 0 then (acc, l)
  else
    match l with
    | [] => (acc, [])
    | x :: l => fold_left_s_n (n - 1) f (f acc x) l

structure Mempool where
  known_valid : List Operation_hash
  pending : Finset Operation_hash

namespace Mempool

def empty : Mempool := ⟨[], ∅⟩

end Mempool

/-- A mempool filter: its configuration, as the RPC stores it in JSON, and its
two tests. -/
structure Filter (Proto : Registered_protocol) where
  config : Type
  json : Type
  destruct : json → Option config
  default_config : config
  pre_filter : config → Proto.operation_data → Bool
  post_filter : config → Proto.validation_state → Proto.validation_state → Proto.operation_data →
    Proto.operation_receipt → Bool

/-- The limits of the worker. The rings of refused operations cannot be
created with a size that is not positive. -/
structure Limits where
  max_refused_operations : Nat
  operations_batch_size : ℤ
  max_refused_operations_pos : 0 < max_refused_operations

namespace prevalidator

open prevalidation

inductive Request where
  | Flush (hash : Block_hash)
  | Notify (peer : Nat) (mempool : Mempool)
  | Leftover
  | Inject (op : Operation)
  | Arrived (oph : Operation_hash) (op : Operation)
  | Advertise

/-- The rings of the worker, which are those of a library. -/
abbrev Rings := EvictionRing Operation_hash

/-- The kinds of the stream of classified operations. -/
inductive Kind where
  | Applied
  | Refused
  | Branch_refused
  | Branch_delayed
deriving DecidableEq, Repr

/-- What the worker tells the rest of the node. -/
inductive Output where
  | Notify_operation (kind : Kind) (op : Operation)
  | Inject_operation (oph : Operation_hash) (op : Operation)
  | Clear_or_cancel (oph : Operation_hash)
  | Current_head (mempool : Mempool) (predecessor : Block)
  | Current_mempool (head : Block_hash) (mempool : Mempool)

/-- What became of an operation that left the pending operations. -/
inductive Class where
  | Applied
  | Filtered
  | Branch_delayed
  | Branch_refused
  | Refused
  | Duplicate
  | Outdated
deriving DecidableEq, Repr

section State

variable (Proto : Registered_protocol) (filter : Filter Proto) [Rings]

abbrev Refusals := OrderedMap Operation_hash (Operation × List (Error Proto.error))

structure Types_state where
  limits : Limits
  predecessor : Block
  live_blocks : Finset Block_hash
  live_operations : Finset Operation_hash
  refused : EvictionRing.Ring Operation_hash
  refusals : Refusals Proto
  branch_refused : EvictionRing.Ring Operation_hash
  branch_refusals : Refusals Proto
  branch_delayed : EvictionRing.Ring Operation_hash
  branch_delays : Refusals Proto
  fetching : Finset Operation_hash
  pending : OrderedMap Operation_hash Operation
  mempool : Mempool
  in_mempool : Finset Operation_hash
  applied : List (Operation_hash × Operation)
  applied_count : Nat
  validation_state : Except (List (Error Proto.error)) (T Proto)
  advertisement : Option Mempool
  filter_config : Option filter.json

/-- The worker: its state, the requests that wait, the fetches that have not
come back, the number of threads about to ask for an advertisement, what it has
sent, and a record of every classified operation. -/
structure Worker where
  state : Types_state Proto filter
  requests : List Request
  fetches : Multiset Operation_hash
  advertisers : Nat
  outputs : List Output
  classified : List (Operation × Class)

end State

variable {Proto : Registered_protocol} {filter : Filter Proto} [Node] [Rings]

variable (pv : Types_state Proto filter) (op : Operation)

def already_handled (oph : Operation_hash) : Bool :=
  pv.refusals.mem oph || pv.pending.mem oph || decide (oph ∈ pv.fetching) ||
    decide (oph ∈ pv.live_operations) || decide (oph ∈ pv.in_mempool)

namespace Worker

def output (w : Worker Proto filter) (o : Output) : Worker Proto filter :=
  { w with outputs := o :: w.outputs }

def push_request (w : Worker Proto filter) (r : Request) : Worker Proto filter :=
  { w with requests := w.requests ++ [r] }

def classify (w : Worker Proto filter) (op : Operation) (c : Class) : Worker Proto filter :=
  { w with classified := (op, c) :: w.classified }

end Worker

variable (w : Worker Proto filter)

def notify_operation (kind : Kind) (op : Operation) :
    Worker Proto filter :=
  match Proto.operation_data_of_bytes op.proto with
  | some _ => w.output (.Notify_operation kind op)
  | none => w

def advertise (mempool : Mempool) : Worker Proto filter :=
  match w.state.advertisement with
  | some pending =>
    let mempool : Mempool :=
      ⟨pending.known_valid ++ mempool.known_valid, pending.pending ∪ mempool.pending⟩
    { w with state.advertisement := some mempool }
  | none =>
    { w with state.advertisement := some mempool, advertisers := w.advertisers + 1 }

omit [Node] in
def is_endorsement (op : Parsed Proto) : Bool :=
  Proto.acceptable_passes op.raw.branch op.protocol_data = [0]

variable (Proto) in
def is_endorsement_raw (op : Operation) : Bool :=
  match parse Proto op with
  | .ok op => is_endorsement op
  | .error _ => false

def filter_config : filter.config :=
  match pv.filter_config with
  | some config => (filter.destruct config).getD filter.default_config
  | none => filter.default_config

def pre_filter : Bool :=
  match Proto.operation_data_of_bytes op.proto with
  | none => false
  | some protocol_data => filter.pre_filter (filter_config pv) protocol_data

def post_filter (before after : Proto.validation_state)
    (op : Proto.operation_data) (receipt : Proto.operation_receipt) : Bool :=
  filter.post_filter (filter_config pv) before after op receipt

/-- Record a branch refusal. The operation that the ring gives up leaves the
mempool. -/
def add_branch_refusal (oph : Operation_hash)
    (errors : List (Error Proto.error)) : Types_state Proto filter :=
  let (erased, branch_refused) := EvictionRing.add_and_return_erased pv.branch_refused oph
  let pv := { pv with branch_refused }
  let pv := match erased with
    | some e => { pv with
        branch_refusals := pv.branch_refusals.remove e
        in_mempool := pv.in_mempool.erase e }
    | none => pv
  { pv with
    in_mempool := insert oph pv.in_mempool
    branch_refusals := pv.branch_refusals.add oph (op, errors) }

/-- Record a branch delay, in the same way. -/
def add_branch_delay (oph : Operation_hash)
    (errors : List (Error Proto.error)) : Types_state Proto filter :=
  let (erased, branch_delayed) := EvictionRing.add_and_return_erased pv.branch_delayed oph
  let pv := { pv with branch_delayed }
  let pv := match erased with
    | some e => { pv with
        branch_delays := pv.branch_delays.remove e
        in_mempool := pv.in_mempool.erase e }
    | none => pv
  { pv with
    in_mempool := insert oph pv.in_mempool
    branch_delays := pv.branch_delays.add oph (op, errors) }

/-- Record a refusal. Refused operations are not in the mempool. -/
def add_refusal (oph : Operation_hash)
    (errors : List (Error Proto.error)) : Types_state Proto filter :=
  let (erased, refused) := EvictionRing.add_and_return_erased pv.refused oph
  let pv := { pv with refused }
  let pv := match erased with
    | some e => { pv with refusals := pv.refusals.remove e }
    | none => pv
  { pv with refusals := pv.refusals.add oph (op, errors) }

def handle_branch_refused (op : Operation) (oph : Operation_hash)
    (errors : List (Error Proto.error)) : Worker Proto filter :=
  let w := notify_operation w .Branch_refused op
  { w with state := add_branch_refusal w.state op oph errors }

/-- The accumulator of a batch: the worker, and the validation state and the
mempool that the batch builds. -/
structure Batch (Proto : Registered_protocol) (filter : Filter Proto) where
  w : Worker Proto filter
  acc_validation_state : T Proto
  acc_mempool : Mempool

namespace Batch

def refused (acc : Batch Proto filter) (hash : Operation_hash) (raw : Operation)
    (errors : List (Error Proto.error)) : Batch Proto filter :=
  let w := notify_operation acc.w .Refused raw
  let w := { w with state := add_refusal w.state raw hash errors }
  { acc with
    w := (w.output (.Clear_or_cancel hash)).classify raw .Refused
    acc_mempool.pending := insert hash acc.acc_mempool.pending }

/-- The mempool that is advertised names the endorsements that wait. -/
def advertise_endorsement (acc : Batch Proto filter) (op : Parsed Proto) : Batch Proto filter :=
  if is_endorsement op then
    { acc with acc_mempool.pending := insert op.hash acc.acc_mempool.pending }
  else acc

/-- One operation of a batch. The operation is applied to `state`, the
validation state the batch started from, and not to the accumulated one. -/
def round (state : T Proto) (acc : Batch Proto filter) (op : Operation) : Batch Proto filter :=
  match parse Proto op with
  | .error errors => acc.refused (Node.hash op) op errors
  | .ok op =>
    match apply_operation state op with
    | .Applied new_acc_validation_state receipt =>
      let accept := post_filter acc.w.state acc.acc_validation_state.state
        new_acc_validation_state.state op.protocol_data receipt
      if accept && decide (acc.w.state.applied_count ≤ 2000) || is_endorsement op then
        let w := notify_operation acc.w .Applied op.raw
        let w := { w with
          state.applied := (op.hash, op.raw) :: w.state.applied
          state.in_mempool := insert op.hash w.state.in_mempool }
        { w := w.classify op.raw .Applied
          acc_validation_state := new_acc_validation_state
          acc_mempool := { acc.acc_mempool with
            known_valid := op.hash :: acc.acc_mempool.known_valid } }
      else { acc with w := acc.w.classify op.raw .Filtered }
    | .Branch_delayed errors =>
      let acc := acc.advertise_endorsement op
      let w := notify_operation acc.w .Branch_delayed op.raw
      let w := { w with state := add_branch_delay w.state op.raw op.hash errors }
      { acc with w := w.classify op.raw .Branch_delayed }
    | .Branch_refused errors =>
      let acc := acc.advertise_endorsement op
      let w := handle_branch_refused acc.w op.raw op.hash errors
      { acc with w := w.classify op.raw .Branch_refused }
    | .Refused errors => acc.refused op.hash op.raw errors
    | .Duplicate => { acc with w := acc.w.classify op.raw .Duplicate }
    | .Outdated => { acc with w := acc.w.classify op.raw .Outdated }

end Batch

/-- The endorsements among the delayed operations. -/
def endorsements (map : Refusals Proto) (init : Finset Operation_hash) : Finset Operation_hash :=
  map.fold (fun k v s => if is_endorsement_raw Proto v.1 then insert k s else s) init

/-- Classify the pending operations, one batch of them at a time. -/
def process_pending : Worker Proto filter :=
  match w.state.validation_state with
  | .error err =>
    { w with state := { w.state.pending.fold (fun h op pv => add_branch_delay pv op h err) w.state
        with pending := .empty } }
  | .ok state =>
    if w.state.pending.cardinal = 0 then w
    else
      let operations := w.state.pending.bindings.map Prod.snd
      let (acc, remaining_op) := fold_left_s_n w.state.limits.operations_batch_size
        (Batch.round state) ⟨w, state, Mempool.empty⟩ operations
      let w := if remaining_op ≠ [] then acc.w.push_request .Leftover else acc.w
      let w := { w with
        state.validation_state := .ok acc.acc_validation_state
        state.pending := .empty }
      advertise w { acc.acc_mempool with known_valid := acc.acc_mempool.known_valid.reverse }

def handle_unprocessed : Worker Proto filter :=
  let w := process_pending w
  let mempool : Mempool :=
    ⟨(w.state.applied.map Prod.fst).reverse,
      endorsements w.state.branch_delays (endorsements w.state.branch_refusals ∅)⟩
  let w := { w with state.mempool := mempool }
  w.output (.Current_mempool w.state.predecessor.header.hash mempool)

/-- Unless the fetched operation comes back, nothing happens after a fetch: the
hash stays among the fetched ones. -/
def fetch_operation (oph : Operation_hash) : Worker Proto filter :=
  { w with fetches := oph ::ₘ w.fetches }

def on_operation_arrived (oph : Operation_hash) (op : Operation) :
    Worker Proto filter :=
  let w := { w with state.fetching := w.state.fetching.erase oph }
  if op.branch ∉ w.state.live_blocks then
    handle_branch_refused (w.output (.Clear_or_cancel oph)) op oph [.Exn "Unknown branch operation"]
  else if already_handled w.state oph then w
  else if pre_filter w.state op then
    { w with state.pending := w.state.pending.add oph op }
  else w

def on_inject (op : Operation) :
    Tzresult Proto.error (Worker Proto filter) :=
  let oph := Node.hash op
  if already_handled w.state oph then .ok w
  else
    match w.state.validation_state with
    | .error errors => .error errors
    | .ok validation_state =>
      match parse Proto op with
      | .error errors => .error errors
      | .ok parsed_op =>
        match apply_operation validation_state parsed_op with
        | .Applied _ _ =>
          let w := w.output (.Inject_operation oph op)
          .ok { w with state.pending := w.state.pending.add parsed_op.hash op }
        | _ => .error [.Error_while_applying oph]

/-- The operations of a notified mempool that are not known yet. -/
def to_fetch (mempool : Mempool) : Finset Operation_hash :=
  (mempool.known_valid.foldl (fun s oph => insert oph s) mempool.pending).filter
    fun oph => !already_handled pv oph

/-- Every operation to fetch is fetched. -/
def on_notify (mempool : Mempool) : Worker Proto filter :=
  let to_fetch := to_fetch w.state mempool
  { w with
    state.fetching := to_fetch ∪ w.state.fetching
    fetches := w.fetches + to_fetch.val }

/-- The operations of a classification, by their hashes. -/
def operations : OrderedMap Operation_hash Operation :=
  let ops := pv.applied.reverse.foldl (fun acc op => acc.add op.1 op.2) .empty
  let ops := pv.branch_delays.fold (fun h v acc => acc.add h v.1) ops
  pv.branch_refusals.fold (fun h v acc => acc.add h v.1) ops

/-- Add the operations of the blocks from `header` down to the ancestor. -/
def pop_blocks {E : Type} (ancestor : Block_hash) (header : Header) (ancestors : List Header)
    (mempool : OrderedMap Operation_hash Operation) :
    Tzresult E (OrderedMap Operation_hash Operation) :=
  if header.hash = ancestor then .ok mempool
  else
    let mempool := header.operations.flatten.foldl
      (fun mempool op => mempool.add (Node.hash op) op) mempool
    match ancestors with
    | [] => .raise .Assert_false
    | pred :: ancestors => pop_blocks ancestor pred ancestors mempool

def push_block (mempool : OrderedMap Operation_hash Operation) (header : Header) :
    OrderedMap Operation_hash Operation :=
  (chain_traversal.operation_hashes header).foldl (fun mempool h => mempool.remove h) mempool

/-- The operations to classify again after a change of head. -/
def list_pendings {E : Type} (from_block to_block : Block) (live_blocks : Finset Block_hash)
    (old_mempool : OrderedMap Operation_hash Operation) :
    Tzresult E (OrderedMap Operation_hash Operation) := do
  let (ancestor, path) ← chain_traversal.new_blocks from_block to_block
  let mempool ← pop_blocks ancestor.header.hash from_block.header from_block.ancestors old_mempool
  let new_mempool := path.foldl push_block mempool
  return new_mempool.filter fun _ op => op.branch ∈ live_blocks

def on_flush (predecessor : Block) (timestamp : Int) :
    Tzresult Proto.error (Worker Proto filter) := do
  let (new_live_blocks, new_live_operations) ←
    chain_traversal.live_blocks predecessor predecessor.header.max_operations_ttl
  let pending ← list_pendings w.state.predecessor predecessor new_live_blocks (operations w.state)
  let validation_state ← (create Proto predecessor timestamp).attempt
  return { w with state := { w.state with
    predecessor := predecessor
    live_blocks := new_live_blocks
    live_operations := new_live_operations
    mempool := Mempool.empty
    pending := pending
    in_mempool := ∅
    branch_delayed := EvictionRing.clear w.state.branch_delayed
    branch_delays := .empty
    branch_refused := EvictionRing.clear w.state.branch_refused
    branch_refusals := .empty
    applied := []
    applied_count := 0
    validation_state := validation_state } }

def on_advertise : Worker Proto filter :=
  match w.state.advertisement with
  | none => w
  | some mempool =>
    let w := { w with state.advertisement := none }
    w.output (.Current_head mempool w.state.predecessor)

/-- What a request does before the pending operations are handled. `now` is
the time at which the request is handled. -/
def request_handler (now : Int) :
    Request → Tzresult Proto.error (Worker Proto filter)
  | .Flush hash =>
    match Node.read hash with
    | none => .error [.Block_not_found hash]
    | some block => on_flush (on_advertise w) block now
  | .Notify _ mempool => .ok (on_notify w mempool)
  | .Leftover => .ok w
  | .Inject op => on_inject w op
  | .Arrived oph op => .ok (on_operation_arrived w oph op)
  | .Advertise => .ok (on_advertise w)

def on_request (now : Int) (request : Request) :
    Tzresult Proto.error (Worker Proto filter) := do
  let w ← request_handler w now request
  return handle_unprocessed w

/-- The worker when the node starts, from the head of the chain and the mempool
that was stored with it. -/
def on_launch (limits : Limits) (predecessor : Block) (mempool : Mempool)
    (live_blocks : Finset Block_hash) (live_operations : Finset Operation_hash) (now : Int) :
    Tzresult Proto.error (Worker Proto filter) := do
  let validation_state ← (create Proto predecessor now).attempt
  let fetching := mempool.known_valid.foldl (fun s h => insert h s) ∅
  let ring := EvictionRing.create limits.max_refused_operations
  let pv : Types_state Proto filter :=
    { limits, predecessor, live_blocks, live_operations, fetching, validation_state
      mempool := Mempool.empty
      refused := ring
      refusals := .empty
      pending := .empty
      in_mempool := ∅
      applied := []
      applied_count := 0
      branch_refused := ring
      branch_refusals := .empty
      branch_delayed := ring
      branch_delays := .empty
      advertisement := none
      filter_config := none }
  return mempool.known_valid.foldl fetch_operation ⟨pv, [], 0, 0, [], []⟩

end prevalidator

end plexus.shell
