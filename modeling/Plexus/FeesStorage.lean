import Plexus.ContractStorage

namespace plexus

namespace constants_storage

def cost_per_byte (c : Context) : Mine := c.constants.cost_per_byte

def origination_size (c : Context) : Nat := c.constants.origination_size

end constants_storage

/-- `Z.to_int64` -/
def z_to_int64 (z : ℤ) : Tzresult Int64 :=
  if -2 ^ 63 ≤ z ∧ z < 2 ^ 63 then .ok (Int64.ofInt z) else .raise .Z_overflow

namespace fees_storage

variable (c : Context)

def origination_burn : Tzresult (Context × Mine) := do
  let origination_size := constants_storage.origination_size c
  let cost_per_byte := constants_storage.cost_per_byte c
  let to_be_paid ← cost_per_byte.mul (Int64.ofNat origination_size)
  let c ← raw_context.update_allocated_contracts_count c
  pure (c, to_be_paid)

/-- Make the size of a contract the size it has paid for. -/
def record_paid_storage_space (contract : Contract) :
    Tzresult (Context × ℤ × ℤ × Mine) := do
  let size := contract_storage.used_storage_space c contract
  let (to_be_paid, c) ←
    contract_storage.set_paid_storage_space_and_return_fees_to_pay c contract size
  let c ← raw_context.update_storage_space_to_pay c to_be_paid
  let cost_per_byte := constants_storage.cost_per_byte c
  let to_be_paid_int64 ← z_to_int64 to_be_paid
  let to_burn ← cost_per_byte.mul to_be_paid_int64
  pure (c, size, to_be_paid, to_burn)

def burn_storage_fees (storage_limit : ℤ) (payer : Contract) :
    Carbonated Context := do
  let origination_size := constants_storage.origination_size c
  let (c, storage_space_to_pay, allocated_contracts) ← raw_context.clear_storage_space_to_pay c
  let storage_space_for_allocated_contracts : ℤ := allocated_contracts * origination_size
  let consumed := storage_space_to_pay + storage_space_for_allocated_contracts
  let remaining := storage_limit - consumed
  if remaining < 0 then fail .Storage_quota_exceeded
  else
    let cost_per_byte := constants_storage.cost_per_byte c
    let consumed_int64 ← z_to_int64 consumed
    let to_burn ← cost_per_byte.mul consumed_int64
    if to_burn = Qty.zero then pure c
    else
      trace_carbonated .Cannot_pay_storage_fee do
        contract_storage.must_exist c payer
        let c ← contract_storage.mine_spend c payer to_burn
        Traced.emit (.burn to_burn)
        pure c

def check_storage_limit (storage_limit : ℤ) : Tzresult Unit :=
  if (raw_context.constants c).hard_storage_limit_per_operation < storage_limit ∨
      storage_limit < 0 then
    fail .Storage_limit_too_high
  else pure ()

def start_counting_storage_fees : Tzresult Context :=
  raw_context.init_storage_space_to_pay c

end fees_storage

end plexus
