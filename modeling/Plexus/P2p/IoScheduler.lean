import Mathlib.Algebra.Order.Ring.Int
import Mathlib.Logic.Function.Basic
import Mathlib.Tactic.Ring
import Plexus.Lib.Run

/-! The I/O scheduler: a worker that handles the buffers of many connections,
with a quota for the bytes it handles between two updates. -/

namespace plexus.p2p_io_scheduler

/-- A buffer of a bounded length, as far as the scheduler looks at it. -/
abbrev Buffer (max_length : ℕ) := Fin (max_length + 1)

variable {max_length : ℕ}

/-- Where the worker stands in its loop. -/
inductive Worker (max_length : ℕ) where
  | check_quota
  | wait_quota
  | quota_updated
  | wait_data
  | handle_connection (prio : Bool) (conn : ℕ) (msg : Buffer max_length)
  | stopped

/-- The errors of a pop all have the same effect on the scheduler. -/
structure Scheduler (max_length : ℕ) where
  canceled : Bool
  worker : Worker max_length
  max_speed : Option ℤ
  quota : ℤ
  readys_high : List (ℕ × Option (Buffer max_length))
  readys_low : List (ℕ × Option (Buffer max_length))
  conn_quota : ℕ → ℤ
  /-- The connections that wait for their next pop and their last push. -/
  waiting : ℕ → Bool
  /-- The bytes handled, and the updates of the quota, since the creation. -/
  handled : ℕ
  updates : ℕ

def create (max_length : ℕ) (max_speed : Option ℤ) : Scheduler max_length where
  canceled := false
  worker := .check_quota
  max_speed := max_speed
  quota := max_speed.getD 0
  readys_high := []
  readys_low := []
  conn_quota _ := 0
  waiting _ := false
  handled := 0
  updates := 0

variable (st : Scheduler max_length)

def waiter (conn : ℕ) : Scheduler max_length :=
  { st with waiting := Function.update st.waiting conn true }

/-- What the waiter does once the pop and the last push are done. -/
def ready (conn : ℕ) (res : Option (Buffer max_length)) : Scheduler max_length :=
  let st := { st with waiting := Function.update st.waiting conn false }
  if 0 < st.conn_quota conn then { st with readys_high := st.readys_high ++ [(conn, res)] }
  else { st with readys_low := st.readys_low ++ [(conn, res)] }

def check_quota : Worker max_length :=
  if st.max_speed ≠ none ∧ st.quota < 0 then .wait_quota else .wait_data

/-- The worker starts to push what it took from a queue. -/
def take (prio : Bool) (conn : ℕ) : Option (Buffer max_length) → Scheduler max_length
  | none => { st with worker := .check_quota }
  | some msg => { st with worker := .handle_connection prio conn msg, handled := st.handled + msg }

/-- The worker goes on to its next event, if it is not blocked. -/
def worker_loop : Option (Scheduler max_length) :=
  match st.worker with
  | .check_quota => some { st with worker := check_quota st }
  | .wait_quota => some { st with worker := .quota_updated }
  | .quota_updated => none
  | .wait_data =>
    if st.canceled then some { st with worker := .stopped }
    else
      match st.readys_high, st.readys_low with
      | (conn, msg) :: rest, _ => some (take { st with readys_high := rest } true conn msg)
      | [], (conn, msg) :: rest => some (take { st with readys_low := rest } false conn msg)
      | [], [] => none
  | .handle_connection prio conn msg =>
    let quota := if prio then st.conn_quota conn - msg else st.conn_quota conn
    some (waiter { st with
      worker := .check_quota
      quota := st.quota - msg
      conn_quota := Function.update st.conn_quota conn quota } conn)
  | .stopped => none

/-- A worker that waits for the update wakes up. -/
def wake : Worker max_length → Worker max_length
  | .quota_updated => .wait_data
  | worker => worker

def update_quota : Scheduler max_length :=
  let st :=
    match st.max_speed with
    | none => st
    | some quota => { st with quota := min st.quota 0 + quota, worker := wake st.worker }
  { st with
    updates := st.updates + 1
    readys_high := st.readys_high ++ st.readys_low.filter fun e => 0 < st.conn_quota e.1
    readys_low := st.readys_low.filter fun e => ¬ 0 < st.conn_quota e.1 }

/-- A step of the worker, of a connection, or of the owner of the scheduler, who
also gives the connections their quotas. -/
inductive Step (st st' : Scheduler max_length) : Prop where
  | worker (h : worker_loop st = some st')
  | create_connection (conn : ℕ) (hconn : st.waiting conn = false) (h : st' = waiter st conn)
  | ready (conn : ℕ) (res : Option (Buffer max_length)) (hconn : st.waiting conn = true)
      (h : st' = ready st conn res)
  | refill (conn_quota : ℕ → ℤ) (h : st' = { st with conn_quota })
  | update_quota (h : st' = update_quota st)
  | shutdown (h : st' = { st with canceled := true })

abbrev Run : Scheduler max_length → Scheduler max_length → Prop := Relation.ReflTransGen Step

/-! Buffers that are not longer than the quota. -/

/-- The bytes taken but not yet subtracted from the quota. -/
def Worker.in_flight : Worker max_length → ℤ
  | .handle_connection _ _ msg => msg
  | _ => 0

/-- How far the quota may be below zero. -/
def Worker.debt : Worker max_length → ℤ
  | .wait_data => 0
  | .handle_connection _ _ _ => 0
  | _ => max_length

structure Bounded (speed : ℤ) (st : Scheduler max_length) : Prop where
  max_speed : st.max_speed = some speed
  debt : -st.worker.debt ≤ st.quota
  handled : st.handled + st.quota ≤ (st.updates + 1) * speed + st.worker.in_flight

variable {speed : ℤ} {st st' : Scheduler max_length}

theorem bounded_take (h : Bounded speed st) (hworker : st.worker = .wait_data) (prio : Bool)
    (conn : ℕ) (msg : Option (Buffer max_length)) : Bounded speed (take st prio conn msg) := by
  obtain ⟨hspeed, hdebt, hhandled⟩ := h
  rw [hworker] at hdebt hhandled
  simp only [Worker.debt, Worker.in_flight] at hdebt hhandled
  cases msg <;> refine ⟨hspeed, ?_, ?_⟩ <;>
    simp only [take, Worker.debt, Worker.in_flight] <;> omega

theorem bounded_worker_loop (h : Bounded speed st) (hworker : worker_loop st = some st') :
    Bounded speed st' := by
  obtain ⟨hspeed, hdebt, hhandled⟩ := h
  unfold worker_loop at hworker
  cases hat : st.worker <;>
    simp only [hat, Worker.debt, Worker.in_flight, reduceCtorEq] at hworker hdebt hhandled
  case check_quota =>
    cases hworker
    unfold check_quota
    split
    · exact ⟨hspeed, hdebt, hhandled⟩
    · next hquota => exact ⟨hspeed, by simpa [hspeed, Worker.debt] using hquota, hhandled⟩
  case wait_quota =>
    cases hworker
    exact ⟨hspeed, hdebt, hhandled⟩
  case wait_data =>
    split at hworker
    · cases hworker
      refine ⟨hspeed, ?_, hhandled⟩
      simp only [Worker.debt]
      omega
    · split at hworker <;> cases hworker <;> refine bounded_take ?_ rfl _ _ _
      · exact ⟨hspeed, hdebt, hhandled⟩
      · exact ⟨hspeed, hdebt, hhandled⟩
  case handle_connection prio conn msg =>
    cases hworker
    refine ⟨hspeed, ?_, ?_⟩ <;> simp only [waiter, Worker.debt, Worker.in_flight] <;> omega

theorem bounded_update_quota (hle : max_length ≤ speed) (h : Bounded speed st) :
    Bounded speed (update_quota st) := by
  obtain ⟨hspeed, hdebt, hhandled⟩ := h
  have hrate : ((st.updates : ℤ) + 1 + 1) * speed = (st.updates + 1) * speed + speed := by ring
  simp only [update_quota, hspeed]
  refine ⟨rfl, ?_, ?_⟩ <;> dsimp only <;> push_cast <;> cases hat : st.worker <;>
    simp only [hat, wake, Worker.debt, Worker.in_flight] at * <;> omega

theorem bounded_step (hle : max_length ≤ speed) (h : Bounded speed st) (hstep : Step st st') :
    Bounded speed st' := by
  have hsame := h
  obtain ⟨hspeed, hdebt, hhandled⟩ := h
  cases hstep with
  | worker hworker => exact bounded_worker_loop hsame hworker
  | create_connection conn _ hst => exact hst ▸ ⟨hspeed, hdebt, hhandled⟩
  | ready conn res _ hst =>
    rw [hst, ready]
    dsimp only
    split <;> exact ⟨hspeed, hdebt, hhandled⟩
  | refill conn_quota hst => exact hst ▸ ⟨hspeed, hdebt, hhandled⟩
  | update_quota hst => exact hst ▸ bounded_update_quota hle hsame
  | shutdown hst => exact hst ▸ ⟨hspeed, hdebt, hhandled⟩

/-! Buffers that are longer. -/

/-- One connection, that waits for its next pop. -/
def alone (max_length : ℕ) (speed : ℤ) (worker : Worker max_length) (quota : ℤ)
    (handled updates : ℕ) : Scheduler max_length :=
  { waiter (create max_length (some speed)) 0 with worker, quota, handled, updates }

theorem serves (speed quota : ℤ) (handled updates : ℕ) (msg : Buffer max_length) :
    Run (alone max_length speed .wait_data quota handled updates)
      (alone max_length speed .check_quota (quota - msg) (handled + msg) updates) := by
  refine .head (.ready 0 (some msg) rfl rfl) (.head (.worker rfl) (.single (.worker ?_)))
  simp [worker_loop, take, ready, alone, waiter, create]

theorem goes_on {quota : ℤ} (hquota : 0 ≤ quota) (handled updates : ℕ) :
    Run (alone max_length speed .check_quota quota handled updates)
      (alone max_length speed .wait_data quota handled updates) := by
  refine .single (.worker ?_)
  simp [worker_loop, check_quota, alone, waiter, create, hquota]

/-- After one update the worker goes on, whatever the quota. -/
theorem goes_on_updated {quota : ℤ} (hquota : quota < 0) (handled updates : ℕ) :
    Run (alone max_length speed .check_quota quota handled updates)
      (alone max_length speed .wait_data (quota + speed) handled (updates + 1)) := by
  have hcheck : worker_loop (alone max_length speed .check_quota quota handled updates) =
      some (alone max_length speed .wait_quota quota handled updates) := by
    simp [worker_loop, check_quota, alone, waiter, create, hquota]
  refine .head (.worker hcheck) (.head (.worker rfl) (.single (.update_quota ?_)))
  simp [update_quota, alone, waiter, create, wake, hquota.le]

/-- A buffer as long as the quota leaves room for a longer one, and so does the
next update. -/
theorem max_speed_exceeded (hspeed : 0 < speed) (hlt : speed < max_length) :
    ∃ st : Scheduler max_length, Run (create max_length (some speed)) st ∧ st.updates = 1 ∧
      st.handled = speed + 2 * max_length := by
  let first : Buffer max_length := ⟨speed.toNat, by omega⟩
  have hfirst : ((first : ℕ) : ℤ) = speed := Int.toNat_of_nonneg hspeed.le
  let long : Buffer max_length := Fin.last max_length
  have hrun := (goes_on hspeed.le 0 0).trans ((serves speed speed 0 0 first).trans
    ((goes_on (by omega) _ _).trans ((serves _ _ _ _ long).trans
      ((goes_on_updated (by simp [long]; omega) _ _).trans (serves _ _ _ _ long)))))
  refine ⟨_, .head (.create_connection 0 rfl rfl) hrun, rfl, ?_⟩
  simp [alone, long, hfirst]
  omega

/-- The worker handles at most the quota of each period and one buffer, exactly
when no buffer is longer than the quota. -/
theorem max_speed_respected_iff (hspeed : 0 < speed) :
    (∀ st : Scheduler max_length, Run (create max_length (some speed)) st →
      st.handled ≤ (st.updates + 1) * speed + max_length) ↔ max_length ≤ speed := by
  constructor
  · intro h
    by_contra hlt
    obtain ⟨st, hrun, hupdates, hhandled⟩ := max_speed_exceeded hspeed (not_le.mp hlt)
    have hle := h st hrun
    rw [hupdates, hhandled] at hle
    push_cast at hle
    omega
  · intro hle st hrun
    have hcreate : Bounded speed (create max_length (some speed)) := by
      refine ⟨rfl, ?_, ?_⟩ <;> simp [create, Worker.debt, Worker.in_flight]
      omega
    obtain ⟨-, hdebt, hhandled⟩ :=
      hrun.preserves (fun _ _ hstep h => bounded_step hle h hstep) hcreate
    cases hat : st.worker <;> simp only [hat, Worker.debt, Worker.in_flight] at hdebt hhandled <;>
      omega

theorem max_speed_respected_small :
    (0 : ℤ) < 10 ∧ ∀ st : Scheduler 5, Run (create 5 (some 10)) st →
      st.handled ≤ (st.updates + 1) * (10 : ℤ) + 5 :=
  ⟨by decide, (max_speed_respected_iff (by decide)).mpr (by decide)⟩

/-- At one byte for each period, with buffers of ten bytes -/
theorem max_speed_exceeded_large : ∃ st : Scheduler 10, Run (create 10 (some 1)) st ∧
    (st.updates + 1) * (1 : ℤ) + 10 < st.handled := by
  have hlt : (1 : ℤ) < (10 : ℕ) := by decide
  obtain ⟨st, hrun, hupdates, hhandled⟩ := max_speed_exceeded one_pos hlt
  refine ⟨st, hrun, ?_⟩
  rw [hupdates, hhandled]
  decide

end plexus.p2p_io_scheduler
