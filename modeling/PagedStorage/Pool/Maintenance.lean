import PagedStorage.Pool.Flush

namespace PagedStorage

/-- Periods in milliseconds, and the size of the writer's batches. -/
structure MaintenancePlan where
  checkpointPeriod : Nat := 10000
  writerPeriod : Nat := 1000
  batchSize : Nat := 100
deriving DecidableEq, Repr

inductive MaintenancePass
  | checkpoint
  | writeBatch (limit : Nat)
deriving DecidableEq, Repr

structure MaintenanceClock where
  checkpointDue : Nat
  writerDue : Nat

namespace MaintenancePlan

def check (plan : MaintenancePlan) : Except StorageError Unit :=
  if plan.checkpointPeriod = 0 ∨ plan.writerPeriod = 0 then
    .error (.invalidArgument .zeroInterval)
  else if plan.batchSize = 0 then .error (.invalidArgument .emptyBatch)
  else .ok ()

/-- Both workers sleep for a period before their first pass. -/
def start (plan : MaintenancePlan) : MaintenanceClock :=
  ⟨plan.checkpointPeriod, plan.writerPeriod⟩

def next (plan : MaintenancePlan) (clock : MaintenanceClock) :
    MaintenancePass × MaintenanceClock :=
  if clock.checkpointDue ≤ clock.writerDue then
    (.checkpoint, { clock with checkpointDue := clock.checkpointDue + plan.checkpointPeriod })
  else
    (.writeBatch plan.batchSize, { clock with writerDue := clock.writerDue + plan.writerPeriod })

end MaintenancePlan

/-- What somebody who has started the workers waits for before stopping them. -/
inductive MaintenanceGoal
  /-- No page is changed. -/
  | clean
  /-- Some write has failed. -/
  | failure
deriving DecidableEq, Repr

def MaintenanceGoal.Reached (goal : MaintenanceGoal) (pool : Pool) : Prop :=
  match goal with
  | clean => pool.dirtyPages = []
  | failure => 0 < pool.stats.failedWrites

instance (goal : MaintenanceGoal) (pool : Pool) : Decidable (goal.Reached pool) := by
  unfold MaintenanceGoal.Reached
  split <;> infer_instance

namespace Pool

def runPass (pool : Pool) : MaintenancePass → Pool
  | .checkpoint => pool.flushAll.2
  | .writeBatch limit => (pool.flushBatch limit).2

/-- The loops of the two workers, each of which sleeps for its period and runs a pass, with passes
that take no time: whoever is due first has the next turn. They are stopped once the pool has come
to `goal`, or after `count` turns. -/
def maintain (pool : Pool) (plan : MaintenancePlan) (goal : MaintenanceGoal)
    (clock : MaintenanceClock) : Nat → Pool
  | 0 => pool
  | count + 1 =>
    if goal.Reached pool then pool
    else
      let (pass, clock) := plan.next clock
      (pool.runPass pass).maintain plan goal clock count

/-- What the workers leave behind when they are started, and stopped at `goal`. As long as no write
fails each pass writes a page at least, so no more passes are needed than there are changed
pages. -/
def settle (pool : Pool) (plan : MaintenancePlan) (goal : MaintenanceGoal) : Pool :=
  pool.maintain plan goal plan.start pool.dirtyPages.length

end Pool

end PagedStorage
