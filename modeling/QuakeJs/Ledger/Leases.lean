import QuakeJs.Ledger.Lobby

/-!
# The transactions of `server.py`

The manager serves an arena under a lease: `leaseArena` names the run that
may admit lives, `insertRun` records it, `renewLease` keeps it, and `stopRun`
and `recoverRun` release the lives of a run that has ended.
-/

namespace QuakeJs.Ledger

/-- The first transaction of `Manager.ensure`.  `uid 0` is the new run.  The
result is the arena, and the runs that a previous worker left running. -/
def leaseArena (env : Env) (worker arenaId : Uid) (σ : Ledger) :
    Except LedgerError ((Arena × List Run) × Ledger) := do
  let (arena, σ₁) ← σ.lockArena arenaId true
  require (arena.map ∈ maps) (.publicError "Map not installed.")
  require (arena.leaseUntil ≤ env.now)
    (.publicError "This arena is served by another worker. Use a single LNbits worker.")
  let oldRuns := σ₁.runs.select (fun r => r.arenaId = arenaId && r.status = .running)
  pure ((arena, oldRuns), { σ₁ with
    arenas := σ₁.arenas.updateKey arenaId
      (fun a => { a with worker, runId := env.uid 0, leaseUntil := env.now + 45 })
      (fun _ => rfl) })

/-- `UPDATE lives SET status='left',connected_until=0 WHERE run_id=:run AND
status='alive'`. -/
def releaseLives (runId : Uid) (σ : Ledger) : Ledger :=
  { σ with
    lives := σ.lives.update (fun l => l.runId = runId && l.status = .alive)
      (fun l => { l with status := .left, connectedUntil := 0 }) (fun _ => rfl) }

/-- `UPDATE runs SET status=:status WHERE id=:run`. -/
def setRunStatus (runId : Uid) (status : RunStatus) (σ : Ledger) : Ledger :=
  { σ with runs := σ.runs.updateKey runId (fun r => { r with status }) (fun _ => rfl) }

/-- The second transaction of `Manager.ensure`, for each old run. -/
def recoverRun (runId : Uid) (σ : Ledger) : Ledger :=
  (σ.releaseLives runId).setRunStatus runId .recovered

/-- The transaction of `Manager.finish_leave`, for each run it recovers. -/
def recoverLeavingRun (arenaId runId : Uid) (σ : Ledger) : Except LedgerError Ledger := do
  let (_, σ₁) ← σ.lockArena arenaId false
  pure (σ₁.recoverRun runId)

/-- The third transaction of `Manager.ensure`. -/
def insertRun (env : Env) (runId arenaId worker : Uid) (σ : Ledger) :
    Except LedgerError Ledger := do
  let runs ← orRaise (σ.runs.insert?
    { id := runId, arenaId, worker, createdAt := env.now, status := .running
      eventSequence := 0 }) (.integrityError "id")
  pure { σ with runs }

/-- The transaction of `Match.stop`. -/
def stopRun (arenaId worker runId : Uid) (σ : Ledger) : Except LedgerError Ledger := do
  let (_, σ₁) ← σ.lockArena arenaId false
  let σ₂ := (σ₁.releaseLives runId).setRunStatus runId .stopped
  pure { σ₂ with
    arenas := σ₂.arenas.update (fun a => a.id = arenaId && a.worker = worker && a.runId = runId)
      (fun a => { a with leaseUntil := 0 }) (fun _ => rfl) }

/-- The transaction of `Manager.renew`; `connected` are the lives of the
connections of the match. -/
def renewLease (env : Env) (worker arenaId runId : Uid) (connected : List Uid) (σ : Ledger) :
    Except LedgerError Ledger := do
  let (arena, σ₁) ← σ.lockArena arenaId false
  require (arena.active = true ∧ arena.worker = worker ∧ arena.runId = runId
      ∧ env.now < arena.leaseUntil) (.publicError "Arena lease ended.")
  pure { σ₁ with
    arenas := σ₁.arenas.updateKey arenaId (fun a => { a with leaseUntil := env.now + 45 })
      (fun _ => rfl)
    lives := σ₁.lives.update (fun l => l.id ∈ connected && l.status = .alive)
      (fun l => { l with connectedUntil := env.now + 30 }) (fun _ => rfl) }

end QuakeJs.Ledger
