import QuakeJs.Ledger.Effects

/-!
# Runs of the ledger

`Action` lists the transactions of the whole extension, and `perform` runs
one.  A run is any finite sequence of them: the transactions are serialised
by the database, and the code places no other order on them.
-/

namespace QuakeJs

/-- A call of one transaction with its arguments. -/
inductive Action
  | saveSettings (owner walletId : String) (enabled : Bool) (haircut : Int) (allow : Bool)
  | createArena (owner : Uid) (data : ArenaInput)
  | createGame (publicId : String) (data : PublicArenaInput)
  | reserveEntry (arenaId token : String) (data : EntryInput)
  | recordInvoice (entryId : Uid) (payment : Payment)
  | settleEntry (payment : Payment)
  | consumeDeath (runId : Uid) (sequence : Int) (victimId killerId : Uid)
  | allocateLife (arenaId token runId : Uid)
  | requestLeave (arenaId token : Uid)
  | finishLeave (playerId revokedRun : Uid)
  | expireGame (arenaId : Uid)
  | closeGame (arenaId owner : Uid)
  | leaseArena (worker arenaId : Uid)
  | insertRun (runId arenaId worker : Uid)
  | recoverRun (runId : Uid)
  | recoverLeavingRun (arenaId runId : Uid)
  | stopRun (arenaId worker runId : Uid)
  | renewLease (worker arenaId runId : Uid) (connected : List Uid)
  | claimPayout
  | updatePayout (k : Outbox) (row : Payout) (status : PayoutStatus)
      (values : Ledger.PayoutValues)
  | releasePayout (k : Outbox) (row : Payout)

/-- The ledger after an action. -/
def perform (env : Env) (a : Action) (σ : Ledger) : Except LedgerError Ledger :=
  match a with
  | .saveSettings owner walletId enabled haircut allow =>
    Ledger.saveSettings env owner walletId enabled haircut allow σ
  | .createArena owner data => (Ledger.createArena env owner data σ).map Prod.snd
  | .createGame publicId data => (Ledger.createGame env publicId data σ).map Prod.snd
  | .reserveEntry arenaId token data =>
      (Ledger.reserveEntry env arenaId token data σ).map Prod.snd
  | .recordInvoice entryId payment => Ledger.recordInvoice entryId payment σ
  | .settleEntry payment => (Ledger.settleEntry env payment σ).map Prod.snd
  | .consumeDeath runId sequence victimId killerId =>
    (Ledger.consumeDeath env runId sequence victimId killerId σ).map Prod.snd
  | .allocateLife arenaId token runId =>
      (Ledger.allocateLife env arenaId token runId σ).map Prod.snd
  | .requestLeave arenaId token => (Ledger.requestLeave env arenaId token σ).map Prod.snd
  | .finishLeave playerId revokedRun => Ledger.finishLeave env playerId revokedRun σ
  | .expireGame arenaId => (Ledger.expireGame env arenaId σ).map Prod.snd
  | .closeGame arenaId owner => Ledger.closeGame arenaId owner σ
  | .leaseArena worker arenaId => (Ledger.leaseArena env worker arenaId σ).map Prod.snd
  | .insertRun runId arenaId worker => Ledger.insertRun env runId arenaId worker σ
  | .recoverRun runId => .ok (σ.recoverRun runId)
  | .recoverLeavingRun arenaId runId => Ledger.recoverLeavingRun arenaId runId σ
  | .stopRun arenaId worker runId => Ledger.stopRun arenaId worker runId σ
  | .renewLease worker arenaId runId connected =>
    Ledger.renewLease env worker arenaId runId connected σ
  | .claimPayout => .ok (Ledger.claimPayout env σ).2
  | .updatePayout k row status values =>
      (Ledger.updatePayout env k row status values σ).map Prod.snd
  | .releasePayout k row => .ok (Ledger.releasePayout env k row σ)

theorem map_snd_ok {ε α β : Type} {x : Except ε (α × β)} {b : β} (h : x.map Prod.snd = .ok b) :
    ∃ a, x = .ok (a, b) := by
  rcases x with e | ⟨a, b'⟩
  · cases h
  · cases h
    exact ⟨a, rfl⟩

/-- A life without its heartbeat. -/
def Life.still (l : Life) : Life := { l with connectedUntil := 0 }

/-- What a transaction can do to the players, the entries, the lives and the
terms of the payouts.  The transactions that write none of these are one
case, and so are the three that end a run. -/
inductive Effect (env : Env) (σ σ' : Ledger) : Prop
  | other (participants : σ'.participants = σ.participants) (entries : σ'.entries = σ.entries)
      (lives : σ'.lives = σ.lives) (outbox : ∀ k,
        Table.Agree Ledger.terms (σ.outbox k) (σ'.outbox k))
  | reserve (arenaId token : String) (data : EntryInput) (entry : Entry) (new : Bool)
      (run : Ledger.reserveEntry env arenaId token data σ = .ok ((entry, new), σ'))
  | invoice (entryId : Uid) (payment : Payment)
      (run : Ledger.recordInvoice entryId payment σ = .ok σ')
  | settle (payment : Payment) (arena? : Option Uid)
      (run : Ledger.settleEntry env payment σ = .ok (arena?, σ'))
  | death (runId : Uid) (sequence : Int) (victimId killerId arenaId : Uid)
      (run : Ledger.consumeDeath env runId sequence victimId killerId σ = .ok (arenaId, σ'))
  | allocate (arenaId token runId : Uid) (life : Life)
      (run : Ledger.allocateLife env arenaId token runId σ = .ok (life, σ'))
  | request (arenaId token : Uid) (player : Participant)
      (run : Ledger.requestLeave env arenaId token σ = .ok (player, σ'))
  | finish (playerId revokedRun : Uid)
      (run : Ledger.finishLeave env playerId revokedRun σ = .ok σ')
  | release (runId : Uid) (participants : σ'.participants = σ.participants)
      (entries : σ'.entries = σ.entries) (lives : σ'.lives = (σ.releaseLives runId).lives)
      (outbox : ∀ k, σ'.outbox k = σ.outbox k)
  | renew (participants : σ'.participants = σ.participants) (entries : σ'.entries = σ.entries)
      (lives : Table.Agree Life.still σ.lives σ'.lives) (outbox : ∀ k, σ'.outbox k = σ.outbox k)

private theorem Effect.ofKeepsTerms {env : Env} {σ σ' : Ledger} (h : Ledger.KeepsTerms σ σ') :
    Effect env σ σ' :=
  .other h.participants h.entries h.lives h.outbox

theorem perform_effect {env : Env} {a : Action} {σ σ' : Ledger}
    (hrun : perform env a σ = .ok σ') : Effect env σ σ' := by
  have houtbox : ∀ k, Table.Agree Ledger.terms (σ.outbox k) (σ.outbox k) := fun _ => .refl _ _
  cases a with
  | saveSettings owner walletId enabled haircut allow =>
    obtain ⟨settings, rfl, -⟩ := Ledger.saveSettings_ok hrun
    exact .other rfl rfl rfl houtbox
  | createArena owner data =>
    obtain ⟨arena, hrun⟩ := map_snd_ok hrun
    obtain ⟨_, arenas, -, rfl, -⟩ := Ledger.createArena_ok hrun
    exact .other rfl rfl rfl houtbox
  | createGame publicId data =>
    obtain ⟨arena, hrun⟩ := map_snd_ok hrun
    obtain ⟨_, -, -, -, ⟨-, -, -, rfl⟩ | ⟨-, -, -, -, -, arenas, -, rfl⟩⟩ :=
      Ledger.createGame_ok hrun
    · exact .other rfl rfl rfl houtbox
    · exact .other rfl rfl rfl houtbox
  | reserveEntry arenaId token data =>
    obtain ⟨⟨entry, new⟩, hrun⟩ := map_snd_ok hrun
    exact .reserve arenaId token data entry new hrun
  | recordInvoice entryId payment => exact .invoice entryId payment hrun
  | settleEntry payment =>
    obtain ⟨arena?, hrun⟩ := map_snd_ok hrun
    exact .settle payment arena? hrun
  | consumeDeath runId sequence victimId killerId =>
    obtain ⟨arenaId, hrun⟩ := map_snd_ok hrun
    exact .death runId sequence victimId killerId arenaId hrun
  | allocateLife arenaId token runId =>
    obtain ⟨life, hrun⟩ := map_snd_ok hrun
    exact .allocate arenaId token runId life hrun
  | requestLeave arenaId token =>
    obtain ⟨player, hrun⟩ := map_snd_ok hrun
    exact .request arenaId token player hrun
  | finishLeave playerId revokedRun => exact .finish playerId revokedRun hrun
  | expireGame arenaId =>
    obtain ⟨expired, hrun⟩ := map_snd_ok hrun
    obtain ⟨row, -, hexp⟩ := Ledger.expireGame_ok hrun
    cases hexp <;> (subst_vars; exact .other rfl rfl rfl houtbox)
  | closeGame arenaId owner =>
    obtain ⟨row, -, -, rfl⟩ := Ledger.closeGame_ok hrun
    exact .other rfl rfl rfl houtbox
  | leaseArena worker arenaId =>
    obtain ⟨⟨arena, oldRuns⟩, hrun⟩ := map_snd_ok hrun
    obtain ⟨_, -, -, -, -, -, -, rfl⟩ := Ledger.leaseArena_ok hrun
    exact .other rfl rfl rfl houtbox
  | insertRun runId arenaId worker =>
    obtain ⟨runs, -, rfl⟩ := Ledger.insertRun_ok hrun
    exact .other rfl rfl rfl houtbox
  | recoverRun runId =>
    cases hrun
    exact .release runId rfl rfl rfl fun _ => rfl
  | recoverLeavingRun arenaId runId =>
    rw [Ledger.recoverLeavingRun_ok hrun]
    exact .release runId rfl rfl rfl fun _ => rfl
  | stopRun arenaId worker runId =>
    rw [Ledger.stopRun_ok hrun]
    exact .release runId rfl rfl rfl fun k => by cases k <;> rfl
  | renewLease worker arenaId runId connected =>
    obtain ⟨_, -, -, -, -, -, rfl⟩ := Ledger.renewLease_ok hrun
    exact .renew rfl rfl (Table.agree_update fun _ _ _ => by rfl) fun k => by cases k <;> rfl
  | claimPayout =>
    cases hrun
    exact .ofKeepsTerms (Ledger.claimPayout_keeps env σ)
  | updatePayout k row status values =>
    obtain ⟨row', hrun⟩ := map_snd_ok hrun
    exact .ofKeepsTerms (Ledger.updatePayout_keeps hrun)
  | releasePayout k row =>
    cases hrun
    exact .ofKeepsTerms (Ledger.releasePayout_keeps env k row σ)

/-- The ids that the environment will hand out are distinct, and none of them
names a row yet. -/
structure Env.Fresh (env : Env) (σ : Ledger) : Prop where
  injective : Function.Injective env.uid
  ne_empty : ∀ n, env.uid n ≠ ""
  arenas : ∀ n, σ.arenas.get? (env.uid n) = none
  participants : ∀ n, σ.participants.get? (env.uid n) = none
  entries : ∀ n, σ.entries.get? (env.uid n) = none
  lives : ∀ n, σ.lives.get? (env.uid n) = none
  runs : ∀ n, σ.runs.get? (env.uid n) = none
  leases : ∀ n, ∀ a ∈ σ.arenas, a.runId ≠ env.uid n
  payouts : ∀ n k, (σ.outbox k).get? (env.uid n) = none

/-- The creation times of entries and lives lie behind the nanosecond clock. -/
structure Env.Later (env : Env) (σ : Ledger) : Prop where
  entries : ∀ e ∈ σ.entries, e.createdAt < env.timeNs
  lives : ∀ l ∈ σ.lives, l.createdAt < env.timeNs

/-- The ledgers that a run can reach, when the environment of each step meets
`ok`. -/
inductive Reachable (ok : Env → Ledger → Prop) : Ledger → Prop
  | empty : Reachable ok Ledger.empty
  | step {σ σ' : Ledger} (env : Env) (a : Action) (reach : Reachable ok σ) (meets : ok env σ)
      (run : perform env a σ = .ok σ') : Reachable ok σ'

/-- A property of the empty ledger that each step keeps holds of every
reachable ledger. -/
theorem Reachable.invariant {ok : Env → Ledger → Prop} {P : Ledger → Prop}
    (hempty : P Ledger.empty)
    (hstep : ∀ σ σ' env a, P σ → ok env σ → perform env a σ = .ok σ' → P σ')
    {σ : Ledger} (h : Reachable ok σ) : P σ := by
  induction h with
  | empty => exact hempty
  | step env a _ hok hrun ih => exact hstep _ _ env a ih hok hrun

/-- The ledgers that a run can reach from `σ` on. -/
inductive Reaches (ok : Env → Ledger → Prop) (σ : Ledger) : Ledger → Prop
  | refl : Reaches ok σ σ
  | step {τ τ' : Ledger} (env : Env) (a : Action) (reach : Reaches ok σ τ) (meets : ok env τ)
      (run : perform env a τ = .ok τ') : Reaches ok σ τ'

theorem Reachable.trans {ok : Env → Ledger → Prop} {σ τ : Ledger} (h : Reachable ok σ)
    (hreach : Reaches ok σ τ) : Reachable ok τ := by
  induction hreach with
  | refl => exact h
  | step env a _ hmeets hrun ih => exact .step env a ih hmeets hrun

/-- A property that each step from a reachable ledger keeps is never lost
again. -/
theorem Reaches.invariant {ok : Env → Ledger → Prop} {P : Ledger → Prop} {σ τ : Ledger}
    (h : Reaches ok σ τ) (hreach : Reachable ok σ) (hP : P σ)
    (hstep : ∀ τ τ' env a, Reachable ok τ → P τ → ok env τ → perform env a τ = .ok τ' → P τ') :
    P τ := by
  induction h with
  | refl => exact hP
  | step env a hsofar hmeets hrun ih =>
    exact hstep _ _ env a (hreach.trans hsofar) ih hmeets hrun

/-! ## Scripts -/

/-- A transaction as the database runs it: one that raises changes nothing. -/
def commit (σ : Ledger) (step : Env × Action) : Ledger :=
  (perform step.1 step.2 σ).toOption.getD σ

/-- The ledger after a script of transactions. -/
def ledgerAfter (script : List (Env × Action)) : Ledger := script.foldl commit Ledger.empty

/-- The environment of each step of a script meets `ok`. -/
def Follows (ok : Env → Ledger → Prop) : Ledger → List (Env × Action) → Prop
  | _, [] => True
  | σ, step :: script => ok step.1 σ ∧ Follows ok (commit σ step) script

theorem follows_append {ok : Env → Ledger → Prop} {σ : Ledger}
    {script script' : List (Env × Action)} :
    Follows ok σ (script ++ script') ↔
      Follows ok σ script ∧ Follows ok (script.foldl commit σ) script' := by
  induction script generalizing σ with
  | nil => simp [Follows]
  | cons step script ih => simp [Follows, ih, and_assoc]

theorem Follows.and {ok ok' : Env → Ledger → Prop} {σ : Ledger} {script : List (Env × Action)}
    (h : Follows ok σ script) (h' : Follows ok' σ script) :
    Follows (fun env σ => ok env σ ∧ ok' env σ) σ script := by
  induction script generalizing σ with
  | nil => trivial
  | cons step script ih => exact ⟨⟨h.1, h'.1⟩, ih h.2 h'.2⟩

theorem Reachable.commit {ok : Env → Ledger → Prop} {σ : Ledger} (h : Reachable ok σ)
    {step : Env × Action} (hok : ok step.1 σ) : Reachable ok (commit σ step) := by
  unfold QuakeJs.commit
  cases hrun : perform step.1 step.2 σ with
  | error e => exact h
  | ok σ' => exact .step step.1 step.2 h hok hrun

/-- A transaction that does not raise is committed. -/
theorem perform_commit {σ : Ledger} {env : Env} {a : Action}
    (h : (perform env a σ).toOption.isSome = true) :
    perform env a σ = .ok (commit σ (env, a)) := by
  unfold commit
  cases hrun : perform env a σ with
  | error e =>
    rw [hrun] at h
    cases h
  | ok σ' => rfl

/-- A transaction that raises changes nothing. -/
theorem commit_error {σ : Ledger} {env : Env} {a : Action} {error : LedgerError}
    (h : perform env a σ = .error error) : commit σ (env, a) = σ := by
  unfold commit
  rw [h]
  rfl

theorem ledgerAfter_concat (script : List (Env × Action)) (step : Env × Action) :
    ledgerAfter (script ++ [step]) = commit (ledgerAfter script) step := by
  unfold ledgerAfter
  rw [List.foldl_append, List.foldl_cons, List.foldl_nil]

theorem follows_ledgerAfter {ok : Env → Ledger → Prop} {before script : List (Env × Action)} :
    Follows ok Ledger.empty (before ++ script) ↔
      Follows ok Ledger.empty before ∧ Follows ok (ledgerAfter before) script :=
  follows_append

/-- A script leads to a reachable ledger. -/
theorem Reachable.ledgerAfter {ok : Env → Ledger → Prop} {script : List (Env × Action)}
    (h : Follows ok Ledger.empty script) : Reachable ok (ledgerAfter script) := by
  have hrun : ∀ (script : List (Env × Action)) (σ : Ledger), Reachable ok σ →
      Follows ok σ script → Reachable ok (script.foldl QuakeJs.commit σ) := by
    intro script
    induction script with
    | nil => exact fun _ hσ _ => hσ
    | cons step script ih => exact fun σ hσ hf => ih _ (hσ.commit hf.1) hf.2
  exact hrun script Ledger.empty .empty h

instance (env : Env) (σ : Ledger) : Decidable (env.Later σ) :=
  decidable_of_iff ((∀ e ∈ σ.entries, e.createdAt < env.timeNs)
    ∧ ∀ l ∈ σ.lives, l.createdAt < env.timeNs) ⟨fun h => ⟨h.1, h.2⟩, fun h => ⟨h.1, h.2⟩⟩

instance decidableFollows (ok : Env → Ledger → Prop) [∀ env σ, Decidable (ok env σ)] :
    ∀ (σ : Ledger) (script : List (Env × Action)), Decidable (Follows ok σ script)
  | _, [] => inferInstanceAs (Decidable True)
  | σ, step :: script =>
    have : Decidable (Follows ok (commit σ step) script) := decidableFollows ok _ script
    inferInstanceAs (Decidable (ok step.1 σ ∧ Follows ok (commit σ step) script))

end QuakeJs
