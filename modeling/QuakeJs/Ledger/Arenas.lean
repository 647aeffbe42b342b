import QuakeJs.Ledger.Run

/-!
# What a transaction makes of an arena

`ArenaMove` lists every write of a row of `arenas`, up to the revision that
the lock of the arena counts, and `ArenaNew` the two inserts.  What a column
of an arena can become is read off from them, without another look at the
transactions.
-/

namespace QuakeJs

/-- An arena without its revision. -/
def Arena.body (b : Arena) : Arena := { b with revision := 0 }

namespace Ledger

/-- An arena that a worker has leased for a new run. -/
def leasedTo (env : Env) (worker : Uid) (b : Arena) : Arena :=
  { b with worker, runId := env.uid 0, leaseUntil := env.now + 45 }

def renewed (env : Env) (b : Arena) : Arena := { b with leaseUntil := env.now + 45 }

/-- An arena whose lease is cleared. -/
def released (b : Arena) : Arena := { b with leaseUntil := 0 }

def unlisted (b : Arena) : Arena := { b with active := false, lobbyHidden := true }

def closedBy (b : Arena) : Arena :=
  { b with active := false, adminClosed := true, lobbyHidden := true }

/-- What a transaction can make of an arena. -/
inductive ArenaMove (env : Env) (a : Action) (σ : Ledger) (b b' : Arena) : Prop
  | kept (same : b'.body = b.body)
  | idle (since : Option Int)
      (call : a = .expireGame b.id ∨ ∃ token, a = .allocateLife b.id token b.runId)
      (same : b'.body = (idleFrom since b).body)
  | relisted (payment : Payment) (call : a = .settleEntry payment)
      (allowed : b.adminClosed = false)
      (same : b'.body = (Ledger.relisted env b).body)
  | expired (call : a = .expireGame b.id) (empty : σ.playing b.id env.now = 0)
      (settled : σ.outstanding b.id env.now = 0) (same : b'.body = (unlisted b).body)
  | closed (call : a = .closeGame b.id b.ownerId) (same : b'.body = (closedBy b).body)
  | leased (worker : Uid) (call : a = .leaseArena worker b.id) (free : b.leaseUntil ≤ env.now)
      (same : b'.body = (leasedTo env worker b).body)
  | stopped (call : a = .stopRun b.id b.worker b.runId) (same : b'.body = (released b).body)
  | renewed (connected : List Uid) (call : a = .renewLease b.worker b.id b.runId connected)
      (held : env.now < b.leaseUntil) (same : b'.body = (Ledger.renewed env b).body)

/-- What a transaction can insert into `arenas`. -/
inductive ArenaNew (env : Env) (a : Action) (σ : Ledger) (b : Arena) : Prop
  | own (owner : Uid) (data : ArenaInput) (settings : Settings)
      (call : a = .createArena owner data)
      (get : σ.settings.get? owner = some settings) (low : 0 ≤ settings.haircut)
      (high : settings.haircut ≤ maxTotalHaircut)
      (eq : b = newArena (env.uid 0) owner settings.walletId data.name data.map data.joinAmount
        settings.haircut env.now)
  | game (publicId : String) (data : PublicArenaInput) (setting : Settings)
      (call : a = .createGame publicId data) (mem : setting ∈ σ.settings)
      (total : data.creatorHaircut + setting.haircut ≤ maxTotalHaircut)
      (eq : b = gameRow env setting data)

variable {env : Env} {a : Action} {σ : Ledger}

/-- The rows of an arena table are followed through a transaction. -/
abbrev Moves (env : Env) (a : Action) (σ : Ledger) (t : Table Arena) : Prop :=
  Table.Turned (ArenaMove env a σ) (ArenaNew env a σ) σ.arenas t

theorem moves_same : Moves env a σ σ.arenas := Table.Turned.refl fun _ _ => .kept rfl

/-- The revision of an arena, counted up by its lock. -/
def bumped (b : Arena) : Arena := { b with revision := b.revision + 1 }

theorem mem_bumpArena {arenaId : Uid} {b' : Arena} : b' ∈ (σ.bumpArena arenaId).arenas ↔
    ∃ b ∈ σ.arenas, b' = if b.id = arenaId then bumped b else b := by
  refine (Table.mem_update keepsKey_revision).trans ?_
  simp [Keyed.key, bumped]

theorem moves_bumpArena (arenaId : Uid) : Moves env a σ (σ.bumpArena arenaId).arenas :=
  Table.turned_updateKey (f := bumped) (fun _ _ => ArenaMove.kept rfl)
    (fun _ _ _ => ArenaMove.kept rfl) fun _ => rfl

/-- A write of an arena under its lock. -/
theorem moves_write {arenaId : Uid} {p : Arena → Bool} {f : Arena → Arena} (hf : KeepsKey f)
    (hp : ∀ b, p b = true → b.id = arenaId)
    (hmove : ∀ b ∈ σ.arenas, b.id = arenaId → p (bumped b) = true →
      ArenaMove env a σ b (f (bumped b))) :
    Moves env a σ ((σ.bumpArena arenaId).arenas.update p f hf) := by
  have hone : ∀ b ∈ σ.arenas, ∀ b₁, (b₁ = if b.id = arenaId then bumped b else b) →
      (if p b₁ then f b₁ else b₁).id = b.id ∧ ArenaMove env a σ b
        (if p b₁ then f b₁ else b₁) := by
    intro b hb b₁ hb₁
    by_cases hid : b.id = arenaId
    · rw [if_pos hid] at hb₁
      rw [hb₁]
      by_cases hwrites : p (bumped b) = true
      · rw [if_pos hwrites]
        exact ⟨hf (bumped b), hmove b hb hid hwrites⟩
      · rw [if_neg hwrites]
        exact ⟨rfl, .kept rfl⟩
    · rw [if_neg hid] at hb₁
      have hnot : ¬p b₁ = true := fun h => hid (hb₁ ▸ hp b₁ h)
      rw [if_neg hnot, hb₁]
      exact ⟨rfl, .kept rfl⟩
  refine ⟨fun b hb => ?_, fun b' hb' => ?_⟩
  · exact ⟨_, (Table.mem_update hf).mpr ⟨_, mem_bumpArena.mpr ⟨b, hb, rfl⟩, rfl⟩, hone b hb _ rfl⟩
  · obtain ⟨b₁, hb₁, rfl⟩ := (Table.mem_update hf).mp hb'
    obtain ⟨b, hb, hb₁⟩ := mem_bumpArena.mp hb₁
    exact .inl ⟨b, hb, hone b hb b₁ hb₁⟩

theorem moves_writeArena {arenaId : Uid} {row : Arena} (hrow : σ.arenas.get? arenaId = some row)
    {f : Arena → Arena} (hf : KeepsKey f) (hmove : ArenaMove env a σ row (f (bumped row))) :
    Moves env a σ (σ.writeArena arenaId f hf).arenas := by
  obtain ⟨hmem, hkey⟩ := Table.get?_eq_some.mp hrow
  refine moves_write hf (fun _ h => of_decide_eq_true h) fun b hb hid _ => ?_
  rw [Table.mem_inj hb hmem (hid.trans hkey.symm)]
  exact hmove

theorem moves_settleEntry {payment : Payment} {arena? : Option Uid} {σ' : Ledger}
    (h : settleEntry env payment σ = .ok (arena?, σ')) :
    Moves env (.settleEntry payment) σ σ'.arenas := by
  obtain rfl | ⟨-, -, -, entry, -, -, -, -, -, hcredit⟩ := settleEntry_ok h
  · exact moves_same
  · have hbump : Moves env (.settleEntry payment) σ (σ.bumpArena entry.arenaId).arenas :=
      moves_bumpArena entry.arenaId
    cases hcredit with
    | again _ eq =>
      rw [eq]
      exact hbump
    | first _ _ player _ staying leaving left =>
      cases hs : player.leaveState with
      | none =>
        rw [staying hs]
        refine moves_write (p := fun b => b.id = entry.arenaId && !b.adminClosed)
          (f := Ledger.relisted env) (fun _ => rfl) (fun b hb => ?_) fun b _ _ hopen => ?_
        · simp only [Bool.and_eq_true, decide_eq_true_eq] at hb
          exact hb.1
        · simp only [Bool.and_eq_true, Bool.not_eq_true'] at hopen
          exact .relisted payment rfl hopen.2 rfl
      | leaving =>
        rw [leaving hs]
        exact hbump
      | left =>
        obtain ⟨_, -, hrefund⟩ := left hs
        rw [refundEntry_only hrefund]
        exact hbump

end Ledger

open Ledger

/-- Every transaction keeps to what an arena can become. -/
theorem perform_moves {env : Env} {a : Action} {σ σ' : Ledger}
    (hrun : perform env a σ = .ok σ') : Moves env a σ σ'.arenas := by
  cases a with
  | saveSettings owner walletId enabled haircut allow =>
    obtain ⟨settings, rfl, -⟩ := saveSettings_ok hrun
    exact moves_same
  | createArena owner data =>
    obtain ⟨arena, hrun⟩ := map_snd_ok hrun
    obtain ⟨settings, arenas, hget, rfl, hlow, hhigh, hrow, hins⟩ := createArena_ok hrun
    exact Table.turned_insert? hins (fun b _ => .kept rfl)
      (.own owner data settings rfl hget hlow hhigh hrow)
  | createGame publicId data =>
    obtain ⟨arena, hrun⟩ := map_snd_ok hrun
    obtain ⟨setting, hs, -, -, ⟨-, -, -, rfl⟩ | ⟨-, htotal, -, -, hrow, arenas, hins, rfl⟩⟩ :=
      createGame_ok hrun
    · exact moves_same
    · exact Table.turned_insert? hins (fun b _ => .kept rfl)
        (.game publicId data setting rfl hs htotal hrow)
  | reserveEntry arenaId token data =>
    obtain ⟨⟨entry, new⟩, hrun⟩ := map_snd_ok hrun
    obtain ⟨_, -, -, ⟨-, -, rfl⟩ | ⟨-, _, _, _, _, -, -, -, -, -, rfl⟩⟩ := reserveEntry_ok hrun
    · exact moves_bumpArena arenaId
    · exact moves_bumpArena arenaId
  | recordInvoice entryId payment =>
    obtain rfl | ⟨_, -, -, -, -, rfl⟩ := recordInvoice_ok hrun
    · exact moves_same
    · exact moves_same
  | settleEntry payment =>
    obtain ⟨arena?, hrun⟩ := map_snd_ok hrun
    exact moves_settleEntry hrun
  | consumeDeath runId sequence victimId killerId =>
    obtain ⟨arenaId, hrun⟩ := map_snd_ok hrun
    obtain ⟨run, -, -, _, -, ⟨-, rfl⟩ | ⟨-, victim, -, -, -, σ₂, hσ₂, rfl⟩⟩ :=
      consumeDeath_ok hrun
    · exact moves_bumpArena run.arenaId
    · obtain ⟨-, rfl⟩ | ⟨-, entry, -, -, hpaid⟩ := hσ₂
      · exact moves_bumpArena run.arenaId
      · rw [hpaid.only]
        exact moves_bumpArena run.arenaId
  | allocateLife arenaId token runId =>
    obtain ⟨life, hrun⟩ := map_snd_ok hrun
    obtain ⟨row, hrow, -, hrunId, -, player, -, -, -, -, hadm⟩ := allocateLife_ok hrun
    have hid : row.id = arenaId := (Table.get?_eq_some.mp hrow).2
    have hwrite : Moves env (.allocateLife arenaId token runId) σ
        (σ.writeArena arenaId (idleFrom none) (fun _ => rfl)).arenas := by
      refine moves_writeArena (f := idleFrom none) hrow (fun _ => rfl)
        (.idle none (.inr ⟨token, ?_⟩) rfl)
      rw [hrunId, hid]
    cases hadm with
    | again _ _ _ _ eq =>
      rw [eq]
      exact moves_bumpArena arenaId
    | resume _ _ _ _ _ _ _ _ ledger =>
      rw [ledger]
      exact hwrite
    | new _ _ _ _ _ _ _ _ ledger =>
      rw [ledger]
      exact hwrite
  | requestLeave arenaId token =>
    obtain ⟨player, hrun⟩ := map_snd_ok hrun
    obtain ⟨_, -, -, -, ⟨-, -, rfl⟩ | ⟨-, -, -, rfl⟩⟩ := requestLeave_ok hrun
    · exact moves_bumpArena arenaId
    · exact moves_bumpArena arenaId
  | finishLeave playerId revokedRun =>
    obtain ⟨player, -, row, -, ⟨-, rfl⟩ | ⟨-, -, σ₂, hrefunds, rfl⟩⟩ := finishLeave_ok hrun
    · exact moves_bumpArena player.arenaId
    · rw [refundEntries_only hrefunds]
      exact moves_bumpArena player.arenaId
  | expireGame arenaId =>
    obtain ⟨expired, hrun⟩ := map_snd_ok hrun
    obtain ⟨row, hrow, hexp⟩ := expireGame_ok hrun
    have hid : row.id = arenaId := (Table.get?_eq_some.mp hrow).2
    cases hexp with
    | kept eq =>
      rw [eq]
      exact moves_bumpArena arenaId
    | idle since eq =>
      rw [eq]
      exact moves_writeArena (f := idleFrom since) hrow (fun _ => rfl)
        (.idle since (.inl (by rw [hid])) rfl)
    | expired _ _ _ _ _ empty settled eq =>
      rw [eq]
      exact moves_writeArena (f := unlisted) hrow (fun _ => rfl)
        (.expired (by rw [hid]) (by rw [hid, empty]) (by rw [hid, settled]) rfl)
  | closeGame arenaId owner =>
    obtain ⟨row, hrow, howner, rfl⟩ := closeGame_ok hrun
    have hid : row.id = arenaId := (Table.get?_eq_some.mp hrow).2
    exact moves_writeArena (f := closedBy) hrow (fun _ => rfl) (.closed (by rw [hid, howner]) rfl)
  | leaseArena worker arenaId =>
    obtain ⟨⟨arena, oldRuns⟩, hrun⟩ := map_snd_ok hrun
    obtain ⟨row, hrow, -, -, hlease, -, -, rfl⟩ := leaseArena_ok hrun
    have hid : row.id = arenaId := (Table.get?_eq_some.mp hrow).2
    exact moves_writeArena (f := leasedTo env worker) hrow (fun _ => rfl)
      (.leased worker (by rw [hid]) hlease rfl)
  | insertRun runId arenaId worker =>
    obtain ⟨runs, -, rfl⟩ := insertRun_ok hrun
    exact moves_same
  | recoverRun runId =>
    cases hrun
    exact moves_same
  | recoverLeavingRun arenaId runId =>
    rw [recoverLeavingRun_ok hrun]
    exact moves_bumpArena arenaId
  | stopRun arenaId worker runId =>
    rw [stopRun_ok hrun]
    refine moves_write (p := fun b => b.id = arenaId && b.worker = worker && b.runId = runId)
      (f := released) (fun _ => rfl) (fun b hb => ?_) fun b _ hid hmine => ?_
    · simp only [Bool.and_eq_true, decide_eq_true_eq] at hb
      exact hb.1.1
    · simp only [Bool.and_eq_true, decide_eq_true_eq] at hmine
      refine .stopped ?_ rfl
      rw [hid, ← hmine.1.2, ← hmine.2]
      rfl
  | renewLease worker arenaId runId connected =>
    obtain ⟨row, hrow, -, hworker, hrunId, hheld, rfl⟩ := renewLease_ok hrun
    have hid : row.id = arenaId := (Table.get?_eq_some.mp hrow).2
    exact moves_writeArena (f := Ledger.renewed env) hrow (fun _ => rfl)
      (.renewed connected (by rw [hid, hworker, hrunId]) hheld rfl)
  | claimPayout =>
    cases hrun
    rw [(claimPayout_keeps env σ).arenas]
    exact moves_same
  | updatePayout k row status values =>
    obtain ⟨row', hrun⟩ := map_snd_ok hrun
    rw [(updatePayout_keeps hrun).arenas]
    exact moves_same
  | releasePayout k row =>
    cases hrun
    rw [(releasePayout_keeps env k row σ).arenas]
    exact moves_same

end QuakeJs
