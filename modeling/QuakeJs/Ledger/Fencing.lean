import QuakeJs.Ledger.Arenas
import QuakeJs.Ledger.Conservation

/-!
# Lease fencing

A worker may be late: its match still renews, stops or admits lives when the
lease has run out and another worker has leased the arena for a new run.  The
run that the arena names is the fence.  `ArenaMove` says that only
`leaseArena` moves it, and `Unnamed` that a run which is no longer named is
never named again.
-/

namespace QuakeJs

namespace Ledger

variable {env : Env} {a : Action} {σ σ' : Ledger} {runId : Uid}

/-- What a transaction makes of the run of an arena. -/
theorem ArenaMove.run {b b' : Arena} (h : ArenaMove env a σ b b') : b'.runId = b.runId ∨
    b'.runId = env.uid 0 ∧ b.leaseUntil ≤ env.now ∧ ∃ worker, a = .leaseArena worker b.id := by
  have hbody : ∀ c : Arena, b'.body = c.body → b'.runId = c.runId := by
    intro c hsame
    show b'.body.runId = c.body.runId
    rw [hsame]
  cases h with
  | kept same => exact .inl (hbody b same)
  | idle since _ same => exact .inl (hbody (idleFrom since b) same)
  | relisted payment _ _ same => exact .inl (hbody (Ledger.relisted env b) same)
  | expired _ _ _ same => exact .inl (hbody (unlisted b) same)
  | closed _ same => exact .inl (hbody (closedBy b) same)
  | leased worker call free same =>
    exact .inr ⟨hbody (leasedTo env worker b) same, free, worker, call⟩
  | stopped _ same => exact .inl (hbody (released b) same)
  | renewed connected _ _ same => exact .inl (hbody (Ledger.renewed env b) same)

theorem ArenaNew.run {b : Arena} (h : ArenaNew env a σ b) : b.runId = "" := by
  cases h with
  | own owner data settings _ _ _ _ eq =>
    rw [eq]
    rfl
  | game publicId data setting _ _ _ eq =>
    rw [eq]
    rfl

/-- No two arenas name the same run. -/
def OneArena (σ : Ledger) : Prop :=
  ∀ b ∈ σ.arenas, ∀ c ∈ σ.arenas, b.runId ≠ "" → b.runId = c.runId → b = c

/-- No arena names the run. -/
def Unnamed (runId : Uid) (σ : Ledger) : Prop := ∀ b ∈ σ.arenas, b.runId ≠ runId

/-- `uid` does not return an id that it has returned before. -/
def Spares (runId : Uid) (env : Env) (σ : Ledger) : Prop :=
  env.Fresh σ ∧ ∀ n, env.uid n ≠ runId

theorem OneArena.step (h : OneArena σ) (hfresh : env.Fresh σ) (hrun : perform env a σ = .ok σ') :
    OneArena σ' := by
  have hmoves := perform_moves hrun
  intro b' hb' c' hc' hne hsame
  have hold : ∀ d' ∈ σ'.arenas, d'.runId ≠ "" →
      ∃ d ∈ σ.arenas, d'.id = d.id ∧ ArenaMove env a σ d d' := by
    intro d' hd' hnamed
    cases hmoves.new d' hd' with
    | inl hold => exact hold
    | inr hnew => exact absurd hnew.run hnamed
  obtain ⟨b, hb, hbid, hbmove⟩ := hold b' hb' hne
  obtain ⟨c, hc, hcid, hcmove⟩ := hold c' hc' (hsame ▸ hne)
  apply Table.mem_inj hb' hc'
  show b'.id = c'.id
  rw [hbid, hcid]
  cases hbmove.run with
  | inl hbrun =>
    cases hcmove.run with
    | inl hcrun =>
      rw [hbrun, hcrun] at hsame
      rw [hbrun] at hne
      rw [h b hb c hc hne hsame]
    | inr hleased =>
      rw [hbrun, hleased.1] at hsame
      exact absurd hsame (hfresh.leases 0 b hb)
  | inr hbleased =>
    cases hcmove.run with
    | inl hcrun =>
      rw [hbleased.1, hcrun] at hsame
      exact absurd hsame.symm (hfresh.leases 0 c hc)
    | inr hcleased =>
      obtain ⟨-, -, worker, hbcall⟩ := hbleased
      obtain ⟨-, -, worker', hccall⟩ := hcleased
      rw [hbcall, Action.leaseArena.injEq] at hccall
      exact hccall.2

theorem OneArena.of_reachable (h : Reachable Env.Fresh σ) : OneArena σ :=
  h.invariant (fun _ hb => absurd hb (Table.not_mem_empty _))
    fun _ _ _ _ hone hfresh hrun => hone.step hfresh hrun

theorem Unnamed.step (h : Unnamed runId σ) (hne : runId ≠ "") (hspares : ∀ n, env.uid n ≠ runId)
    (hrun : perform env a σ = .ok σ') : Unnamed runId σ' := by
  intro b' hb'
  cases (perform_moves hrun).new b' hb' with
  | inl hold =>
    obtain ⟨b, hb, -, hmove⟩ := hold
    cases hmove.run with
    | inl hkept =>
      rw [hkept]
      exact h b hb
    | inr hleased =>
      rw [hleased.1]
      exact hspares 0
  | inr hnew =>
    rw [hnew.run]
    exact hne.symm

theorem Unnamed.reaches (h : Unnamed runId σ) (hne : runId ≠ "") {τ : Ledger}
    (hreach : Reaches (Spares runId) σ τ) : Unnamed runId τ := by
  induction hreach with
  | refl => exact h
  | step env a _ hmeets hrun ih => exact ih.step hne hmeets.2 hrun

/-- What a stop of a run leaves alone when no arena names the run. -/
structure Spared (runId : Uid) (σ σ' : Ledger) : Prop where
  leases : ∀ b ∈ σ.arenas, ∃ b' ∈ σ'.arenas, b'.id = b.id ∧ b'.runId = b.runId ∧
    b'.worker = b.worker ∧ b'.leaseUntil = b.leaseUntil
  lives : ∀ l ∈ σ.lives, l.runId ≠ runId → l ∈ σ'.lives

theorem Unnamed.stopRun (h : Unnamed runId σ) {arenaId worker : Uid}
    (hrun : perform env (.stopRun arenaId worker runId) σ = .ok σ') : Spared runId σ σ' where
  leases := by
    intro b hb
    obtain ⟨b', hb', hkey, hmove⟩ := (perform_moves hrun).old b hb
    cases hmove with
    | kept same =>
      have hrow : b'.body.runId = b.runId ∧ b'.body.worker = b.worker ∧
          b'.body.leaseUntil = b.leaseUntil := by
        rw [same]
        exact ⟨rfl, rfl, rfl⟩
      exact ⟨b', hb', hkey, hrow⟩
    | stopped call _ =>
      rw [Action.stopRun.injEq] at call
      exact absurd call.2.2.symm (h b hb)
    | idle _ call _ =>
      cases call with
      | inl hexpire => cases hexpire
      | inr hadmit =>
        obtain ⟨token, hcall⟩ := hadmit
        cases hcall
    | relisted _ call _ _ => cases call
    | expired call _ _ _ => cases call
    | closed call _ => cases call
    | leased _ call _ _ => cases call
    | renewed _ call _ _ => cases call
  lives := by
    intro l hl hother
    rw [stopRun_ok hrun]
    exact Table.mem_update_of_not hl (by rw [decide_eq_false hother, Bool.false_and])

theorem Unnamed.renewLease (h : Unnamed runId σ) {arenaId worker : Uid} {connected : List Uid} :
    perform env (.renewLease worker arenaId runId connected) σ ≠ .ok σ' := by
  intro hrun
  obtain ⟨row, hrow, -, -, hnamed, -⟩ := renewLease_ok hrun
  exact h row (Table.mem_of_get? hrow) hnamed

theorem Unnamed.allocateLife (h : Unnamed runId σ) {arenaId token : Uid} :
    perform env (.allocateLife arenaId token runId) σ ≠ .ok σ' := by
  intro hrun
  obtain ⟨life, hadmits⟩ := map_snd_ok hrun
  obtain ⟨row, hrow, -, hnamed, -⟩ := allocateLife_ok hadmits
  exact h row (Table.mem_of_get? hrow) hnamed

/-- A run that has been replaced is not named any more. -/
theorem OneArena.replaced (h : OneArena σ) (hfresh : env.Fresh σ)
    (hrun : perform env a σ = .ok σ') {b b' : Arena} (hb : b ∈ σ.arenas) (hb' : b' ∈ σ'.arenas)
    (hid : b'.id = b.id) (hreplaced : b'.runId ≠ b.runId) (hne : b.runId ≠ "") :
    Unnamed b.runId σ' := by
  intro c' hc' hnamed
  have hmoves := perform_moves hrun
  cases hmoves.new c' hc' with
  | inr hnew => exact hne (hnamed.symm.trans hnew.run)
  | inl hold =>
    obtain ⟨c, hc, hcid, hmove⟩ := hold
    cases hmove.run with
    | inr hleased => exact hfresh.leases 0 b hb (hnamed.symm.trans hleased.1)
    | inl hkept =>
      have hsame : b = c := h b hb c hc hne (hnamed.symm.trans hkept)
      have hrow : c' = b' := Table.mem_inj hc' hb'
        (hcid.trans ((congrArg Arena.id hsame).symm.trans hid.symm))
      exact hreplaced (hrow ▸ hnamed)

end Ledger

open Ledger

/-- The run of an arena is a fence.  Only an expired or cleared lease lets
another run in, and from then on the run that was replaced cannot renew the
lease, admit a life or stop anything but itself.  A life is admitted to the
run that the arena names, while its lease is in the future. -/
theorem lease_fencing {σ : Ledger} (h : Reachable Env.Fresh σ) :
    (∀ b ∈ σ.arenas, ∀ c ∈ σ.arenas, b.id = c.id → b.runId = c.runId) ∧
    (∀ env a σ', env.Fresh σ → perform env a σ = .ok σ' → ∀ b ∈ σ.arenas, ∀ b' ∈ σ'.arenas,
      b'.id = b.id → b'.runId ≠ b.runId →
        b.leaseUntil ≤ env.now ∧ (∃ worker, a = .leaseArena worker b.id) ∧
        (b.runId ≠ "" → ∀ τ, Reaches (Spares b.runId) σ' τ → ∀ env τ',
          (∀ worker arenaId connected,
            perform env (.renewLease worker arenaId b.runId connected) τ ≠ .ok τ') ∧
          (∀ arenaId worker, perform env (.stopRun arenaId worker b.runId) τ = .ok τ' →
            Spared b.runId τ τ') ∧
          ∀ arenaId token, perform env (.allocateLife arenaId token b.runId) τ ≠ .ok τ')) ∧
    ∀ env arenaId token runId σ', perform env (.allocateLife arenaId token runId) σ = .ok σ' →
      ∃ b, σ.arenas.get? arenaId = some b ∧ b.runId = runId ∧ env.now < b.leaseUntil := by
  have hone := OneArena.of_reachable h
  refine ⟨?_, ?_, ?_⟩
  · intro b hb c hc hid
    rw [Table.mem_inj hb hc hid]
  · intro env a σ' hfresh hrun b hb b' hb' hid hreplaced
    have hmove := ((perform_moves hrun).at hb hb' hid).run
    cases hmove with
    | inl hkept => exact absurd hkept hreplaced
    | inr hleased =>
      refine ⟨hleased.2.1, hleased.2.2, fun hne τ hreach env τ' => ?_⟩
      have hunnamed : Unnamed b.runId τ :=
        (hone.replaced hfresh hrun hb hb' hid hreplaced hne).reaches hne hreach
      refine ⟨fun _ _ _ => hunnamed.renewLease, fun _ _ hstop => hunnamed.stopRun hstop, ?_⟩
      exact fun _ _ => hunnamed.allocateLife
  · intro env arenaId token runId σ' hrun
    obtain ⟨life, hadmits⟩ := map_snd_ok hrun
    obtain ⟨row, hrow, -, hnamed, hheld, -⟩ := allocateLife_ok hadmits
    exact ⟨row, hrow, hnamed, hheld⟩

namespace Duel

/-- A worker leases the arena, and another one much later. -/
def leasing : List (Env × Action) :=
  [(tick 0, .saveSettings "owner" "wallet" true 10 true),
    (tick 1, .createArena "owner" ⟨"game", 100, "oa_dm7", price_ge, price_le⟩),
    (tick 2, .leaseArena "worker" arenaId)]

def takeover : Env × Action := (tick 60, .leaseArena "other" arenaId)

theorem takeover_evaluates :
    Follows (fun env σ => Short σ ((env.uid 0).length - 1)) Ledger.empty (leasing ++ [takeover])
      ∧ (perform takeover.1 takeover.2 (ledgerAfter leasing)).toOption.isSome = true
      ∧ (∃ b ∈ (ledgerAfter leasing).arenas, b.id = arenaId ∧ b.runId = (tick 2).uid 0)
      ∧ ∃ b ∈ (commit (ledgerAfter leasing) takeover).arenas, b.id = arenaId
        ∧ b.runId ≠ (tick 2).uid 0 := by
  decide +kernel

theorem follows_takeover : Follows Env.Fresh Ledger.empty (leasing ++ [takeover]) := by
  refine follows_fresh ?_ takeover_evaluates.1
  simp only [leasing, takeover, List.cons_append, List.nil_append, List.forall_mem_cons]
  refine ⟨⟨_, rfl⟩, ⟨_, rfl⟩, ⟨_, rfl⟩, ⟨_, rfl⟩, ?_⟩
  exact fun _ h => absurd h List.not_mem_nil

/-- The first worker cannot admit a life any more. -/
theorem lease_fencing_takeover :
    ¬∃ τ, perform (tick 61) (.allocateLife arenaId (token 'a') ((tick 2).uid 0))
      (commit (ledgerAfter leasing) takeover) = .ok τ := by
  intro hadmits
  obtain ⟨τ, hrun⟩ := hadmits
  obtain ⟨hbefore, hfresh, -⟩ := follows_append.mp follows_takeover
  obtain ⟨-, hcommits, ⟨b, hb, hid, hrunId⟩, b', hb', hid', hother⟩ := takeover_evaluates
  have hlaw := (lease_fencing (.ledgerAfter hbefore)).2.1 takeover.1 takeover.2 _ hfresh
    (perform_commit hcommits) b hb b' hb' (hid'.trans hid.symm) (hrunId ▸ hother)
  have hnamed : b.runId ≠ "" := by
    rw [hrunId]
    intro hempty
    have hlength := length_tick 2 0
    rw [hempty] at hlength
    cases hlength
  rw [← hrunId] at hrun
  exact (hlaw.2.2 hnamed _ .refl (tick 61) τ).2.2 arenaId (token 'a') hrun

end Duel

end QuakeJs
