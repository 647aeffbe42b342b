import QuakeJs.Async.Schedule
import QuakeJs.Server.System

/-!
# Schedules of the system

A scheduler for the tasks of a worker and what happens besides them, with ids
that can be told to be new: those of `draw k` are longer than the ids of the
draws before it, except for the first one, which is an id of 48 digits.
-/

namespace QuakeJs.Server

open Async Engine Ledger

/-! ## Draws -/

/-- The draw `k`, at the time `now`. -/
def draw (now : Int) (k : Nat) : Env where
  now
  timeNs := now * 1000000000 + k
  uid := fun n => match n with
    | 0 => String.ofList (List.replicate k 'f' ++ List.replicate (arenaId - k) '0')
    | n + 1 => String.ofList (List.replicate (arenaId + 1 + 4 * k + n) 'f')
  sha256 := id

/-- The ids that a ledger knows. -/
def ids (σ : Ledger) : List Uid :=
  (σ.arenas.rows.flatMap fun a => [a.id, a.runId]) ++ σ.participants.rows.map Participant.id ++
    σ.entries.rows.map Entry.id ++ σ.lives.rows.map Life.id ++ σ.runs.rows.map Run.id ++
    σ.payouts.rows.map Payout.id ++ σ.creatorPayouts.rows.map Payout.id ++
    σ.refundPayouts.rows.map Payout.id

theorem mem_ids_arenas {σ : Ledger} {a : Arena} {id : Uid} (ha : a ∈ σ.arenas)
    (hid : id ∈ [a.id, a.runId]) : id ∈ ids σ := by
  have hmem : id ∈ σ.arenas.rows.flatMap fun a => [a.id, a.runId] :=
    List.mem_flatMap.mpr ⟨a, ha, hid⟩
  simp only [ids, List.mem_append, hmem, true_or]

/-- An id of one of the other tables. -/
theorem mem_ids_columns {σ : Ledger} {column : List Uid} {id : Uid}
    (hcolumn : column ∈ [σ.participants.rows.map Participant.id, σ.entries.rows.map Entry.id,
      σ.lives.rows.map Life.id, σ.runs.rows.map Run.id, σ.payouts.rows.map Payout.id,
      σ.creatorPayouts.rows.map Payout.id, σ.refundPayouts.rows.map Payout.id])
    (hid : id ∈ column) : id ∈ ids σ := by
  simp only [ids, List.mem_append]
  simp only [List.mem_cons, List.not_mem_nil, or_false] at hcolumn
  rcases hcolumn with rfl | rfl | rfl | rfl | rfl | rfl | rfl <;>
    simp only [hid, true_or, or_true]

/-- Nothing has an id of the draw `k` yet. -/
structure Undrawn (k : Nat) (w : World) : Prop where
  bound : k ≤ arenaId
  first : ∀ id ∈ ids w.ledger, id ≠ (draw 0 k).uid 0
  short : ∀ id ∈ ids w.ledger, id.length ≤ arenaId + 4 * k
  engines : (w.engines ((draw 0 k).uid 0)).isNone = true
  touched : w.touched ((draw 0 k).uid 0) = false

theorem undrawn_iff {k : Nat} {w : World} : Undrawn k w ↔ k ≤ arenaId ∧
    (∀ id ∈ ids w.ledger, id ≠ (draw 0 k).uid 0 ∧ id.length ≤ arenaId + 4 * k) ∧
    (w.engines ((draw 0 k).uid 0)).isNone = true ∧ w.touched ((draw 0 k).uid 0) = false :=
  ⟨fun ⟨h₁, h₂, h₃, h₄, h₅⟩ => ⟨h₁, fun id hid => ⟨h₂ id hid, h₃ id hid⟩, h₄, h₅⟩,
    fun ⟨h₁, h₂, h₃, h₄⟩ => ⟨h₁, fun id hid => (h₂ id hid).1,
      fun id hid => (h₂ id hid).2, h₃, h₄⟩⟩

instance (k : Nat) (w : World) : Decidable (Undrawn k w) := decidable_of_iff _ undrawn_iff.symm

theorem length_draw_zero {now : Int} {k : Nat} (h : k ≤ arenaId) :
    ((draw now k).uid 0).length = arenaId := by
  show (String.ofList (List.replicate k 'f' ++ List.replicate (arenaId - k) '0')).length = _
  rw [String.length_ofList, List.length_append, List.length_replicate, List.length_replicate]
  omega

theorem length_draw_succ {now : Int} {k : Nat} (n : Nat) :
    ((draw now k).uid (n + 1)).length = arenaId + 1 + 4 * k + n := by
  show (String.ofList (List.replicate (arenaId + 1 + 4 * k + n) 'f')).length = _
  rw [String.length_ofList, List.length_replicate]

theorem validId_draw {now : Int} {k : Nat} (h : k ≤ arenaId) :
    validId ((draw now k).uid 0) = true := by
  have hlength : ((draw now k).uid 0).length = arenaId := length_draw_zero h
  have hchars : ((draw now k).uid 0).toList =
      List.replicate k 'f' ++ List.replicate (arenaId - k) '0' := String.toList_ofList
  simp only [validId, hlength, hchars, Bool.and_eq_true, decide_eq_true_eq, true_and,
    List.all_append, List.all_replicate]
  constructor <;> split_ifs <;> decide

/-- No id of a ledger is one of a draw that nothing has an id of. -/
theorem Undrawn.ne {now : Int} {k : Nat} {w : World} (h : Undrawn k w) {id : Uid}
    (hid : id ∈ ids w.ledger) (n : Nat) : id ≠ (draw now k).uid n := by
  intro heq
  cases n with
  | zero => exact h.first id hid heq
  | succ n =>
    have hshort := h.short id hid
    have hlength : ((draw now k).uid (n + 1)).length = arenaId + 1 + 4 * k + n :=
      length_draw_succ n
    rw [← heq] at hlength
    omega

theorem draw_injective {now : Int} {k : Nat} (h : k ≤ arenaId) :
    Function.Injective (draw now k).uid := by
  intro m n heq
  have hlength : ((draw now k).uid m).length = ((draw now k).uid n).length := by rw [heq]
  cases m with
  | zero =>
    cases n with
    | zero => rfl
    | succ n =>
      rw [length_draw_zero h, length_draw_succ] at hlength
      omega
  | succ m =>
    cases n with
    | zero =>
      rw [length_draw_zero h, length_draw_succ] at hlength
      omega
    | succ n =>
      rw [length_draw_succ, length_draw_succ] at hlength
      omega

theorem Undrawn.fresh {now : Int} {k : Nat} {w : World} (h : Undrawn k w) :
    (draw now k).Fresh w.ledger := by
  refine ⟨draw_injective h.bound, fun n heq => ?_, fun n => Table.get?_eq_none.mpr ?_,
    fun n => Table.get?_eq_none.mpr ?_, fun n => Table.get?_eq_none.mpr ?_,
    fun n => Table.get?_eq_none.mpr ?_, fun n => Table.get?_eq_none.mpr ?_, ?_, ?_⟩
  · have hlength : ((draw now k).uid n).length = 0 := by rw [heq]; rfl
    cases n with
    | zero =>
      rw [length_draw_zero h.bound] at hlength
      cases hlength
    | succ n =>
      rw [length_draw_succ] at hlength
      omega
  · exact fun a ha => h.ne (mem_ids_arenas ha List.mem_cons_self) n
  · exact fun p hp =>
      h.ne (mem_ids_columns (by simp) (List.mem_map_of_mem (f := Participant.id) hp)) n
  · exact fun e he => h.ne (mem_ids_columns (by simp) (List.mem_map_of_mem (f := Entry.id) he)) n
  · exact fun l hl => h.ne (mem_ids_columns (by simp) (List.mem_map_of_mem (f := Life.id) hl)) n
  · exact fun r hr => h.ne (mem_ids_columns (by simp) (List.mem_map_of_mem (f := Run.id) hr)) n
  · exact fun n a ha => h.ne (mem_ids_arenas ha (by simp)) n
  · intro n outbox
    refine Table.get?_eq_none.mpr fun r hr => h.ne ?_ n
    cases outbox with
    | payouts =>
      exact mem_ids_columns (by simp [Ledger.outbox]) (List.mem_map_of_mem (f := Payout.id) hr)
    | creatorPayouts =>
      exact mem_ids_columns (by simp [Ledger.outbox]) (List.mem_map_of_mem (f := Payout.id) hr)
    | refundPayouts =>
      exact mem_ids_columns (by simp [Ledger.outbox]) (List.mem_map_of_mem (f := Payout.id) hr)

theorem Undrawn.draws {now : Int} {k : Nat} {w : World} (h : Undrawn k w) :
    Draws id (draw now k) w where
  fresh := h.fresh
  valid := validId_draw h.bound
  engines := Option.isNone_iff_eq_none.mp h.engines
  touched := h.touched
  sha256 := rfl

/-! ## The scheduler -/

/-- The draw of an operation, and which of its outcomes comes of it. -/
structure Choice where
  now : Int
  draw : Nat
  outcome : Nat

/-- What happens besides the tasks.  A transaction of the rest of the extension
has a draw. -/
inductive Besides
  | happens (h : Happening)
  | game (now : Int) (draw : Nat) (a : Action)

/-- The operation, when its draw is new. -/
def Choice.does (choice : Choice) (o : Op × Bool) (w : World) :
    Option (Outcome o.1 × World) :=
  if Undrawn choice.draw w then
    (o.1.outcomes (Server.draw choice.now choice.draw) o.2 w)[choice.outcome]?
  else none

def Besides.happen (maxClients : Nat) (besides : Besides) (w : World) : Option World :=
  match besides with
  | happens (.game ..) => none
  | happens h => w.happen maxClients h
  | game now draw a =>
    if Undrawn draw w then w.happen maxClients (.game (Server.draw now draw) a) else none

/-- The scheduler of a system whose tasks read up to `fuel` batches of a
journal. -/
def scheduler (fuel maxClients : Nat) :
    Scheduler (Op × Bool) (fun o => o.1.Ans) Fault World Starter Choice Besides where
  task := Starter.task fuel
  does := Choice.does
  happens := Besides.happen maxClients

theorem Choice.proceeds {choice : Choice} {o : Op × Bool} {w : World}
    {r : Outcome o.1 × World} (h : choice.does o w = some r) : Proceeds id o w r.1 r.2 := by
  unfold Choice.does at h
  split_ifs at h with hdrawn
  exact ⟨_, hdrawn.draws, List.mem_of_getElem? h⟩

theorem Besides.outside {maxClients : Nat} {besides : Besides} {w w' : World}
    (h : besides.happen maxClients w = some w') : Outside id maxClients w w' := by
  cases besides with
  | happens happening =>
    have hquiet : ∀ env a, happening ≠ .game env a := by
      rintro env a rfl
      cases h
    have hstep : w.happen maxClients happening = some w' := by
      cases happening with
      | game env a => cases h
      | _ => exact h
    exact .happens happening w' (fun env a heq => absurd heq (hquiet env a)) hstep
  | game now draw a =>
    simp only [Besides.happen] at h
    split_ifs at h with hdrawn
    exact .happens _ w' (fun _ _ heq => by cases heq; exact hdrawn.draws) h

theorem scheduler_keeps (fuel maxClients : Nat) :
    (scheduler fuel maxClients).Keeps (Proceeds id) Starts (Outside id maxClients) where
  task := fun starter => ⟨fuel, starter, rfl⟩
  does := fun _ _ _ _ h => Choice.proceeds h
  happens := fun _ _ _ h => Besides.outside h

end QuakeJs.Server
