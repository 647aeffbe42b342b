import QuakeJs.Entries.Creation
import QuakeJs.Ledger.Sessions

/-!
# One invoice for each reservation

Any number of requests for entries run at once, and the rest of the extension
goes on beside them.  `create_entry` calls the wallet outside the lock, so
what keeps it from calling twice is the row that `reserve_entry` has made:
only the call that made it is told that it is new.

The view of a task is the entry that it has made and not yet called the
wallet for.  Two tasks never share one.
-/

namespace QuakeJs.Entries

open Async

/-- The answers to the calls, the newest first. -/
abbrev Log := List (Answer Op Op.Ans Fault)

section

variable (sha256 : String → String)

/-! ## The invariant -/

/-- A call with this nonce got the entry from `reserve_entry`. -/
def Reserved (log : Log) (arenaId token nonce : String) (entry : Entry) : Prop :=
  ∃ data new, data.nonce = nonce ∧
    (⟨.reserveEntry arenaId token data, .ok (entry, new)⟩ : Answer Op Op.Ans Fault) ∈ log

/-- The entry is in the ledger, and its player is the session of the token. -/
def Seen (σ : Ledger) (arenaId token : String) (entry : Entry) : Prop :=
  ∃ e ∈ σ.entries, e.id = entry.id ∧ e.nonce = entry.nonce ∧
    ∃ p ∈ σ.participants, p.id = e.playerId ∧ p.arenaId = arenaId ∧ p.tokenHash = sha256 token

/-- What holds of the world and the answers at any time. -/
structure Orderly (x : World × Log) : Prop where
  reachable : QuakeJs.Reachable Env.Fresh x.1.ledger
  booked : Booked x.1.clock x.1.ledger
  called : x.1.called.Nodup
  rows : ∀ id ∈ x.1.called, ∃ e ∈ x.1.ledger.entries, e.id = id
  seen : ∀ arenaId token nonce entry, Reserved x.2 arenaId token nonce entry →
    Seen sha256 x.1.ledger arenaId token entry

variable {sha256}

theorem Seen.step {σ σ' : Ledger} {arenaId token : String} {entry : Entry}
    {env : Env} {a : Action}
    (h : Seen sha256 σ arenaId token entry) (hrun : perform env a σ = .ok σ') :
    Seen sha256 σ' arenaId token entry := by
  obtain ⟨e, he, hid, hnonce, p, hp, howner, harena, htoken⟩ := h
  obtain ⟨e', he', hid', hturn⟩ := (perform_entries hrun).old e he
  obtain ⟨p', hp', -, hturn'⟩ := (perform_players hrun).old p hp
  obtain ⟨hpid, hparena, hptoken⟩ := hturn'.session
  exact ⟨e', he', hid'.trans hid, hturn.lasting.2.1.trans hnonce, p', hp',
    by rw [hpid, howner, hturn.lasting.1], hparena.trans harena, hptoken.trans htoken⟩

/-- Every row that is there stays there. -/
def KeepsRows (w w' : World) : Prop :=
  ∀ id, (∃ e ∈ w.ledger.entries, e.id = id) → ∃ e' ∈ w'.ledger.entries, e'.id = id

theorem Outside.keepsRows {w w' : World} (h : Outside sha256 (· ≤ ·) w w') :
    KeepsRows w w' ∧ w'.called = w.called := by
  obtain ⟨env, a, σ, -, hrun, rfl⟩ | ⟨time, -, rfl⟩ := h
  · refine ⟨?_, rfl⟩
    rintro id ⟨e, he, rfl⟩
    obtain ⟨e', he', hid, -⟩ := (perform_entries hrun).old e he
    exact ⟨e', he', hid⟩
  · exact ⟨fun _ h => h, rfl⟩

namespace Orderly

variable {w w' : World} {log : Log}

theorem empty (start : Int) : Orderly sha256 (⟨Ledger.empty, start, []⟩, []) where
  reachable := .empty
  booked := .empty start
  called := List.nodup_nil
  rows := fun _ h => absurd h List.not_mem_nil
  seen := fun _ _ _ _ ⟨_, _, _, h⟩ => absurd h List.not_mem_nil

/-- A transaction, or the passing of time. -/
theorem outside (h : Orderly sha256 (w, log)) (hout : Outside sha256 (· ≤ ·) w w') :
    Orderly sha256 (w', log) := by
  obtain ⟨hrows, hcalled⟩ := hout.keepsRows
  obtain ⟨env, a, σ, hruns, hrun, rfl⟩ | ⟨time, hle, rfl⟩ := hout
  · refine ⟨.step env a h.reachable hruns.fresh hrun, ?_, h.called, ?_, ?_⟩
    · exact h.booked.step (Sound.of_reachable h.reachable).accounts hruns.fresh hruns.later hrun
    · exact fun id hid => hrows id (h.rows id hid)
    · exact fun _ _ _ _ hres => (h.seen _ _ _ _ hres).step hrun
  · exact ⟨h.reachable, h.booked.mono hle, h.called, h.rows, h.seen⟩

/-- The wallet is called for a row for the first time. -/
theorem call (h : Orderly sha256 (w, log)) {id : Uid} (hrow : ∃ e ∈ w.ledger.entries, e.id = id)
    (hnew : id ∉ w.called) :
    Orderly sha256 ({ w with
      called := id :: w.called }, log) where
  reachable := h.reachable
  booked := h.booked
  called := List.nodup_cons.mpr ⟨hnew, h.called⟩
  rows := by
    intro id' hid'
    rcases List.mem_cons.mp hid' with rfl | hid'
    · exact hrow
    · exact h.rows id' hid'
  seen := h.seen

/-- An answer is put on the log. -/
theorem logged {answer : Answer Op Op.Ans Fault} (h : Orderly sha256 (w, log))
    (hseen : ∀ arenaId token nonce entry, Reserved [answer] arenaId token nonce entry →
      Seen sha256 w.ledger arenaId token entry) : Orderly sha256 (w, answer :: log) where
  reachable := h.reachable
  booked := h.booked
  called := h.called
  rows := h.rows
  seen := by
    rintro arenaId token nonce entry ⟨data, new, hnonce, hmem⟩
    rcases List.mem_cons.mp hmem with heq | hmem
    · exact hseen arenaId token nonce entry ⟨data, new, hnonce, List.mem_singleton.mpr heq⟩
    · exact h.seen arenaId token nonce entry ⟨data, new, hnonce, hmem⟩

end Orderly

/-! ## What an operation does -/

/-- An operation leaves the world alone, is a transaction or takes time, or
calls the wallet. -/
theorem performs_cases {moves : Int → Int → Prop} {op : Op} {w w' : World}
    {outcome : Except (Raised Fault) op.Ans} (h : Performs sha256 moves op w outcome w') :
    w' = w ∨ Outside sha256 moves w w' ∨
      ∃ arguments, op = .createInvoice arguments ∧ w' = { w with
        called := arguments.externalId :: w.called } := by
  obtain ⟨result, heffect, -⟩ | ⟨rfl, -⟩ := h
  · cases op with
    | reserveEntry arenaId token data =>
      obtain ⟨env, hruns, ⟨r, σ, hrun, -, rfl⟩ | ⟨_, -, -, rfl⟩⟩ := heffect
      · refine .inr (.inl (.inl ⟨env, .reserveEntry arenaId token data, σ, hruns, ?_, rfl⟩))
        show (Ledger.reserveEntry _ _ _ _ _).map Prod.snd = _
        rw [hrun]
        rfl
      · exact .inl rfl
    | createInvoice arguments => exact .inr (.inr ⟨arguments, rfl, heffect.2⟩)
    | createInvoiceResult => exact .inl heffect
    | recordInvoice entryId payment =>
      obtain ⟨env, hruns, ⟨σ, hrun, -, rfl⟩ | ⟨_, -, -, rfl⟩⟩ := heffect
      · exact .inr (.inl (.inl ⟨env, .recordInvoice entryId payment, σ, hruns, hrun, rfl⟩))
      · exact .inl rfl
    | settleEntry payment =>
      obtain ⟨env, hruns, ⟨arena?, σ, hrun, -, rfl⟩ | ⟨_, -, -, rfl⟩⟩ := heffect
      · refine .inr (.inl (.inl ⟨env, .settleEntry payment, σ, hruns, ?_, rfl⟩))
        show (Ledger.settleEntry _ _ _).map Prod.snd = _
        rw [hrun]
        rfl
      · exact .inl rfl
    | readEntry _ => exact .inl heffect.2
    | readActive _ => exact .inl heffect.2
    | readLeaveState _ => exact .inl heffect.2
    | now =>
      obtain ⟨time, hle, -, rfl⟩ := heffect
      exact .inr (.inl (.inr ⟨time, hle, rfl⟩))
    | respond _ _ => exact .inl heffect
  · exact .inl rfl

/-- What `reserve_entry` returns is seen afterwards, and a row that it calls
new was not there before. -/
theorem reserveEntry_seen {arenaId token : String} {data : EntryInput} {w w' : World}
    {entry : Entry} {new : Bool}
    (h : Performs sha256 (· ≤ ·) (.reserveEntry arenaId token data) w (.ok (entry, new)) w') :
    Seen sha256 w'.ledger arenaId token entry ∧
      (new = true → ∀ e ∈ w.ledger.entries, e.id ≠ entry.id) := by
  obtain ⟨result, ⟨env, hruns, heffect⟩, houtcome⟩ | ⟨-, _, hraised⟩ := h
  · obtain ⟨⟨entry', new'⟩, σ, hrun, rfl, rfl⟩ | ⟨_, -, rfl, -⟩ := heffect
    · obtain heq | ⟨_, hraised⟩ := houtcome
      · cases heq
        obtain ⟨p, hp, hpid, harena, htoken⟩ := (Ledger.reserveEntry_seats hrun).mem
        rw [hruns.hash] at htoken
        obtain ⟨row, -, -, ⟨rfl, hmem, rfl⟩ | ⟨rfl, _, _, _, _, -, -, rfl, -, hins, rfl⟩⟩ :=
          Ledger.reserveEntry_ok hrun
        · exact ⟨⟨entry, hmem, rfl, rfl, p, hp, hpid, harena, htoken⟩, nofun⟩
        · refine ⟨⟨_, (Table.mem_insert? hins).mpr (.inr rfl), rfl, rfl, p, hp, hpid, harena,
            htoken⟩, fun _ e he => ?_⟩
          exact Table.get?_eq_none.mp (hruns.fresh.entries 1) e he
      · cases hraised
    · obtain heq | ⟨_, hraised⟩ := houtcome
      · cases heq
      · cases hraised
  · cases hraised

/-! ## The discipline -/

/-- The row is there, and the wallet was not called for it. -/
def Held (w : World) (id : Uid) : Prop :=
  (∃ e ∈ w.ledger.entries, e.id = id) ∧ id ∉ w.called

variable (sha256)

/-- The rows stay, the wallet is called only for a row that is held, and not
for one that another task has made. -/
def reservation : Discipline Op (World × Log) (Option Uid) where
  inv := Orderly sha256
  safe op x := ∀ arguments, op = .createInvoice arguments → Held x.1 arguments.externalId
  rely view x x' := KeepsRows x.1 x'.1 ∧ ∀ id ∈ view, id ∉ x.1.called → id ∉ x'.1.called
  apart x u v := (∀ id ∈ u, Held x.1 id) ∧ (∀ id ∈ v, Held x.1 id) ∧ ∀ id ∈ u, id ∉ v
  idle := none
  rely_refl := fun _ _ => ⟨fun _ h => h, fun _ _ h => h⟩
  rely_trans := fun _ _ _ _ h h' => ⟨fun id hid => h'.1 id (h.1 id hid),
    fun id hid hnot => h'.2 id hid (h.2 id hid hnot)⟩
  apart_symm := fun _ _ _ h => ⟨h.2.1, h.1, fun id hv hu => h.2.2 id hu hv⟩
  apart_idle := fun _ _ _ h => ⟨h.1, nofun, nofun⟩
  apart_rely := fun _ _ _ _ h hu hv => ⟨fun id hid => ⟨hu.1 id (h.1 id hid).1,
    hu.2 id hid (h.1 id hid).2⟩, fun id hid => ⟨hv.1 id (h.2.1 id hid).1,
      hv.2 id hid (h.2.1 id hid).2⟩, h.2.2⟩

/-- Anything. -/
abbrev Any : Option Uid → World × Log → Prop := fun _ _ => True

/-- The task has made the row, and not called the wallet for it. -/
def Made (id : Uid) (view : Option Uid) (x : World × Log) : Prop := view = some id ∧ Held x.1 id

theorem made_stable (id : Uid) : (reservation sha256).Stable (Made id) := by
  rintro view x x' ⟨rfl, hrow, hnot⟩ ⟨hrows, hcalled⟩
  exact ⟨rfl, hrows id hrow, hcalled id rfl hnot⟩

variable {sha256}

/-- The step of a task that has not called the wallet is in order for the
others. -/
theorem grants_uncalled {view : Option Uid} {x x' : World × Log} (hrows : KeepsRows x.1 x'.1)
    (hcalled : x'.1.called = x.1.called) : (reservation sha256).Grants view view x x' := by
  intro u hapart
  have hrely : ∀ v, (reservation sha256).rely v x x' :=
    fun v => ⟨hrows, fun id _ hnot => hcalled ▸ hnot⟩
  exact ⟨hrely u, (reservation sha256).apart_rely _ _ _ _ hapart (hrely u) (hrely view)⟩

/-- An operation that is safe keeps the invariant. -/
theorem performs_orderly {op : Op} {x x' : World × Log} {outcome : Except (Raised Fault) op.Ans}
    (hinv : Orderly sha256 x) (hsafe : (reservation sha256).safe op x)
    (hdoes : Logged (Performs sha256 (· ≤ ·)) op x outcome x') :
    Orderly sha256 x' ∧ KeepsRows x.1 x'.1 ∧ (x'.1.called = x.1.called ∨
      ∃ arguments, op = .createInvoice arguments ∧
        x'.1.called = arguments.externalId :: x.1.called) := by
  obtain ⟨w, log⟩ := x
  obtain ⟨w', log'⟩ := x'
  obtain ⟨hdoes, rfl : log' = _⟩ := hdoes
  have hworld : Orderly sha256 (w', log) ∧ KeepsRows w w' ∧ (w'.called = w.called ∨
      ∃ arguments, op = .createInvoice arguments ∧
        w'.called = arguments.externalId :: w.called) := by
    rcases performs_cases hdoes with heq | hout | ⟨arguments, rfl, rfl⟩
    · obtain rfl : w' = w := heq
      exact ⟨hinv, fun _ h => h, .inl rfl⟩
    · exact ⟨hinv.outside hout, hout.keepsRows.1, .inl hout.keepsRows.2⟩
    · obtain ⟨hrow, hnew⟩ := hsafe arguments rfl
      exact ⟨hinv.call hrow hnew, fun _ h => h, .inr ⟨arguments, rfl, rfl⟩⟩
  refine ⟨hworld.1.logged ?_, hworld.2⟩
  rintro arenaId token nonce entry ⟨data, new, -, hmem⟩
  cases List.mem_singleton.mp hmem
  exact (reserveEntry_seen hdoes).1

/-- An operation that does not call the wallet. -/
theorem await_any {op : Op} (hcall : ∀ arguments, op ≠ .createInvoice arguments) :
    Triple (reservation sha256) (Logged (Performs sha256 (· ≤ ·))) Any (await op) (fun _ => Any)
      fun _ => Any := by
  refine .perform (fun _ _ _ _ _ => trivial) (fun outcome => ?_) ?_ ?_
  · cases outcome <;> exact fun _ _ _ _ _ => trivial
  · exact fun _ _ _ _ arguments heq => absurd heq (hcall arguments)
  · intro view x outcome x' hinv _ hdoes
    obtain ⟨hinv', hrows, hcalled | ⟨arguments, heq, -⟩⟩ :=
      performs_orderly hinv (fun arguments heq => absurd heq (hcall arguments)) hdoes
    · refine ⟨hinv', view, grants_uncalled hrows hcalled, ?_⟩
      cases outcome <;> exact trivial
    · exact absurd heq (hcall arguments)

/-- `reserve_entry` makes a row for its own task only. -/
theorem await_reserveEntry (arenaId token : String) (data : EntryInput) :
    Triple (reservation sha256) (Logged (Performs sha256 (· ≤ ·))) (fun view _ => view = none)
      (await (.reserveEntry arenaId token data) : Coroutine (Entry × Bool))
      (fun r view x => r.2 = true → Made r.1.id view x) fun _ => Any := by
  refine .perform (fun _ _ _ h _ => h) (fun outcome => ?_) nofun ?_
  · cases outcome with
    | ok r =>
      exact fun view x x' h hrely hnew => made_stable sha256 r.1.id view x x' (h hnew) hrely
    | error _ => exact fun _ _ _ _ _ => trivial
  · rintro view x outcome x' hinv rfl hdoes
    obtain ⟨hinv', hrows, hcalled | ⟨_, heq, -⟩⟩ :=
      performs_orderly hinv (fun _ heq => by cases heq) hdoes
    swap
    · cases heq
    have hgrants : (reservation sha256).Grants none none x x' := grants_uncalled hrows hcalled
    match outcome, hdoes with
    | .error _, _ => exact ⟨hinv', none, hgrants, trivial⟩
    | .ok (entry, false), _ => exact ⟨hinv', none, hgrants, nofun⟩
    | .ok (entry, true), hdoes =>
      obtain ⟨⟨e, he, hid, -⟩, hnew⟩ := reserveEntry_seen hdoes.1
      have hheld : Held x'.1 entry.id := by
        refine ⟨⟨e, he, hid⟩, fun hmem => ?_⟩
        obtain ⟨e₀, he₀, hid₀⟩ := hinv.rows entry.id (hcalled ▸ hmem)
        exact hnew rfl e₀ he₀ hid₀
      refine ⟨hinv', some entry.id, fun u hapart => ?_, fun _ => ⟨rfl, hheld⟩⟩
      obtain ⟨hrely, hheldu, -, -⟩ := hgrants u hapart
      refine ⟨hrely, hheldu, fun id hid => ?_, fun id hid heq => ?_⟩
      · cases hid
        exact hheld
      · cases heq
        obtain ⟨e₀, he₀, hid₀⟩ := (hapart.1 entry.id hid).1
        exact hnew rfl e₀ he₀ hid₀

/-- The wallet is called for the row that the task has made. -/
theorem await_createInvoice (arguments : InvoiceArguments) :
    Triple (reservation sha256) (Logged (Performs sha256 (· ≤ ·))) (Made arguments.externalId)
      (await (.createInvoice arguments)) (fun _ => Any) fun _ => Any := by
  refine .perform (made_stable sha256 _) (fun outcome => ?_) ?_ ?_
  · cases outcome <;> exact fun _ _ _ _ _ => trivial
  · rintro view x - ⟨-, hheld⟩ arguments' heq
    cases heq
    exact hheld
  · rintro view x outcome x' hinv ⟨rfl, hheld⟩ hdoes
    have hsafe : (reservation sha256).safe (.createInvoice arguments) x := by
      rintro arguments' heq
      cases heq
      exact hheld
    obtain ⟨hinv', hrows, hcalled⟩ := performs_orderly hinv hsafe hdoes
    have hothers : ∀ id ∉ x.1.called, id ≠ arguments.externalId → id ∉ x'.1.called := by
      intro id hnot hne hmem
      rcases hcalled with hcalled | ⟨_, heq, hcalled⟩
      · exact hnot (hcalled ▸ hmem)
      · cases heq
        rcases List.mem_cons.mp (hcalled ▸ hmem) with rfl | hmem
        · exact hne rfl
        · exact hnot hmem
    refine ⟨hinv', none, fun u hapart => ?_, by cases outcome <;> exact trivial⟩
    have hrely : (reservation sha256).rely u x x' := by
      refine ⟨hrows, fun id hid hnot => hothers id hnot ?_⟩
      rintro rfl
      exact hapart.2.2 _ hid rfl
    exact ⟨hrely, fun id hid => ⟨hrows id (hapart.1 id hid).1,
      hrely.2 id hid (hapart.1 id hid).2⟩,
      nofun, nofun⟩

/-! ## `create_entry` -/

theorem done_any {α : Type} (result : Except (Raised Fault) α) :
    Triple (reservation sha256) (Logged (Performs sha256 (· ≤ ·)))
      Any (.done result) (fun _ => Any)
      fun _ => Any := by
  intro _ _ _ _ _ _ _
  cases result <;> exact trivial

theorem fetchInvoice_order (entry : Entry) :
    Triple (reservation sha256) (Logged (Performs sha256 (· ≤ ·)))
      (Made entry.id) (fetchInvoice entry)
      (fun _ => Any) fun _ => Any := by
  refine .bind (await_createInvoice (invoiceArguments entry)) fun _ => ?_
  refine .bind (await_any nofun) fun payment => ?_
  exact .bind (await_any nofun) fun _ => await_any nofun

theorem prepareEntry_order (entry : Entry) (new : Bool) :
    Triple (reservation sha256) (Logged (Performs sha256 (· ≤ ·)))
      (fun view x => new = true → Made entry.id view x) (prepareEntry entry new) (fun _ => Any)
      fun _ => Any := by
  cases new with
  | false => exact (done_any _).consequence (fun _ _ _ _ => trivial) fun _ _ _ _ h => h
  | true =>
    refine Triple.consequence (P := Made entry.id) ?_ (fun _ _ _ h => h rfl) fun _ _ _ _ h => h
    refine .bind (.handle (fetchInvoice_order entry) (fun _ => done_any _) fun _ _ h => h)
      fun _ => ?_
    refine .bind (await_any nofun) fun again => ?_
    cases again with
    | none => exact done_any _
    | some entry => exact done_any _

theorem showInvoice_order (arenaId token : String) (entry : Entry) :
    Triple (reservation sha256) (Logged (Performs sha256 (· ≤ ·))) Any
      (showInvoice arenaId token entry)
      (fun _ => Any) fun _ => Any := by
  refine .bind (await_any nofun) fun time => ?_
  split
  · exact done_any _
  split
  · exact done_any _
  refine .bind (await_any nofun) fun active => ?_
  split
  · exact done_any _
  refine .bind (await_any nofun) fun state => ?_
  cases state with
  | none => exact done_any _
  | some state =>
    dsimp only
    split
    · exact done_any _
    · exact done_any _

theorem request_order (arenaId token : String) (data : EntryInput) :
    Triple (reservation sha256) (Logged (Performs sha256 (· ≤ ·))) (fun view _ => view = none)
      (request arenaId token data) (fun _ => Any) fun _ => Any := by
  refine .bind (.bind (await_reserveEntry arenaId token data) fun r => ?_)
    fun shown => await_any nofun
  exact .bind (prepareEntry_order r.1 r.2) fun entry => showInvoice_order arenaId token entry

/-! ## The result -/

theorem starts_order {task : Coroutine Unit} (h : Starts task) (x : World × Log)
    (hinv : Orderly sha256 x) : wp (reservation sha256) (Logged (Performs sha256 (· ≤ ·)))
      (fun _ _ _ => True) task (reservation sha256).idle x := by
  obtain ⟨arenaId, token, data, rfl⟩ := h
  exact (request_order arenaId token data none x hinv rfl).mono fun _ _ _ _ _ => trivial

theorem sound_of_logs {start : Int} {pool : Pool Op Op.Ans Fault (World × Log)}
    (h : Logs sha256 (· ≤ ·) start pool) :
    pool.Sound (reservation sha256) (Logged (Performs sha256 (· ≤ ·))) := by
  have hidle : ∀ x : World × Log, (reservation sha256).apart x none none :=
    fun _ => ⟨nofun, nofun, nofun⟩
  refine h.sound (.empty start) (hidle _) (fun task htask x hinv =>
    starts_order htask x hinv) ?_ ?_
  · rintro ⟨w, log⟩ ⟨w', log'⟩ hinv ⟨hout, rfl : log' = log⟩
    have hrows : KeepsRows w w' ∧ w'.called = w.called := hout.keepsRows
    refine ⟨hinv.outside hout, fun u v _ => ⟨hrows.1, fun id _ hnot => ?_⟩⟩
    exact hrows.2 ▸ hnot
  · rintro ⟨w, log⟩ ⟨w', log'⟩ hinv ⟨rfl : w' = w, rfl : log' = log⟩
    exact ⟨hinv, hidle _⟩

/-- Between two steps of a pool the ledger changes by a transaction, if it
changes. -/
theorem ledger_of_step {moves : Int → Int → Prop}
    {pool pool' : Pool Op Op.Ans Fault (World × Log)} (hstep : Steps sha256 moves pool pool') :
    pool'.world.1.ledger = pool.world.1.ledger ∨
      ∃ env a, Runs sha256 moves env pool.world.1 ∧ pool'.world.1.clock = env.now ∧
        perform env a pool.world.1.ledger = .ok pool'.world.1.ledger := by
  have hout : ∀ {w w' : World}, Outside sha256 moves w w' → w'.ledger = w.ledger ∨
      ∃ env a, Runs sha256 moves env w ∧ w'.clock = env.now ∧
        perform env a w.ledger = .ok w'.ledger := by
    rintro w w' (⟨env, a, σ, hruns, hrun, rfl⟩ | ⟨time, -, rfl⟩)
    · exact .inr ⟨env, a, hruns, rfl, hrun⟩
    · exact .inl rfl
  cases hstep with
  | start i task result idle allowed => exact .inl rfl
  | run i op next outcome x awaits does =>
    rcases performs_cases does.1 with heq | hmoves | ⟨_, -, heq⟩
    · exact .inl (congrArg World.ledger heq)
    · exact hout hmoves
    · refine .inl ?_
      show x.1.ledger = _
      rw [heq]
  | lose i => exact .inl rfl
  | world x does => exact hout does.1
  | crash x does => exact .inl (congrArg World.ledger does.1)

/-- One invoice for each reservation, one open reservation for each player.
`create_invoice` is called at most once for a row, a player has at most one
entry that is unsettled and has not expired, a row is inserted only for a
player that holds no lives and has no such entry, and two calls of a session
that got the entry of their common nonce got the same one. -/
theorem one_reservation (sha256 : String → String) {start : Int}
    {pool : Pool Op Op.Ans Fault (World × Log)} (h : Logs sha256 (· ≤ ·) start pool) :
    (pool.world.1.called.Nodup ∧
      ∀ id ∈ pool.world.1.called, ∃ e ∈ pool.world.1.ledger.entries, e.id = id) ∧
    (∀ e ∈ pool.world.1.ledger.entries, ∀ e' ∈ pool.world.1.ledger.entries,
      e.playerId = e'.playerId → e.OpenAt pool.world.1.clock → e'.OpenAt pool.world.1.clock →
        e = e') ∧
    (∀ pool', Steps sha256 (· ≤ ·) pool pool' → ∀ e ∈ pool'.world.1.ledger.entries,
      (∀ e₀ ∈ pool.world.1.ledger.entries, e₀.id ≠ e.id) →
        pool.world.1.ledger.remainingOf e.playerId = 0 ∧
        ∀ e₀ ∈ pool.world.1.ledger.entries, e₀.playerId = e.playerId →
          ¬e₀.OpenAt pool'.world.1.clock) ∧
    ∀ arenaId token nonce e e', Reserved pool.world.2 arenaId token nonce e →
      Reserved pool.world.2 arenaId token nonce e' → e.nonce = nonce → e'.nonce = nonce →
        e.id = e'.id := by
  have hinv : Orderly sha256 pool.world := (sound_of_logs h).1
  refine ⟨⟨hinv.called, hinv.rows⟩, hinv.booked.openOnce, fun pool' hstep e he hnew => ?_, ?_⟩
  · rcases ledger_of_step hstep with hsame | ⟨env, a, hruns, hclock, hrun⟩
    · exact absurd rfl (hnew e (hsame ▸ he))
    · rcases (perform_entries hrun).new e he with ⟨e₀, he₀, hid, -⟩ | hentry
      · exact absurd hid.symm (hnew e₀ he₀)
      · rw [hclock]
        exact hentry.spent (Sound.of_reachable hinv.reachable).accounts hruns.fresh
  · intro arenaId token nonce e e' hres hres' hnonce hnonce'
    obtain ⟨r, hr, hid, hrnonce, p, hp, howner, harena, htoken⟩ := hinv.seen _ _ _ _ hres
    obtain ⟨r', hr', hid', hrnonce', q, hq, howner', harena', htoken'⟩ := hinv.seen _ _ _ _ hres'
    obtain rfl : p = q := hinv.booked.token p hp q hq (harena.trans harena'.symm)
      (htoken.trans htoken'.symm)
    obtain rfl : r = r' := hinv.booked.nonce r hr r' hr' (howner.symm.trans howner')
      (by rw [hrnonce, hrnonce', hnonce, hnonce'])
    exact hid.symm.trans hid'

end

/-! ## Two clicks -/

namespace Clicks

open Duel

/-- A transaction moves the clock to its own time. -/
def after (w : World) (env : Env) (a : Action) : World := w.commits env (commit w.ledger (env, a))

/-- What both clicks ask for. -/
def data : EntryInput := ⟨"a@ln", "nonce", "A"⟩

def click : Action := .reserveEntry arenaId (token 'a') data

/-- The world before anything has happened, and when the arena is there. -/
def blank : World := ⟨Ledger.empty, 0, []⟩
def enabled : World := after blank (tick 0) (.saveSettings "owner" "wallet" true 10 true)
def opened : World :=
  after enabled (tick 1) (.createArena "owner" ⟨"arena", 100, "oa_dm7", price_ge, price_le⟩)

/-- The world after each of the two clicks. -/
def once : World := after opened (tick 2) click
def twice : World := after once (tick 3) click

/-- The row of the first click. -/
def row : Entry :=
  Ledger.entryRow (tick 2) (Ledger.newArena arenaId "owner" "wallet" "arena" "oa_dm7" 100 10 1001)
    ((tick 2).uid 0) data

/-- The world when the wallet was called. -/
def called : World := { twice with
  called := [row.id] }

theorem runs_of_short {w : World} {i : Nat} (hshort : Short w.ledger (2 * i))
    (hle : w.clock ≤ (tick i).now) : Runs id (· ≤ ·) (tick i) w :=
  ⟨tick_fresh rfl hshort, hle, rfl⟩

theorem outside_after {w : World} {env : Env} {a : Action} (hruns : Runs id (· ≤ ·) env w)
    (hok : (perform env a w.ledger).toOption.isSome = true) :
      Outside id (· ≤ ·) w (after w env a) :=
  .inl ⟨env, a, _, hruns, perform_commit hok, rfl⟩

theorem performs_click {w : World} {env : Env} {r : Entry × Bool} (hruns : Runs id (· ≤ ·) env w)
    (hclick : (Ledger.reserveEntry env arenaId (token 'a') data w.ledger).toOption.map Prod.fst =
      some r) :
    Performs id (· ≤ ·) (.reserveEntry arenaId (token 'a') data) w
      (.ok r) (after w env click) := by
  cases hrun : Ledger.reserveEntry env arenaId (token 'a') data w.ledger with
  | error e =>
    rw [hrun] at hclick
    cases hclick
  | ok result =>
    obtain ⟨r', σ⟩ := result
    rw [hrun] at hclick
    obtain rfl : r' = r := Option.some.inj hclick
    have hcommit : commit w.ledger (env, click) = σ := by
      have hperform : perform env click w.ledger = .ok σ := by
        show (Ledger.reserveEntry _ _ _ _ _).map Prod.snd = _
        rw [hrun]
        rfl
      unfold commit
      rw [hperform]
      rfl
    exact .inl ⟨.ok r', ⟨env, hruns, .inl ⟨r', σ, hrun, rfl, by rw [after, hcommit]⟩⟩, .inl rfl⟩

theorem logs_opened : Logs id (· ≤ ·) 0 ⟨(opened, []), fun _ => .done (.ok ())⟩ := by
  have hblank : Logs id (· ≤ ·) 0 ⟨(blank, []), fun _ => .done (.ok ())⟩ := .initial
  have henabled := hblank.step (.world (enabled, []) ⟨outside_after
    (runs_of_short (i := 0) (by decide) (by decide)) (by decide), rfl⟩)
  exact henabled.step (.world (opened, []) ⟨outside_after
    (runs_of_short (i := 1) (by decide) (by decide)) (by decide), rfl⟩)

/-- The task of a click. -/
abbrev task : Coroutine Unit := request arenaId (token 'a') data

/-- What the two clicks get, and the call of the wallet. -/
abbrev first : Answer Op Op.Ans Fault :=
  ⟨.reserveEntry arenaId (token 'a') data, .ok (row, true)⟩
abbrev second : Answer Op Op.Ans Fault :=
  ⟨.reserveEntry arenaId (token 'a') data, .ok (row, false)⟩
abbrev asked : Answer Op Op.Ans Fault := ⟨.createInvoice (invoiceArguments row), .ok ()⟩

/-- The second click comes before the first one has called the wallet. -/
theorem logs_called : ∃ log tasks, Logs id (· ≤ ·) 0 ⟨(called, log), tasks⟩ ∧ first ∈ log ∧
    second ∈ log := by
  have hone : Performs id (· ≤ ·) (.reserveEntry arenaId (token 'a') data) opened
    (.ok (row, true)) once :=
    performs_click (runs_of_short (i := 2) (by decide) (by decide))
      (by decide)
  have htwo : Performs id (· ≤ ·) (.reserveEntry arenaId (token 'a') data)
    once (.ok (row, false)) twice :=
    performs_click (runs_of_short (i := 3) (by decide) (by decide))
      (by decide)
  have hcall : Performs id (· ≤ ·) (.createInvoice (invoiceArguments row))
    twice (.ok ()) called :=
    .inl ⟨.ok (), ⟨rfl, rfl⟩, .inl rfl⟩
  have hfirst := logs_opened.step (.start 0 task _ rfl ⟨_, _, _, rfl⟩)
  have honce := hfirst.step (.run 0 first.1 _ first.2 (once, [first]) rfl ⟨hone, rfl⟩)
  have hsecond := honce.step (.start 1 task _ rfl ⟨_, _, _, rfl⟩)
  have htwice := hsecond.step (.run 1 second.1 _ second.2 (twice,
    [second, first]) rfl ⟨htwo, rfl⟩)
  have hcalled := htwice.step (.run 0 asked.1 _ asked.2
    (called, [asked, second, first]) rfl ⟨hcall, rfl⟩)
  exact ⟨_, _, hcalled, by simp, by simp⟩

end Clicks

open Clicks in
theorem one_reservation_clicks : ∃ log, first ∈ log ∧ second ∈ log ∧ called.called.Nodup ∧
    ∀ arenaId token nonce e e', Reserved log arenaId token nonce e →
      Reserved log arenaId token nonce e' → e.nonce = nonce →
        e'.nonce = nonce → e.id = e'.id := by
  obtain ⟨log, tasks, h, hfirst, hsecond⟩ := logs_called
  exact ⟨log, hfirst, hsecond, (one_reservation id h).1.1, (one_reservation id h).2.2.2⟩

end QuakeJs.Entries
