import QuakeJs.Engine.Control
import QuakeJs.Server.System

/-!
# What an engine does to its journal

An engine process in the world, whatever is in its socket: its journal only
grows, and by lines that can be read back.  One that nobody was ever sent to
stays empty.
-/

namespace QuakeJs.Server

open Engine

/-! ## Lines that can be read back -/

/-- The id of an admission, or none. -/
def Accepted (id : String) : Prop := id = "" ∨ validId id = true

theorem accepted_empty : Accepted "" := Or.inl rfl

/-- An id is written as it is. -/
theorem Accepted.plain {id : String} (h : Accepted id) : Plain id := by
  rcases h with rfl | hvalid
  · exact fun c hc => absurd hc (by simp)
  · unfold validId at hvalid
    simp only [Bool.and_eq_true, List.all_eq_true, Bool.or_eq_true, decide_eq_true_eq] at hvalid
    intro c hc
    have hdigit := hvalid.2 c hc
    refine ⟨?_, ?_, ?_⟩
    all_goals
      rintro rfl
      revert hdigit
      decide

/-- The ids in the tables were accepted, and the lines can be read back, but
for one that was not written whole. -/
structure Readable (t : Tables) : Prop where
  admissions : ∀ peer, Accepted (t.admissions peer)
  clients : ∀ slot, Accepted (t.clients slot)
  journal : ∀ line ∈ t.journal, Legible line
  torn : ∀ line bytes, t.torn = some (line, bytes) → Legible line ∧ bytes < line.render.length

theorem Readable.initial : Readable Tables.initial where
  admissions := fun _ => accepted_empty
  clients := fun _ => accepted_empty
  journal := fun _ h => absurd h List.not_mem_nil
  torn := fun _ _ h => by cases h

theorem accepted_update {f : Nat → String} (hf : ∀ n, Accepted (f n)) (i : Nat) {id : String}
    (hid : Accepted id) (n : Nat) : Accepted (Function.update f i id n) := by
  by_cases hn : n = i
  · rw [hn, Function.update_self]
    exact hid
  · rw [Function.update_of_ne hn]
    exact hf n

namespace Readable

variable {maxClients : Nat} {t : Tables}

theorem of_eq {t' : Tables} (h : Readable t) (hadmissions : t'.admissions = t.admissions)
    (hclients : t'.clients = t.clients) (hjournal : t'.journal = t.journal)
    (htorn : t'.torn = t.torn) : Readable t' where
  admissions := by rw [hadmissions]; exact h.admissions
  clients := by rw [hclients]; exact h.clients
  journal := by rw [hjournal]; exact h.journal
  torn := by rw [htorn]; exact h.torn

/-- A line is shorter than the buffer it is formatted in. -/
theorem endLife (h : Readable t) (peer : Nat) {killerId : String} (hkiller : Accepted killerId)
    (result : Logged) : Ends Readable Readable (t.endLife peer killerId result) := by
  have hline : (t.lineOf peer killerId).render.length < 256 → Legible (t.lineOf peer killerId) :=
    fun hshort => ⟨hkiller.plain, (h.admissions peer).plain, hshort⟩
  refine endLife_ends result h (fun _ _ => h.of_eq rfl rfl rfl rfl) ?_ ?_
  · intro _ _ hshort bytes hbytes
    refine ⟨h.admissions, h.clients, h.journal, ?_⟩
    rintro _ _ ⟨⟩
    exact ⟨hline hshort, hbytes⟩
  · intro _ _ hshort _ packets
    have hrecorded : Readable (t.recorded peer killerId packets) := by
      refine ⟨h.admissions, h.clients, ?_, h.torn⟩
      intro line hmem
      rcases List.mem_append.mp hmem with hold | hnew
      · exact h.journal line hold
      · rw [List.mem_singleton.mp hnew]
        exact hline hshort
    exact ⟨hrecorded, hrecorded⟩

theorem disconnect (h : Readable t) (slot : Int) (result : Logged) :
    Ends Readable Readable (t.disconnect maxClients slot result) := by
  unfold Tables.disconnect
  split_ifs
  · exact h.endLife _ accepted_empty result
  · exact h

theorem frag (h : Readable t) (event : Option (Int × Int)) (result : Logged) :
    Ends Readable Readable (t.frag maxClients event result) := by
  rcases event with _ | ⟨killer, victim⟩
  · exact h
  · simp only [Tables.frag]
    split_ifs
    · exact h
    · exact h
    · exact h.endLife _ (h.clients _) result
    · exact h.endLife _ accepted_empty result

theorem revoked (h : Readable t) (peer : Nat) : Readable (t.revoked maxClients peer) where
  admissions := accepted_update h.admissions peer accepted_empty
  clients := by
    intro slot
    show Accepted (if slot < maxClients ∧ t.clientPeer slot = peer then "" else t.clients slot)
    split_ifs
    · exact accepted_empty
    · exact h.clients slot
  journal := h.journal
  torn := h.torn

theorem ack (h : Readable t) (packet : Packet) (result : Sent) :
    Ends Readable Readable (t.ack packet result) := by
  cases result with
  | whole => exact h.of_eq rfl rfl rfl rfl
  | again => exact h
  | failed => exact h

theorem dispatch (h : Readable t) (peer : Nat) (packet : Packet) (connected : Nat → Bool)
    (notified : Logged) (acked : Sent) :
    Ends Readable Readable (t.dispatch maxClients peer packet connected notified acked) := by
  unfold Tables.dispatch
  split_ifs with hadmit hvalid
  · exact h
  · rw [revoke_eq]
    have hid : Accepted packet.payload := Or.inr (by simpa using hvalid)
    have hseated : Readable ((t.revoked maxClients peer).seat peer packet.payload) :=
      ⟨accepted_update (h.revoked peer).admissions peer hid, (h.revoked peer).clients, h.journal,
        h.torn⟩
    exact hseated.ack packet acked
  · refine Ends.bind (h.endLife peer accepted_empty notified) fun t₁ h₁ => ?_
    rw [revoke_eq]
    exact (h₁.revoked peer).ack packet acked
  · rw [revoke_eq]
    exact (h.revoked peer).ack _ acked
  · exact h

theorem join (h : Readable t) (sender : Address) (drops : List (Int × Logged))
    (slot : Option Int) : Ends Readable Readable (t.join maxClients sender drops slot) := by
  have hdrops : Ends Readable Readable
      (drops.foldlM (fun t drop => t.disconnect maxClients drop.1 drop.2) t) :=
    Ends.foldlM (fun t' drop ht' => ht'.disconnect drop.1 drop.2) drops t h
  unfold Tables.join
  refine Ends.bind hdrops fun t₁ h₁ => ?_
  cases slot with
  | none => exact h₁
  | some slot =>
    show Ends Readable Readable (t₁.client maxClients slot sender)
    unfold Tables.client
    split_ifs
    · exact h₁
    · exact ⟨h₁.admissions, accepted_update h₁.clients _ (h₁.admissions _), h₁.journal, h₁.torn⟩

/-- Every event keeps the tables readable, also one that ends the process. -/
theorem handle (h : Readable t) (event : Event) :
    Ends Readable Readable (t.handle maxClients event) := by
  cases event with
  | packet bytes connected notified acked =>
    show Ends _ _ (t.deliver maxClients bytes connected notified acked)
    match bytes with
    | [] => exact h
    | [_] => exact h
    | kind :: peer :: rest =>
      show Ends _ _ (t.receive maxClients ⟨kind, peer, text rest⟩ connected notified acked)
      unfold Tables.receive
      split_ifs
      · exact h
      · exact h.dispatch _ _ connected notified acked
  | connect sender id drops slot =>
    show Ends _ _ (if t.admits sender id then t.join maxClients sender drops slot else .ok t)
    split_ifs
    · exact h.join sender drops slot
    · exact h
  | frag event notified => exact h.frag event notified
  | drop slot notified => exact h.disconnect slot notified

end Readable

/-! ## The process -/

/-- What holds of any engine process. -/
structure EngineProcess.Sound (maxClients : Nat) (e : EngineProcess) : Prop where
  kept : Kept maxClients e.tables
  live : e.running = true → Live maxClients e.tables
  readable : Readable e.tables

theorem EngineProcess.Sound.new (maxClients : Nat) : EngineProcess.new.Sound maxClients :=
  ⟨(Live.initial maxClients).kept, fun _ => Live.initial maxClients, Readable.initial⟩

/-- Nobody was ever sent to the engine. -/
structure EngineProcess.Untouched (e : EngineProcess) : Prop where
  inbox : e.inbox = []
  journal : e.tables.journal = []
  admissions : ∀ peer, e.tables.admissions peer = ""

theorem EngineProcess.Untouched.new : EngineProcess.new.Untouched := ⟨rfl, rfl, fun _ => rfl⟩

/-- The engine takes an event that is not a packet, or the next packet. -/
theorem EngineProcess.handle_cases {maxClients : Nat} {event : Event} {e e' : EngineProcess}
    (h : e.handle maxClients event = some e') : e.running = true ∧ ∃ inbox,
      e' = { e.after (e.tables.handle maxClients event) with
        inbox } ∧ ((∃ bytes connected notified acked,
          event = .packet bytes connected notified acked
          ∧ e.inbox = bytes :: inbox) ∨
        ((∀ bytes connected notified acked, event ≠ .packet bytes connected notified acked)
          ∧ inbox = e.inbox)) := by
  unfold EngineProcess.handle at h
  split_ifs at h with hrunning
  refine ⟨by simpa using hrunning, ?_⟩
  have hsame : ∀ process : Process, e.after process = { e.after process with
      inbox := e.inbox } := fun process => by cases process <;> rfl
  cases event with
  | packet bytes connected notified acked =>
    cases hinbox : e.inbox with
    | nil => simp [hinbox] at h
    | cons next rest =>
      simp only [hinbox] at h
      split_ifs at h with hnext
      exact ⟨rest, (Option.some.inj h).symm, .inl ⟨bytes, connected, notified, acked, rfl,
        hnext ▸ rfl⟩⟩
  | connect sender id drops slot =>
    exact ⟨e.inbox, (Option.some.inj h).symm.trans (hsame _), .inr ⟨by simp, rfl⟩⟩
  | frag fragged notified =>
    exact ⟨e.inbox, (Option.some.inj h).symm.trans (hsame _), .inr ⟨by simp, rfl⟩⟩
  | drop slot notified =>
    exact ⟨e.inbox, (Option.some.inj h).symm.trans (hsame _), .inr ⟨by simp, rfl⟩⟩

/-- An event adds lines to the journal, and takes none away. -/
theorem EngineProcess.Sound.handle {maxClients : Nat} {event : Event} {e e' : EngineProcess}
    (h : e.Sound maxClients) (hstep : e.handle maxClients event = some e') :
    e'.Sound maxClients ∧ ∃ lines, e'.tables.journal = e.tables.journal ++ lines := by
  obtain ⟨hrunning, inbox, rfl, -⟩ := EngineProcess.handle_cases hstep
  have hproceeds := handle_proceeds (h.live hrunning) event
  have hreadable : Ends Readable Readable (e.tables.handle maxClients event) :=
    h.readable.handle event
  cases hnext : e.tables.handle maxClients event with
  | ok t =>
    rw [hnext] at hproceeds hreadable
    obtain ⟨lines, hlines, -⟩ := hproceeds.written
    exact ⟨⟨hproceeds.live.kept, fun _ => hproceeds.live, hreadable⟩, lines, hlines⟩
  | error t =>
    rw [hnext] at hproceeds hreadable
    obtain ⟨lines, hlines, -⟩ := hproceeds.written
    exact ⟨⟨hproceeds.kept, (fun hgoes => by cases hgoes), hreadable⟩, lines, hlines⟩

/-- Nobody gets in without an admission, and nobody dies there. -/
theorem handle_untouched {maxClients : Nat} {t : Tables} (h : ∀ peer, t.admissions peer = "")
    {event : Event}
    (hevent : ∀ bytes connected notified acked, event ≠ .packet bytes connected notified acked) :
    t.handle maxClients event = .ok t := by
  have hend : ∀ peer killerId result, t.endLife peer killerId result = .ok t := by
    intro peer killerId result
    unfold Tables.endLife
    rw [if_pos (by simp [h])]
  cases event with
  | packet bytes connected notified acked => exact absurd rfl (hevent _ _ _ _)
  | connect sender id drops slot =>
    have hadmits : t.admits sender id = false := by
      unfold Tables.admits
      rw [h]
      by_cases hid : id = ""
      · simp [hid, validId, arenaId]
      · simp [Ne.symm hid]
    show (if t.admits sender id then t.join maxClients sender drops slot else .ok t) = .ok t
    rw [hadmits]
    rfl
  | frag fragged notified =>
    rcases fragged with _ | ⟨killer, victim⟩
    · rfl
    · simp only [Tables.handle, Tables.frag, hend]
      split_ifs <;> rfl
  | drop slot notified =>
    simp only [Tables.handle, Tables.disconnect, hend]
    split_ifs <;> rfl

theorem EngineProcess.Untouched.handle {maxClients : Nat} {event : Event} {e e' : EngineProcess}
    (h : e.Untouched) (hstep : e.handle maxClients event = some e') : e'.Untouched := by
  obtain ⟨-, inbox, rfl, ⟨bytes, _, _, _, -, hinbox⟩ | ⟨hevent, rfl⟩⟩ :=
    EngineProcess.handle_cases hstep
  · rw [h.inbox] at hinbox
    cases hinbox
  · rw [handle_untouched h.admissions hevent]
    exact ⟨h.inbox, h.journal, h.admissions⟩

end QuakeJs.Server
