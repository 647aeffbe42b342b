import QuakeJs.Engine.Admission

/-!
# What an admission is spent on

An admission that is not consumed is good for one line of the journal.  An
event writes lines only for such admissions, and makes no new one but that of
a packet which asks for it.
-/

namespace QuakeJs.Engine

/-- The peer has an admission that is not consumed. -/
structure Tables.Holds (t : Tables) (peer : Nat) (id : String) : Prop where
  named : id ≠ ""
  fresh : t.consumed peer = false
  admitted : t.admissions peer = id

/-- Admissions of `t` are spent on lines, or lost. -/
structure Spends (t t' : Tables) : Prop where
  lines : ∃ lines, t'.journal = t.journal ++ lines ∧ ∀ line ∈ lines,
    ∃ peer, t.Holds peer line.victim
  holds : ∀ peer id, t'.Holds peer id → t.Holds peer id

/-- The event is the packet that asks for the admission. -/
def Event.seats (event : Event) (peer : Nat) (id : String) : Prop :=
  ∃ p rest connected notified acked, event = .packet (1 :: p :: rest) connected notified acked ∧
    p.toNat = peer ∧ text rest = id

/-- What an event makes of the admissions. -/
structure Turns (event : Event) (t t' : Tables) : Prop where
  lines : ∃ lines, t'.journal = t.journal ++ lines ∧ ∀ line ∈ lines,
    ∃ peer, t.Holds peer line.victim
  holds : ∀ peer id, t'.Holds peer id → t.Holds peer id ∨ event.seats peer id

theorem Spends.turns {t t' : Tables} (h : Spends t t') (event : Event) : Turns event t t' :=
  ⟨h.lines, fun peer id hholds => .inl (h.holds peer id hholds)⟩

/-- The journal is the same, and no peer is newly admitted. -/
theorem Spends.of_eq {t t' : Tables} (hjournal : t'.journal = t.journal)
    (hholds : ∀ peer id, t'.Holds peer id → t.Holds peer id) : Spends t t' :=
  ⟨⟨[], by simp [hjournal], by simp⟩, hholds⟩

theorem Spends.of_tables {t t' : Tables} (hjournal : t'.journal = t.journal)
    (hconsumed : t'.consumed = t.consumed) (hadmissions : t'.admissions = t.admissions) :
    Spends t t' := by
  refine .of_eq hjournal fun peer id h => ⟨h.named, ?_, ?_⟩
  · rw [← hconsumed]
    exact h.fresh
  · rw [← hadmissions]
    exact h.admitted

theorem Spends.refl (t : Tables) : Spends t t := .of_eq rfl fun _ _ h => h

theorem Spends.trans {t₁ t₂ t₃ : Tables} (h : Spends t₁ t₂) (h' : Spends t₂ t₃) :
    Spends t₁ t₃ := by
  obtain ⟨lines, heq, hlines⟩ := h.lines
  obtain ⟨lines', heq', hlines'⟩ := h'.lines
  refine ⟨⟨lines ++ lines', by rw [heq', heq, List.append_assoc], ?_⟩,
    fun peer id hholds => h.holds peer id (h'.holds peer id hholds)⟩
  intro line hline
  rcases List.mem_append.mp hline with hold | hnew
  · exact hlines line hold
  · obtain ⟨peer, hholds⟩ := hlines' line hnew
    exact ⟨peer, h.holds peer _ hholds⟩

section

variable {maxClients : Nat}

/-- An admission that is consumed is not held. -/
theorem holds_consumed {t t' : Tables} (peer : Nat) {peer' : Nat} {id : String}
    (hconsumed : t'.consumed = Function.update t.consumed peer true)
    (hadmissions : t'.admissions peer' = t.admissions peer') (h : t'.Holds peer' id) :
    t.Holds peer' id := by
  have hne : peer' ≠ peer := by
    rintro rfl
    have hfresh := h.fresh
    rw [hconsumed, Function.update_self] at hfresh
    cases hfresh
  have hfresh := h.fresh
  rw [hconsumed, Function.update_of_ne hne] at hfresh
  exact ⟨h.named, hfresh, hadmissions ▸ h.admitted⟩

theorem endLife_spends (t : Tables) (peer : Nat) (killerId : String) (result : Logged) :
    Ends (Spends t) (Spends t) (t.endLife peer killerId result) := by
  have hspent : ∀ peer' id, (t.spent peer).Holds peer' id → t.Holds peer' id :=
    fun _ _ h => @holds_consumed t (t.spent peer) peer _ _ rfl rfl h
  have htorn : ∀ line bytes, Spends t ((t.spent peer).tear line bytes) := fun line bytes =>
    .of_eq rfl fun peer' id h => hspent peer' id ⟨h.named, h.fresh, h.admitted⟩
  refine endLife_ends result (.refl t) (fun _ _ => .of_eq rfl hspent)
    (fun _ _ _ bytes _ => htorn _ bytes) ?_
  intro hconsumed hadmitted _ _ packets
  have hrecorded : Spends t (t.recorded peer killerId packets) := by
    refine ⟨⟨[t.lineOf peer killerId], rfl, ?_⟩,
      fun peer' id h => hspent peer' id ⟨h.named, h.fresh, h.admitted⟩⟩
    intro line hline
    rw [List.mem_singleton.mp hline]
    exact ⟨peer, hadmitted, hconsumed, rfl⟩
  exact ⟨hrecorded, hrecorded⟩

theorem disconnect_spends (t : Tables) (slot : Int) (result : Logged) :
    Ends (Spends t) (Spends t) (t.disconnect maxClients slot result) := by
  unfold Tables.disconnect
  split_ifs
  · exact endLife_spends t _ _ result
  · exact Spends.refl t

theorem frag_spends (t : Tables) (event : Option (Int × Int)) (result : Logged) :
    Ends (Spends t) (Spends t) (t.frag maxClients event result) := by
  rcases event with _ | ⟨killer, victim⟩
  · exact Spends.refl t
  · simp only [Tables.frag]
    split_ifs
    · exact Spends.refl t
    · exact Spends.refl t
    · exact endLife_spends t _ _ result
    · exact endLife_spends t _ _ result

/-- What went before may be counted in. -/
theorem Spends.ends {t t₁ : Tables} (h : Spends t t₁) {process : Process}
    (hnext : Ends (Spends t₁) (Spends t₁) process) : Ends (Spends t) (Spends t) process := by
  cases process with
  | ok t' => exact h.trans hnext
  | error t' => exact h.trans hnext

theorem join_spends (t : Tables) (sender : Address) (drops : List (Int × Logged))
    (slot : Option Int) : Ends (Spends t) (Spends t) (t.join maxClients sender drops slot) := by
  have hdrops : Ends (Spends t) (Spends t)
      (drops.foldlM (fun t drop => t.disconnect maxClients drop.1 drop.2) t) := by
    refine Ends.foldlM ?_ drops t (Spends.refl t)
    exact fun t' drop hsofar => hsofar.ends (disconnect_spends t' drop.1 drop.2)
  unfold Tables.join
  refine Ends.bind hdrops fun t₁ hdropped => ?_
  cases slot with
  | none => exact hdropped
  | some slot =>
    show Ends (Spends t) (Spends t) (t₁.client maxClients slot sender)
    unfold Tables.client
    split_ifs
    · exact hdropped
    · exact hdropped.trans (.of_tables rfl rfl rfl)

theorem revoked_spends (t : Tables) (peer : Nat) : Spends t (t.revoked maxClients peer) := by
  refine .of_eq rfl fun peer' id h => ?_
  have hne : peer' ≠ peer := by
    rintro rfl
    exact h.named (h.admitted.symm.trans (Function.update_self _ _ _))
  exact holds_consumed (t := t) peer rfl (Function.update_of_ne hne _ _) h

theorem ack_spends {t t₁ : Tables} (h : Spends t t₁) (packet : Packet) (result : Sent) :
    Ends (Spends t) (Spends t) (t₁.ack packet result) := by
  cases result with
  | whole => exact h.trans (.of_tables rfl rfl rfl)
  | again => exact h
  | failed => exact h

/-- A packet that asks for an admission ends the one before it. -/
theorem seat_turns (t : Tables) (p : UInt8) (rest : List UInt8) (connected : Nat → Bool)
    (notified : Logged) (acked : Sent) :
    Turns (.packet (1 :: p :: rest) connected notified acked) t
      ((t.revoked maxClients p.toNat).seat p.toNat (text rest)) := by
  refine ⟨⟨[], (List.append_nil _).symm, by simp⟩, ?_⟩
  intro peer id h
  by_cases hpeer : peer = p.toNat
  · refine .inr ⟨p, rest, connected, notified, acked, rfl, hpeer.symm, ?_⟩
    rw [← h.admitted, hpeer]
    simp [Tables.seat]
  · have hfresh := h.fresh
    have hadmitted := h.admitted
    have hrevoked : Spends t (t.revoked maxClients p.toNat) := revoked_spends t p.toNat
    refine .inl (hrevoked.holds peer id ⟨h.named, ?_, ?_⟩)
    · rw [← hfresh]
      exact (Function.update_of_ne hpeer _ _).symm
    · rw [← hadmitted]
      exact (Function.update_of_ne hpeer _ _).symm

theorem dispatch_turns (t : Tables) (kind p : UInt8) (rest : List UInt8)
    (connected : Nat → Bool) (notified : Logged) (acked : Sent) :
    Ends (Turns (.packet (kind :: p :: rest) connected notified acked) t)
      (Turns (.packet (kind :: p :: rest) connected notified acked) t)
      (t.dispatch maxClients p.toNat ⟨kind, p, text rest⟩ connected notified acked) := by
  have hspends : ∀ {process : Process}, Ends (Spends t) (Spends t) process →
      Ends (Turns (.packet (kind :: p :: rest) connected notified acked) t)
        (Turns (.packet (kind :: p :: rest) connected notified acked) t) process :=
    fun h => h.both (fun _ h => h.turns _) fun _ h => h.turns _
  unfold Tables.dispatch
  split_ifs with hadmit hvalid
  · exact (Spends.refl t).turns _
  · rw [revoke_eq]
    have hkind : kind = 1 := hadmit.1
    subst hkind
    have hseated := @seat_turns maxClients t p rest connected notified acked
    cases acked with
    | whole =>
      exact ⟨hseated.lines, fun peer id h => hseated.holds peer id ⟨h.named, h.fresh, h.admitted⟩⟩
    | again => exact hseated
    | failed => exact hseated
  · refine hspends (Ends.bind (endLife_spends t p.toNat "" notified) fun t₁ hended => ?_)
    rw [revoke_eq]
    exact ack_spends (hended.trans (revoked_spends t₁ p.toNat)) _ acked
  · refine hspends ?_
    rw [revoke_eq]
    exact ack_spends (revoked_spends t p.toNat) _ acked
  · exact (Spends.refl t).turns _

/-- What an event makes of the admissions, whether the process goes on or exits. -/
theorem handle_turns (t : Tables) (event : Event) :
    Ends (Turns event t) (Turns event t) (t.handle maxClients event) := by
  cases event with
  | packet bytes connected notified acked =>
    show Ends _ _ (t.deliver maxClients bytes connected notified acked)
    match bytes with
    | [] => exact (Spends.refl t).turns _
    | [_] => exact (Spends.refl t).turns _
    | kind :: peer :: rest =>
      show Ends _ _ (t.receive maxClients ⟨kind, peer, text rest⟩ connected notified acked)
      unfold Tables.receive
      split_ifs
      · exact (Spends.refl t).turns _
      · exact dispatch_turns t kind peer rest connected notified acked
  | connect sender id drops slot =>
    show Ends _ _ (if t.admits sender id then t.join maxClients sender drops slot else .ok t)
    split_ifs
    · exact (join_spends t sender drops slot).both (fun _ h => h.turns _) fun _ h => h.turns _
    · exact (Spends.refl t).turns _
  | frag event notified =>
    exact (frag_spends t event notified).both (fun _ h => h.turns _) fun _ h => h.turns _
  | drop slot notified =>
    exact (disconnect_spends t slot notified).both (fun _ h => h.turns _) fun _ h => h.turns _

end

end QuakeJs.Engine
