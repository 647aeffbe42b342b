import QuakeJs.Engine.Admission

/-!
# Control packets

What one event does to the admissions, to the record of what was done to each
peer, and to the packets that the parent process gets.

* `Quiet`: lives may end, and nothing else happens.
* `Effect`: what an event does.  Only the packet of an admission, of a
  revocation or of a forfeiture is answered, and its answer is sent when it
  has been carried out.
* `Lost`: what is left when the process exits on an event.
-/

namespace QuakeJs.Engine

/-- The marks of `after` over those of `before`, each of which satisfies `N`. -/
def Marks (N : Mark → Prop) (before after : Tables) : Prop :=
  ∃ marks, after.trace = marks ++ before.trace ∧ ∀ mark ∈ marks, N mark

/-- The packets of `after` over those of `before`, each of which satisfies `N`. -/
def Tells (N : Packet → Prop) (before after : Tables) : Prop :=
  ∃ packets, after.sent = before.sent ++ packets ∧ ∀ packet ∈ packets, N packet

/-- The mark is not that of an admission. -/
def Mark.ends : Mark → Prop
  | .admitted .. => False
  | _ => True

/-- The event is a packet of kind 1, which asks for an admission. -/
def Event.asks : Event → Prop
  | .packet bytes .. => bytes.head? = some 1
  | _ => False

/-- The event is a control packet. -/
def Event.controls : Event → Prop
  | .packet bytes .. => bytes.head? = some 1 ∨ bytes.head? = some 3 ∨ bytes.head? = some 7
  | _ => False

/-- The packet acknowledges a control packet. -/
def Packet.isAck (packet : Packet) : Prop := packet.kind = 1 ∨ packet.kind = 3 ∨ packet.kind = 7

theorem Marks.of_eq {N : Mark → Prop} {t t' : Tables} (h : t'.trace = t.trace) : Marks N t t' :=
  ⟨[], by simp [h], by simp⟩

theorem Marks.one {N : Mark → Prop} {t t' : Tables} (mark : Mark) (h : t'.trace = mark :: t.trace)
    (hmark : N mark) : Marks N t t' :=
  ⟨[mark], by simp [h], by simpa using hmark⟩

theorem Marks.mono {N N' : Mark → Prop} {t t' : Tables} (h : Marks N t t')
    (hN : ∀ mark, N mark → N' mark) : Marks N' t t' := by
  obtain ⟨marks, heq, hmarks⟩ := h
  exact ⟨marks, heq, fun mark hmem => hN mark (hmarks mark hmem)⟩

theorem Marks.trans {N : Mark → Prop} {t₁ t₂ t₃ : Tables} (h : Marks N t₁ t₂)
    (h' : Marks N t₂ t₃) : Marks N t₁ t₃ := by
  obtain ⟨marks, heq, hmarks⟩ := h
  obtain ⟨marks', heq', hmarks'⟩ := h'
  refine ⟨marks' ++ marks, by simp [heq', heq], ?_⟩
  intro mark hmem
  cases List.mem_append.mp hmem with
  | inl hnew => exact hmarks' mark hnew
  | inr hold => exact hmarks mark hold

theorem Tells.of_eq {N : Packet → Prop} {t t' : Tables} (h : t'.sent = t.sent) : Tells N t t' :=
  ⟨[], by simp [h], by simp⟩

theorem Tells.one {N : Packet → Prop} {t t' : Tables} {packet : Packet}
    (h : t'.sent = t.sent ++ [packet]) (hpacket : N packet) : Tells N t t' :=
  ⟨[packet], h, by simpa using hpacket⟩

theorem Tells.trans {N : Packet → Prop} {t₁ t₂ t₃ : Tables} (h : Tells N t₁ t₂)
    (h' : Tells N t₂ t₃) : Tells N t₁ t₃ := by
  obtain ⟨packets, heq, hpackets⟩ := h
  obtain ⟨packets', heq', hpackets'⟩ := h'
  refine ⟨packets ++ packets', by simp [heq', heq], ?_⟩
  intro packet hmem
  cases List.mem_append.mp hmem with
  | inl hold => exact hpackets packet hold
  | inr hnew => exact hpackets' packet hnew

/-! ## Events that nobody acknowledges -/

/-- Lives may have ended.  The admissions stay, and no control packet is
acknowledged. -/
structure Quiet (t t' : Tables) : Prop where
  admissions : t'.admissions = t.admissions
  marks : Marks Mark.ends t t'
  tells : Tells (fun packet => ¬packet.isAck) t t'

theorem Quiet.refl (t : Tables) : Quiet t t := ⟨rfl, .of_eq rfl, .of_eq rfl⟩

theorem Quiet.trans {t₁ t₂ t₃ : Tables} (h : Quiet t₁ t₂) (h' : Quiet t₂ t₃) : Quiet t₁ t₃ :=
  ⟨h'.admissions.trans h.admissions, h.marks.trans h'.marks, h.tells.trans h'.tells⟩

/-- What is left when the process exits.  It acknowledged nothing, and it can
have admitted somebody only when it was asked to. -/
structure Lost (event : Event) (t t' : Tables) : Prop where
  marks : Marks (fun mark => mark.ends ∨ event.asks) t t'
  tells : Tells (fun packet => ¬packet.isAck) t t'
  admissions : event.controls ∨ t'.admissions = t.admissions

theorem Quiet.lost {t t' : Tables} (h : Quiet t t') (event : Event) : Lost event t t' :=
  ⟨h.marks.mono fun _ hends => .inl hends, h.tells, .inr h.admissions⟩

theorem Lost.trans {event : Event} {t₁ t₂ t₃ : Tables} (h : Lost event t₁ t₂)
    (h' : Lost event t₂ t₃) : Lost event t₁ t₃ := by
  refine ⟨h.marks.trans h'.marks, h.tells.trans h'.tells, ?_⟩
  rcases h.admissions with hcontrols | hsame
  · exact .inl hcontrols
  · exact h'.admissions.imp_right fun hsame' => hsame'.trans hsame

section

variable {maxClients : Nat} {t : Tables}

/-- A notification is not an acknowledgement. -/
theorem notify_quiet (t : Tables) (line : Line) (result : Logged) :
    Ends (Quiet t) (Quiet t) (t.notify line result) := by
  have hnote : ¬Packet.isAck { kind := 4, peer := 0, payload := line.render } := by
    simp [Packet.isAck]
  cases result with
  | whole => exact ⟨rfl, .of_eq rfl, .one rfl hnote⟩
  | again => exact Quiet.refl t
  | failed => exact Quiet.refl t
  | torn bytes => exact Quiet.refl t

theorem endLife_quiet (t : Tables) (peer : Nat) (killerId : String) (result : Logged) :
    Ends (Quiet t) (Quiet t) (t.endLife peer killerId result) := by
  have hspent : Quiet t (t.spent peer) := ⟨rfl, .of_eq rfl, .of_eq rfl⟩
  unfold Tables.endLife
  -- the text of the line is not to be computed
  generalize t.lineOf peer killerId = line
  split_ifs
  · exact Quiet.refl t
  · exact hspent
  · have hwrite : Ends (Quiet t) (Quiet t) ((t.spent peer).write peer line result) := by
      refine write_ends result hspent (fun _ _ => ⟨rfl, .of_eq rfl, .of_eq rfl⟩) fun _ => ?_
      have hmarks : Marks Mark.ends t ((t.spent peer).append peer line) :=
        .one (.journaled peer line) rfl trivial
      exact ⟨⟨rfl, hmarks, .of_eq rfl⟩, ⟨rfl, hmarks, .of_eq rfl⟩⟩
    refine Ends.bind hwrite fun t' hwritten => ?_
    exact (notify_quiet t' line result).both (fun _ h => hwritten.trans h)
      fun _ h => hwritten.trans h

theorem disconnect_quiet (t : Tables) (slot : Int) (result : Logged) :
    Ends (Quiet t) (Quiet t) (t.disconnect maxClients slot result) := by
  unfold Tables.disconnect
  split_ifs
  · exact endLife_quiet t _ _ result
  · exact Quiet.refl t

theorem frag_quiet (t : Tables) (event : Option (Int × Int)) (result : Logged) :
    Ends (Quiet t) (Quiet t) (t.frag maxClients event result) := by
  rcases event with _ | ⟨killer, victim⟩
  · exact Quiet.refl t
  · simp only [Tables.frag]
    split_ifs
    · exact Quiet.refl t
    · exact Quiet.refl t
    · exact endLife_quiet t _ _ result
    · exact endLife_quiet t _ _ result

/-- What went before may be counted in. -/
theorem Quiet.ends {t₁ : Tables} (h : Quiet t t₁) {process : Process}
    (hnext : Ends (Quiet t₁) (Quiet t₁) process) : Ends (Quiet t) (Quiet t) process := by
  cases process with
  | ok t' => exact h.trans hnext
  | error t' => exact h.trans hnext

theorem join_quiet (t : Tables) (sender : Address) (drops : List (Int × Logged))
    (slot : Option Int) : Ends (Quiet t) (Quiet t) (t.join maxClients sender drops slot) := by
  have hdrops : Ends (Quiet t) (Quiet t)
      (drops.foldlM (fun t drop => t.disconnect maxClients drop.1 drop.2) t) := by
    refine Ends.foldlM ?_ drops t (Quiet.refl t)
    exact fun t' drop hsofar => hsofar.ends (disconnect_quiet t' drop.1 drop.2)
  unfold Tables.join
  refine Ends.bind hdrops ?_
  intro t₁ hdropped
  cases slot with
  | none => exact hdropped
  | some slot =>
    show Ends (Quiet t) (Quiet t) (t₁.client maxClients slot sender)
    unfold Tables.client
    split_ifs
    · exact hdropped
    · exact hdropped.trans ⟨rfl, .of_eq rfl, .of_eq rfl⟩

end

/-! ## The packets -/

/-- What an event does. -/
inductive Effect (event : Event) (t t' : Tables) : Prop
  | quiet (h : Quiet t t')
  | seated (peer : UInt8) (id : List UInt8) (connected : Nat → Bool)
      (notified : Logged) (acked : Sent)
      (packet : event = .packet (1 :: peer :: id) connected notified acked)
      (admissions : t'.admissions = Function.update t.admissions peer.toNat (text id))
      (trace : t'.trace = .admitted peer.toNat (text id) :: .revoked peer.toNat :: t.trace)
      (sent : t'.sent = t.sent ++ [⟨1, peer, text id⟩])
  | revoked (kind peer : UInt8) (rest : List UInt8) (connected : Nat → Bool)
      (notified : Logged) (acked : Sent) (payload : String) (t₁ : Tables)
      (packet : event = .packet (kind :: peer :: rest) connected notified acked)
      (control : kind = 3 ∨ kind = 7) (ended : Quiet t t₁)
      (admissions : t'.admissions = Function.update t₁.admissions peer.toNat "")
      (trace : t'.trace = .revoked peer.toNat :: t₁.trace)
      (sent : t'.sent = t₁.sent ++ [⟨kind, peer, payload⟩])

/-- An acknowledgement is sent, or the process exits. -/
theorem ack_ends {P Q : Tables → Prop} {t : Tables} {packet : Packet} (result : Sent)
    (hsent : P { t with
      sent := t.sent ++ [packet] }) (hlost : Q t) : Ends P Q (t.ack packet result) := by
  cases result with
  | whole => exact hsent
  | again => exact hlost
  | failed => exact hlost

theorem revoked_lost (maxClients peer : Nat) (t : Tables) {event : Event} (h : event.controls) :
    Lost event t (t.revoked maxClients peer) :=
  ⟨.one (.revoked peer) rfl (.inl trivial), .of_eq rfl, .inl h⟩

theorem dispatch_effect (maxClients : Nat) (t : Tables) (kind peer : UInt8) (rest : List UInt8)
    (connected : Nat → Bool) (notified : Logged) (acked : Sent) :
    Ends (Effect (.packet (kind :: peer :: rest) connected notified acked) t)
      (Lost (.packet (kind :: peer :: rest) connected notified acked) t)
      (t.dispatch maxClients peer.toNat ⟨kind, peer, text rest⟩ connected notified acked) := by
  unfold Tables.dispatch
  split_ifs with hadmit hvalid hforfeit hrevoke
  · exact .quiet (Quiet.refl t)
  · rw [revoke_eq]
    have hkind : kind = 1 := hadmit.1
    subst hkind
    refine ack_ends acked (.seated peer rest connected notified acked rfl ?_ rfl rfl) ?_
    · show Function.update (Function.update t.admissions peer.toNat "") peer.toNat (text rest) = _
      rw [Function.update_idem]
    · have hcontrols : (Event.packet (1 :: peer :: rest) connected notified acked).controls :=
        Or.inl rfl
      refine (revoked_lost maxClients peer.toNat t hcontrols).trans
        ⟨?_, .of_eq rfl, .inl hcontrols⟩
      exact .one (.admitted peer.toNat (text rest)) rfl (.inr rfl)
  · have hcontrols : (Event.packet (kind :: peer :: rest) connected notified acked).controls :=
      Or.inr (Or.inr (congrArg some hforfeit.1))
    have hended := (endLife_quiet t peer.toNat "" notified).both (fun _ h => h)
      fun _ h => h.lost (.packet (kind :: peer :: rest) connected notified acked)
    refine Ends.bind hended ?_
    intro t₁ hended
    rw [revoke_eq]
    refine ack_ends acked (.revoked kind peer rest connected notified acked _ t₁ rfl
      (.inr hforfeit.1) hended rfl rfl rfl) ?_
    exact (hended.lost _).trans (revoked_lost maxClients peer.toNat t₁ hcontrols)
  · have hcontrols : (Event.packet (kind :: peer :: rest) connected notified acked).controls :=
      Or.inr (Or.inl (congrArg some hrevoke))
    rw [revoke_eq]
    refine ack_ends acked (.revoked kind peer rest connected notified acked _ t rfl
      (.inl hrevoke) (Quiet.refl t) rfl rfl rfl) ?_
    exact revoked_lost maxClients peer.toNat t hcontrols
  · exact .quiet (Quiet.refl t)

/-- What an event does to a process that goes on, and what it leaves of one
that exits. -/
theorem handle_effect (maxClients : Nat) (t : Tables) (event : Event) :
    Ends (Effect event t) (Lost event t) (t.handle maxClients event) := by
  cases event with
  | packet bytes connected notified acked =>
    show Ends _ _ (t.deliver maxClients bytes connected notified acked)
    match bytes with
    | [] => exact .quiet (Quiet.refl t)
    | [_] => exact .quiet (Quiet.refl t)
    | kind :: peer :: rest =>
      show Ends _ _ (t.receive maxClients ⟨kind, peer, text rest⟩ connected notified acked)
      unfold Tables.receive
      split_ifs
      · exact .quiet (Quiet.refl t)
      · exact dispatch_effect maxClients t kind peer rest connected notified acked
  | connect sender id drops slot =>
    show Ends _ _ (if t.admits sender id then t.join maxClients sender drops slot else .ok t)
    split_ifs
    · exact (join_quiet t sender drops slot).both (fun _ h => .quiet h) fun _ h => h.lost _
    · exact .quiet (Quiet.refl t)
  | frag event notified =>
    exact (frag_quiet t event notified).both (fun _ h => .quiet h) fun _ h => h.lost _
  | drop slot notified =>
    exact (disconnect_quiet t slot notified).both (fun _ h => .quiet h) fun _ h => h.lost _

/-! ## Peers that are revoked -/

/-- Nothing was done to the peer since it was revoked. -/
def Revoked (peer : Nat) (t : Tables) : Prop := latest peer t.trace = some (.revoked peer)

theorem Ordered.of_cons {mark : Mark} {trace : List Mark} (h : Ordered (mark :: trace)) :
    Ordered trace := by
  intro newer older peer line hsplit
  exact h (mark :: newer) older peer line (by simp [hsplit])

/-- No line follows a revocation before the next admission. -/
theorem Ordered.latest_ends {peer : Nat} {marks trace : List Mark}
    (h : Ordered (marks ++ trace)) (hmarks : ∀ mark ∈ marks, mark.ends)
    (hrevoked : latest peer trace = some (.revoked peer)) :
    latest peer (marks ++ trace) = some (.revoked peer) := by
  induction marks with
  | nil => exact hrevoked
  | cons mark marks ih =>
    have hrest := ih h.of_cons fun m hm => hmarks m (List.mem_cons_of_mem _ hm)
    have hends := hmarks mark List.mem_cons_self
    by_cases hpeer : mark.peer = peer
    · cases mark with
      | admitted peer' id => exact hends.elim
      | revoked peer' =>
        have hsame : peer' = peer := hpeer
        rw [hsame]
        exact latest_cons_self (.revoked peer) _
      | journaled peer' line =>
        have hsame : peer' = peer := hpeer
        have hadmitted := h [] (marks ++ trace) peer' line rfl
        rw [hsame, hrest] at hadmitted
        simp at hadmitted
    · rw [List.cons_append, latest_cons_of_ne hpeer]
      exact hrest

theorem Revoked.of_marks {t t' : Tables} {peer : Nat} (h : Revoked peer t)
    (hmarks : Marks Mark.ends t t') (hordered : Ordered t'.trace) : Revoked peer t' := by
  obtain ⟨marks, heq, hends⟩ := hmarks
  unfold Revoked
  rw [heq] at hordered ⊢
  exact hordered.latest_ends hends h

end QuakeJs.Engine
