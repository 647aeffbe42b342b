import QuakeJs.Engine.Native
import Mathlib.Data.List.Range
import Mathlib.Tactic.Common

/-!
# The admission table and the journal of the engine

What holds of the tables after any sequence of packets, connection attempts,
frags and drops, and at the exit of the process.

* `Bindings`: a bound client slot carries the admission of its peer, and no
  two slots are bound to one peer.
* `Chronicle`: the lines are numbered from 1, and the last thing done to a
  peer before a line is the admission of the line's victim.
* `Live`: what else holds while the process goes on, from which the next
  line will be written.

The loop of `Arena_Revoke` is taken apart once, in `revoke_eq`: a revoked peer
is already consumed when the loop starts, so the drops that it causes find
nothing left to journal.
-/

namespace QuakeJs.Engine

/-! ## Marks -/

/-- The peer that a mark is about. -/
def Mark.peer : Mark → Nat
  | .admitted peer _ => peer
  | .revoked peer => peer
  | .journaled peer _ => peer

/-- The line that a mark stands for. -/
def Mark.line? : Mark → Option Line
  | .journaled _ line => some line
  | _ => none

/-- The last thing done to a peer. -/
def latest (peer : Nat) (trace : List Mark) : Option Mark :=
  trace.find? fun mark => mark.peer = peer

theorem latest_cons_self (mark : Mark) (trace : List Mark) :
    latest mark.peer (mark :: trace) = some mark := by
  simp [latest]

theorem latest_cons_of_ne {mark : Mark} {peer : Nat} (h : mark.peer ≠ peer) (trace : List Mark) :
    latest peer (mark :: trace) = latest peer trace := by
  simp [latest, h]

/-- Before each line, the last thing done to its peer is the admission of its
victim.  So no second line follows for one admission, and none follows a
revocation before the next admission. -/
def Ordered (trace : List Mark) : Prop :=
  ∀ newer older peer line, trace = newer ++ .journaled peer line :: older →
    latest peer older = some (.admitted peer line.victim)

theorem Ordered.nil : Ordered [] := by
  intro newer older peer line h
  simp at h

theorem Ordered.cons {mark : Mark} {trace : List Mark} (h : Ordered trace)
    (hmark : ∀ peer line, mark = .journaled peer line →
      latest peer trace = some (.admitted peer line.victim)) : Ordered (mark :: trace) := by
  intro newer older peer line hsplit
  cases newer with
  | nil =>
    rw [List.nil_append, List.cons.injEq] at hsplit
    rw [← hsplit.2]
    exact hmark peer line hsplit.1
  | cons first newer =>
    rw [List.cons_append, List.cons.injEq] at hsplit
    exact h newer older peer line hsplit.2

/-! ## The invariants -/

/-- The journal against what was done. -/
structure Chronicle (t : Tables) : Prop where
  numbered : t.journal.map Line.sequence = List.range' 1 t.journal.length
  traced : t.trace.reverse.filterMap Mark.line? = t.journal
  ordered : Ordered t.trace

/-- Who holds which client slot. -/
structure Bindings (maxClients : Nat) (t : Tables) : Prop where
  free : ∀ slot, t.clientPeer slot = 0 → t.clients slot = ""
  held : ∀ slot, t.clientPeer slot ≠ 0 →
    slot < maxClients ∧ t.clients slot = t.admissions (t.clientPeer slot) ∧
      t.claimed (t.clientPeer slot) = true
  alone : ∀ slot slot', t.clientPeer slot ≠ 0 → t.clientPeer slot = t.clientPeer slot' →
    slot = slot'

/-- What holds of the tables, also at an exit. -/
structure Kept (maxClients : Nat) (t : Tables) : Prop where
  chronicle : Chronicle t
  bindings : Bindings maxClients t

/-- What holds of the tables while the process goes on. -/
structure Live (maxClients : Nat) (t : Tables) : Prop where
  kept : Kept maxClients t
  counted : t.sequence = t.journal.length
  admitted : ∀ peer, t.consumed peer = false → t.admissions peer ≠ "" →
    latest peer t.trace = some (.admitted peer (t.admissions peer))

theorem Live.initial (maxClients : Nat) : Live maxClients Tables.initial where
  kept :=
    { chronicle := { numbered := rfl, traced := rfl, ordered := Ordered.nil }
      bindings :=
        { free := fun _ _ => rfl
          held := fun _ h => absurd rfl h
          alone := fun _ _ h => absurd rfl h } }
  counted := rfl
  admitted := fun _ _ h => absurd rfl h

/-! ## Writing a line -/

theorem render_length_pos (line : Line) : 0 < line.render.length := by
  unfold Line.render
  simp only [String.length_append]
  have hopen : "\x7b\"sequence\":".length = 12 := by decide
  omega

/-- Every line takes at least a byte. -/
theorem length_le_journaled (t : Tables) : t.journal.length ≤ t.journaled := by
  unfold Tables.journaled
  induction t.journal with
  | nil => exact Nat.zero_le 0
  | cons line lines ih =>
    have hline := render_length_pos line
    simp only [List.map_cons, List.sum_cons, List.length_cons]
    omega

/-- A journal that has room for a line has room for its number. -/
theorem increment_length {t : Tables} {line : Line} (h : t.hasRoom line = true) :
    increment t.journal.length = t.journal.length + 1 := by
  unfold Tables.hasRoom at h
  have hlength := length_le_journaled t
  have hfits : t.journaled + line.render.length < 2 ^ 63 := of_decide_eq_true h
  show (t.journal.length + 1) % 2 ^ 64 = t.journal.length + 1
  have hroom : t.journal.length + 1 < 2 ^ 64 := by omega
  exact Nat.mod_eq_of_lt hroom

/-- A line that is not kept is torn, when some of it was written. -/
theorem write_ends {P Q : Tables → Prop} {t : Tables} {peer : Nat} {line : Line}
    (result : Logged) (hfull : Q t)
    (htorn : ∀ bytes < line.render.length, Q (t.tear line bytes))
    (hline : increment t.journal.length = t.journal.length + 1 →
      P (t.append peer line) ∧ Q (t.append peer line)) :
    Ends P Q (t.write peer line result) := by
  unfold Tables.write
  cases hroom : t.hasRoom line with
  | false => exact hfull
  | true =>
    have hkept := hline (increment_length hroom)
    -- the length is not to be computed
    generalize line.render.length = size at htorn ⊢
    cases result with
    | torn bytes =>
      by_cases hwhole : size ≤ bytes
      · simp only [if_pos hwhole]
        exact hkept.2
      · simp only [if_neg hwhole]
        exact htorn bytes (Nat.lt_of_not_le hwhole)
    | whole => exact hkept.1
    | again => exact hkept.1
    | failed => exact hkept.1

/-- The tables once the line is written and `packets` have been sent. -/
def Tables.recorded (peer : Nat) (killerId : String) (packets : List Packet) (t : Tables) :
    Tables :=
  { t.spent peer with
    journal := t.journal ++ [t.lineOf peer killerId]
    sent := packets
    trace := .journaled peer (t.lineOf peer killerId) :: t.trace }

/-- What is needed to know how `Arena_EndLife` ends: that the tables are as
before, or an exit before the write or in it, or a line, after which the
notification decides whether the process goes on. -/
theorem endLife_ends {P Q : Tables → Prop} {t : Tables} {peer : Nat} {killerId : String}
    (result : Logged) (hskip : P t)
    (hexit : t.consumed peer = false → t.admissions peer ≠ "" → Q (t.spent peer))
    (htorn : t.consumed peer = false → t.admissions peer ≠ "" →
      (t.lineOf peer killerId).render.length < 256 →
      ∀ bytes < (t.lineOf peer killerId).render.length,
        Q ((t.spent peer).tear (t.lineOf peer killerId) bytes))
    (hline : t.consumed peer = false → t.admissions peer ≠ "" →
      (t.lineOf peer killerId).render.length < 256 →
      increment t.journal.length = t.journal.length + 1 →
      ∀ packets, P (t.recorded peer killerId packets) ∧ Q (t.recorded peer killerId packets)) :
    Ends P Q (t.endLife peer killerId result) := by
  unfold Tables.endLife
  by_cases hguard : peer < 1 ∨ arenaPeers < peer ∨ t.consumed peer = true ∨ t.admissions peer = ""
  · rw [if_pos hguard]
    exact hskip
  · rw [if_neg hguard]
    have hconsumed : t.consumed peer = false := by
      by_contra h
      exact hguard (by simp [h])
    have hadmitted : t.admissions peer ≠ "" := by
      intro h
      exact hguard (by simp [h])
    have hrecorded : ∀ packets, t.recorded peer killerId packets =
        { (t.spent peer).append peer (t.lineOf peer killerId) with
          sent := packets } := fun _ => rfl
    simp only [hrecorded] at hline
    -- the text of the line is not to be computed
    generalize t.lineOf peer killerId = line at htorn hline ⊢
    by_cases hsize : 256 ≤ line.render.length
    · rw [if_pos hsize]
      exact hexit hconsumed hadmitted
    · rw [if_neg hsize]
      have hshort := Nat.lt_of_not_le hsize
      have hwrite : Ends (fun t' => t' = (t.spent peer).append peer line ∧
            increment t.journal.length = t.journal.length + 1) Q
          ((t.spent peer).write peer line result) :=
        write_ends result (hexit hconsumed hadmitted) (htorn hconsumed hadmitted hshort)
          fun hroom => ⟨⟨rfl, hroom⟩, (hline hconsumed hadmitted hshort hroom t.sent).2⟩
      refine Ends.bind hwrite ?_
      intro t' hwritten
      have hends := hline hconsumed hadmitted hshort hwritten.2
      rw [hwritten.1]
      cases result with
      | whole => exact (hends _).1
      | again => exact (hends _).1
      | failed => exact (hends _).2
      | torn bytes => exact (hends _).2

/-- A life that is over is not ended again. -/
theorem endLife_consumed {t : Tables} {peer : Nat} (h : t.consumed peer = true)
    (killerId : String) (result : Logged) : t.endLife peer killerId result = .ok t := by
  unfold Tables.endLife
  rw [if_pos (by simp [h])]

/-! ## Revoking a peer -/

/-- The tables when the slots of `peer` below `n` have been let go. -/
def Tables.unbound (peer n : Nat) (t : Tables) : Tables :=
  { t with
    clients := fun slot => if slot < n ∧ t.clientPeer slot = peer then "" else t.clients slot
    clientPeer := fun slot =>
      if slot < n ∧ t.clientPeer slot = peer then 0 else t.clientPeer slot }

/-- The tables once `Arena_Revoke` is done. -/
def Tables.revoked (maxClients peer : Nat) (t : Tables) : Tables :=
  Tables.unbound peer maxClients { t with
    consumed := Function.update t.consumed peer true
    admissions := Function.update t.admissions peer ""
    trace := .revoked peer :: t.trace }

/-- Letting one more slot go, when it belongs to the peer. -/
theorem unbound_succ_of_eq {t : Tables} {peer slot : Nat} (h : t.clientPeer slot = peer) :
    t.unbound peer (slot + 1) = { t.unbound peer slot with
      clients := Function.update (t.unbound peer slot).clients slot ""
      clientPeer := Function.update (t.unbound peer slot).clientPeer slot 0 } := by
  have hnext : ∀ s, s ≠ slot → (s < slot + 1 ↔ s < slot) := by omega
  unfold Tables.unbound
  congr 1
  · funext s
    by_cases hs : s = slot
    · rw [hs, Function.update_self, if_pos ⟨Nat.lt_succ_self slot, h⟩]
    · rw [Function.update_of_ne hs]
      exact if_congr (and_congr (hnext s hs) Iff.rfl) rfl rfl
  · funext s
    by_cases hs : s = slot
    · rw [hs, Function.update_self, if_pos ⟨Nat.lt_succ_self slot, h⟩]
    · rw [Function.update_of_ne hs]
      exact if_congr (and_congr (hnext s hs) Iff.rfl) rfl rfl

/-- Letting one more slot go, when it does not belong to the peer. -/
theorem unbound_succ_of_ne {t : Tables} {peer slot : Nat} (h : t.clientPeer slot ≠ peer) :
    t.unbound peer (slot + 1) = t.unbound peer slot := by
  have hnext : ∀ s, (s < slot + 1 ∧ t.clientPeer s = peer) =
    (s < slot ∧ t.clientPeer s = peer) := by
    intro s
    refine propext ⟨?_, ?_⟩
    · rintro ⟨hs, hp⟩
      have hne : s ≠ slot := fun heq => h (heq ▸ hp)
      exact ⟨by omega, hp⟩
    · rintro ⟨hs, hp⟩
      exact ⟨by omega, hp⟩
  unfold Tables.unbound
  simp only [hnext]

/-- One turn of the loop moves the bound by one.  The client that is dropped
belongs to a life that is already over, so the drop writes nothing. -/
theorem unbind_unbound (maxClients peer slot : Nat) (connected : Nat → Bool) {t : Tables}
    (h : t.consumed peer = true) :
    (t.unbound peer slot).unbind maxClients peer connected slot =
      .ok (t.unbound peer (slot + 1)) := by
  have hclient : (t.unbound peer slot).clientPeer slot = t.clientPeer slot := by
    simp [Tables.unbound]
  have hdrop : t.clientPeer slot = peer →
      (t.unbound peer slot).dropClient maxClients connected slot = .ok (t.unbound peer slot) := by
    intro hbound
    have hover : (t.unbound peer slot).consumed peer = true := h
    unfold Tables.dropClient Tables.disconnect
    rw [Int.toNat_natCast, hclient, hbound, endLife_consumed hover]
    split_ifs <;> rfl
  unfold Tables.unbind
  by_cases hbound : t.clientPeer slot = peer
  · rw [if_pos (hclient.trans hbound), hdrop hbound, unbound_succ_of_eq hbound]
    rfl
  · rw [if_neg (fun hp => hbound (hclient.symm.trans hp)), unbound_succ_of_ne hbound]

/-- `Arena_Revoke` neither exits nor journals. -/
theorem revoke_eq (maxClients peer : Nat) (connected : Nat → Bool) (t : Tables) :
    t.revoke maxClients peer connected = .ok (t.revoked maxClients peer) := by
  have hloop : ∀ (n : Nat) (t : Tables), t.consumed peer = true →
      (List.range n).foldlM (fun t slot => t.unbind maxClients peer connected slot) t =
        .ok (t.unbound peer n) := by
    intro n t ht
    induction n with
    | zero => simp [Tables.unbound, pure, Except.pure]
    | succ n ih =>
      rw [List.range_succ, List.foldlM_append, ih]
      show ((t.unbound peer n).unbind maxClients peer connected n >>= pure) = _
      rw [unbind_unbound maxClients peer n connected ht]
      rfl
  exact hloop maxClients _ (by simp)

/-! ## What each change keeps -/

section

variable {maxClients : Nat} {t : Tables}

/-- The journal and what was done are all that a chronicle is about. -/
theorem Chronicle.of_eq {t' : Tables} (h : Chronicle t) (hjournal : t'.journal = t.journal)
    (htrace : t'.trace = t.trace) : Chronicle t' where
  numbered := by rw [hjournal]; exact h.numbered
  traced := by rw [hjournal, htrace]; exact h.traced
  ordered := by rw [htrace]; exact h.ordered

/-- A mark that is not a line leaves the chronicle as it is. -/
theorem Chronicle.mark {t' : Tables} (h : Chronicle t) (mark : Mark)
    (hjournal : t'.journal = t.journal) (htrace : t'.trace = mark :: t.trace)
    (hmark : mark.line? = none) : Chronicle t' where
  numbered := by rw [hjournal]; exact h.numbered
  traced := by
    rw [hjournal, htrace, List.reverse_cons, List.filterMap_append, h.traced]
    simp [hmark]
  ordered := by
    rw [htrace]
    refine h.ordered.cons ?_
    rintro peer line rfl
    exact absurd hmark (by simp [Mark.line?])

theorem Live.spent (h : Live maxClients t) (peer : Nat) : Kept maxClients (t.spent peer) where
  chronicle := h.kept.chronicle.of_eq rfl rfl
  bindings := ⟨h.kept.bindings.free, h.kept.bindings.held, h.kept.bindings.alone⟩

theorem Live.tear (h : Live maxClients t) (peer : Nat) (line : Line) (bytes : Nat) :
    Kept maxClients ((t.spent peer).tear line bytes) where
  chronicle := h.kept.chronicle.of_eq rfl rfl
  bindings := ⟨h.kept.bindings.free, h.kept.bindings.held, h.kept.bindings.alone⟩

/-- A line for an admission that is not consumed is numbered next, and the
admission is the last thing that was done to its peer. -/
theorem Live.recorded (h : Live maxClients t) {peer : Nat} (killerId : String)
    (hconsumed : t.consumed peer = false) (hadmitted : t.admissions peer ≠ "")
    (hroom : increment t.journal.length = t.journal.length + 1) (packets : List Packet) :
    Live maxClients (t.recorded peer killerId packets) where
  kept :=
    { chronicle :=
        { numbered := by
            have hnumber : (t.lineOf peer killerId).sequence = t.journal.length + 1 := by
              show increment t.sequence = _
              rw [h.counted, hroom]
            show (t.journal ++ [t.lineOf peer killerId]).map Line.sequence =
              List.range' 1 (t.journal ++ [t.lineOf peer killerId]).length
            rw [List.map_append, h.kept.chronicle.numbered, List.length_append]
            show _ = List.range' 1 (t.journal.length + 1)
            rw [List.range'_concat]
            simp [hnumber, Nat.add_comm]
          traced := by
            show (Mark.journaled peer (t.lineOf peer killerId) :: t.trace).reverse.filterMap
              Mark.line? = t.journal ++ [t.lineOf peer killerId]
            rw [List.reverse_cons, List.filterMap_append, h.kept.chronicle.traced]
            rfl
          ordered := by
            refine h.kept.chronicle.ordered.cons ?_
            intro peer' line hmark
            rw [Mark.journaled.injEq] at hmark
            rw [← hmark.1, ← hmark.2]
            exact h.admitted peer hconsumed hadmitted }
      bindings := ⟨h.kept.bindings.free, h.kept.bindings.held, h.kept.bindings.alone⟩ }
  counted := by
    show increment t.sequence = (t.journal ++ [t.lineOf peer killerId]).length
    rw [h.counted, hroom]
    simp
  admitted := by
    intro peer' hlive hid
    have hconsumed' : Function.update t.consumed peer true peer' = false := hlive
    have hne : peer' ≠ peer := by
      rintro rfl
      simp at hconsumed'
    rw [Function.update_of_ne hne] at hconsumed'
    show latest peer' (Mark.journaled peer (t.lineOf peer killerId) :: t.trace) = _
    rw [latest_cons_of_ne (show (Mark.journaled peer _).peer ≠ peer' from hne.symm)]
    exact h.admitted peer' hconsumed' hid

/-- After a revocation no slot is bound to the peer. -/
theorem Bindings.revoked_ne (h : Bindings maxClients t) {peer : Nat} (hpeer : peer ≠ 0)
    (slot : Nat) : (t.revoked maxClients peer).clientPeer slot ≠ peer := by
  show (if slot < maxClients ∧ t.clientPeer slot = peer then 0 else t.clientPeer slot) ≠ peer
  split_ifs with hslot
  · exact hpeer.symm
  · intro hbound
    have hheld := h.held slot (hbound ▸ hpeer)
    exact hslot ⟨hheld.1, hbound⟩

theorem Bindings.revoked (h : Bindings maxClients t) (peer : Nat) :
    Bindings maxClients (t.revoked maxClients peer) where
  free := by
    intro slot
    show (if slot < maxClients ∧ t.clientPeer slot = peer then 0 else t.clientPeer slot) = 0 →
      (if slot < maxClients ∧ t.clientPeer slot = peer then "" else t.clients slot) = ""
    split_ifs with hslot
    · exact fun _ => rfl
    · exact h.free slot
  held := by
    intro slot
    show (if slot < maxClients ∧ t.clientPeer slot = peer then 0 else t.clientPeer slot) ≠ 0 →
      slot < maxClients ∧
        (if slot < maxClients ∧ t.clientPeer slot = peer then "" else t.clients slot) =
          Function.update t.admissions peer ""
            (if slot < maxClients ∧ t.clientPeer slot = peer then 0 else t.clientPeer slot) ∧
        t.claimed (if slot < maxClients ∧ t.clientPeer slot = peer then 0 else t.clientPeer slot)
          = true
    split_ifs with hslot
    · exact fun habsurd => absurd rfl habsurd
    · intro hbound
      have hheld := h.held slot hbound
      have hne : t.clientPeer slot ≠ peer := fun hp => hslot ⟨hheld.1, hp⟩
      rw [Function.update_of_ne hne]
      exact hheld
  alone := by
    intro slot slot'
    show (if slot < maxClients ∧ t.clientPeer slot = peer then 0 else t.clientPeer slot) ≠ 0 →
      (if slot < maxClients ∧ t.clientPeer slot = peer then 0 else t.clientPeer slot) =
        (if slot' < maxClients ∧ t.clientPeer slot' = peer then 0 else t.clientPeer slot') →
      slot = slot'
    split_ifs with hslot hslot'
    · exact fun habsurd => absurd rfl habsurd
    · exact fun habsurd => absurd rfl habsurd
    · exact fun hbound hzero => absurd hzero hbound
    · exact h.alone slot slot'

theorem Live.revoked (h : Live maxClients t) (peer : Nat) :
    Live maxClients (t.revoked maxClients peer) where
  kept :=
    { chronicle := h.kept.chronicle.mark (.revoked peer) rfl rfl rfl
      bindings := h.kept.bindings.revoked peer }
  counted := h.counted
  admitted := by
    intro peer' hlive hid
    have hconsumed : Function.update t.consumed peer true peer' = false := hlive
    have hadmitted : Function.update t.admissions peer "" peer' ≠ "" := hid
    have hne : peer' ≠ peer := by
      rintro rfl
      simp at hconsumed
    rw [Function.update_of_ne hne] at hconsumed hadmitted
    show latest peer' (Mark.revoked peer :: t.trace) =
      some (.admitted peer' (Function.update t.admissions peer "" peer'))
    rw [latest_cons_of_ne (show (Mark.revoked peer).peer ≠ peer' from hne.symm),
      Function.update_of_ne hne]
    exact h.admitted peer' hconsumed hadmitted

/-- An admission starts over for a peer to which no slot is bound. -/
theorem Live.seat (h : Live maxClients t) {peer : Nat}
    (hunbound : ∀ slot, t.clientPeer slot ≠ peer) (id : String) :
    Live maxClients (t.seat peer id) where
  kept :=
    { chronicle := h.kept.chronicle.mark (.admitted peer id) rfl rfl rfl
      bindings :=
        { free := h.kept.bindings.free
          held := by
            intro slot hbound
            show slot < maxClients ∧
              t.clients slot = Function.update t.admissions peer id (t.clientPeer slot) ∧
                Function.update t.claimed peer false (t.clientPeer slot) = true
            rw [Function.update_of_ne (hunbound slot), Function.update_of_ne (hunbound slot)]
            exact h.kept.bindings.held slot hbound
          alone := h.kept.bindings.alone } }
  counted := h.counted
  admitted := by
    intro peer' hlive hid
    show latest peer' (Mark.admitted peer id :: t.trace) =
      some (.admitted peer' (Function.update t.admissions peer id peer'))
    by_cases hpeer : peer' = peer
    · subst hpeer
      rw [Function.update_self]
      exact latest_cons_self (.admitted peer' id) t.trace
    · have hconsumed : Function.update t.consumed peer false peer' = false := hlive
      have hadmitted : Function.update t.admissions peer id peer' ≠ "" := hid
      rw [Function.update_of_ne hpeer] at hconsumed hadmitted
      rw [latest_cons_of_ne (show (Mark.admitted peer id).peer ≠ peer' from Ne.symm hpeer),
        Function.update_of_ne hpeer]
      exact h.admitted peer' hconsumed hadmitted

/-- A slot may be bound to a peer that nobody has claimed yet. -/
theorem Bindings.client (h : Bindings maxClients t) {slot peer : Nat} (hslot : slot < maxClients)
    (hpeer : peer ≠ 0) (hclaimed : t.claimed peer = false) :
    Bindings maxClients { t with
      clients := Function.update t.clients slot (t.admissions peer)
      clientPeer := Function.update t.clientPeer slot peer
      claimed := Function.update t.claimed peer true } := by
  have hunbound : ∀ s, t.clientPeer s ≠ peer := by
    intro s hs
    have hheld := h.held s (hs ▸ hpeer)
    rw [hs, hclaimed] at hheld
    exact Bool.noConfusion hheld.2.2
  refine ⟨?_, ?_, ?_⟩
  · intro s
    show Function.update t.clientPeer slot peer s = 0 →
      Function.update t.clients slot (t.admissions peer) s = ""
    by_cases hs : s = slot
    · subst hs
      rw [Function.update_self]
      exact fun hzero => absurd hzero hpeer
    · rw [Function.update_of_ne hs, Function.update_of_ne hs]
      exact h.free s
  · intro s
    show Function.update t.clientPeer slot peer s ≠ 0 → s < maxClients ∧
      Function.update t.clients slot (t.admissions peer) s =
        t.admissions (Function.update t.clientPeer slot peer s) ∧
      Function.update t.claimed peer true (Function.update t.clientPeer slot peer s) = true
    by_cases hs : s = slot
    · subst hs
      rw [Function.update_self, Function.update_self, Function.update_self]
      exact fun _ => ⟨hslot, rfl, rfl⟩
    · rw [Function.update_of_ne hs, Function.update_of_ne hs, Function.update_of_ne (hunbound s)]
      exact h.held s
  · intro s s'
    show Function.update t.clientPeer slot peer s ≠ 0 →
      Function.update t.clientPeer slot peer s = Function.update
        t.clientPeer slot peer s' → s = s'
    by_cases hs : s = slot <;> by_cases hs' : s' = slot
    · exact fun _ _ => hs.trans hs'.symm
    · subst hs
      rw [Function.update_self, Function.update_of_ne hs']
      exact fun _ heq => absurd heq.symm (hunbound s')
    · subst hs'
      rw [Function.update_self, Function.update_of_ne hs]
      exact fun _ heq => absurd heq (hunbound s)
    · rw [Function.update_of_ne hs, Function.update_of_ne hs']
      exact h.alone s s'

end

/-! ## What an event writes -/

/-- The lines that `after` has over `before`, each of which satisfies `N`. -/
def Extends (N : Line → Prop) (before after : Tables) : Prop :=
  ∃ lines, after.journal = before.journal ++ lines ∧ ∀ line ∈ lines, N line

theorem Extends.of_eq {N : Line → Prop} {before after : Tables}
    (h : after.journal = before.journal) : Extends N before after :=
  ⟨[], by rw [h, List.append_nil], by simp⟩

theorem Extends.trans {N : Line → Prop} {t₁ t₂ t₃ : Tables} (h : Extends N t₁ t₂)
    (h' : Extends N t₂ t₃) : Extends N t₁ t₃ := by
  obtain ⟨lines, heq, hlines⟩ := h
  obtain ⟨lines', heq', hlines'⟩ := h'
  refine ⟨lines ++ lines', by rw [heq', heq, List.append_assoc], ?_⟩
  intro line hline
  rcases List.mem_append.mp hline with hold | hnew
  · exact hlines line hold
  · exact hlines' line hnew

/-- The process goes on. -/
structure Onward (maxClients : Nat) (N : Line → Prop) (before after : Tables) : Prop where
  live : Live maxClients after
  written : Extends N before after

/-- The process has exited. -/
structure Halted (maxClients : Nat) (N : Line → Prop) (before after : Tables) : Prop where
  kept : Kept maxClients after
  written : Extends N before after

theorem Onward.refl {maxClients : Nat} {N : Line → Prop} {t : Tables} (h : Live maxClients t) :
    Onward maxClients N t t :=
  ⟨h, Extends.of_eq rfl⟩

theorem Onward.halted {maxClients : Nat} {N : Line → Prop} {t t' : Tables}
    (h : Onward maxClients N t t') : Halted maxClients N t t' :=
  ⟨h.live.kept, h.written⟩

/-- How a process that was at `before` may end up. -/
abbrev Proceeds (maxClients : Nat) (N : Line → Prop) (before : Tables) (process : Process) :
    Prop :=
  Ends (Onward maxClients N before) (Halted maxClients N before) process

section

variable {maxClients : Nat} {N : Line → Prop} {t₀ t : Tables}

/-- What went before may be counted in. -/
theorem Onward.proceeds (h : Onward maxClients N t₀ t) (process : Process)
    (hnext : Proceeds maxClients N t process) : Proceeds maxClients N t₀ process := by
  cases process with
  | ok t' => exact ⟨hnext.live, h.written.trans hnext.written⟩
  | error t' => exact ⟨hnext.kept, h.written.trans hnext.written⟩

/-- `Arena_EndLife` also leaves the claims as they are. -/
theorem endLife_proceeds (h : Live maxClients t) {peer : Nat} {killerId : String}
    (result : Logged)
    (hline : t.admissions peer ≠ "" → N (t.lineOf peer killerId)) :
    Ends (fun t' => Onward maxClients N t t' ∧ t'.claimed = t.claimed) (Halted maxClients N t)
      (t.endLife peer killerId result) := by
  refine endLife_ends result ⟨Onward.refl h, rfl⟩ ?_ ?_ ?_
  · exact fun _ _ => ⟨h.spent peer, Extends.of_eq rfl⟩
  · exact fun _ _ _ bytes _ => ⟨h.tear peer _ bytes, Extends.of_eq rfl⟩
  · intro hconsumed hadmitted _ hroom packets
    have hwritten : Extends N t (t.recorded peer killerId packets) := by
      refine ⟨[t.lineOf peer killerId], rfl, ?_⟩
      intro line hmem
      rw [List.mem_singleton.mp hmem]
      exact hline hadmitted
    have hlive := h.recorded killerId hconsumed hadmitted hroom packets
    exact ⟨⟨⟨hlive, hwritten⟩, rfl⟩, ⟨hlive.kept, hwritten⟩⟩

theorem disconnect_proceeds (h : Live maxClients t) (slot : Int) (result : Logged)
    (hline : ∀ peer, t.admissions peer ≠ "" → N (t.lineOf peer "")) :
    Ends (fun t' => Onward maxClients N t t' ∧ t'.claimed = t.claimed) (Halted maxClients N t)
      (t.disconnect maxClients slot result) := by
  unfold Tables.disconnect
  split_ifs
  · exact endLife_proceeds h result (hline _)
  · exact ⟨Onward.refl h, rfl⟩

theorem ack_proceeds (h : Live maxClients t) (packet : Packet) (result : Sent) :
    Proceeds maxClients N t (t.ack packet result) := by
  have hsent : Live maxClients { t with
      sent := t.sent ++ [packet] } :=
    { kept :=
        { chronicle := h.kept.chronicle.of_eq rfl rfl
          bindings := ⟨h.kept.bindings.free, h.kept.bindings.held, h.kept.bindings.alone⟩ }
      counted := h.counted
      admitted := h.admitted }
  cases result with
  | whole => exact ⟨hsent, Extends.of_eq rfl⟩
  | again => exact (Onward.refl h).halted
  | failed => exact (Onward.refl h).halted

theorem revoke_proceeds (h : Live maxClients t) (peer : Nat) (connected : Nat → Bool) :
    Proceeds maxClients N t (t.revoke maxClients peer connected) := by
  rw [revoke_eq]
  exact ⟨h.revoked peer, Extends.of_eq rfl⟩

/-- Every line that a packet causes ends the life that its peer was admitted for. -/
theorem dispatch_proceeds (h : Live maxClients t) {peer : Nat} (hpeer : peer ≠ 0)
    (packet : Packet) (connected : Nat → Bool) (notified : Logged) (acked : Sent)
    (hline : t.admissions peer ≠ "" → N (t.lineOf peer "")) :
    Proceeds maxClients N t (t.dispatch maxClients peer packet connected notified acked) := by
  unfold Tables.dispatch
  split_ifs with hadmit hvalid hforfeit hrevoke
  · exact Onward.refl h
  · rw [revoke_eq]
    have hlive := (h.revoked peer).seat (h.kept.bindings.revoked_ne hpeer) packet.payload
    have hstart : Onward maxClients N t _ := ⟨hlive, Extends.of_eq rfl⟩
    exact hstart.proceeds _ (ack_proceeds hlive packet acked)
  · refine Ends.bind (endLife_proceeds h notified hline) ?_
    intro t₁ hended
    refine Ends.bind (hended.1.proceeds _ (revoke_proceeds hended.1.live peer connected)) ?_
    intro t₂ hrevoked
    exact hrevoked.proceeds _ (ack_proceeds hrevoked.live packet acked)
  · refine Ends.bind (revoke_proceeds h peer connected) ?_
    intro t₁ hrevoked
    exact hrevoked.proceeds _ (ack_proceeds hrevoked.live _ acked)
  · exact Onward.refl h

theorem receive_proceeds (h : Live maxClients t) (packet : Packet) (connected : Nat → Bool)
    (notified : Logged) (acked : Sent)
    (hline : ∀ peer, t.admissions peer ≠ "" → N (t.lineOf peer "")) :
    Proceeds maxClients N t (t.receive maxClients packet connected notified acked) := by
  unfold Tables.receive
  split_ifs with hrange
  · exact Onward.refl h
  · exact dispatch_proceeds h (by omega) packet connected notified acked (hline _)

theorem deliver_proceeds (h : Live maxClients t) (bytes : List UInt8) (connected : Nat → Bool)
    (notified : Logged) (acked : Sent) (hline : ∀ peer,
      t.admissions peer ≠ "" → N (t.lineOf peer "")) :
    Proceeds maxClients N t (t.deliver maxClients bytes connected notified acked) := by
  unfold Tables.deliver
  cases Packet.ofBytes bytes with
  | none => exact Onward.refl h
  | some packet => exact receive_proceeds h packet connected notified acked hline

/-- A peer that was admitted is still unclaimed when the slot is given out,
since dropping clients claims nothing. -/
theorem join_proceeds (h : Live maxClients t) {sender : Address} {id : String}
    (hadmits : t.admits sender id = true) (drops : List (Int × Logged)) (slot : Option Int)
    (hline : ∀ sequence victim, victim ≠ "" → N ⟨sequence, "", victim⟩) :
    Proceeds maxClients N t (t.join maxClients sender drops slot) := by
  have hclaimed : t.claimed (peerOf sender) = false := by
    unfold Tables.admits at hadmits
    simp only [Bool.and_eq_true, Bool.not_eq_true'] at hadmits
    exact hadmits.1.1.2
  have hdrops : Ends (fun t' => Onward maxClients N t t' ∧ t'.claimed = t.claimed)
      (Halted maxClients N t)
      (drops.foldlM (fun t drop => t.disconnect maxClients drop.1 drop.2) t) := by
    refine Ends.foldlM ?_ drops t ⟨Onward.refl h, rfl⟩
    intro t' drop hsofar
    have hdrop := disconnect_proceeds (N := N) hsofar.1.live drop.1 drop.2
      (fun peer hid => hline _ _ hid)
    cases hnext : t'.disconnect maxClients drop.1 drop.2 with
    | ok t'' =>
      rw [hnext] at hdrop
      exact ⟨hsofar.1.proceeds (.ok t'') hdrop.1, hdrop.2.trans hsofar.2⟩
    | error t'' =>
      rw [hnext] at hdrop
      exact hsofar.1.proceeds (.error t'') hdrop
  unfold Tables.join
  refine Ends.bind hdrops ?_
  intro t₁ hdropped
  cases slot with
  | none => exact hdropped.1
  | some slot =>
    show Proceeds maxClients N t (t₁.client maxClients slot sender)
    unfold Tables.client
    split_ifs with hfatal
    · exact hdropped.1.halted
    · have hslot : slot.toNat < maxClients := by omega
      have hpeer : peerOf sender ≠ 0 := fun hzero => hfatal (.inr (.inr hzero))
      have hfree : t₁.claimed (peerOf sender) = false := by rw [hdropped.2, hclaimed]
      have hlive := hdropped.1.live
      refine ⟨⟨⟨hlive.kept.chronicle.of_eq rfl rfl, ?_⟩, hlive.counted, hlive.admitted⟩, ?_⟩
      · exact hlive.kept.bindings.client hslot hpeer hfree
      · exact hdropped.1.written.trans (Extends.of_eq rfl)

end

/-! ## The killer of a line -/

/-- No two peers are admitted with one id. -/
def Unshared (t : Tables) : Prop :=
  ∀ peer peer', peer ≠ peer' → t.admissions peer ≠ "" → t.admissions peer ≠ t.admissions peer'

/-- The killer that a line written on `event` may name: nobody, or whoever
holds the killer's slot, and never the victim. -/
structure Named (maxClients : Nat) (t : Tables) (event : Event) (line : Line) : Prop where
  killer : line.killer = "" ∨ ∃ killer victim notified,
    event = .frag (some (killer, victim)) notified ∧ 0 ≤ killer ∧ killer < maxClients ∧
      line.killer = t.clients killer.toNat
  other : Unshared t → line.killer ≠ line.victim

/-- A line without a killer is always in order, since its victim is somebody. -/
theorem Named.nobody {maxClients : Nat} {t : Tables} {event : Event} {sequence : Nat}
    {victim : String} (h : victim ≠ "") : Named maxClients t event ⟨sequence, "", victim⟩ :=
  ⟨.inl rfl, fun _ => h.symm⟩

/-- The slots of the killer and the victim differ, so their peers do. -/
theorem frag_proceeds {maxClients : Nat} {t : Tables} (h : Live maxClients t)
    (event : Option (Int × Int)) (notified : Logged) :
    Proceeds maxClients (Named maxClients t (.frag event notified)) t
      (t.frag maxClients event notified) := by
  rcases event with _ | ⟨killer, victim⟩
  · exact Onward.refl h
  · simp only [Tables.frag]
    split_ifs with hrange hbound hkiller
    · exact Onward.refl h
    · exact Onward.refl h
    · refine (endLife_proceeds h notified ?_).mono fun t' hended => hended.1
      intro hadmitted
      refine ⟨.inr ⟨killer, victim, notified, rfl, hkiller.1, hkiller.2.1, rfl⟩, ?_⟩
      intro hunshared
      show t.clients killer.toNat ≠ t.admissions (t.clientPeer victim.toNat)
      by_cases hfree : t.clientPeer killer.toNat = 0
      · rw [h.kept.bindings.free killer.toNat hfree]
        exact hadmitted.symm
      · rw [(h.kept.bindings.held killer.toNat hfree).2.1]
        have hslots : killer.toNat ≠ victim.toNat := by omega
        have hpeers : t.clientPeer victim.toNat ≠ t.clientPeer killer.toNat := by
          intro hsame
          exact hslots (h.kept.bindings.alone _ _ hfree hsame.symm)
        exact (hunshared _ _ hpeers hadmitted).symm
    · refine (endLife_proceeds h notified ?_).mono fun t' hended => hended.1
      exact fun hadmitted => Named.nobody hadmitted

/-! ## Runs of the process -/

theorem handle_proceeds {maxClients : Nat} {t : Tables} (h : Live maxClients t) (event : Event) :
    Proceeds maxClients (Named maxClients t event) t (t.handle maxClients event) := by
  cases event with
  | packet bytes connected notified acked =>
    exact deliver_proceeds h bytes connected notified acked fun _ hid => Named.nobody hid
  | connect sender id drops slot =>
    show Proceeds maxClients _ t
      (if t.admits sender id then t.join maxClients sender drops slot else .ok t)
    split_ifs with hadmits
    · exact join_proceeds h hadmits drops slot fun _ _ hid => Named.nobody hid
    · exact Onward.refl h
  | frag event notified => exact frag_proceeds h event notified
  | drop slot notified =>
    refine (disconnect_proceeds h slot notified ?_).mono fun t' hended => hended.1
    exact fun _ hid => Named.nobody hid

theorem run_concat (maxClients : Nat) (events : List Event) (event : Event) :
    run maxClients (events ++ [event]) =
      run maxClients events >>= fun t => t.handle maxClients event := by
  show (events ++ [event]).foldlM (fun t event => t.handle maxClients event) Tables.initial = _
  rw [List.foldlM_append]
  cases h : events.foldlM (fun t event => t.handle maxClients event) Tables.initial with
  | error t => simp [run, h, bind, Except.bind]
  | ok t =>
    simp only [run, h]
    show (t.handle maxClients event >>= pure) = t.handle maxClients event
    cases t.handle maxClients event <;> rfl

theorem run_ends (maxClients : Nat) (events : List Event) :
    Ends (Live maxClients) (Kept maxClients) (run maxClients events) := by
  refine Ends.foldlM ?_ events Tables.initial (Live.initial maxClients)
  intro t event hlive
  have hstep := handle_proceeds hlive event
  cases hnext : t.handle maxClients event with
  | ok t' =>
    rw [hnext] at hstep
    exact hstep.live
  | error t' =>
    rw [hnext] at hstep
    exact hstep.kept

theorem run_kept (maxClients : Nat) (events : List Event) :
    Kept maxClients (tables (run maxClients events)) := by
  have hends := run_ends maxClients events
  cases hrun : run maxClients events with
  | ok t =>
    rw [hrun] at hends
    exact hends.kept
  | error t =>
    rw [hrun] at hends
    exact hends

/-- What one more event writes. -/
theorem run_extends (maxClients : Nat) (events : List Event) (event : Event) :
    Extends (Named maxClients (tables (run maxClients events)) event)
      (tables (run maxClients events)) (tables (run maxClients (events ++ [event]))) := by
  have hends := run_ends maxClients events
  rw [run_concat]
  cases hrun : run maxClients events with
  | error t => exact Extends.of_eq rfl
  | ok t =>
    rw [hrun] at hends
    have hstep := handle_proceeds hends event
    show Extends _ t (tables (t.handle maxClients event))
    cases hnext : t.handle maxClients event with
    | ok t' =>
      rw [hnext] at hstep
      exact hstep.written
    | error t' =>
      rw [hnext] at hstep
      exact hstep.written

/-- After any events the lines are numbered 1, 2, …, n.  Each was written while
its victim was the admission of its peer, so there is at most one for an
admission and none between a revocation and the next admission.  A bound slot
carries the admission of its peer and shares the peer with no other slot, and
the lines of the next event name as killer nobody or the holder of the
killer's slot, who is not the victim. -/
theorem admission_table (maxClients : Nat) (events : List Event) :
    let t := tables (run maxClients events)
    t.journal.map Line.sequence = List.range' 1 t.journal.length ∧
    t.trace.reverse.filterMap Mark.line? = t.journal ∧ Ordered t.trace ∧
    (∀ slot, t.clientPeer slot ≠ 0 → t.clients slot = t.admissions (t.clientPeer slot)) ∧
    (∀ slot slot', t.clientPeer slot ≠ 0 → t.clientPeer slot = t.clientPeer slot' →
      slot = slot') ∧
    ∀ event, Extends (Named maxClients t event) t
      (tables (run maxClients (events ++ [event]))) := by
  have hkept := run_kept maxClients events
  refine ⟨hkept.chronicle.numbered, hkept.chronicle.traced, hkept.chronicle.ordered, ?_,
    hkept.bindings.alone, run_extends maxClients events⟩
  intro slot hbound
  exact (hkept.bindings.held slot hbound).2.1

/-- An admission, a connection to slot 3, a suicide, and a forfeiture that
finds nothing left to end. -/
example :
    (tables (run 8
      [.packet (1 :: 5 :: List.replicate 48 97) (fun _ => false) .whole .whole,
        .connect ⟨true, (127, 0, 0, 5)⟩ (text (List.replicate 48 97)) [] (some 3),
        .frag (some (3, 3)) .whole,
        .packet [7, 5] (fun slot => slot = 3) .whole .whole])).journal =
      [⟨1, "", text (List.replicate 48 97)⟩] := by
  decide +kernel

end QuakeJs.Engine
