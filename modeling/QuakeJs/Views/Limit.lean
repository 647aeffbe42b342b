import Mathlib.Algebra.Order.Ring.Rat
import Mathlib.Data.List.AList
import Mathlib.Data.List.Induction
import Mathlib.Data.List.TakeWhile
import Mathlib.Tactic.Linarith

/-!
# `limit` of `views.py`

The rate limiter keeps one bucket of times for each key.  Buckets are made
shorter only when their key calls, and stale ones are evicted in bulk when
there are many keys.  The tables of the last section say what it is for: a
call is accepted when fewer than `maximum` calls were accepted in the period
that ends with it.

* `limit`: one call.
* `Log.step`: one call, with the calls that were accepted so far.
* `Exact`: which of the accepted calls a bucket still holds.
-/

namespace QuakeJs.Views

structure PublicError where
  message : String
deriving DecidableEq, Repr

/-! ## The limiter -/

section

variable {κ : Type}

/-- `limits`: the times of the accepted calls, the oldest first. -/
abbrev Limits (κ : Type) := AList fun _ : κ => List ℚ

def Limits.size (limits : Limits κ) : Nat := limits.entries.length

theorem Limits.size_eq (limits : Limits κ) : limits.size = limits.keys.length :=
  (List.length_map _).symm

/-- No time, or the last one more than 600 seconds ago. -/
def stale (current : ℚ) (bucket : List ℚ) : Bool :=
  match bucket.getLast? with
  | none => true
  | some last => last < current - 600

/-- The loop over all candidates. -/
def evict (current : ℚ) (limits : Limits κ) : Limits κ where
  entries := limits.entries.filter fun entry => !stale current entry.2
  nodupKeys := limits.nodupKeys.sublist List.filter_sublist

theorem size_evict (current : ℚ) (limits : Limits κ) :
    (evict current limits).size ≤ limits.size :=
  List.length_filter_le _ _

variable [DecidableEq κ]

/-- The bucket of the key, and a new one when there is none. -/
def room (key : κ) (current : ℚ) (limits : Limits κ) : Except PublicError (List ℚ) × Limits κ :=
  match limits.lookup key with
  | some bucket => (.ok bucket, limits)
  | none =>
    if 4096 ≤ limits.size then
      let limits := evict current limits
      if 8192 ≤ limits.size then (.error ⟨"Server busy. Please retry shortly."⟩, limits)
      else (.ok [], limits.insert key [])
    else (.ok [], limits.insert key [])

/-- `limit`, at the time `current`.  The table stays as it is when it raises. -/
def limit (key : κ) (maximum : Nat) (period current : ℚ) (limits : Limits κ) :
    Except PublicError Unit × Limits κ :=
  match room key current limits with
  | (.error e, limits) => (.error e, limits)
  | (.ok bucket, limits) =>
    let bucket := bucket.dropWhile fun time => time < current - period
    if maximum ≤ bucket.length then
      (.error ⟨"Too many requests. Please wait before retrying."⟩, limits.insert key bucket)
    else (.ok (), limits.insert key (bucket ++ [current]))

/-! ## Runs -/

structure Rule where
  maximum : Nat
  period : ℚ

structure Call (κ : Type) where
  key : κ
  time : ℚ
deriving DecidableEq

/-- The table, and the calls that were accepted. -/
structure Log (κ : Type) where
  limits : Limits κ
  accepted : List (Call κ)

/-- What a call does. -/
def Log.limit (rules : κ → Rule) (log : Log κ) (call : Call κ) :
    Except PublicError Unit × Limits κ :=
  Views.limit call.key (rules call.key).maximum (rules call.key).period call.time log.limits

def Log.step (rules : κ → Rule) (log : Log κ) (call : Call κ) : Log κ :=
  match log.limit rules call with
  | (.ok (), limits) => ⟨limits, log.accepted ++ [call]⟩
  | (.error _, limits) => ⟨limits, log.accepted⟩

/-- The log after some calls. -/
def run (rules : κ → Rule) (calls : List (Call κ)) : Log κ := calls.foldl (Log.step rules) ⟨∅, []⟩

/-- The calls of the key in the closed window of this period that ends now. -/
def within (accepted : List (Call κ)) (key : κ) (period now : ℚ) : Nat :=
  accepted.countP fun call => call.key = key && now - period ≤ call.time && call.time ≤ now

/-- There is no bucket for the key, and no room for one. -/
def busy (key : κ) (current : ℚ) (limits : Limits κ) : Bool :=
  (limits.lookup key).isNone && 8192 ≤ (evict current limits).size

/-- What the limiter is for. -/
def Log.window (rules : κ → Rule) (log : Log κ) (call : Call κ) : Except PublicError Unit :=
  if busy call.key call.time log.limits then .error ⟨"Server busy. Please retry shortly."⟩
  else if within log.accepted call.key (rules call.key).period call.time <
    (rules call.key).maximum then .ok ()
  else .error ⟨"Too many requests. Please wait before retrying."⟩

/-! ## What a table holds -/

def bucket (limits : Limits κ) (key : κ) : List ℚ := (limits.lookup key).getD []

theorem size_insert_of_mem {limits : Limits κ} {key : κ} (h : key ∈ limits) (times : List ℚ) :
    Limits.size (limits.insert key times) = limits.size := by
  have hmem : key ∈ limits.keys := h
  have hpos := List.length_pos_of_mem hmem
  rw [Limits.size_eq, Limits.size_eq, AList.keys_insert, List.length_cons,
    List.length_erase_of_mem hmem]
  omega

theorem size_insert_le (limits : Limits κ) (key : κ) (times : List ℚ) :
    Limits.size (limits.insert key times) ≤ limits.size + 1 := by
  rw [Limits.size_eq, Limits.size_eq, AList.keys_insert, List.length_cons]
  have hle := (List.erase_sublist (a := key) (l := limits.keys)).length_le
  omega

theorem bucket_insert (limits : Limits κ) (key : κ) (times : List ℚ) (other : κ) :
    bucket (limits.insert key times) other = if other = key
      then times else bucket limits other := by
  unfold bucket
  by_cases h : other = key
  · subst h
    simp
  · rw [AList.lookup_insert_ne h, if_neg h]

theorem lookup_evict {current : ℚ} {limits : Limits κ} {key : κ} {times : List ℚ} :
    (evict current limits).lookup key = some times ↔
      limits.lookup key = some times ∧ stale current times = false := by
  rw [← Option.mem_def, ← Option.mem_def, AList.mem_lookup_iff, AList.mem_lookup_iff]
  simp [evict]

/-- Eviction empties stale buckets only. -/
theorem bucket_evict (current : ℚ) (limits : Limits κ) (key : κ) :
    bucket (evict current limits) key = bucket limits key ∨
      (bucket (evict current limits) key = [] ∧ stale current (bucket limits key) = true) := by
  unfold bucket
  cases hlookup : limits.lookup key with
  | none =>
    left
    cases hevicted : (evict current limits).lookup key with
    | none => rfl
    | some times =>
      rw [(lookup_evict.mp hevicted).1] at hlookup
      cases hlookup
  | some times =>
    cases hstale : stale current times with
    | false =>
      left
      rw [lookup_evict.mpr ⟨hlookup, hstale⟩]
    | true =>
      right
      refine ⟨?_, hstale⟩
      cases hevicted : (evict current limits).lookup key with
      | none => rfl
      | some times' =>
        have hboth := lookup_evict.mp hevicted
        have hsame : times = times' := Option.some.inj (hlookup.symm.trans hboth.1)
        rw [hsame, hboth.2] at hstale
        cases hstale

/-- A call finds its bucket, gets a new one, or finds no room for one. -/
theorem room_cases (key : κ) (current : ℚ) (limits : Limits κ) :
    (busy key current limits = true ∧
      room key current limits = (.error ⟨"Server busy. Please retry shortly."⟩,
        evict current limits)) ∨
    (busy key current limits = false ∧ ∃ times, limits.lookup key = some times ∧
      room key current limits = (.ok times, limits)) ∨
    (busy key current limits = false ∧ ∃ table, (table = limits ∨ table = evict current limits) ∧
      table.lookup key = none ∧ table.size < 8192 ∧
      room key current limits = (.ok [], table.insert key [])) := by
  unfold room busy
  cases hlookup : limits.lookup key with
  | some times =>
    right
    left
    exact ⟨by simp, times, rfl, rfl⟩
  | none =>
    have hle := size_evict current limits
    by_cases hmany : 4096 ≤ limits.size
    · by_cases hfull : 8192 ≤ (evict current limits).size
      · left
        simp [hmany, hfull]
      · right
        right
        have hevicted : (evict current limits).lookup key = none := by
          cases hsome : (evict current limits).lookup key with
          | none => rfl
          | some times => simp [(lookup_evict.mp hsome).1] at hlookup
        refine ⟨by simp [hfull], evict current limits, .inr rfl, hevicted, by omega, ?_⟩
        simp [hmany, hfull]
    · right
      right
      refine ⟨by simp; omega, limits, .inl rfl, hlookup, by omega, ?_⟩
      simp [hmany]

/-! ## Sorted times -/

theorem dropWhile_eq_filter {times : List ℚ} (h : times.Pairwise (· ≤ ·)) (start : ℚ) :
    (times.dropWhile fun time => time < start) = times.filter fun time => start ≤ time := by
  induction times with
  | nil => rfl
  | cons time times ih =>
    rw [List.pairwise_cons] at h
    by_cases hold : time < start
    · rw [List.dropWhile_cons_of_pos (by simpa using hold), ih h.2,
        List.filter_cons_of_neg (by simpa using hold)]
    · have hall : ∀ later ∈ time :: times, start ≤ later := by
        intro later hlater
        cases List.mem_cons.mp hlater with
        | inl heq =>
          rw [heq]
          exact not_lt.mp hold
        | inr hmem => exact (not_lt.mp hold).trans (h.1 later hmem)
      rw [List.dropWhile_cons_of_neg (by simpa using hold)]
      exact (List.filter_eq_self.mpr fun later hlater => by simpa using hall later hlater).symm

/-- All times of a stale bucket are more than 600 seconds old. -/
theorem old_of_stale {current : ℚ} {times : List ℚ} (hsorted : times.Pairwise (· ≤ ·))
    (hstale : stale current times = true) : ∀ time ∈ times, time < current - 600 := by
  intro time htime
  induction times using List.reverseRecOn with
  | nil => cases htime
  | append_singleton times last _ =>
    have hlast : last < current - 600 := by simpa [stale] using hstale
    rw [List.pairwise_append] at hsorted
    cases List.mem_append.mp htime with
    | inl hmem => exact (hsorted.2.2 time hmem last List.mem_cons_self).trans_lt hlast
    | inr heq =>
      rw [List.mem_singleton.mp heq]
      exact hlast

/-! ## The accepted calls -/

/-- The times of the accepted calls of a key. -/
def times (accepted : List (Call κ)) (key : κ) : List ℚ :=
  (accepted.filter fun call => call.key = key).map Call.time

theorem within_eq (accepted : List (Call κ)) (key : κ) (period now : ℚ) :
    within accepted key period now =
      (times accepted key).countP fun time => now - period ≤ time && time ≤ now := by
  unfold within times
  rw [List.countP_map, List.countP_filter]
  congr 1
  funext call
  simp [Bool.and_assoc, Bool.and_comm]

theorem times_concat (accepted : List (Call κ)) (call : Call κ) (key : κ) :
    times (accepted ++ [call]) key =
      if call.key = key then times accepted key ++ [call.time] else times accepted key := by
  unfold times
  rw [List.filter_append, List.map_append]
  by_cases h : call.key = key <;> simp [h]

theorem times_sorted {accepted : List (Call κ)}
    (h : accepted.Pairwise fun call call' => call.time ≤ call'.time) (key : κ) :
    (times accepted key).Pairwise (· ≤ ·) :=
  List.pairwise_map.mpr (h.sublist List.filter_sublist)

/-- A bucket holds the accepted calls of its key, up to some that are out of
the period of the key by now. -/
def Exact (rules : κ → Rule) (now : ℚ) (log : Log κ) : Prop :=
  ∀ key, ∃ old, times log.accepted key = old ++ bucket log.limits key ∧
    ∀ time ∈ old, time < now - (rules key).period

variable {rules : κ → Rule} {now : ℚ} {log : Log κ}

theorem Exact.mono (h : Exact rules now log) {later : ℚ} (hle : now ≤ later) :
    Exact rules later log := by
  intro key
  obtain ⟨old, htimes, hold⟩ := h key
  refine ⟨old, htimes, fun time htime => ?_⟩
  have := hold time htime
  linarith

/-- The bucket of one key changes, and no other. -/
theorem Exact.insert (h : Exact rules now log) {key : κ} {accepted : List (Call κ)} {new : List ℚ}
    (hothers : ∀ other ≠ key, times accepted other = times log.accepted other)
    (hnew : ∃ old, times accepted key = old ++ new ∧ ∀ time ∈ old,
      time < now - (rules key).period) :
    Exact rules now ⟨log.limits.insert key new, accepted⟩ := by
  intro other
  rw [bucket_insert]
  by_cases hother : other = key
  · rw [if_pos hother, hother]
    exact hnew
  · rw [if_neg hother, hothers other hother]
    exact h other

theorem Exact.evict (hperiod : ∀ key, (rules key).period ≤ 600)
    (hsorted : log.accepted.Pairwise fun call call' => call.time ≤ call'.time)
    (h : Exact rules now log) : Exact rules now ⟨evict now log.limits, log.accepted⟩ := by
  intro key
  obtain ⟨old, htimes, hold⟩ := h key
  rcases bucket_evict now log.limits key with hsame | ⟨hempty, hstale⟩
  · exact ⟨old, by rw [hsame]; exact htimes, hold⟩
  · refine ⟨times log.accepted key, by rw [hempty, List.append_nil], fun time htime => ?_⟩
    rw [htimes] at htime
    cases List.mem_append.mp htime with
    | inl hmem => exact hold time hmem
    | inr hmem =>
      have hbucket : (bucket log.limits key).Pairwise (· ≤ ·) := by
        have hall := times_sorted hsorted key
        rw [htimes] at hall
        exact (List.pairwise_append.mp hall).2.1
      have := old_of_stale hbucket hstale time hmem
      have := hperiod key
      linarith

/-- What is left of a bucket is as much as was accepted in the period. -/
theorem Exact.length (h : Exact rules now log)
    (hsorted : log.accepted.Pairwise fun call call' => call.time ≤ call'.time)
    (hpast : ∀ call ∈ log.accepted, call.time ≤ now) (key : κ) :
    ((bucket log.limits key).dropWhile fun time => time < now - (rules key).period).length =
      within log.accepted key (rules key).period now := by
  obtain ⟨old, htimes, hold⟩ := h key
  have hall := times_sorted hsorted key
  have hle : ∀ time ∈ times log.accepted key, time ≤ now := by
    intro time htime
    obtain ⟨call, hcall, rfl⟩ := List.mem_map.mp htime
    exact hpast call (List.mem_filter.mp hcall).1
  rw [htimes] at hall hle
  rw [dropWhile_eq_filter (List.pairwise_append.mp hall).2.1,
    within_eq, htimes, List.countP_append,
    ← List.countP_eq_length_filter]
  have hnone : (old.countP fun time => now - (rules key).period ≤ time && time ≤ now) = 0 := by
    rw [List.countP_eq_zero]
    intro time htime hin
    have hstart : now - (rules key).period ≤ time :=
      of_decide_eq_true (Bool.and_eq_true_iff.mp hin).1
    exact absurd (hold time htime) (not_lt.mpr hstart)
  rw [hnone, Nat.zero_add]
  refine List.countP_congr fun time htime => ?_
  simp [hle time (List.mem_append_right old htime)]

/-! ## One call, and any number of them -/

/-- What holds of the log at the time `now`. -/
structure Sound (rules : κ → Rule) (now : ℚ) (log : Log κ) : Prop where
  ordered : log.accepted.Pairwise fun call call' => call.time ≤ call'.time
  past : ∀ call ∈ log.accepted, call.time ≤ now
  exact : Exact rules now log
  small : log.limits.size ≤ 8192
  limited : ∀ key time, within log.accepted key (rules key).period time ≤ (rules key).maximum

theorem sound_empty (rules : κ → Rule) (now : ℚ) : Sound rules now ⟨∅, []⟩ where
  ordered := List.Pairwise.nil
  past := by simp
  exact key := ⟨[], by simp [times, bucket], by simp⟩
  small := Nat.zero_le _
  limited _ _ := Nat.zero_le _

theorem Sound.mono (h : Sound rules now log) {later : ℚ} (hle : now ≤ later) :
    Sound rules later log :=
  { h with
    past := fun call hcall => (h.past call hcall).trans hle
    exact := h.exact.mono hle }

theorem Sound.evict (hperiod : ∀ key, (rules key).period ≤ 600) (h : Sound rules now log) :
    Sound rules now ⟨Views.evict now log.limits, log.accepted⟩ :=
  { h with
    exact := h.exact.evict hperiod h.ordered
    small := (size_evict now log.limits).trans h.small }

/-- One more call of a key makes the count of its window larger by one. -/
theorem within_concat (accepted : List (Call κ)) (call : Call κ) (key : κ) (period time : ℚ) :
    within (accepted ++ [call]) key period time = within accepted key period time +
      if call.key = key ∧ time - period ≤ call.time ∧ call.time ≤ time then 1 else 0 := by
  unfold within
  rw [List.countP_append, List.countP_singleton]
  simp [and_assoc]

/-- A call is accepted below the maximum, so no window exceeds it. -/
theorem Sound.accept (h : Sound rules now log) {call : Call κ} (hnow : call.time = now)
    (hbelow : within log.accepted call.key (rules call.key).period call.time <
      (rules call.key).maximum) (key : κ) (time : ℚ) :
    within (log.accepted ++ [call]) key (rules key).period time ≤ (rules key).maximum := by
  rw [within_concat]
  split
  case isFalse => exact h.limited key time
  case isTrue hin =>
    obtain ⟨rfl, hstart, hend⟩ := hin
    have hle : within log.accepted call.key (rules call.key).period time ≤
        within log.accepted call.key (rules call.key).period call.time := by
      refine List.countP_mono_left fun earlier hearlier hmem => ?_
      have hpast := h.past earlier hearlier
      simp only [Bool.and_eq_true, decide_eq_true_eq] at hmem ⊢
      refine ⟨⟨hmem.1.1, ?_⟩, hnow ▸ hpast⟩
      have := hmem.1.2
      linarith
    omega

/-- Only the buckets matter, and an empty one is as good as none. -/
theorem Sound.congr (h : Sound rules now log) {limits : Limits κ}
    (hbucket : ∀ key, bucket limits key = bucket log.limits key) (hsmall : limits.size ≤ 8192) :
    Sound rules now ⟨limits, log.accepted⟩ where
  ordered := h.ordered
  past := h.past
  exact key := by
    obtain ⟨old, htimes, hold⟩ := h.exact key
    exact ⟨old, by rw [hbucket]; exact htimes, hold⟩
  small := hsmall
  limited := h.limited

/-- The old times of a bucket go when its key calls. -/
theorem Sound.drop (h : Sound rules now log) {key : κ} (hmem : key ∈ log.limits) :
    Sound rules now ⟨log.limits.insert key ((bucket log.limits key).dropWhile fun time =>
      time < now - (rules key).period), log.accepted⟩ where
  ordered := h.ordered
  past := h.past
  exact := by
    apply h.exact.insert fun _ _ => rfl
    obtain ⟨old, htimes, hold⟩ := h.exact key
    let early := (bucket log.limits key).takeWhile fun time => time < now - (rules key).period
    refine ⟨old ++ early, by rw [List.append_assoc, List.takeWhile_append_dropWhile, htimes], ?_⟩
    intro time htime
    cases List.mem_append.mp htime with
    | inl hin => exact hold time hin
    | inr hin => simpa using List.mem_takeWhile_imp hin
  small := by
    show Limits.size _ ≤ 8192
    rw [size_insert_of_mem hmem]
    exact h.small
  limited := h.limited

/-- The time of an accepted call goes to the end of its bucket. -/
theorem Sound.push (h : Sound rules now log) {call : Call κ} (hnow : call.time = now)
    (hmem : call.key ∈ log.limits)
    (hbelow : within log.accepted call.key (rules call.key).period call.time <
      (rules call.key).maximum) :
    Sound rules now ⟨log.limits.insert call.key (bucket log.limits call.key ++ [call.time]),
      log.accepted ++ [call]⟩ where
  ordered := by
    rw [List.pairwise_append]
    refine ⟨h.ordered, List.pairwise_singleton _ _, fun earlier hearlier later hlater => ?_⟩
    rw [List.mem_singleton.mp hlater, hnow]
    exact h.past earlier hearlier
  past := by
    intro earlier hearlier
    cases List.mem_append.mp hearlier with
    | inl hin => exact h.past earlier hin
    | inr heq => exact (congrArg Call.time (List.mem_singleton.mp heq)).trans hnow |>.le
  exact := by
    apply h.exact.insert
    · intro other hother
      rw [times_concat, if_neg (Ne.symm hother)]
    · obtain ⟨old, htimes, hold⟩ := h.exact call.key
      exact ⟨old, by rw [times_concat, if_pos rfl, htimes, List.append_assoc], hold⟩
  small := by
    show Limits.size _ ≤ 8192
    rw [size_insert_of_mem hmem]
    exact h.small
  limited := h.accept hnow hbelow

/-- With a bucket for its key, a call is accepted as the window says. -/
theorem Sound.call (h : Sound rules now log) {call : Call κ} (hnow : call.time = now)
    {table : Limits κ} (hfree : busy call.key call.time log.limits = false)
    (hroom : room call.key call.time log.limits = (.ok (bucket table call.key), table))
    (hmem : call.key ∈ table) (htable : Sound rules now ⟨table, log.accepted⟩) :
    (log.limit rules call).1 = log.window rules call ∧ Sound rules now (log.step rules call) := by
  have hlength := htable.exact.length h.ordered h.past call.key
  have hdrop := htable.drop hmem
  subst hnow
  unfold Log.step Log.limit Log.window Views.limit
  simp only [hroom, hfree, hlength, Bool.false_eq_true, if_false]
  by_cases hbelow : within log.accepted call.key (rules call.key).period call.time <
    (rules call.key).maximum
  · have hpush := hdrop.push (show call.time = call.time from rfl) (by simp) hbelow
    rw [if_pos hbelow, if_neg (Nat.not_le.mpr hbelow)]
    refine ⟨rfl, ?_⟩
    simpa [bucket_insert, AList.insert_insert] using hpush
  · rw [if_neg hbelow, if_pos (Nat.not_lt.mp hbelow)]
    exact ⟨rfl, hdrop⟩

/-- A step that is not too early keeps the log sound, and does what the window says. -/
theorem Sound.step (hperiod : ∀ key, (rules key).period ≤ 600) (h : Sound rules now log)
    {call : Call κ} (hle : now ≤ call.time) :
    (log.limit rules call).1 = log.window rules call ∧
      Sound rules call.time (log.step rules call) := by
  have hnow := h.mono hle
  have hevicted := hnow.evict hperiod
  rcases room_cases call.key call.time log.limits with
    ⟨hbusy, hroom⟩ | ⟨hfree, times, hlookup, hroom⟩ | ⟨hfree, table, htable, hnone, hsize, hroom⟩
  · unfold Log.step Log.limit Log.window Views.limit
    simp only [hroom, hbusy, if_true]
    exact ⟨trivial, hevicted⟩
  · have htimes : bucket log.limits call.key = times := by simp [bucket, hlookup]
    rw [← htimes] at hroom
    have hmem : call.key ∈ log.limits := AList.lookup_isSome.mp (by simp [hlookup])
    exact hnow.call rfl hfree hroom hmem hnow
  · have hsound : Sound rules call.time ⟨table, log.accepted⟩ := by
      cases htable with
      | inl heq => exact heq ▸ hnow
      | inr heq => exact heq ▸ hevicted
    have hnew := size_insert_le table call.key []
    have hinsert : Sound rules call.time ⟨table.insert call.key [], log.accepted⟩ := by
      refine hsound.congr (fun key => ?_) (by omega)
      rw [bucket_insert]
      by_cases hkey : key = call.key
      · rw [if_pos hkey, hkey]
        simp [bucket, hnone]
      · rw [if_neg hkey]
    refine hnow.call rfl hfree ?_ (by simp) hinsert
    rw [hroom, bucket_insert, if_pos rfl]

/-- The log is sound after any calls in order. -/
theorem sound_run (hperiod : ∀ key, (rules key).period ≤ 600) {calls : List (Call κ)}
    (hordered : calls.Pairwise fun call call' => call.time ≤ call'.time) {now : ℚ}
    (hpast : ∀ call ∈ calls, call.time ≤ now) : Sound rules now (run rules calls) := by
  induction calls using List.reverseRecOn generalizing now with
  | nil => exact sound_empty rules now
  | append_singleton calls call ih =>
    rw [List.pairwise_append] at hordered
    have hbefore : Sound rules call.time (run rules calls) :=
      ih hordered.1 fun earlier hearlier => hordered.2.2 earlier hearlier call List.mem_cons_self
    have hstep := (hbefore.step hperiod le_rfl).2
    unfold run
    rw [List.foldl_append]
    exact hstep.mono (hpast call (List.mem_append_right calls List.mem_cons_self))

omit [DecidableEq κ] in
theorem exists_after (calls : List (Call κ)) : ∃ now, ∀ call ∈ calls, call.time ≤ now := by
  induction calls with
  | nil => exact ⟨0, by simp⟩
  | cons call calls ih =>
    obtain ⟨now, hnow⟩ := ih
    refine ⟨max call.time now, fun later hlater => ?_⟩
    cases List.mem_cons.mp hlater with
    | inl heq => exact heq ▸ le_max_left _ _
    | inr hmem => exact (hnow later hmem).trans (le_max_right _ _)

/-- The limiter is a sliding window of the accepted calls, and its table is bounded. -/
theorem limit_sliding (rules : κ → Rule) (hperiod : ∀ key, (rules key).period ≤ 600)
    (calls : List (Call κ)) (hordered : calls.Pairwise fun call call' => call.time ≤ call'.time) :
    (run rules calls).limits.size ≤ 8192 ∧
    (∀ key now, within (run rules calls).accepted key (rules key).period now ≤
      (rules key).maximum) ∧
    ∀ call : Call κ, (∀ earlier ∈ calls, earlier.time ≤ call.time) →
      ((run rules calls).limit rules call).1 = (run rules calls).window rules call := by
  have hsound : ∀ now, (∀ call ∈ calls, call.time ≤ now) → Sound rules now (run rules calls) :=
    fun now hpast => sound_run hperiod hordered hpast
  obtain ⟨now, hnow⟩ := exists_after calls
  refine ⟨(hsound now hnow).small, (hsound now hnow).limited, fun call hcall => ?_⟩
  exact ((hsound call.time hcall).step hperiod le_rfl).1

end

/-- Of three calls in a minute two are accepted, and a fourth when the first
is out of the window. -/
theorem limit_twice :
    let calls : List (Call Nat) := [⟨0, 0⟩, ⟨0, 20⟩, ⟨0, 60⟩]
    (run (fun _ => ⟨2, 60⟩) calls).limits.size ≤ 8192 ∧
      ((run (fun _ => ⟨2, 60⟩) calls).limit (fun _ => ⟨2, 60⟩) ⟨0, 61⟩).1 = .ok () := by
  intro calls
  have hsliding := limit_sliding (fun _ => ⟨2, 60⟩) (fun _ => by norm_num) calls (by decide)
  have hevaluates : busy 0 61 (run (fun _ => ⟨2, 60⟩) calls).limits = false ∧
      within (run (fun _ => ⟨2, 60⟩) calls).accepted 0 60 61 < 2 := by decide +kernel
  refine ⟨hsliding.1, (hsliding.2.2 ⟨0, 61⟩ (by decide)).trans ?_⟩
  unfold Log.window
  rw [hevaluates.1, if_neg Bool.false_ne_true, if_pos hevaluates.2]

end QuakeJs.Views
