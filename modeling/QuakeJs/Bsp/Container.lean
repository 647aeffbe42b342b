import QuakeJs.Bsp.LogoMaps

/-!
# The container of a map

A map is a directory of 17 ranges and the parts that they hold.  `lumps` reads
any such file.  `brand_map` writes the parts one after the other, each filled
up to a multiple of four bytes, and writes where they are.

* `places` and `bodies`: what the loop of `brand_map` writes.
* `written`: the loop writes them, or raises when a place does not fit.
* `lumps_written`: they are read back.
* `LaidOut`: how the ranges lie in a file that was written.
-/

namespace QuakeJs.Bsp

open Struct

theorem rows_ok_iff {ρ : Type} {l : Layout ρ} {b : Bytes} {xs : List ρ} :
    rows l b = .ok xs ↔ records l b = some xs := orRaise_ok_iff _ _ _

theorem exact_entry : (pair int int).Exact := exact_int.pair exact_int

/-- The end of `brandMap`: the map with these parts. -/
def assemble (data : Bytes) (parts : List Bytes) : Except Error Bytes := do
  let (header, body, _) ← parts.foldlM writePart (slice data 0 8, [], 144)
  pure (header ++ body)

theorem brandMap_eq {α : Type} [Number α] (data : Bytes) (placements : List (Placement α)) :
    brandMap data placements = (do
      require ((placements.map Placement.logo).insertionSort (· ≤ ·) =
        ["bitfest", "bitfest", "lnbits", "lnbits"])
        (.valueError "Each map must contain exactly two copies of each logo.")
      let parts ← lumps data
      require (contains (utf8 "textures/quakejs_logos/") (← part parts 1) = false)
        (.valueError "Apply logos to the original map, not an already branded BSP.")
      let (parts, insertion) ← appendDecals parts placements
      let parts ← linkLeaves parts placements insertion
      assemble data parts) := rfl

/-- The bytes that fill a part up. -/
def padding (part : Bytes) : Bytes := List.replicate ((-(part.length : Int) % 4).toNat) 0

theorem length_padding (part : Bytes) :
    ((padding part).length : Int) = -(part.length : Int) % 4 := by
  unfold padding
  rw [List.length_replicate]
  omega

/-- The offset and the length of each part. -/
def places : Nat → List Bytes → List (Int × Int)
  | _, [] => []
  | offset, part :: parts =>
    ((offset : Int), (part.length : Int)) :: places
      (offset + part.length + (padding part).length) parts

def bodies : List Bytes → Bytes
  | [] => []
  | part :: parts => part ++ padding part ++ bodies parts

/-- All places are numbers of 32 bits. -/
def Fits (parts : List Bytes) : Prop :=
  ∀ entry ∈ places 144 parts, entry.1 < 2147483648 ∧ entry.2 < 2147483648

instance (parts : List Bytes) : Decidable (Fits parts) :=
  inferInstanceAs (Decidable (∀ entry ∈ places 144 parts, _))

@[simp] theorem length_places (offset : Nat) (parts : List Bytes) :
    (places offset parts).length = parts.length := by
  induction parts generalizing offset with
  | nil => rfl
  | cons part parts ih => simp [places, ih]

/-! ## Writing -/

theorem writePart_eq (header body : Bytes) (offset : Nat) (part : Bytes) :
    writePart (header, body, offset) part =
      (orRaise ((pair int int).pack ((offset : Int), (part.length : Int))) Error.structError).map
        fun entry => (header ++ entry, body ++ part ++ padding part,
          offset + part.length + (padding part).length) := by
  unfold padding
  rw [List.length_replicate]
  generalize hpacked : (pair int int).pack ((offset : Int), (part.length : Int)) = packed
  simp only [writePart, hpacked]
  cases packed <;> rfl

/-- The loop writes the places and the bodies of the parts. -/
theorem written (parts : List Bytes) (header body : Bytes) (offset : Nat) :
    parts.foldlM writePart (header, body, offset) =
      (orRaise (packed (pair int int) (places offset parts)) Error.structError).map fun head =>
        (header ++ head, body ++ bodies parts, offset + (bodies parts).length) := by
  induction parts generalizing header body offset with
  | nil => simp [places, bodies, packed, orRaise, Except.map, pure, Except.pure]
  | cons part parts ih =>
    rw [List.foldlM_cons, writePart_eq]
    simp only [places, packed]
    cases (pair int int).pack ((offset : Int), (part.length : Int)) with
    | none => rfl
    | some entry =>
      show parts.foldlM writePart _ = _
      rw [ih]
      cases packed (pair int int) (places (offset + part.length +
        (padding part).length) parts) with
      | none => rfl
      | some head =>
        simp only [orRaise, Except.map, bodies, List.append_assoc, List.length_append,
          Option.bind_eq_bind, Option.bind_some, Nat.add_assoc]

theorem assemble_eq (data : Bytes) (parts : List Bytes) : assemble data parts =
    (orRaise (packed (pair int int) (places 144 parts)) Error.structError).map fun head =>
      slice data 0 8 ++ head ++ bodies parts := by
  unfold assemble
  rw [written]
  cases packed (pair int int) (places 144 parts) with
  | none => rfl
  | some head => rfl

/-- The directory is packed when its numbers fit. -/
theorem packed_isSome_iff {entries : List (Int × Int)} (h : ∀ e ∈ entries, 0 ≤ e.1 ∧ 0 ≤ e.2) :
    (packed (pair int int) entries).isSome ↔
      ∀ e ∈ entries, e.1 < 2147483648 ∧ e.2 < 2147483648 := by
  induction entries with
  | nil => simp [packed]
  | cons e entries ih =>
    have hrest := ih fun e' he' => h e' (List.mem_cons_of_mem e he')
    have hone : ((pair int int).pack e).isSome ↔ e.1 < 2147483648 ∧ e.2 < 2147483648 := by
      have hsigns := h e List.mem_cons_self
      simp only [pair, int]
      by_cases hfirst : e.1 < 2147483648
      · by_cases hsecond : e.2 < 2147483648
        · rw [if_pos (by omega), if_pos (by omega)]
          simp [hfirst, hsecond]
        · rw [if_pos (by omega), if_neg (by omega)]
          simp [hsecond]
      · rw [if_neg (by omega)]
        simp [hfirst]
    rw [List.forall_mem_cons, ← hrest, ← hone]
    simp only [packed]
    cases (pair int int).pack e with
    | none => simp
    | some first => cases packed (pair int int) entries <;> simp

theorem places_nonneg {offset : Nat} {parts : List Bytes} :
    ∀ e ∈ places offset parts, 0 ≤ e.1 ∧ 0 ≤ e.2 := by
  induction parts generalizing offset with
  | nil => simp [places]
  | cons part parts ih => simpa [places] using ih

/-- The map is assembled when all places fit. -/
theorem assemble_cases (data : Bytes) (parts : List Bytes) :
    (Fits parts ∧ ∃ head, packed (pair int int) (places 144 parts) = some head ∧
      assemble data parts = .ok (slice data 0 8 ++ head ++ bodies parts)) ∨
    (¬Fits parts ∧ assemble data parts = .error .structError) := by
  have hfits : (packed (pair int int) (places 144 parts)).isSome ↔ Fits parts :=
    packed_isSome_iff places_nonneg
  rw [← hfits, assemble_eq]
  cases packed (pair int int) (places 144 parts) with
  | none => exact .inr ⟨by simp, rfl⟩
  | some head => exact .inl ⟨rfl, head, rfl, rfl⟩

/-! ## Reading back -/

/-- Each part is where its place says, whatever is before and after them. -/
theorem read_places (parts : List Bytes) (before after : Bytes) :
    (places before.length parts).map (fun entry =>
      slice (before ++ bodies parts ++ after) entry.1 (entry.1 + entry.2)) = parts := by
  induction parts generalizing before with
  | nil => rfl
  | cons part parts ih =>
    have hrest := ih (before ++ part ++ padding part)
    rw [List.length_append, List.length_append] at hrest
    have hfirst : slice (before ++ bodies (part :: parts) ++ after) (before.length : Int)
        ((before.length : Int) + (part.length : Int)) = part := by
      apply slice_eq
      refine range?_eq_some.mpr ⟨⟨by omega, by omega, ?_⟩, ?_⟩
      · simp only [bodies, List.length_append]
        omega
      · simp only [bodies, Int.toNat_natCast, List.append_assoc, List.drop_left, List.take_left]
    simp only [places, List.map_cons, hfirst]
    simp only [bodies, List.append_assoc] at hrest ⊢
    rw [hrest]

/-- The first eight bytes and the directory of a file that was written. -/
theorem slices_written {head body : Bytes} (hhead : head.length = 136) :
    slice (magic ++ head ++ body) 0 8 = magic ∧ slice (magic ++ head ++ body) 8 144 = head := by
  have hlength : (magic ++ head ++ body).length = 8 + 136 + body.length := by
    rw [List.length_append, List.length_append, hhead]
    rfl
  constructor
  · apply @slice_eq _ _ _ 0 8
    refine range?_eq_some.mpr ⟨⟨by decide, by decide, by omega⟩, ?_⟩
    rw [List.append_assoc]
    show (magic ++ (head ++ body)).take magic.length = magic
    rw [List.take_left]
  · apply @slice_eq _ _ _ 8 136
    refine range?_eq_some.mpr ⟨⟨by decide, by decide, by omega⟩, ?_⟩
    rw [List.append_assoc]
    show ((magic ++ (head ++ body)).drop magic.length).take 136 = head
    rw [List.drop_left, ← hhead, List.take_left]

/-- The directory of a file of 17 parts that was written is where they are. -/
theorem rows_written {parts : List Bytes} {head body : Bytes} (hparts : parts.length = 17)
    (hpacked : packed (pair int int) (places 144 parts) = some head) :
    head.length = 136 ∧ slice (magic ++ head ++ body) 0 8 = magic ∧
      rows (pair int int) (slice (magic ++ head ++ body) 8 144) = .ok (places 144 parts) := by
  have hhead : head.length = 136 := by
    rw [length_packed hpacked, length_places, hparts]
    rfl
  obtain ⟨hfirst, hsecond⟩ := @slices_written _ body hhead
  refine ⟨hhead, hfirst, ?_⟩
  rw [hsecond, rows_ok_iff]
  exact records_packed (by decide) (fun a _ => exact_entry a) hpacked

/-- The 17 parts of a file that was written are read back. -/
theorem lumps_written {parts : List Bytes} {head : Bytes} (hparts : parts.length = 17)
    (hpacked : packed (pair int int) (places 144 parts) = some head) :
    lumps (magic ++ head ++ bodies parts) = .ok parts := by
  obtain ⟨hhead, hfirst, hrows⟩ := @rows_written _ _ (bodies parts) hparts hpacked
  simp only [lumps, bind_ok_iff, require_ok_iff, pure_ok_iff]
  refine ⟨(), hfirst, places 144 parts, hrows, ?_⟩
  have hread := read_places parts (magic ++ head) []
  rw [List.append_nil, List.length_append, hhead] at hread
  exact hread

/-! ## Where the parts are -/

/-- The ranges of a file: each is a multiple of four bytes from the start and
inside the file, none starts before the ones before it end, and the file ends
where the last one is filled up. -/
def LaidOut (file : Bytes) : Prop :=
  ∃ entries, rows (pair int int) (slice file 8 144) = .ok entries ∧ entries.length = 17 ∧
    (∀ e ∈ entries, 144 ≤ e.1 ∧ e.1 % 4 = 0 ∧ 0 ≤ e.2 ∧ e.1 + e.2 ≤ file.length) ∧
    entries.Pairwise (fun e e' => e.1 + e.2 ≤ e'.1) ∧
    ∀ last ∈ entries.getLast?, (file.length : Int) = last.1 + last.2 + -last.2 % 4

theorem places_bounds {offset : Nat} (hoffset : offset % 4 = 0) {parts : List Bytes} :
    ∀ e ∈ places offset parts, (offset : Int) ≤ e.1 ∧ e.1 % 4 = 0 ∧
      e.1 + e.2 ≤ offset + (bodies parts).length := by
  induction parts generalizing offset with
  | nil => simp [places]
  | cons part parts ih =>
    have hpadding := length_padding part
    have hrest := @ih (offset + part.length + (padding part).length) (by omega)
    intro e he
    simp only [bodies, List.length_append]
    cases List.mem_cons.mp he with
    | inl heq =>
      subst heq
      dsimp only
      omega
    | inr hlater =>
      have hbounds := hrest e hlater
      omega

theorem places_ordered {offset : Nat} (hoffset : offset % 4 = 0) (parts : List Bytes) :
    (places offset parts).Pairwise fun e e' => e.1 + e.2 ≤ e'.1 := by
  induction parts generalizing offset with
  | nil => exact List.Pairwise.nil
  | cons part parts ih =>
    have hpadding := length_padding part
    have haligned : (offset + part.length + (padding part).length) % 4 = 0 := by omega
    refine List.pairwise_cons.mpr ⟨?_, ih haligned⟩
    intro e he
    have hbounds := places_bounds haligned e he
    dsimp only
    omega

theorem places_last {offset : Nat} {parts : List Bytes} :
    ∀ last ∈ (places offset parts).getLast?,
      ((offset + (bodies parts).length : Nat) : Int) = last.1 + last.2 + -last.2 % 4 := by
  induction parts generalizing offset with
  | nil => simp [places]
  | cons part parts ih =>
    intro last hlast
    have hpadding := length_padding part
    simp only [bodies, List.length_append]
    cases parts with
    | nil =>
      obtain rfl : ((offset : Int), (part.length : Int)) = last := by simpa [places] using hlast
      simp only [bodies, List.length_nil]
      omega
    | cons next parts =>
      rw [places, places, List.getLast?_cons_cons] at hlast
      have hnext := ih last hlast
      omega

/-! ## The container -/

theorem fits_of_assemble {data file : Bytes} {parts : List Bytes}
    (h : assemble data parts = .ok file) : Fits parts := by
  rcases assemble_cases data parts with ⟨hfits, -⟩ | ⟨-, hraises⟩
  · exact hfits
  · rw [hraises] at h
    cases h

/-- Where no place is too large, the parts are laid out and read back. -/
theorem assemble_ok {data : Bytes} {parts : List Bytes} (hdata : slice data 0 8 = magic)
    (hparts : parts.length = 17) (hfits : Fits parts) :
    ∃ file, assemble data parts = .ok file ∧ lumps file = .ok parts ∧ LaidOut file := by
  rcases assemble_cases data parts with ⟨-, head, hpacked, hfile⟩ | ⟨hlarge, -⟩
  · rw [hdata] at hfile
    obtain ⟨hhead, -, hrows⟩ := @rows_written _ _ (bodies parts) hparts hpacked
    have hlength : (magic ++ head ++ bodies parts).length = 144 + (bodies parts).length := by
      rw [List.length_append, List.length_append, hhead]
      rfl
    refine ⟨_, hfile, lumps_written hparts hpacked, places 144 parts, hrows, ?_, ?_,
      places_ordered (by decide) parts, ?_⟩
    · rw [length_places, hparts]
    · intro e he
      have hbounds := places_bounds (by decide) e he
      have hsigns := places_nonneg e he
      rw [hlength]
      omega
    · rw [hlength]
      exact places_last
  · exact absurd hfits hlarge

/-- Otherwise nothing is written. -/
theorem assemble_spec {data : Bytes} {parts : List Bytes} (hdata : slice data 0 8 = magic)
    (hparts : parts.length = 17) :
    if Fits parts then
      ∃ file, assemble data parts = .ok file ∧ lumps file = .ok parts ∧ LaidOut file
    else assemble data parts = .error .structError := by
  split_ifs with hfits
  · exact assemble_ok hdata hparts hfits
  · rcases assemble_cases data parts with ⟨hsmall, -⟩ | ⟨-, hraises⟩
    · exact absurd hsmall hfits
    · exact hraises

/-- All ranges of the directory are inside the file. -/
def Inside (data : Bytes) : Prop :=
  ∃ entries, rows (pair int int) (slice data 8 144) = .ok entries ∧
    ∀ e ∈ entries, 0 ≤ e.1 ∧ 0 ≤ e.2 ∧ e.1 + e.2 ≤ data.length

theorem lumps_magic {data : Bytes} {parts : List Bytes} (h : lumps data = .ok parts) :
    slice data 0 8 = magic := by
  simp only [lumps, bind_ok_iff, require_ok_iff] at h
  exact h.choose_spec.1

/-- The parts of any map are assembled again and read back, wherever they were
in that map, unless a place is too large for the directory. -/
theorem assemble_roundTrip :
    (∀ data parts, slice data 0 8 = magic → parts.length = 17 →
      if Fits parts then
        ∃ file, assemble data parts = .ok file ∧ lumps file = .ok parts ∧ LaidOut file
      else assemble data parts = .error .structError) ∧
    ∀ data parts, lumps data = .ok parts → parts.length = 17 → Inside data →
      if Fits parts then
        ∃ file, assemble data parts = .ok file ∧ lumps file = .ok parts ∧ LaidOut file
      else assemble data parts = .error .structError :=
  ⟨fun _ _ hdata hparts => assemble_spec hdata hparts,
    fun _ _ hdata hparts _ => assemble_spec (lumps_magic hdata) hparts⟩

/-! ## A map whose parts are out of order -/

/-- Parts of 0 to 16 bytes. -/
def unevenParts : List Bytes := (List.range 17).map fun n => List.replicate n (UInt8.ofNat n)

/-- The ranges of a map with gaps: the first ones are out of order, the first
and the third overlap, and the others share one byte. -/
def tangledRanges : List (Int × Int) :=
  [(150, 7), (144, 3), (152, 6)] ++ List.replicate 14 (160, 1)

def tangledMap : Bytes :=
  magic ++ (packed (pair int int) tangledRanges).getD [] ++ (List.range 20).map UInt8.ofNat

/-- What the ranges hold. -/
def tangledParts : List Bytes :=
  [[6, 7, 8, 9, 10, 11, 12], [0, 1, 2], [8, 9, 10, 11, 12, 13]] ++ List.replicate 14 [16]

theorem tangled_evaluates : rows (pair int int) (slice tangledMap 8 144) = .ok tangledRanges ∧
    lumps tangledMap = .ok tangledParts ∧ Fits tangledParts ∧ Fits unevenParts ∧
    ∀ e ∈ tangledRanges, 0 ≤ e.1 ∧ 0 ≤ e.2 ∧ e.1 + e.2 ≤ (tangledMap.length : Int) := by
  decide +kernel

/-- The ranges of the tangled map are not laid out, those of its copy are. -/
theorem assemble_roundTrip_tangled :
    (∃ file, assemble magic unevenParts = .ok file ∧ lumps file = .ok unevenParts ∧
      LaidOut file) ∧
    ¬LaidOut tangledMap ∧
    ∃ file, assemble tangledMap tangledParts = .ok file ∧ lumps file = .ok tangledParts ∧
      LaidOut file := by
  obtain ⟨hrows, hlumps, htangled, huneven, hinside⟩ := tangled_evaluates
  refine ⟨?_, ?_, ?_⟩
  · have h := assemble_roundTrip.1 magic unevenParts (by decide) (by decide)
    rwa [if_pos huneven] at h
  · rintro ⟨entries, hentries, -, -, hordered, -⟩
    rw [hrows, Except.ok.injEq] at hentries
    rw [← hentries] at hordered
    revert hordered
    decide
  · have h := assemble_roundTrip.2 tangledMap tangledParts hlumps (by decide)
      ⟨tangledRanges, hrows, hinside⟩
    rwa [if_pos htangled] at h

/-! ## A map whose parts are all in one place -/

/-- The directory of 17 ranges from the end of the directory on. -/
def sharing (n : Int) : Bytes :=
  ((packed (pair int int) (List.replicate 17 (144, n))).getD [])

def sharedPart : Bytes := List.replicate 134217728 0

def sharedMap : Bytes := magic ++ sharing 134217728 ++ sharedPart

theorem sharing_packed :
    packed (pair int int) (List.replicate 17 (144, 134217728)) = some (sharing 134217728) := by
  decide

theorem shared_read {body : Bytes} (h : body.length = 134217728) :
    rows (pair int int) (slice (magic ++ sharing 134217728 ++ body) 8 144) =
        .ok (List.replicate 17 (144, 134217728)) ∧
      lumps (magic ++ sharing 134217728 ++ body) = .ok (List.replicate 17 body) := by
  have hhead : (sharing 134217728).length = 136 := length_packed sharing_packed
  obtain ⟨hfirst, hsecond⟩ := @slices_written _ body hhead
  have hrows : rows (pair int int) (slice (magic ++ sharing 134217728 ++ body) 8 144) =
      .ok (List.replicate 17 (144, 134217728)) := by
    rw [hsecond, rows_ok_iff]
    exact records_packed (by decide) (fun a _ => exact_entry a) sharing_packed
  have hslice : slice (magic ++ sharing 134217728 ++ body) 144 (144 + 134217728) = body := by
    have hlength : (magic ++ sharing 134217728).length = 144 := by
      rw [List.length_append, hhead]
      rfl
    apply slice_eq
    refine range?_eq_some.mpr ⟨⟨by decide, by decide, ?_⟩, ?_⟩
    · rw [List.length_append, hlength, h]
      decide
    · show (List.drop 144 _).take 134217728 = body
      rw [← hlength, List.drop_left, ← h, List.take_length]
  refine ⟨hrows, ?_⟩
  simp only [lumps, bind_ok_iff, require_ok_iff, pure_ok_iff]
  refine ⟨(), hfirst, _, hrows, ?_⟩
  rw [List.map_replicate]
  show List.replicate 17 (slice _ 144 (144 + 134217728)) = _
  rw [hslice]

theorem shared_large {body : Bytes} (h : body.length = 134217728) :
    ¬Fits (List.replicate 17 body) := by
  have hpadding : (padding body).length = 0 := by
    have := length_padding body
    omega
  simp [Fits, List.replicate, places, h, hpadding]

/-- The directory of this map is inside the file, and no map with its parts
can be written. -/
theorem sharedMap_raises : lumps sharedMap = .ok (List.replicate 17 sharedPart) ∧
    Inside sharedMap ∧
    assemble sharedMap (List.replicate 17 sharedPart) = .error .structError := by
  have hlength : sharedPart.length = 134217728 := List.length_replicate
  obtain ⟨hrows, hlumps⟩ := shared_read hlength
  refine ⟨hlumps, ⟨_, hrows, ?_⟩, ?_⟩
  · intro e he
    obtain rfl := List.eq_of_mem_replicate he
    have hhead : (sharing 134217728).length = 136 := length_packed sharing_packed
    refine ⟨by decide, by decide, ?_⟩
    show (144 : Int) + 134217728 ≤ _
    rw [sharedMap, List.length_append, List.length_append, hhead, hlength]
    decide
  · rcases assemble_cases sharedMap (List.replicate 17 sharedPart) with ⟨hfits, -⟩ | ⟨-, hraises⟩
    · exact absurd hfits (shared_large hlength)
    · exact hraises

end QuakeJs.Bsp
