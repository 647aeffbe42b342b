import QuakeJs.Bsp.Container
import Mathlib.Data.List.Forall2
import Mathlib.Data.Rat.Floor

/-!
# A branded map

What the records of a map stand for: the ranges and the numbers by which they
refer to one another are resolved.  Branding renumbers many of them, and
leaves what they resolve to as it was, with the logos added.

* `Geometry`: the records of a map, and how they are resolved.
* `Preserved`: what a branded map has in common with the original.
-/

namespace QuakeJs.Bsp

open Struct

/-! ## What a map resolves to -/

/-- The records of the parts that branding changes. -/
structure Geometry where
  shaders : List Shader
  leaves : List Leaf
  leafSurfaces : List Int
  models : List Model
  vertices : List Vertex
  indexes : List Int
  faces : List Face

/-- The records of the parts. -/
def geometry (parts : List Bytes) : Except Error Geometry := do
  let shaders ← rows shader (← part parts 1)
  let leaves ← rows leaf (← part parts 4)
  let leafSurfaces ← rows int (← part parts 5)
  let models ← rows model (← part parts 7)
  let vertices ← rows vertex (← part parts 10)
  let indexes ← rows int (← part parts 11)
  let faces ← rows face (← part parts 13)
  pure ⟨shaders, leaves, leafSurfaces, models, vertices, indexes, faces⟩

/-- The item with this number. -/
def numbered {α : Type} (l : List α) (i : Int) : Option α := if 0 ≤ i then l[i.toNat]? else none

namespace Geometry

variable (g : Geometry)

def verticesOf (f : Face) : Option (List Vertex) := range? g.vertices f.vertex f.vertices

/-- Three indexes for each triangle, into the vertices of the face. -/
def trianglesOf (f : Face) : Option (List (List Int)) :=
  (range? g.indexes f.index f.indexes).map triangles

def shaderOf (f : Face) : Option Shader := numbered g.shaders f.shader

def facesOf (m : Model) : Option (List Face) := range? g.faces m.first m.faces

def surfacesOf (l : Leaf) : Option (List Int) := range? g.leafSurfaces l.first l.surfaces

def resolve (surfaces : List Int) : Option (List Face) := surfaces.mapM (numbered g.faces)

/-- The indices of the records are in bounds, and the ranges of the submodels
are apart from that of the world. -/
structure Bounded : Prop where
  faces : ∀ f ∈ g.faces, (g.verticesOf f).isSome ∧
    (g.trianglesOf f).isSome ∧ (g.shaderOf f).isSome
  leaves : ∀ l ∈ g.leaves, ((g.surfacesOf l).bind g.resolve).isSome
  models : ∀ m ∈ g.models, (g.facesOf m).isSome
  apart : ∀ world rest, g.models = world :: rest → ∀ m ∈ rest, ∀ i, m.first ≤ i →
    i < m.first + m.faces → ¬(world.first ≤ i ∧ i < world.first + world.faces)

end Geometry

/-- A map of version 46 whose records are in bounds. -/
def WellFormed (data : Bytes) : Prop :=
  ∃ parts g, lumps data = .ok parts ∧ parts.length = 17 ∧ geometry parts = .ok g ∧ g.Bounded

section

variable {α : Type}

/-- The logos are the only difference between two maps. -/
structure Preserved (placements : List (Placement α)) (before after : Geometry)
    (world world' : Model) (rest rest' : List Model) (added : List Face) : Prop where
  models : before.models = world :: rest
  models' : after.models = world' :: rest'
  /-- One new face for each placement. -/
  count : added.length = placements.length
  /-- The faces of the world are the old ones and the new ones. -/
  worldFaces : after.facesOf world' = (before.facesOf world).map (· ++ added)
  /-- The faces of the submodels are the old ones. -/
  restFaces : List.Forall₂ (fun m m' => after.facesOf m' = before.facesOf m) rest rest'
  faces : ∀ f ∈ before.faces, after.verticesOf f = before.verticesOf f ∧
    after.trianglesOf f = before.trianglesOf f ∧ after.shaderOf f = before.shaderOf f
  /-- Each leaf shows its old faces, and those of the logos on its walls. -/
  leaves : List.Forall₂ (fun l l' => ∃ surfaces surfaces' old,
    before.surfacesOf l = some surfaces ∧
    before.resolve surfaces = some old ∧ after.surfacesOf l' = some surfaces' ∧
    after.resolve surfaces' = some (old ++
      ((placements.zip added).filter (fun item => item.1.surface ∈ surfaces)).map Prod.snd))
    before.leaves after.leaves
  /-- Each new face is in a leaf. -/
  shown : ∀ i < placements.length, numbered after.faces
    (world.first + world.faces + i) = added[i]? ∧
    ∃ l ∈ after.leaves, ∃ surfaces, after.surfacesOf l = some surfaces ∧
      world.first + world.faces + (i : Int) ∈ surfaces

/-- The parts that branding does not write. -/
def untouched : List Nat := [0, 2, 3, 6, 8, 9, 12, 14, 15, 16]

/-- The second map is the first one with the logos. -/
def Branded (placements : List (Placement α)) (data data' : Bytes) : Prop :=
  ∃ parts parts' before after world world' rest rest' added,
    lumps data = .ok parts ∧ lumps data' = .ok parts' ∧ parts'.length = parts.length ∧
    geometry parts = .ok before ∧ geometry parts' = .ok after ∧
    Preserved placements before after world world' rest rest' added ∧
    ∀ i ∈ untouched, parts'[i]? = parts[i]?

/-! ## Reading back what was written -/

theorem pack_ok_iff {ρ : Type} {l : Layout ρ} {b : Bytes} {xs : List ρ} :
    pack l xs = .ok b ↔ packed l xs = some b := orRaise_ok_iff _ _ _

theorem part_ok_iff {parts : List Bytes} {i : Nat} {b : Bytes} :
    part parts i = .ok b ↔ parts[i]? = some b := orRaise_ok_iff _ _ _

theorem exact_point : point.Exact :=
  Layout.Exact.via ((exact_raw 4).pair <| (exact_raw 4).pair <| exact_raw 4) _ _

/-- These records are read from the part. -/
def Reads {ρ : Type} (l : Layout ρ) (parts : List Bytes) (i : Nat) (xs : List ρ) : Prop :=
  ∃ b, parts[i]? = some b ∧ records l b = some xs

theorem Reads.unique {ρ : Type} {l : Layout ρ} {parts : List Bytes} {i : Nat} {xs ys : List ρ}
    (h : Reads l parts i xs) (h' : Reads l parts i ys) : xs = ys := by
  obtain ⟨b, hb, hxs⟩ := h
  obtain ⟨b', hb', hys⟩ := h'
  obtain rfl := Option.some.inj (hb.symm.trans hb')
  exact Option.some.inj (hxs.symm.trans hys)

theorem geometry_ok_iff {parts : List Bytes} {g : Geometry} : geometry parts = .ok g ↔
    Reads shader parts 1 g.shaders ∧ Reads leaf parts 4 g.leaves ∧
    Reads int parts 5 g.leafSurfaces ∧ Reads model parts 7 g.models ∧
    Reads vertex parts 10 g.vertices ∧ Reads int parts 11 g.indexes ∧
      Reads face parts 13 g.faces := by
  simp only [geometry, bind_ok_iff, part_ok_iff, rows_ok_iff, pure_ok_iff]
  constructor
  · rintro ⟨b₁, h₁, _, r₁, b₄, h₄, _, r₄, b₅, h₅, _, r₅, b₇, h₇, _,
      r₇, b₁₀, h₁₀, _, r₁₀, b₁₁, h₁₁, _,
      r₁₁, b₁₃, h₁₃, _, r₁₃, rfl⟩
    exact ⟨⟨b₁, h₁, r₁⟩, ⟨b₄, h₄, r₄⟩, ⟨b₅, h₅, r₅⟩, ⟨b₇, h₇, r₇⟩,
      ⟨b₁₀, h₁₀, r₁₀⟩, ⟨b₁₁, h₁₁, r₁₁⟩,
      ⟨b₁₃, h₁₃, r₁₃⟩⟩
  · rintro ⟨⟨b₁, h₁, r₁⟩, ⟨b₄, h₄, r₄⟩, ⟨b₅, h₅, r₅⟩, ⟨b₇, h₇, r₇⟩,
      ⟨b₁₀, h₁₀, r₁₀⟩, ⟨b₁₁, h₁₁, r₁₁⟩,
      ⟨b₁₃, h₁₃, r₁₃⟩⟩
    exact ⟨b₁, h₁, _, r₁, b₄, h₄, _, r₄, b₅, h₅, _, r₅, b₇, h₇, _,
      r₇, b₁₀, h₁₀, _, r₁₀, b₁₁, h₁₁, _,
      r₁₁, b₁₃, h₁₃, _, r₁₃, rfl⟩

/-! ## The decals -/

/-- The decals have grown at the end of each list. -/
structure Grown (start d : Decals) (count : Nat) : Prop where
  shaders : ∃ more, d.shaders = start.shaders ++ more
  vertices : ∃ more, d.vertices = start.vertices ++ more
  indexes : ∃ more, d.indexes = start.indexes ++ more
  newFaces : ∃ more, d.newFaces = start.newFaces ++ more ∧ more.length = count

theorem Grown.refl (d : Decals) : Grown d d 0 :=
  ⟨⟨[], by simp⟩, ⟨[], by simp⟩, ⟨[], by simp⟩, ⟨[], by simp⟩⟩

theorem Grown.trans {d d' d'' : Decals} {m n : Nat} (h : Grown d d' m) (h' : Grown d' d'' n) :
    Grown d d'' (m + n) := by
  obtain ⟨⟨s, hs⟩, ⟨v, hv⟩, ⟨i, hi⟩, ⟨f, hf, hm⟩⟩ := h
  obtain ⟨⟨s', hs'⟩, ⟨v', hv'⟩, ⟨i', hi'⟩, ⟨f', hf', hn⟩⟩ := h'
  refine ⟨⟨s ++ s', ?_⟩, ⟨v ++ v', ?_⟩, ⟨i ++ i', ?_⟩, ⟨f ++ f', ?_, ?_⟩⟩
  · rw [hs', hs, List.append_assoc]
  · rw [hv', hv, List.append_assoc]
  · rw [hi', hi, List.append_assoc]
  · rw [hf', hf, List.append_assoc]
  · rw [List.length_append, hm, hn]

/-- A placement is on a wall of the static world, and adds one face. -/
theorem appendDecal_ok [Number α] {parts : List Bytes} {world : Model}
    {d d' : Decals} {p : Placement α}
    (h : appendDecal parts world d p = .ok d') : Grown d d' 1 ∧ 0 < world.faces := by
  simp only [appendDecal, bind_ok_iff, require_ok_iff, pure_ok_iff] at h
  obtain ⟨-, ⟨hfirst, hlast⟩, -, -, normal, -, corners, -, vertices, -, rfl⟩ := h
  refine ⟨⟨?_, ⟨vertices, rfl⟩, ⟨_, rfl⟩, ⟨[_], rfl, rfl⟩⟩, by omega⟩
  dsimp only
  split_ifs
  · exact ⟨[], by simp⟩
  · exact ⟨_, rfl⟩

theorem appendDecals_grown [Number α] {parts : List Bytes} {world : Model}
    {placements : List (Placement α)}
    {d d' : Decals} (h : placements.foldlM (appendDecal parts world) d = .ok d') :
    Grown d d' placements.length := by
  induction placements generalizing d with
  | nil =>
    obtain rfl : d = d' := Except.ok.inj h
    exact Grown.refl d
  | cons p placements ih =>
    rw [List.foldlM_cons, bind_ok_iff] at h
    obtain ⟨d₁, hone, hrest⟩ := h
    rw [List.length_cons, Nat.add_comm]
    exact (appendDecal_ok hone).1.trans (ih hrest)

theorem appendDecals_world [Number α] {parts : List Bytes} {world : Model}
    {placements : List (Placement α)}
    {d d' : Decals} (h : placements.foldlM (appendDecal parts world) d = .ok d')
    (hsome : placements ≠ []) : 0 < world.faces := by
  cases placements with
  | nil => exact absurd rfl hsome
  | cons p placements =>
    rw [List.foldlM_cons, bind_ok_iff] at h
    obtain ⟨d₁, hone, -⟩ := h
    exact (appendDecal_ok hone).2

theorem exact_face : face.Exact :=
  Layout.Exact.via (exact_int.pair <| exact_int.pair <| exact_int.pair <| exact_int.pair <|
    exact_int.pair <| exact_int.pair <| exact_int.pair <| exact_int.pair <| (exact_int.many
      4).pair <|
    ((exact_raw 4).many 9).pair <| exact_point.pair <| exact_int.many 2) _ _

theorem exact_vertex : vertex.Exact :=
  Layout.Exact.via (exact_point.pair <| ((exact_raw 4).many 4).pair <| exact_point.pair <|
    exact_raw 4) _ _

theorem exact_leaf : leaf.Exact :=
  Layout.Exact.via ((exact_int.many 8).pair <| exact_int.pair <| exact_int.pair <|
    exact_int.many 2) _ _

theorem exact_model : model.Exact :=
  Layout.Exact.via (((exact_raw 4).many 6).pair <| exact_int.pair <| exact_int.pair <|
    exact_int.many 2) _ _

/-- The geometry with the decals, before the leaves are linked. -/
def Geometry.decorated (g : Geometry) (world : Model) (rest : List Model) (shaders : List Shader)
    (vertices : List Vertex) (indexes : List Int) (added : List Face) : Geometry :=
  { g with
    shaders := g.shaders ++ shaders
    vertices := g.vertices ++ vertices
    indexes := g.indexes ++ indexes
    faces := splice g.faces (world.first + world.faces) added
    models := { world with faces := world.faces + added.length } ::
      rest.map (moveModel (world.first + world.faces) added.length) }

theorem appendDecals_ok [Number α] {parts parts' : List Bytes}
    {placements : List (Placement α)} {g : Geometry}
    {insertion : Int} (hparts : parts.length = 17) (hg : geometry parts = .ok g)
    (h : appendDecals parts placements = .ok (parts', insertion)) :
    ∃ world rest shaders vertices indexes added, g.models = world :: rest ∧
      insertion = world.first + world.faces ∧ added.length = placements.length ∧
      (placements ≠ [] → 0 < world.faces) ∧
      geometry parts' = .ok (g.decorated world rest shaders vertices indexes added) ∧
      parts'.length = 17 ∧ ∀ i ∉ [1, 7, 10, 11, 13], parts'[i]? = parts[i]? := by
  obtain ⟨hshaders, hleaves, hsurfaces, hmodels, hvertices, hindexes, hfaces⟩ :=
    geometry_ok_iff.mp hg
  simp only [appendDecals, bind_ok_iff, part_ok_iff, rows_ok_iff] at h
  obtain ⟨b₁₃, h₁₃, faces, r₁₃, b₁₀, h₁₀, vertices, r₁₀, b₁₁, h₁₁,
    indexes, r₁₁, b₁, h₁, shaders, r₁,
    b₇, h₇, models, r₇, h⟩ := h
  obtain rfl := hfaces.unique ⟨b₁₃, h₁₃, r₁₃⟩
  obtain rfl := hvertices.unique ⟨b₁₀, h₁₀, r₁₀⟩
  obtain rfl := hindexes.unique ⟨b₁₁, h₁₁, r₁₁⟩
  obtain rfl := hshaders.unique ⟨b₁, h₁, r₁⟩
  obtain rfl := hmodels.unique ⟨b₇, h₇, r₇⟩
  cases hworld : g.models with
  | nil =>
    rw [hworld] at h
    cases h
  | cons world rest =>
    rw [hworld] at h
    simp only [bind_ok_iff, pack_ok_iff, pure_ok_iff, Prod.mk.injEq] at h
    obtain ⟨d, hd, s, hs, m, hm, v, hv, f, hf, i, hi, rfl, rfl⟩ := h
    obtain ⟨⟨moreShaders, hshaders'⟩, ⟨moreVertices, hvertices'⟩, ⟨moreIndexes, hindexes'⟩,
      ⟨added, hadded, hcount⟩⟩ := appendDecals_grown hd
    rw [List.nil_append] at hadded
    subst hadded
    rw [hshaders'] at hs
    obtain ⟨read, hread, -⟩ := records_packed_append (by decide) (fits_records r₁) hs
    refine ⟨world, rest, read, moreVertices, moreIndexes, d.newFaces, rfl, rfl, hcount,
      appendDecals_world hd, ?_, by simp [hparts], ?_⟩
    · obtain ⟨b₄, h₄, r₄⟩ := hleaves
      obtain ⟨b₅, h₅, r₅⟩ := hsurfaces
      refine geometry_ok_iff.mpr ⟨⟨s, ?_, hread⟩, ⟨b₄, ?_, r₄⟩,
        ⟨b₅, ?_, r₅⟩, ⟨m, ?_, ?_⟩, ⟨v, ?_, ?_⟩,
        ⟨i, ?_, ?_⟩, ⟨f, ?_, ?_⟩⟩
      · simp [hparts]
      · simpa [List.getElem?_set] using h₄
      · simpa [List.getElem?_set] using h₅
      · simp [hparts]
      · rw [← hcount] at hm
        exact records_packed (by decide) (fun a _ => exact_model a) hm
      · simp [hparts]
      · rw [hvertices'] at hv
        exact records_packed (by decide) (fun a _ => exact_vertex a) hv
      · simp [hparts]
      · rw [hindexes'] at hi
        exact records_packed (by decide) (fun a _ => exact_int a) hi
      · simp [hparts]
      · exact records_packed (by decide) (fun a _ => exact_face a) hf
    · intro j hj
      simp only [List.mem_cons, List.not_mem_nil, or_false, not_or] at hj
      obtain ⟨h₁, h₇, h₁₀, h₁₁, h₁₃⟩ := hj
      rw [List.getElem?_set_ne (Ne.symm h₁₁), List.getElem?_set_ne (Ne.symm h₁₃),
        List.getElem?_set_ne (Ne.symm h₁₀), List.getElem?_set_ne (Ne.symm h₇),
        List.getElem?_set_ne (Ne.symm h₁)]

/-! ## The leaves -/

/-- The surfaces of a leaf after branding. -/
def remap (placements : List (Placement α)) (insertion : Int) (surfaces : List Int) : List Int :=
  surfaces.map (moveSurface insertion placements.length) ++
    (placed placements surfaces).map fun (index : Nat) => insertion + (index : Int)

theorem placed_lt {placements : List (Placement α)} {surfaces : List Int} {i : Nat}
    (h : i ∈ placed placements surfaces) : i < placements.length := by
  unfold placed at h
  obtain ⟨⟨p, j⟩, hmem, rfl⟩ := List.mem_map.mp h
  have hzip := (List.mem_filter.mp hmem).1
  have hget := List.mem_zipIdx_iff_getElem?.mp hzip
  exact (List.getElem?_eq_some_iff.mp hget).1

/-- What the loop over the leaves has done. -/
structure LinkedTo (placements : List (Placement α)) (insertion : Int) (old : List Int)
    (leaves : List Leaf) (links : Links) : Prop where
  ranges : List.Forall₂ (fun l l' => range? links.new l'.first l'.surfaces =
    some (remap placements insertion (slice old l.first (l.first + l.surfaces))))
      leaves links.leaves
  linked : ∀ i, i ∈ links.linked ↔
    ∃ l ∈ leaves, i ∈ placed placements (slice old l.first (l.first + l.surfaces))

theorem LinkedTo.step {placements : List (Placement α)} {insertion : Int} {old : List Int}
    {leaves : List Leaf} {links : Links} (h : LinkedTo placements insertion old leaves links)
    (l : Leaf) :
    LinkedTo placements insertion old (leaves ++
      [l]) (linkLeaf placements insertion old links l) where
  ranges := by
    show List.Forall₂ _ _ (links.leaves ++ [_])
    refine List.rel_append ?_ (.cons ?_ .nil)
    · exact h.ranges.imp fun l l' hrange => range?_append hrange _
    · exact range?_append_end links.new (remap placements insertion (slice old l.first _))
  linked := by
    intro i
    simp [linkLeaf, h.linked, or_and_right, exists_or]

theorem linkedTo (placements : List (Placement α)) (insertion : Int) (old : List Int)
    (leaves : List Leaf) :
    LinkedTo placements insertion old leaves
      (leaves.foldl (linkLeaf placements insertion old) ⟨[], [], ∅⟩) := by
  induction leaves using List.reverseRecOn with
  | nil => exact ⟨.nil, by simp⟩
  | append_singleton leaves l ih =>
    rw [List.foldl_append]
    exact ih.step l

/-- Every placement is linked when as many are linked as there are. -/
theorem LinkedTo.all {placements : List (Placement α)} {insertion : Int} {old : List Int}
    {leaves : List Leaf} {links : Links} (h : LinkedTo placements insertion old leaves links)
    (hcard : links.linked.card = placements.length) {i : Nat} (hi : i < placements.length) :
    ∃ l ∈ leaves, i ∈ placed placements (slice old l.first (l.first + l.surfaces)) := by
  have hsub : links.linked ⊆ Finset.range placements.length := by
    intro j hj
    obtain ⟨l, -, hplaced⟩ := (h.linked j).mp hj
    exact Finset.mem_range.mpr (placed_lt hplaced)
  have hall := Finset.eq_of_subset_of_card_le hsub (by simp [hcard])
  rw [← h.linked, hall]
  exact Finset.mem_range.mpr hi

theorem linkLeaves_ok {parts parts' : List Bytes} {placements : List (Placement α)} {g : Geometry}
    {insertion : Int} (hparts : parts.length = 17) (hg : geometry parts = .ok g)
    (h : linkLeaves parts placements insertion = .ok parts') :
    ∃ links, LinkedTo placements insertion g.leafSurfaces g.leaves links ∧
      links.linked.card = placements.length ∧
      geometry parts' = .ok { g with leaves := links.leaves, leafSurfaces := links.new } ∧
      parts'.length = 17 ∧ ∀ i ∉ [4, 5], parts'[i]? = parts[i]? := by
  obtain ⟨⟨b₁, h₁, r₁⟩, hleaves, hsurfaces, ⟨b₇, h₇, r₇⟩, ⟨b₁₀, h₁₀, r₁₀⟩, ⟨b₁₁, h₁₁, r₁₁⟩,
    ⟨b₁₃, h₁₃, r₁₃⟩⟩ := geometry_ok_iff.mp hg
  simp only [linkLeaves, bind_ok_iff, part_ok_iff, rows_ok_iff, pack_ok_iff, require_ok_iff,
    pure_ok_iff] at h
  obtain ⟨b₄, h₄, leaves, r₄, b₅, h₅, old, r₅, -, hcard, l, hl, n, hn, rfl⟩ := h
  obtain rfl := hleaves.unique ⟨b₄, h₄, r₄⟩
  obtain rfl := hsurfaces.unique ⟨b₅, h₅, r₅⟩
  refine ⟨_, linkedTo placements insertion g.leafSurfaces g.leaves,
    hcard, ?_, by simp [hparts], ?_⟩
  · refine geometry_ok_iff.mpr ⟨⟨b₁, ?_, r₁⟩, ⟨l, ?_, ?_⟩,
      ⟨n, ?_, ?_⟩, ⟨b₇, ?_, r₇⟩, ⟨b₁₀, ?_, r₁₀⟩,
      ⟨b₁₁, ?_, r₁₁⟩, ⟨b₁₃, ?_, r₁₃⟩⟩
    · simpa [List.getElem?_set] using h₁
    · simp [hparts]
    · exact records_packed (by decide) (fun a _ => exact_leaf a) hl
    · simp [hparts]
    · exact records_packed (by decide) (fun a _ => exact_int a) hn
    · simpa [List.getElem?_set] using h₇
    · simpa [List.getElem?_set] using h₁₀
    · simpa [List.getElem?_set] using h₁₁
    · simpa [List.getElem?_set] using h₁₃
  · intro j hj
    simp only [List.mem_cons, List.not_mem_nil, or_false, not_or] at hj
    obtain ⟨h₄, h₅⟩ := hj
    rw [List.getElem?_set_ne (Ne.symm h₅), List.getElem?_set_ne (Ne.symm h₄)]

/-! ## What the new numbers resolve to -/

theorem numbered_eq_some {β : Type} {l : List β} {i : Int} {b : β} :
    numbered l i = some b ↔ 0 ≤ i ∧ l[i.toNat]? = some b := by
  unfold numbered
  split_ifs with h
  · simp [h]
  · simp [h]

theorem numbered_append {β : Type} {l : List β} {i : Int} {b : β} (h : numbered l i = some b)
    (l' : List β) : numbered (l ++ l') i = some b := by
  obtain ⟨hi, hget⟩ := numbered_eq_some.mp h
  refine numbered_eq_some.mpr ⟨hi, ?_⟩
  rw [List.getElem?_append_left (List.getElem?_eq_some_iff.mp hget).1, hget]

section

variable {faces added : List Face} {place : Int} (hplace : 0 ≤ place) (hle : place ≤ faces.length)
include hplace hle

/-- An old face is found under its new number. -/
theorem numbered_moved {i : Int} {f : Face} (h : numbered faces i = some f) :
    numbered (splice faces place added) (moveSurface place added.length i) = some f := by
  obtain ⟨hi, hget⟩ := numbered_eq_some.mp h
  unfold moveSurface
  split_ifs with hafter
  · refine numbered_eq_some.mpr ⟨by omega, ?_⟩
    rw [show (i + added.length).toNat = i.toNat + added.length by omega,
      getElem?_splice_after hplace hle (by omega), hget]
  · refine numbered_eq_some.mpr ⟨hi, ?_⟩
    rw [getElem?_splice_before hplace hle (by omega), hget]

/-- A new face has the number of its placement after the insertion point. -/
theorem numbered_new {i : Nat} (h : i < added.length) :
    numbered (splice faces place added) (place + i) = added[i]? := by
  unfold numbered
  rw [if_pos (by omega), show (place + i).toNat = place.toNat + i by omega,
    getElem?_splice_new hplace hle h]

theorem resolve_moved {surfaces : List Int} {old : List Face}
    (h : surfaces.mapM (numbered faces) = some old) :
    (surfaces.map (moveSurface place added.length)).mapM (numbered (splice faces place added)) =
      some old := by
  induction surfaces generalizing old with
  | nil => exact h
  | cons i surfaces ih =>
    simp only [List.mapM_cons, Option.bind_eq_bind, Option.bind_eq_some_iff] at h
    obtain ⟨f, hf, rest, hrest, heq⟩ := h
    simp only [List.map_cons, List.mapM_cons, numbered_moved hplace hle hf, ih hrest,
      Option.bind_eq_bind, Option.bind_some]
    exact heq

end

/-- The faces of the placements that pass a test, found by their numbers. -/
theorem mapM_placed {placements : List (Placement α)} {added : List Face}
    {find : Nat → Option Face}
    {k : Nat} (test : Placement α → Bool) (hcount : added.length = placements.length)
    (hfind : ∀ i < added.length, find (k + i) = added[i]?) :
    (((placements.zipIdx k).filter fun item => test item.1).map Prod.snd).mapM find =
      some (((placements.zip added).filter fun item => test item.1).map Prod.snd) := by
  induction placements generalizing added k with
  | nil => rfl
  | cons p placements ih =>
    cases added with
    | nil => cases hcount
    | cons f added =>
      have hrest := @ih added (k + 1) (by simpa using hcount) (by
        intro i hi
        rw [show k + 1 + i = k + (i + 1) by omega, hfind (i + 1) (by simpa using hi)]
        rfl)
      have hfirst : find k = some f := hfind 0 (by simp)
      by_cases htest : test p = true
      · simp [List.zipIdx_cons, htest, hfirst, hrest]
      · simp [List.zipIdx_cons, htest, hrest]

theorem exists_right {β γ : Type} {R : β → γ → Prop} {l : List β} {l' : List γ}
    (h : List.Forall₂ R l l') {b : β} (hb : b ∈ l) : ∃ c ∈ l', R b c := by
  induction h with
  | nil => cases hb
  | cons hone _ ih =>
    rcases List.mem_cons.mp hb with rfl | hb
    · exact ⟨_, List.mem_cons_self, hone⟩
    · obtain ⟨c, hc, hrel⟩ := ih hb
      exact ⟨c, List.mem_cons_of_mem _ hc, hrel⟩

/-! ## What is preserved -/

section

variable {g : Geometry} {world : Model} {rest : List Model} {added : List Face}

/-- The faces of a submodel are on one side of the insertion point. -/
theorem Geometry.Bounded.submodel (hb : g.Bounded) (hmodels : g.models = world :: rest)
    (hworld : 0 < world.faces) {m : Model} (hm : m ∈ rest)
    (hbefore : m.first < world.first + world.faces) (hsome : 0 ≤ m.faces) :
    m.first + m.faces ≤ world.first + world.faces := by
  by_contra hend
  have happart := hb.apart world rest hmodels m hm
  rcases Int.lt_or_le m.first world.first with hfirst | hfirst
  · exact happart world.first (by omega) (by omega) ⟨by omega, by omega⟩
  · exact happart m.first (by omega) (by omega) ⟨hfirst, hbefore⟩

/-- The ranges of the submodels move with their faces. -/
theorem submodel_faces (hb : g.Bounded) (hmodels : g.models = world :: rest)
    (hworld : 0 < world.faces) (hplace : 0 ≤ world.first + world.faces)
    (hle : world.first + world.faces ≤ g.faces.length) {m : Model} (hm : m ∈ rest) :
    range? (splice g.faces (world.first + world.faces) added)
      (moveModel (world.first + world.faces) added.length m).first
      (moveModel (world.first + world.faces) added.length m).faces = g.facesOf m := by
  obtain ⟨old, hold⟩ := Option.isSome_iff_exists.mp
    (hb.models m (hmodels ▸ List.mem_cons_of_mem world hm))
  rw [hold]
  unfold moveModel
  split_ifs with hafter
  · exact range?_splice_after hplace hle hold hafter
  · have hcount := (range?_eq_some.mp hold).1.2.1
    exact range?_splice_before hplace hle hold (hb.submodel hmodels hworld hm (by omega) hcount)

theorem preserved (hb : g.Bounded) (hmodels : g.models = world :: rest)
    (hworld : 0 < world.faces) {placements : List (Placement α)}
    (hcount : added.length = placements.length) {links : Links}
    (hlinks : LinkedTo placements (world.first + world.faces) g.leafSurfaces g.leaves links)
    (hcard : links.linked.card = placements.length) (shaders : List Shader)
    (vertices : List Vertex) (indexes : List Int) :
    Preserved placements g { g.decorated world rest shaders vertices indexes added with
      leaves := links.leaves, leafSurfaces := links.new } world
      { world with faces := world.faces + added.length } rest
      (rest.map (moveModel (world.first + world.faces) added.length)) added := by
  obtain ⟨old, hold⟩ := Option.isSome_iff_exists.mp
    (hb.models world (hmodels ▸ List.mem_cons_self))
  obtain ⟨⟨hfirst, -, hle⟩, -⟩ := range?_eq_some.mp hold
  have hplace : 0 ≤ world.first + world.faces := by omega
  have hmapped : List.Forall₂ (fun l l' => ∃ surfaces old', g.surfacesOf l = some surfaces ∧
      g.resolve surfaces = some old' ∧ slice g.leafSurfaces l.first
        (l.first + l.surfaces) = surfaces ∧
      range? links.new l'.first l'.surfaces =
        some (remap placements (world.first + world.faces) surfaces)) g.leaves links.leaves := by
    have hboth := (List.forall₂_and_left _ _).mpr ⟨hb.leaves, hlinks.ranges⟩
    refine hboth.imp fun l l' ⟨hresolved, hrange⟩ => ?_
    obtain ⟨old', hbind⟩ := Option.isSome_iff_exists.mp hresolved
    obtain ⟨surfaces, hsurfaces, hold'⟩ := Option.bind_eq_some_iff.mp hbind
    rw [slice_eq hsurfaces] at hrange
    exact ⟨surfaces, old', hsurfaces, hold', slice_eq hsurfaces, hrange⟩
  refine ⟨hmodels, rfl, hcount, ?_, ?_, ?_, ?_, ?_⟩
  · rw [hold]
    exact range?_splice_at hplace hle hold rfl
  · rw [List.forall₂_map_right_iff, List.forall₂_same]
    exact fun m hm => submodel_faces hb hmodels hworld hplace hle hm
  · intro f hf
    obtain ⟨hvertices, htriangles, hshader⟩ := hb.faces f hf
    obtain ⟨v, hv⟩ := Option.isSome_iff_exists.mp hvertices
    obtain ⟨t, ht⟩ := Option.isSome_iff_exists.mp htriangles
    obtain ⟨s, hs⟩ := Option.isSome_iff_exists.mp hshader
    obtain ⟨i, hi, rfl⟩ := Option.map_eq_some_iff.mp ht
    rw [hv, ht, hs]
    refine ⟨range?_append hv vertices, ?_, numbered_append hs shaders⟩
    exact Option.map_eq_some_iff.mpr ⟨i, range?_append hi indexes, rfl⟩
  · refine hmapped.imp fun l l' ⟨surfaces, old', hsurfaces, hold', _, hrange⟩ => ?_
    refine ⟨surfaces, _, old', hsurfaces, hold', hrange, ?_⟩
    have hmoved := @resolve_moved g.faces added _ hplace hle _ _ hold'
    have hnew := @mapM_placed α placements added (fun i => numbered
      (splice g.faces (world.first + world.faces) added) (world.first + world.faces + (i : Int)))
      0 (fun p => decide (p.surface ∈ surfaces)) hcount
      (fun i hi => by rw [Nat.zero_add]; exact numbered_new hplace hle hi)
    show (remap placements (world.first + world.faces) surfaces).mapM
      (numbered (splice g.faces (world.first + world.faces) added)) = _
    unfold remap placed
    rw [List.mapM_append, ← hcount, hmoved, List.mapM_map]
    simp only [Function.comp_def, hnew]
    rfl
  · intro i hi
    refine ⟨numbered_new hplace hle (hcount ▸ hi), ?_⟩
    obtain ⟨l, hl, hplaced⟩ := hlinks.all hcard hi
    obtain ⟨l', hl', surfaces, old', hsurfaces, -, hslice, hrange⟩ := exists_right hmapped hl
    refine ⟨l', hl', _, hrange, List.mem_append_right _ (List.mem_map.mpr ⟨i, ?_, rfl⟩)⟩
    rw [← hslice]
    exact hplaced

end

/-- The map that branding returns is the original one with the logos. -/
theorem brandMap_branded [Number α] {data branded : Bytes} {placements : List (Placement α)}
    (hdata : WellFormed data) (h : brandMap data placements = .ok branded) :
    Branded placements data branded := by
  obtain ⟨parts, g, hparts, hlength, hg, hbounded⟩ := hdata
  simp only [brandMap_eq, bind_ok_iff, require_ok_iff] at h
  obtain ⟨-, hlogos, parts₀, hparts₀, -, -, -, -, ⟨parts₁, insertion⟩, hdecals, parts₂, hlinks,
    hassembled⟩ := h
  obtain rfl : parts = parts₀ := Except.ok.inj (hparts.symm.trans hparts₀)
  obtain ⟨world, rest, shaders, vertices, indexes, added,
    hmodels, rfl, hcount, hworld, hg₁, hlength₁,
    hsame₁⟩ := appendDecals_ok hlength hg hdecals
  obtain ⟨links, hlinked, hcard, hg₂, hlength₂, hsame₂⟩ := linkLeaves_ok hlength₁ hg₁ hlinks
  have hsome : placements ≠ [] := by
    rintro rfl
    cases hlogos
  obtain ⟨file, hfile, hread, -⟩ :=
    assemble_ok (lumps_magic hparts) hlength₂ (fits_of_assemble hassembled)
  obtain rfl := Except.ok.inj (hassembled.symm.trans hfile)
  refine ⟨parts, parts₂, g, _, world, _, rest, _, added, hparts, hread,
    hlength₂.trans hlength.symm, hg, hg₂,
    preserved hbounded hmodels (hworld hsome) hcount hlinked hcard shaders vertices indexes, ?_⟩
  intro i hi
  have hboth : i ∉ [4, 5] ∧ i ∉ [1, 7, 10, 11, 13] := by
    revert i
    decide
  rw [hsame₂ i hboth.1, hsame₁ i hboth.2]

end

/-! ## A map with two walls -/

/-- The nearest integer, and of two the even one. -/
def nearest (x : ℚ) : Int :=
  let below := ⌊x⌋
  if x - below < 1 / 2 ∨ (x - below = 1 / 2 ∧ below % 2 = 0) then below else below + 1

/-- Single-precision numbers as rational ones.  Packing rounds to the nearest
number of this precision. -/
instance : Number ℚ where
  abs := fun x => |x|
  le x y := decide (x ≤ y)
  lt x y := decide (x < y)
  ofWord w :=
    let n := decode w
    let sign : ℚ := if n < 2147483648 then 1 else -1
    let mantissa : ℚ := (n % 8388608 : Nat) / 8388608
    let exponent : Int := (n / 8388608 % 256 : Nat)
    if exponent = 0 then sign * mantissa * 2 ^ (-126 : Int)
    else sign * (1 + mantissa) * 2 ^ (exponent - 127)
  toWord x :=
    let sign := if x < 0 then 2147483648 else 0
    if x = 0 then some (encode 4 sign)
    else
      let near : Int := (Nat.log2 x.num.natAbs : Int) - Nat.log2 x.den
      let exponent := max (if 2 ^ near ≤ |x| then near else near - 1) (-126)
      let mantissa := (nearest (|x| / 2 ^ exponent * 8388608)).toNat
      let n := (exponent + 126).toNat * 8388608 + mantissa
      if 2139095040 ≤ n then none else some (encode 4 (sign + n))

/-- The corners of a wall of 256 by 128, which faces along the first axis. -/
def wallCorners : List (Point Word) :=
  let near : Word := [0, 0, 0, 195]
  let far : Word := [0, 0, 0, 67]
  let low : Word := [0, 0, 128, 194]
  let high : Word := [0, 0, 128, 66]
  [⟨zero, near, low⟩, ⟨zero, far, low⟩, ⟨zero, far, high⟩, ⟨zero, near, high⟩]

/-- A wall in the world, and one in a submodel. -/
def walls : Geometry where
  shaders := [⟨List.replicate 64 0, [0, 0]⟩]
  leaves := [⟨List.replicate 8 0, 0, 1, [0, 0]⟩]
  leafSurfaces := [0]
  models := [⟨List.replicate 6 zero, 0, 1, [0, 0]⟩, ⟨List.replicate 6 zero, 1, 1, [0, 0]⟩]
  vertices := wallCorners.map fun corner => ⟨corner, List.replicate 4 zero,
    ⟨one, zero, zero⟩, zero⟩
  indexes := [0, 1, 2, 0, 2, 3]
  faces := List.replicate 2 ⟨0, -1, 1, 0, 4, 0, 6, -1, [0, 0, 0, 0], List.replicate 9 zero,
    ⟨one, zero, zero⟩, [0, 0]⟩

/-- The parts of a map with this geometry, and nothing else. -/
def Geometry.parts (g : Geometry) : Except Error (List Bytes) := do
  let shaders ← pack shader g.shaders
  let leaves ← pack leaf g.leaves
  let leafSurfaces ← pack int g.leafSurfaces
  let models ← pack model g.models
  let vertices ← pack vertex g.vertices
  let indexes ← pack int g.indexes
  let faces ← pack face g.faces
  pure [[], shaders, [], [], leaves, leafSurfaces, [], models, [],
    [], vertices, indexes, [], faces,
    [], [], []]

def wallParts : List Bytes := walls.parts.toOption.getD []

def wallMap : Bytes := (assemble magic wallParts).toOption.getD []

def wallLogos : List (Placement ℚ) :=
  ["bitfest", "lnbits", "lnbits", "bitfest"].map fun logo => ⟨logo, 0, ⟨0, 0, 0⟩, ⟨1, 0, 0⟩, 175⟩

theorem reads_iff {ρ : Type} {l : Layout ρ} {parts : List Bytes} {i : Nat} {xs : List ρ} :
    Reads l parts i xs ↔ parts[i]?.bind (records l) = some xs := Option.bind_eq_some_iff.symm

theorem walls_bounded : walls.Bounded where
  faces := by decide
  leaves := by decide
  models := by decide
  apart := by
    intro world rest hmodels m hm i hfirst hlast
    obtain ⟨rfl, rfl⟩ := List.cons_eq_cons.mp hmodels
    obtain rfl := List.mem_singleton.mp hm
    rintro ⟨-, hworld⟩
    exact absurd (hfirst.trans_lt hworld) (by decide)

/-- The map is read and branded. -/
theorem wallMap_evaluates : (assemble magic wallParts).isOk = true ∧ Fits wallParts ∧
    (wallParts[1]?.bind (records shader) = some walls.shaders ∧
      wallParts[4]?.bind (records leaf) = some walls.leaves ∧
      wallParts[5]?.bind (records int) = some walls.leafSurfaces ∧
      wallParts[7]?.bind (records model) = some walls.models ∧
      wallParts[10]?.bind (records vertex) = some walls.vertices ∧
      wallParts[11]?.bind (records int) = some walls.indexes ∧
      wallParts[13]?.bind (records face) = some walls.faces) ∧
    (brandMap wallMap wallLogos).isOk = true := by
  decide +kernel

theorem wallMap_assembled : assemble magic wallParts = .ok wallMap := by
  have hok := wallMap_evaluates.1
  unfold wallMap
  cases hassembled : assemble magic wallParts with
  | error e =>
    rw [hassembled] at hok
    cases hok
  | ok map => rfl

theorem wallMap_wellFormed : WellFormed wallMap := by
  have hmagic : slice magic 0 8 = magic := by decide
  have hcount : wallParts.length = 17 := by decide
  have hfits := wallMap_evaluates.2.1
  obtain ⟨file, hfile, hread, -⟩ := assemble_ok hmagic hcount hfits
  have hsame : wallMap = file := Except.ok.inj (wallMap_assembled.symm.trans hfile)
  rw [← hsame] at hread
  refine ⟨wallParts, walls, hread, hcount, ?_, walls_bounded⟩
  simp only [geometry_ok_iff, reads_iff]
  exact wallMap_evaluates.2.2.1

theorem wallMap_branded : ∃ branded, brandMap wallMap wallLogos = .ok branded ∧
    Branded wallLogos wallMap branded := by
  cases hbranded : brandMap wallMap wallLogos with
  | error e =>
    have hok := wallMap_evaluates.2.2.2
    rw [hbranded] at hok
    cases hok
  | ok branded => exact ⟨branded, rfl, brandMap_branded wallMap_wellFormed hbranded⟩

end QuakeJs.Bsp
