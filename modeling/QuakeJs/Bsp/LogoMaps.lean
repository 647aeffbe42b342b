import QuakeJs.Bsp.Struct
import Mathlib.Data.Finset.Card
import Mathlib.Data.List.Sort

/-!
# `engine/logo_maps.py`

Logos are baked into a map: each becomes a face of the static world, with four
vertices and two triangles, and is linked to the leaves that show its wall.

The numbers of a placement are of an arbitrary type with the operations that
the source uses on them, and the single-precision numbers of a map are the
four bytes that they are packed in.
-/

namespace QuakeJs.Bsp

open Struct

inductive Error
  | valueError (message : String)
  | indexError
  | keyError (key : String)
  | structError
  | overflowError
deriving DecidableEq, Repr

/-! ## Records -/

/-- A single-precision number. -/
abbrev Word := Bytes

structure Point (α : Type) where
  x : α
  y : α
  z : α
deriving DecidableEq, Repr

def point : Layout (Point Word) :=
  (pair (raw 4) (pair (raw 4) (raw 4))).via (fun a => ⟨a.1, a.2.1, a.2.2⟩)
    (fun p => (p.x, p.y, p.z))
    (fun _ => rfl) (fun _ => rfl)

structure Face where
  shader : Int
  effect : Int
  kind : Int
  vertex : Int
  vertices : Int
  index : Int
  indexes : Int
  lightmap : Int
  /-- The corner and the size of the lightmap. -/
  box : List Int
  /-- The origin and the vectors of the lightmap. -/
  vectors : List Word
  normal : Point Word
  patch : List Int
deriving DecidableEq, Repr

/-- `FACE`, which is `<12i12f2i`. -/
def face : Layout Face :=
  (pair int (pair int (pair int (pair int (pair int (pair int (pair int (pair int
    (pair (many int 4) (pair (many (raw 4) 9) (pair point (many int 2)))))))))))).via
    (fun ⟨a, b, c, d, e, f, g, h, i, j, k, l⟩ => ⟨a, b, c, d, e, f, g, h, i, j, k, l⟩)
    (fun ⟨a, b, c, d, e, f, g, h, i, j, k, l⟩ => ⟨a, b, c, d, e, f, g, h, i, j, k, l⟩)
    (fun _ => rfl) (fun _ => rfl)

structure Vertex where
  position : Point Word
  /-- On the texture, and on the lightmap. -/
  uv : List Word
  normal : Point Word
  colour : Bytes
deriving DecidableEq, Repr

/-- `VERTEX`, which is `<10f4B`. -/
def vertex : Layout Vertex :=
  (pair point (pair (many (raw 4) 4) (pair point (raw 4)))).via
    (fun ⟨a, b, c, d⟩ => ⟨a, b, c, d⟩) (fun ⟨a, b, c, d⟩ => ⟨a, b, c, d⟩)
      (fun _ => rfl) (fun _ => rfl)

structure Leaf where
  /-- The cluster, the area and the box. -/
  place : List Int
  first : Int
  surfaces : Int
  brushes : List Int
deriving DecidableEq, Repr

/-- `LEAF`, which is `<12i`. -/
def leaf : Layout Leaf :=
  (pair (many int 8) (pair int (pair int (many int 2)))).via
    (fun ⟨a, b, c, d⟩ => ⟨a, b, c, d⟩) (fun ⟨a, b, c, d⟩ => ⟨a, b, c, d⟩)
      (fun _ => rfl) (fun _ => rfl)

structure Model where
  box : List Word
  first : Int
  faces : Int
  brushes : List Int
deriving DecidableEq, Repr

/-- `MODEL`, which is `<6f4i`. -/
def model : Layout Model :=
  (pair (many (raw 4) 6) (pair int (pair int (many int 2)))).via
    (fun ⟨a, b, c, d⟩ => ⟨a, b, c, d⟩) (fun ⟨a, b, c, d⟩ => ⟨a, b, c, d⟩)
      (fun _ => rfl) (fun _ => rfl)

structure Shader where
  name : Bytes
  flags : List Int
deriving DecidableEq, Repr

/-- `SHADER`, which is `<64s2i`. -/
def shader : Layout Shader :=
  (pair (text 64) (many int 2)).via (fun ⟨a, b⟩ => ⟨a, b⟩) (fun ⟨a, b⟩ => ⟨a, b⟩) (fun _ => rfl)
    (fun _ => rfl)

/-- `records`, or `list(struct.unpack(...))` for numbers. -/
def rows {ρ : Type} (l : Layout ρ) (data : Bytes) : Except Error (List ρ) :=
  orRaise (records l data) .structError

def pack {ρ : Type} (l : Layout ρ) (rows : List ρ) : Except Error Bytes :=
  orRaise (packed l rows) .structError

/-- `parts[i]`. -/
def part (parts : List Bytes) (i : Nat) : Except Error Bytes := orRaise parts[i]? .indexError

/-- `IBSP` and the version 46. -/
def magic : Bytes := [73, 66, 83, 80, 46, 0, 0, 0]

def lumps (data : Bytes) : Except Error (List Bytes) := do
  require (slice data 0 8 = magic) (.valueError "Expected a Quake III version 46 BSP.")
  let entries ← rows (pair int int) (slice data 8 144)
  pure (entries.map fun entry => slice data entry.1 (entry.1 + entry.2))

/-! ## Placements -/

/-- The numbers of the source language, with none of their laws. -/
class Number (α : Type) extends Add α, Sub α, Mul α, Div α, Neg α, NatCast α, OfScientific α where
  abs : α → α
  le : α → α → Bool
  lt : α → α → Bool
  /-- `struct.unpack("<f")`. -/
  ofWord : Word → α
  /-- `struct.pack("<f")`. -/
  toWord : α → Option Word

structure Placement (α : Type) where
  logo : String
  surface : Int
  center : Point α
  normal : Point α
  width : α

section

variable {α : Type} [Number α]

/-- `LOGOS`. -/
def logos (logo : String) : Except Error (Nat × Nat) :=
  if logo = "bitfest" then pure (350, 84)
  else if logo = "lnbits" then pure (350, 104)
  else .error (.keyError logo)

def dot (a b : Point α) : α := 0.0 + a.x * b.x + a.y * b.y + a.z * b.z

def minus (a b : Point α) : Point α := ⟨a.x - b.x, a.y - b.y, a.z - b.z⟩

def corners (placement : Placement α) : Except Error (List (Point α)) := do
  let normal := placement.normal
  let right : Point α := ⟨-normal.y, normal.x, 0.0⟩
  let width := placement.width
  let aspect ← logos placement.logo
  let height := width * (aspect.2 : α) / (aspect.1 : α)
  let center : Point α := ⟨placement.center.x + normal.x * 0.25,
    placement.center.y + normal.y * 0.25,
    placement.center.z + normal.z * 0.25⟩
  pure ([(-1.0, -1.0), (1.0, -1.0), (1.0, 1.0), (-1.0, 1.0)].map fun (x, y) =>
    ⟨center.x + right.x * x * width / 2.0 + 0.0, center.y + right.y * x * width / 2.0 + 0.0,
      center.z + right.z * x * width / 2.0 + y * height / 2.0⟩)

def insideTriangle (point : Point α) (triangle : List (Point α)) : Except Error Bool :=
  match triangle with
  | [a, b, c] =>
    let v0 := minus c a
    let v1 := minus b a
    let v2 := minus point a
    let aa := dot v0 v0
    let ab := dot v0 v1
    let bb := dot v1 v1
    let denominator := aa * bb - ab * ab
    if Number.lt (Number.abs denominator) 0.00001 then pure false
    else
      let u := (bb * dot v0 v2 - ab * dot v1 v2) / denominator
      let v := (aa * dot v1 v2 - ab * dot v0 v2) / denominator
      pure (Number.le (-0.0001) u && Number.le (-0.0001) v && Number.le (u + v) 1.0001)
  | _ => .error (.valueError "not enough values to unpack (expected 3)")

/-- The indexes in threes. -/
def triangles : List Int → List (List Int)
  | a :: b :: c :: rest => [a, b, c] :: triangles rest
  | [] => []
  | rest => [rest]

def ofPoint (p : Point Word) : Point α :=
  ⟨Number.ofWord p.x, Number.ofWord p.y, Number.ofWord p.z⟩

def validatePlacement (parts : List Bytes) (placement : Placement α) : Except Error Unit := do
  let faces ← rows face (← part parts 13)
  let face ← orRaise (item? faces placement.surface) .indexError
  let vertices := slice (← rows vertex (← part parts 10)) face.vertex
    (face.vertex + face.vertices)
  let indexes := slice (← rows int (← part parts 11)) face.index (face.index + face.indexes)
  let triangles ← (triangles indexes).mapM fun triangle => triangle.mapM fun index => do
    let vertex ← orRaise (item? vertices index) .indexError
    pure (ofPoint vertex.position : Point α)
  let normal := placement.normal
  require ((face.kind != 1 || Number.lt 0.001 (Number.abs normal.z) ||
    Number.lt (dot normal (ofPoint face.normal)) 0.999) = false)
    (.valueError "Logo must face outward from a planar vertical wall.")
  let corner ← orRaise vertices.head? .indexError
  let plane := dot (ofPoint corner.position) normal
  require (Number.lt 0.01 (Number.abs (dot placement.center normal - plane)) = false)
    (.valueError "Logo center is not on its wall.")
  match ← corners placement with
  | [a, b, _, d] =>
    (List.range 5).forM fun (u : Nat) => (List.range 5).forM fun (v : Nat) => do
      let along (a b d : α) : α := a + (b - a) * (u : α) / 4.0 + (d - a) * (v : α) / 4.0
      let inside ← triangles.anyM (insideTriangle
        ⟨along a.x b.x d.x, along a.y b.y d.y, along a.z b.z d.z⟩)
      require (inside = true) (.valueError "Logo extends beyond its wall surface.")
  | _ => .error .indexError

/-! ## The decals -/

/-- What `append_decals` adds to. -/
structure Decals where
  shaders : List Shader
  vertices : List Vertex
  indexes : List Int
  newFaces : List Face

def utf8 (s : String) : Bytes := s.toUTF8.data.toList

def toWord (x : α) : Except Error Word := orRaise (Number.toWord x) .overflowError

def toPoint (p : Point α) : Except Error (Point Word) := do
  pure ⟨← toWord p.x, ← toWord p.y, ← toWord p.z⟩

/-- Zero and one in single precision. -/
def zero : Word := [0, 0, 0, 0]
def one : Word := [0, 0, 128, 63]

/-- One turn of the loop of `append_decals`.  The numbers are packed here,
where the source packs them after its loop. -/
def appendDecal (parts : List Bytes) (world : Model) (decals : Decals) (placement : Placement α) :
    Except Error Decals := do
  require (world.first ≤ placement.surface ∧ placement.surface < world.first + world.faces)
    (.valueError "Logos must be attached to the static world.")
  validatePlacement parts placement
  let shader := utf8 ("textures/quakejs_logos/" ++ placement.logo)
  let known := decals.shaders.findIdx? fun row => row.name.takeWhile (· ≠ 0) = shader
  let normal ← toPoint placement.normal
  let face : Face := {
    shader := (known.getD decals.shaders.length : Nat)
    effect := -1
    kind := 1
    vertex := decals.vertices.length
    vertices := 4
    index := decals.indexes.length
    indexes := 6
    lightmap := -1
    box := [0, 0, 0, 0]
    vectors := List.replicate 9 zero
    normal
    patch := [0, 0] }
  let uvs := [[zero, one], [one, one], [one, zero], [zero, zero]]
  let vertices ← ((← corners placement).zip uvs).mapM fun (position, uv) => do
    let position ← toPoint position
    pure ({ position, uv := uv ++ [zero, zero], normal, colour := [255, 255, 255, 255] } : Vertex)
  pure {
    shaders := if known.isSome then decals.shaders else decals.shaders ++ [⟨shader, [0, 0]⟩]
    vertices := decals.vertices ++ vertices
    indexes := decals.indexes ++ [0, 2, 1, 0, 3, 2]
    newFaces := decals.newFaces ++ [face] }

/-- One turn of the loop over `models[1:]`. -/
def moveModel (insertion : Int) (count : Nat) (m : Model) : Model :=
  if insertion ≤ m.first then { m with first := m.first + count } else m

/-- `append_decals`, which returns the parts with the insertion point. -/
def appendDecals (parts : List Bytes) (placements : List (Placement α)) :
    Except Error (List Bytes × Int) := do
  let faces ← rows face (← part parts 13)
  let vertices ← rows vertex (← part parts 10)
  let indexes ← rows int (← part parts 11)
  let shaders ← rows shader (← part parts 1)
  match ← rows model (← part parts 7) with
  | [] => .error .indexError
  | world :: rest => do
    let insertion := world.first + world.faces
    let decals ← placements.foldlM (appendDecal parts world) ⟨shaders, vertices, indexes, []⟩
    let faces := splice faces insertion decals.newFaces
    let rest := rest.map (moveModel insertion placements.length)
    let world := { world with faces := world.faces + placements.length }
    let shaders ← pack shader decals.shaders
    let models ← pack model (world :: rest)
    let vertices ← pack vertex decals.vertices
    let faces ← pack face faces
    let indexes ← pack int decals.indexes
    pure (((((parts.set 1 shaders).set 7 models).set 10 vertices).set 13 faces).set 11 indexes,
      insertion)

end

/-! ## The leaves -/

section

variable {α : Type}

/-- What `link_leaves` adds to. -/
structure Links where
  leaves : List Leaf
  new : List Int
  linked : Finset Nat

/-- The places of the placements whose wall is one of these surfaces. -/
def placed (placements : List (Placement α)) (surfaces : List Int) : List Nat :=
  (placements.zipIdx.filter fun item => item.1.surface ∈ surfaces).map Prod.snd

def moveSurface (insertion : Int) (count : Nat) (index : Int) : Int :=
  if insertion ≤ index then index + count else index

/-- One turn of the loop of `link_leaves`. -/
def linkLeaf (placements : List (Placement α)) (insertion : Int) (old : List Int) (links : Links)
    (leaf : Leaf) : Links :=
  let surfaces := slice old leaf.first (leaf.first + leaf.surfaces)
  let mapped := surfaces.map (moveSurface insertion placements.length)
  let found := placed placements surfaces
  let mapped := mapped ++ found.map fun (index : Nat) => insertion + (index : Int)
  { leaves := links.leaves ++ [{ leaf with first := links.new.length, surfaces := mapped.length }]
    new := links.new ++ mapped
    linked := links.linked ∪ found.toFinset }

def linkLeaves (parts : List Bytes) (placements : List (Placement α)) (insertion : Int) :
    Except Error (List Bytes) := do
  let leaves ← rows leaf (← part parts 4)
  let old ← rows int (← part parts 5)
  let links := leaves.foldl (linkLeaf placements insertion old) ⟨[], [], ∅⟩
  require (links.linked.card = placements.length)
    (.valueError "A logo wall has no visibility leaves.")
  let leaves ← pack leaf links.leaves
  let new ← pack int links.new
  pure ((parts.set 4 leaves).set 5 new)

/-! ## The map -/

/-- `needle in hay`. -/
def contains (needle hay : Bytes) : Bool := hay.tails.any fun rest => needle.isPrefixOf rest

/-- One turn of the loop that writes the parts. -/
def writePart (s : Bytes × Bytes × Nat) (part : Bytes) : Except Error (Bytes × Bytes × Nat) := do
  let (header, body, offset) := s
  let entry ← orRaise ((pair int int).pack ((offset : Int), (part.length : Int))) .structError
  let padding := (-(part.length : Int) % 4).toNat
  pure (header ++ entry, body ++ part ++ List.replicate padding 0, offset + part.length + padding)

def brandMap [Number α] (data : Bytes) (placements : List (Placement α)) :
    Except Error Bytes := do
  require ((placements.map Placement.logo).insertionSort (· ≤ ·) =
    ["bitfest", "bitfest", "lnbits", "lnbits"])
    (.valueError "Each map must contain exactly two copies of each logo.")
  let parts ← lumps data
  require (contains (utf8 "textures/quakejs_logos/") (← part parts 1) = false)
    (.valueError "Apply logos to the original map, not an already branded BSP.")
  let (parts, insertion) ← appendDecals parts placements
  let parts ← linkLeaves parts placements insertion
  let (header, body, _) ← parts.foldlM writePart (slice data 0 8, [], 144)
  pure (header ++ body)

end

end QuakeJs.Bsp
