import UnDOS.Lib.ByteStore
import UnDOS.Lib.Safe

/-!
# The Font Resource

The wire format of `undos/font/resource.hpp` and its validator, `validate` of `font_resource.cpp`.

- A pointer is a byte store, and a pointer with a size is `Bytes`.  Both are never null here.
- A check of the validator is an `ensure`, in the order of the source.
- `Graph::visit` calls itself.  The recursion is on the depth that is left, which the source limits.
-/

namespace UnDOS.Font

open UnDOS.Lib
open UnDOS.Lib.Outcome (ensure forRange)

/-! ## Constants -/

def magic : Nat := 0x31544655
def version : Nat := 1
def headerSize : Nat := 64
def directoryEntrySize : Nat := 12
def sectionCount : Nat := 10
def payloadStart : Nat := headerSize + directoryEntrySize * sectionCount
def maxResourceBytes : Nat := 8 * 1024 * 1024
def maxGlyphs : Nat := 4096
def maxProgramBytes : Nat := 65536
def maxPointsPerGlyph : Nat := 16384
def maxContoursPerGlyph : Nat := 2048
def maxComponentsPerGlyph : Nat := 64
def maxComponentDepth : Nat := 32
def maxGraphWork : Nat := 1024 * 1024
def glyphSize : Nat := 60
def pointSize : Nat := 12
def componentSize : Nat := 32
def cmapSize : Nat := 12
def limitsSize : Nat := 52

/-- `Error`, without `None`. -/
inductive Error where
  | invalidSize | invalidHeader | unsupportedVersion | invalidDirectory
  | invalidMetrics | invalidGlyph | invalidPoint | invalidContour | invalidComponent
  | invalidCmap | invalidProgram | invalidLimits | resourceLimit
deriving DecidableEq

/-- `Section`. -/
inductive Section where
  | glyphs | points | contours | components | cmap | cvt
  | glyphPrograms | fontProgram | prepProgram | limits
deriving DecidableEq

/-- The number of a section, less one. -/
def Section.index : Section → Nat
  | .glyphs => 0
  | .points => 1
  | .contours => 2
  | .components => 3
  | .cmap => 4
  | .cvt => 5
  | .glyphPrograms => 6
  | .fontProgram => 7
  | .prepProgram => 8
  | .limits => 9

/-! ## Bytes and words -/

/-- `Bytes`. -/
structure Bytes where
  data : ByteStore
  size : Nat

/-- `p + n` for a pointer `p`. -/
def after (p : ByteStore) (n : Nat) : ByteStore := fun i => p (n + i)

/-- `read_u32(p + at)`. -/
def readU32 (p : ByteStore) (offset : Nat) : Nat := wordAt p offset 4

/-- A word as a signed number. -/
def signed32 (v : Nat) : Int := if v ≤ 2147483647 then v else (v : Int) - 4294967296

/-- `read_i32(p + at)`. -/
def readI32 (p : ByteStore) (offset : Nat) : Int := signed32 (readU32 p offset)

def aligned (v : Nat) : Nat := (v + 3) / 4 * 4

/-- `ResourceView::section`. -/
def Bytes.sectionOf (b : Bytes) (s : Section) : Bytes :=
  let entry := headerSize + s.index * directoryEntrySize
  let offset := readU32 b.data (entry + 4)
  let size := readU32 b.data (entry + 8)
  if b.size < payloadStart ∨ b.size < offset ∨ b.size - offset < size then ⟨fun _ => 0, 0⟩
  else ⟨after b.data offset, size⟩

/-- The pointer to a glyph record. -/
def Bytes.glyph (b : Bytes) (id : Nat) : ByteStore :=
  after (b.sectionOf .glyphs).data (id * glyphSize)

/-- The pointer to a point. -/
def Bytes.point (b : Bytes) (i : Nat) : ByteStore :=
  after (b.sectionOf .points).data (i * pointSize)

/-- An end of a contour. -/
def Bytes.contour (b : Bytes) (i : Nat) : Nat := readU32 (b.sectionOf .contours).data (i * 4)

/-- The pointer to a component. -/
def Bytes.component (b : Bytes) (i : Nat) : ByteStore :=
  after (b.sectionOf .components).data (i * componentSize)

/-- The pointer to a mapping. -/
def Bytes.mapping (b : Bytes) (i : Nat) : ByteStore := after (b.sectionOf .cmap).data (i * cmapSize)

/-- One of the thirteen limits. -/
def Bytes.limit (b : Bytes) (i : Nat) : Nat := readU32 (b.sectionOf .limits).data (i * 4)

/-! ## The component graph -/

/-- What a glyph expands to. -/
structure Expansion where
  points : Nat := 0
  contours : Nat := 0
  levels : Nat := 0
deriving DecidableEq

/-- The expansion of a glyph with one more component. -/
def Expansion.add (e child : Expansion) : Expansion :=
  ⟨e.points + child.points, e.contours + child.contours, max e.levels (child.levels + 1)⟩

/-- One component in `Graph::visit`: `visit` is the call for the glyph that it names.  The second
part of the state is `work`. -/
def visitComponent (visit : Nat → Nat → Outcome Error (Expansion × Nat)) (c : ByteStore)
    (s : Expansion × Nat) : Outcome Error (Expansion × Nat) := do
  let (child, work) ← visit s.2 (readU32 c 0)
  ensure (readU32 c 4 &&& 2 ≠ 0 ∨ (readU32 c 8 < s.1.points ∧ readU32 c 12 < child.points))
    .invalidComponent
  ensure (child.points ≤ maxPointsPerGlyph - s.1.points ∧
    child.contours ≤ maxContoursPerGlyph - s.1.contours) .resourceLimit
  pure (s.1.add child, work)

/-- `Graph::visit`, with `left` for `MaxComponentDepth + 1 - depth`.  The glyphs above are
`path`. -/
def visit (b : Bytes) : Nat → List Nat → Nat → Nat → Outcome Error (Expansion × Nat)
  | 0, _, _, _ => .err .resourceLimit
  | left + 1, path, work, id => do
    ensure (work + 1 ≤ maxGraphWork) .resourceLimit
    ensure (id ∉ path) .invalidComponent
    let g := b.glyph id
    forRange (readU32 g 48)
      (fun i => visitComponent (visit b left (id :: path)) (b.component (readU32 g 44 + i)))
      (⟨readU32 g 32, readU32 g 40, 0⟩, work + 1)

/-! ## Validation -/

def coordinate (v : Int) : Prop := -32768 ≤ v ∧ v ≤ 32767

instance (v : Int) : Decidable (coordinate v) := inferInstanceAs (Decidable (_ ∧ _))

/-- `range`. -/
def inRange (first count available : Nat) : Prop := first ≤ available ∧ count ≤ available - first

instance (f c a : Nat) : Decidable (inRange f c a) := inferInstanceAs (Decidable (_ ∧ _))

/-- The header. -/
def checkHeader (b : Bytes) : Outcome Error Unit := do
  let h := b.data
  ensure (readU32 h 0 = magic ∧ readU32 h 8 = headerSize ∧ readU32 h 12 = b.size ∧
    readU32 h 16 = sectionCount) .invalidHeader
  ensure (readU32 h 4 = version) .unsupportedVersion
  ensure (readU32 h 20 ≠ 0 ∧ readU32 h 20 ≤ maxGlyphs) .resourceLimit
  ensure (16 ≤ readU32 h 24 ∧ readU32 h 24 ≤ 16384 ∧ coordinate (readI32 h 28) ∧
    coordinate (readI32 h 32) ∧ coordinate (readI32 h 36) ∧ 1 ≤ readU32 h 40 ∧
    readU32 h 40 ≤ 1000 ∧ readU32 h 44 ≤ 3) .invalidMetrics
  forRange 4 (fun i _ => ensure (readU32 h (48 + 4 * i) = 0) .invalidHeader) ()

/-- `strides`. -/
def stride : Nat → Nat
  | 0 => glyphSize
  | 1 => pointSize
  | 2 => 4
  | 3 => componentSize
  | 4 => cmapSize
  | 5 => 4
  | 9 => limitsSize
  | _ => 1

/-- One entry of the directory.  `next` is where its section has to begin. -/
def checkEntry (b : Bytes) (i next : Nat) : Outcome Error Nat := do
  let entry := headerSize + i * directoryEntrySize
  let offset := readU32 b.data (entry + 4)
  let size := readU32 b.data (entry + 8)
  ensure (readU32 b.data entry = i + 1 ∧ offset = next ∧ offset ≤ b.size ∧ size ≤ b.size - offset ∧
    size % stride i = 0) .invalidDirectory
  ensure (aligned (offset + size) ≤ b.size) .invalidDirectory
  let _ ← forRange (aligned (offset + size) - (offset + size))
    (fun pad _ => ensure (b.data (offset + size + pad) = 0) .invalidDirectory) ()
  pure (aligned (offset + size))

/-- The sections as wholes. -/
def checkSections (b : Bytes) : Outcome Error Unit := do
  ensure ((b.sectionOf .glyphs).size / glyphSize = readU32 b.data 20 ∧
    (b.sectionOf .limits).size = limitsSize) .invalidDirectory
  ensure ((b.sectionOf .fontProgram).size ≤ maxProgramBytes ∧
    (b.sectionOf .prepProgram).size ≤ maxProgramBytes) .invalidProgram
  ensure ((b.sectionOf .cvt).size / 4 ≤ 65536) .resourceLimit
  let _ ← forRange ((b.sectionOf .cvt).size / 4)
    (fun i _ => ensure (coordinate (readI32 (b.sectionOf .cvt).data (i * 4))) .invalidMetrics) ()
  ensure (1 ≤ b.limit 4 ∧ b.limit 4 ≤ 2) .invalidLimits
  let _ ← forRange 13 (fun i _ => ensure (b.limit i ≤ 65535) .invalidLimits) ()
  ensure (b.limit 0 ≤ maxPointsPerGlyph ∧ b.limit 1 ≤ maxContoursPerGlyph ∧
    b.limit 2 ≤ maxPointsPerGlyph ∧ b.limit 3 ≤ maxContoursPerGlyph ∧
    b.limit 11 ≤ maxComponentsPerGlyph ∧ b.limit 12 ≤ maxComponentDepth) .resourceLimit

/-- What the glyphs so far have used of the sections. -/
structure Used where
  points : Nat := 0
  contours : Nat := 0
  components : Nat := 0
  programs : Nat := 0
deriving DecidableEq

/-- The fields of a glyph record. -/
def checkRecord (b : Bytes) (g : ByteStore) (used : Used) : Outcome Error Unit := do
  ensure (readU32 g 0 ≤ 2 ∧ readU32 g 4 ≤ 65535 ∧ coordinate (readI32 g 8)) .invalidGlyph
  let _ ← forRange 4 (fun i _ => ensure (coordinate (readI32 g (12 + 4 * i))) .invalidGlyph) ()
  ensure (readI32 g 12 ≤ readI32 g 20 ∧ readI32 g 16 ≤ readI32 g 24) .invalidGlyph
  ensure (readU32 g 28 = used.points ∧ readU32 g 36 = used.contours ∧
    readU32 g 44 = used.components ∧ readU32 g 52 = used.programs ∧
    inRange (readU32 g 28) (readU32 g 32) ((b.sectionOf .points).size / pointSize) ∧
    inRange (readU32 g 36) (readU32 g 40) ((b.sectionOf .contours).size / 4) ∧
    inRange (readU32 g 44) (readU32 g 48) ((b.sectionOf .components).size / componentSize) ∧
    inRange (readU32 g 52) (readU32 g 56) (b.sectionOf .glyphPrograms).size) .invalidGlyph
  ensure (readU32 g 32 ≤ maxPointsPerGlyph ∧ readU32 g 40 ≤ maxContoursPerGlyph ∧
    readU32 g 48 ≤ maxComponentsPerGlyph ∧ readU32 g 56 ≤ maxProgramBytes) .resourceLimit
  ensure ((readU32 g 0 = 0 →
      readU32 g 32 = 0 ∧ readU32 g 40 = 0 ∧ readU32 g 48 = 0 ∧ readU32 g 56 = 0) ∧
    (readU32 g 0 = 1 → readU32 g 48 = 0) ∧
    (readU32 g 0 = 2 → readU32 g 32 = 0 ∧ readU32 g 40 = 0 ∧ readU32 g 48 ≠ 0)) .invalidGlyph
  ensure (readU32 g 0 = 1 → readU32 g 32 ≤ b.limit 0 ∧ readU32 g 40 ≤ b.limit 1) .invalidLimits
  ensure (readU32 g 56 ≤ b.limit 10 ∧ readU32 g 48 ≤ b.limit 11) .invalidLimits

/-- The points of a glyph. -/
def checkPoints (b : Bytes) (g : ByteStore) : Outcome Error Unit :=
  forRange (readU32 g 32) (fun i _ =>
    let p := b.point (readU32 g 28 + i)
    ensure (coordinate (readI32 p 0) ∧ coordinate (readI32 p 4) ∧ readU32 p 8 ≤ 1) .invalidPoint) ()

/-- The contours of a glyph.  The state is `end`. -/
def checkContours (b : Bytes) (g : ByteStore) : Outcome Error Unit := do
  let fin ← forRange (readU32 g 40) (fun i fin => do
    let current := b.contour (readU32 g 36 + i)
    ensure (current < readU32 g 32 ∧ (i = 0 ∨ fin < current)) .invalidContour
    pure current) 0
  ensure ((readU32 g 32 ≠ 0 ↔ readU32 g 40 ≠ 0) ∧ (readU32 g 32 ≠ 0 → fin = readU32 g 32 - 1))
    .invalidContour

/-- How many of the three kinds of transform a component has. -/
def transforms (flags : Nat) : Nat :=
  (if flags &&& 8 ≠ 0 then 1 else 0) + (if flags &&& 0x40 ≠ 0 then 1 else 0) +
    (if flags &&& 0x80 ≠ 0 then 1 else 0)

/-- Component `i` of a glyph with `count` of them. -/
def checkComponent (b : Bytes) (c : ByteStore) (i count programSize : Nat) :
    Outcome Error Unit := do
  let flags := readU32 c 4
  ensure (readU32 c 0 < readU32 b.data 20 ∧ flags &&& 0x1fef = flags ∧ flags &&& 0x1800 ≠ 0x1800 ∧
    (flags &&& 0x20 ≠ 0 ↔ i + 1 < count) ∧ (flags &&& 0x100 ≠ 0 → i + 1 = count)) .invalidComponent
  ensure (transforms flags ≤ 1) .invalidComponent
  ensure (if flags &&& 2 = 0 then readU32 c 8 ≤ 65535 ∧ readU32 c 12 ≤ 65535
    else coordinate (readI32 c 8) ∧ coordinate (readI32 c 12)) .invalidComponent
  let _ ← forRange 4 (fun j _ => ensure (coordinate (readI32 c (16 + 4 * j))) .invalidComponent) ()
  let minimum : Int := if flags &&& 2 ≠ 0 then -128 else 0
  let maximum : Int := if flags &&& 2 ≠ 0 then 127 else 255
  ensure (flags &&& 1 = 0 → minimum ≤ readI32 c 8 ∧ readI32 c 8 ≤ maximum ∧
    minimum ≤ readI32 c 12 ∧ readI32 c 12 ≤ maximum) .invalidComponent
  ensure (flags &&& 0xc8 = 0 → readI32 c 16 = 16384 ∧ readI32 c 28 = 16384 ∧ readI32 c 20 = 0 ∧
    readI32 c 24 = 0) .invalidComponent
  ensure (flags &&& 0x48 ≠ 0 → readI32 c 20 = 0 ∧ readI32 c 24 = 0) .invalidComponent
  ensure (flags &&& 8 ≠ 0 → readI32 c 16 = readI32 c 28) .invalidComponent
  ensure (i + 1 = count → programSize ≠ 0 → flags &&& 0x100 ≠ 0) .invalidComponent

/-- The loop over the glyphs. -/
def checkGlyph (b : Bytes) (id : Nat) (used : Used) : Outcome Error Used := do
  let g := b.glyph id
  checkRecord b g used
  checkPoints b g
  checkContours b g
  let _ ← forRange (readU32 g 48) (fun i _ =>
    checkComponent b (b.component (readU32 g 44 + i)) i (readU32 g 48) (readU32 g 56)) ()
  pure ⟨used.points + readU32 g 32, used.contours + readU32 g 40, used.components + readU32 g 48,
    used.programs + readU32 g 56⟩

/-- Everything that the sections hold belongs to a glyph. -/
def checkUsed (b : Bytes) (used : Used) : Outcome Error Unit :=
  ensure (used.points = (b.sectionOf .points).size / pointSize ∧
    used.contours = (b.sectionOf .contours).size / 4 ∧
    used.components = (b.sectionOf .components).size / componentSize ∧
    used.programs = (b.sectionOf .glyphPrograms).size) .invalidDirectory

/-- One mapping.  `last` is the end of the mapping before. -/
def checkMapping (b : Bytes) (i last : Nat) : Outcome Error Nat := do
  let m := b.mapping i
  let first := readU32 m 0
  let fin := readU32 m 4
  let glyph := readU32 m 8
  let count := readU32 b.data 20
  ensure (first ≤ fin ∧ fin ≤ 0x10ffff ∧ (0xdfff < first ∨ fin < 0xd800) ∧ (i = 0 ∨ last < first) ∧
    glyph < count ∧ fin - first < count - glyph) .invalidCmap
  pure fin

/-- One glyph of the loop over the component graph.  The state is `work`. -/
def checkGraph (b : Bytes) (id work : Nat) : Outcome Error Nat := do
  let (e, work) ← visit b (maxComponentDepth + 1) [] work id
  ensure (readU32 (b.glyph id) 0 = 2 →
    e.points ≤ b.limit 2 ∧ e.contours ≤ b.limit 3 ∧ e.levels ≤ b.limit 12) .invalidLimits
  pure work

def validate (b : Bytes) : Outcome Error Unit := do
  ensure (payloadStart ≤ b.size ∧ b.size ≤ maxResourceBytes) .invalidSize
  checkHeader b
  let next ← forRange sectionCount (checkEntry b) payloadStart
  ensure (next = b.size) .invalidDirectory
  checkSections b
  let used ← forRange (readU32 b.data 20) (checkGlyph b) {}
  checkUsed b used
  ensure ((b.sectionOf .cmap).size ≠ 0) .invalidCmap
  let _ ← forRange ((b.sectionOf .cmap).size / cmapSize) (checkMapping b) 0
  let _ ← forRange (readU32 b.data 20) (checkGraph b) 0
  pure ()

end UnDOS.Font
