import TrapHooks.Device

/-!
The frame buffer: a flat piece of memory that a display shows. What is written is remembered as one
interval until the display takes it to draw that part anew.
-/

namespace TrapHooks

structure FrameBuffer where
  name : String
  /-- The guest's address of the first byte. -/
  base : UInt32
  image : List UInt8
  /-- The bytes written since the display looked last, from the first up to before the second. -/
  dirty : Option (Nat × Nat) := none
deriving DecidableEq, Repr

namespace FrameBuffer

def blank (name : String) (base size : UInt32) : FrameBuffer :=
  { name := name, base := base, image := List.replicate size.toNat 0 }

def region (b : FrameBuffer) : Region :=
  { start := b.base, size := UInt32.ofNat b.image.length }

/-- Extends the dirty interval so that it covers some more bytes. -/
def touch (offset length : Nat) (b : FrameBuffer) : FrameBuffer :=
  { b with
    dirty := some <|
      match b.dirty with
      | some (first, last) => (min first offset, max last (offset + length))
      | none => (offset, offset + length) }

def widths : List Nat :=
  [1, 2, 4]

/-- The place in the image of an access; a wrong width is refused before the address is looked at, and so
    there is always an answer on the address. -/
def offset (address : UInt32) (width : Nat) (b : FrameBuffer) : Except DeviceError Nat :=
  if width ∉ widths then .error (.unsupportedWidth b.name width)
  else if b.region.contains address (UInt64.ofNat width) = some true then .ok (address - b.base).toNat
  else .error (.outOfRange b.name address)

/-- Work on the buffer. It may be refused on the way, and what it has done by then stays done. -/
abbrev Work :=
  ExceptT DeviceError (StateM FrameBuffer)

/-- What comes of the work, and the buffer as it is then. -/
def Work.on {α : Type} (work : Work α) (b : FrameBuffer) : Except DeviceError α × FrameBuffer :=
  work.run.run b

def read (address : UInt32) (width : Nat) : Work (List UInt8) := do
  let start ← ofExcept ((← get).offset address width)
  return ((← get).image.drop start).take width

def overwrite (start : Nat) (data image : List UInt8) : List UInt8 :=
  image.take start ++ data ++ image.drop (start + data.length)

theorem length_overwrite {start : Nat} {data image : List UInt8} (fits : start + data.length ≤ image.length) :
    (overwrite start data image).length = image.length := by
  simp [overwrite]
  omega

def write (address : UInt32) (data : List UInt8) : Work Unit := do
  let start ← ofExcept ((← get).offset address data.length)
  modify fun b => { b with image := overwrite start data b.image }
  modify (touch start data.length)

/-- The dirty interval, which is empty from then on. -/
def takeDirty (b : FrameBuffer) : Option (Nat × Nat) × FrameBuffer :=
  (b.dirty, { b with dirty := none })

/-- Takes over a saved image, all of which is dirty then. -/
def load (image : Option (List UInt8)) : Work Unit := do
  let b ← get
  match image with
  | none => throw (.missingImage b.name)
  | some bytes =>
    if bytes.length ≠ b.image.length then throw (.imageSize b.name b.image.length bytes.length)
    modify fun b => { b with image := bytes }
    modify (touch 0 b.image.length)

/-- What the work leaves, unless it is refused. -/
def leaves (work : Work Unit) (b : FrameBuffer) : Except DeviceError FrameBuffer :=
  (work.on b).1.map fun _ => (work.on b).2

/-- The frame buffer as a device. A reset keeps its contents. -/
def device : Device FrameBuffer where
  region := region
  read address width b := ((read address width).on b).1
  write address data := leaves (write address data)
  save b := some b.image
  load image := leaves (load image)
  name b := b.name

end FrameBuffer

end TrapHooks
