import TrapHooks.Text.Hex

/-!
Devices that are mapped into the guest's memory: the interval of addresses that a device takes, what
can be done with it, and how that can fail.
-/

namespace TrapHooks

structure Region where
  start : UInt32
  size : UInt32
deriving DecidableEq, Repr

/-- Whether an access lies within the region. The ends are sums of sixty-four bits, so that a region
    may end where the thirty-two-bit addresses do; that of an access at the region's start or behind it
    may not fit, and then there is no answer. -/
def Region.contains (r : Region) (address : UInt32) (size : UInt64) : Option Bool :=
  let first := r.start.toUInt64
  let last := first + r.size.toUInt64
  if first ≤ address.toUInt64 then
    if address.toNat + size.toNat < UInt64.size then some (address.toUInt64 + size ≤ last) else none
  else some false

inductive DeviceError
  /-- The device has no access of this width. -/
  | unsupportedWidth (device : String) (width : Nat)
  /-- The access does not lie within the device. -/
  | outOfRange (device : String) (address : UInt32)
  /-- The saved image is not of the device's size. -/
  | imageSize (device : String) (expected found : Nat)
  | missingImage (device : String)
deriving DecidableEq, Repr

namespace DeviceError

/-- The kinds that errors are told apart by. -/
inductive Kind
  | access
  | unsupported
  | missingImage
deriving DecidableEq, Repr

def kind : DeviceError → Kind
  | unsupportedWidth _ _ => .unsupported
  | outOfRange _ _ => .access
  | imageSize _ _ _ => .access
  | missingImage _ => .missingImage

def message : DeviceError → String
  | unsupportedWidth device width => "设备不支持的操作: " ++ device ++ " 只支持 1/2/4 字节访问, 实际 " ++ toString width
  | outOfRange device address => "设备访问错误: " ++ device ++ " 地址越界: " ++ Hex.number address.toNat
  | imageSize device expected found =>
    "设备访问错误: " ++ device ++ " 映像大小不符: 期望 " ++ Hex.number expected ++ ", 实际 " ++ Hex.number found
  | missingImage device => "会话中没有设备映像: " ++ device

end DeviceError

/-- What a device can do, `σ` being its state. A device that says nothing about resets and sessions
    takes no part in them. -/
structure Device (σ : Type) where
  region : σ → Region
  read : UInt32 → Nat → σ → Except DeviceError (List UInt8)
  write : UInt32 → List UInt8 → σ → Except DeviceError σ
  /-- Resets the device, by hardware or by software. -/
  reset : Bool → σ → σ := fun _ s => s
  save : σ → Option (List UInt8) := fun _ => none
  /-- Takes over the image that a session kept. -/
  load : Option (List UInt8) → σ → Except DeviceError σ := fun _ s => .ok s
  name : σ → String := fun _ => "unknown"

end TrapHooks
