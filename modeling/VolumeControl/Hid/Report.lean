import Mathlib.Data.List.Basic

/-!
# Keyboard reports

The boot keyboard report handed to the host by `keyboard_update`: a modifier
byte and six key codes. `HidKey` lists the usage codes the firmware names.
-/

namespace VolumeControl

abbrev Byte := BitVec 8

structure Report where
  modifier : Byte
  keycode : Vector Byte 6
  deriving DecidableEq, Repr

/-- `(uint8_t[6]){key}`. -/
def oneKey (key : Byte) : Vector Byte 6 := #v[key, 0, 0, 0, 0, 0]

/-- The all-zero report. -/
def Report.zero : Report := ⟨0, oneKey 0⟩

@[simp] theorem mem_oneKey {k key : Byte} : k ∈ oneKey key ↔ k = key ∨ k = 0 := by
  simp [oneKey]

@[simp] theorem oneKey_inj {k key : Byte} : oneKey k = oneKey key ↔ k = key := by
  simp [oneKey]

/-- Key `k` is newly down in `cur`, the report after `prev`. -/
def VisiblePress (prev cur : Report) (k : Byte) : Prop := k ∈ cur.keycode ∧ k ∉ prev.keycode

-- through lists: membership in a vector does not evaluate in the kernel
instance (prev cur : Report) (k : Byte) : Decidable (VisiblePress prev cur k) :=
  decidable_of_iff (k ∈ cur.keycode.toList ∧ k ∉ prev.keycode.toList) (by simp [VisiblePress])

namespace HidKey

def a : Byte := 0x04
def b : Byte := 0x05
def c : Byte := 0x06
def d : Byte := 0x07
def e : Byte := 0x08
def f : Byte := 0x09
def g : Byte := 0x0A
def h : Byte := 0x0B
def i : Byte := 0x0C
def j : Byte := 0x0D
def k : Byte := 0x0E
def l : Byte := 0x0F
def m : Byte := 0x10
def n : Byte := 0x11
def o : Byte := 0x12
def p : Byte := 0x13
def q : Byte := 0x14
def r : Byte := 0x15
def s : Byte := 0x16
def t : Byte := 0x17
def u : Byte := 0x18
def v : Byte := 0x19
def w : Byte := 0x1A
def x : Byte := 0x1B
def y : Byte := 0x1C
def z : Byte := 0x1D
def digit1 : Byte := 0x1E
def digit2 : Byte := 0x1F
def digit3 : Byte := 0x20
def digit4 : Byte := 0x21
def digit5 : Byte := 0x22
def digit6 : Byte := 0x23
def digit7 : Byte := 0x24
def digit8 : Byte := 0x25
def digit9 : Byte := 0x26
def digit0 : Byte := 0x27
def enter : Byte := 0x28
def escape : Byte := 0x29
def backspace : Byte := 0x2A
def tab : Byte := 0x2B
def space : Byte := 0x2C
def minus : Byte := 0x2D
def equal : Byte := 0x2E
def bracketLeft : Byte := 0x2F
def bracketRight : Byte := 0x30
def backslash : Byte := 0x31
def semicolon : Byte := 0x33
def apostrophe : Byte := 0x34
def grave : Byte := 0x35
def comma : Byte := 0x36
def period : Byte := 0x37
def slash : Byte := 0x38
def f1 : Byte := 0x3A
def f2 : Byte := 0x3B
def f3 : Byte := 0x3C
def f4 : Byte := 0x3D
def f5 : Byte := 0x3E
def f6 : Byte := 0x3F
def f7 : Byte := 0x40
def f8 : Byte := 0x41
def f9 : Byte := 0x42
def f10 : Byte := 0x43
def f11 : Byte := 0x44
def f12 : Byte := 0x45
def home : Byte := 0x4A
def pageUp : Byte := 0x4B
def delete : Byte := 0x4C
def endKey : Byte := 0x4D
def pageDown : Byte := 0x4E
def arrowRight : Byte := 0x4F
def arrowLeft : Byte := 0x50
def arrowDown : Byte := 0x51
def arrowUp : Byte := 0x52
def mute : Byte := 0x7F
def volumeUp : Byte := 0x80
def volumeDown : Byte := 0x81
def controlLeft : Byte := 0xE0
def shiftLeft : Byte := 0xE1
def altLeft : Byte := 0xE2
def guiLeft : Byte := 0xE3
def controlRight : Byte := 0xE4
def shiftRight : Byte := 0xE5
def altRight : Byte := 0xE6
def guiRight : Byte := 0xE7

end HidKey

end VolumeControl
