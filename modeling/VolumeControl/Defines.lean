import VolumeControl.Hid.Report

/-!
# Common definitions

`enum actions`, the special keys of `defines.h` and the two sides of the
keyboard.
-/

namespace VolumeControl

/-- `enum actions`. -/
inductive Action where
  | none
  | up
  | down
  /-- A value outside the list, which an object of the type can hold. -/
  | other (raw : BitVec 16)
  deriving DecidableEq, Repr

def specialKey0 : Byte := 0xf0
def specialKey1 : Byte := 0xf1

/-- The size of the matrix in `side_t`; the arrays for it are 5 by 8. -/
structure Side where
  rowCount : Nat
  colCount : Nat
  rowCount_le : rowCount ≤ 5
  colCount_le : colCount ≤ 8

def leftSide : Side := ⟨5, 7, by decide, by decide⟩
def rightSide : Side := ⟨5, 8, by decide, by decide⟩

/-- `side_t`, the pins and the key map included. -/
structure Layout extends Side where
  rows : Vector Nat 8
  keymap : Vector (Vector Byte 8) 5
  rows_inj : ∀ i < rowCount, ∀ j < rowCount, rows.toList.getD i 0 = rows.toList.getD j 0 → i = j

/-- `rows[r]`. -/
def Layout.rowPin (l : Layout) (r : Nat) : Nat := l.rows.toList.getD r 0

open HidKey in
def leftLayout : Layout where
  toSide := leftSide
  rows := #v[11, 12, 13, 14, 15, 0, 0, 0]
  keymap := #v[
    #v[escape, grave, digit1, digit2, digit3, digit4, digit5, 0],
    #v[specialKey0, tab, q, w, e, r, t, 0],
    #v[specialKey1, guiLeft, a, s, d, f, g, 0],
    #v[0, shiftLeft, z, x, c, v, b, 0],
    #v[0, controlLeft, guiLeft, altLeft, digit6, space, delete, 0]]
  rows_inj := by decide

open HidKey in
def rightLayout : Layout where
  toSide := rightSide
  rows := #v[29, 27, 20, 16, 17, 0, 0, 0]
  keymap := #v[
    #v[0, digit7, digit8, digit9, digit0, minus, equal, backspace],
    #v[y, u, i, o, p, bracketLeft, bracketRight, backslash],
    #v[h, j, k, l, semicolon, apostrophe, 0, enter],
    #v[n, m, comma, period, slash, shiftRight, 0, 0],
    #v[space, 0, altRight, 0, guiRight, 0, 0, 0]]
  rows_inj := by decide

end VolumeControl
