import MeizuM5c.Lib.MachineInt

/-!
Rectangles of the region shim. Coordinates are 32-bit integers; a width or a
height is a 32-bit difference and wraps when it does not fit.
-/

namespace MeizuM5c.Region

open Lib

def INT_MAX : Int := 2147483647
def INT_MIN : Int := -2147483648

structure Rect where
  left : Int
  top : Int
  right : Int
  bottom : Int
deriving DecidableEq

def EMPTY_RECT : Rect := ⟨0, 0, 0, 0⟩

def Rect.getWidth (r : Rect) : Int := wrapInt 32 (r.right - r.left)
def Rect.getHeight (r : Rect) : Int := wrapInt 32 (r.bottom - r.top)
def Rect.isValid (r : Rect) : Bool := 0 ≤ r.getWidth && 0 ≤ r.getHeight
def Rect.isEmpty (r : Rect) : Bool := r.getWidth ≤ 0 || r.getHeight ≤ 0

end MeizuM5c.Region
