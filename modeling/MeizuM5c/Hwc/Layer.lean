import Mathlib.Tactic
import MeizuM5c.Lib.MachineInt

/-!
The layer list of HWC1 and the planning pass of `forge_hwc.c`:
`layer_fits_overlay` and `fhwc_prepare`. The answer of the gralloc query for
the format of a layer's buffer is a parameter, one for each layer and pass,
because the query library may answer differently every time.
-/

namespace MeizuM5c.Hwc

open Lib

inductive CompositionType where
  | framebuffer
  | overlay
  | background
  | framebufferTarget
  | sideband
  | cursorOverlay
  deriving DecidableEq, Repr

/-- `hwc_rect_t`, with `int` members. -/
structure Rect where
  left : Int
  top : Int
  right : Int
  bottom : Int
  deriving DecidableEq, Repr

/-- What is read of a `native_handle_t`. -/
structure Handle where
  numFds : Int
  data0 : Int
  deriving DecidableEq, Repr

/-- A fence file descriptor by where it comes from, so that a number that the
kernel hands out again is not taken for the old one: the acquire fence of
layer `i`, the fences of the two ioctls, and fences of earlier frames. A
negative descriptor is `none`. -/
inductive Fence where
  | acquire (i : Nat)
  | prepare (k : Nat)
  | present
  | earlier (n : Nat)
  deriving DecidableEq, Repr

structure Layer where
  compositionType : CompositionType
  flags : Nat := 0
  handle : Option Handle
  transform : Int := 0
  blending : Int
  sourceCropi : Rect
  displayFrame : Rect
  acquireFenceFd : Option Fence := none
  releaseFenceFd : Option Fence := none
  deriving DecidableEq, Repr

/-- What the two passes read of `struct forge_hwc`; `geQuery` tells whether
the query library was found. -/
structure Device where
  width : Nat
  height : Nat
  geQuery : Bool
  fmtOverride : Int := 0
  frames : Nat := 0

def HWC_SKIP_LAYER : Nat := 1

def HWC_BLENDING_NONE : Int := 0x0100

def HWC_BLENDING_PREMULT : Int := 0x0105

def HWC_BLENDING_COVERAGE : Int := 0x0405

def DISP_FORMAT_RGB565 : Int := 0x102

def DISP_FORMAT_RGBA8888 : Int := 0x604

def DISP_FORMAT_BGRA8888 : Int := 0x704

def DISP_FORMAT_RGBX8888 : Int := 0xB04

def mapHalFormat (halFmt : Int) : Int :=
  if halFmt = 1 then DISP_FORMAT_RGBA8888
  else if halFmt = 2 then DISP_FORMAT_RGBX8888
  else if halFmt = 4 then DISP_FORMAT_RGB565
  else if halFmt = 5 then DISP_FORMAT_BGRA8888
  else 0

/-- `layer_fits_overlay`: the display format, or 0 for GLES. `halFmt` is the
answer of the format query, `none` when it fails. The differences are `int`
differences. -/
def layerFitsOverlay (hwc : Device) (halFmt : Option Int) (l : Layer) : Int :=
  let sw := wrapInt 32 (l.sourceCropi.right - l.sourceCropi.left)
  let sh := wrapInt 32 (l.sourceCropi.bottom - l.sourceCropi.top)
  let dw := wrapInt 32 (l.displayFrame.right - l.displayFrame.left)
  let dh := wrapInt 32 (l.displayFrame.bottom - l.displayFrame.top)
  if l.flags &&& HWC_SKIP_LAYER ≠ 0 then 0
  else if l.handle = none then 0
  else if l.transform ≠ 0 then 0
  else if l.blending ≠ HWC_BLENDING_NONE ∧ l.blending ≠ HWC_BLENDING_PREMULT ∧
      l.blending ≠ HWC_BLENDING_COVERAGE then 0
  else if sw ≤ 0 ∨ sh ≤ 0 ∨ sw ≠ dw ∨ sh ≠ dh then 0
  else if l.sourceCropi.left < 0 ∨ l.sourceCropi.top < 0 then 0
  else if l.displayFrame.left < 0 ∨ l.displayFrame.top < 0 ∨
      wrapInt 32 hwc.width < l.displayFrame.right ∨
      wrapInt 32 hwc.height < l.displayFrame.bottom then 0
  else if hwc.geQuery = false then 0
  else
    match halFmt with
    | none => 0
    | some halFmt => mapHalFormat halFmt

/-- A layer of the client, not the target of its GLES composition. -/
def isReal (l : Layer) : Bool := l.compositionType != .framebufferTarget

def countReal (layers : List Layer) : Nat := layers.countP isReal

/-- The loop from the top of the list: how many real layers in a row fit. -/
def topRun (hwc : Device) (ge : Nat → Option Int) : List (Layer × Nat) → Nat
  | [] => 0
  | (l, i) :: below =>
      if isReal l then
        if layerFitsOverlay hwc (ge i) l = 0 then 0 else topRun hwc ge below + 1
      else topRun hwc ge below

/-- How many layers get an overlay. -/
def planeBudget (run nlayers : Nat) (maxplanes : Int) : Nat :=
  let budget := if run = nlayers ∧ 0 < nlayers ∧ nlayers ≤ 4 then nlayers
    else if run < 3 then run else 3
  let maxp := if maxplanes < 0 then 0 else maxplanes.toNat
  if maxp < budget then maxp else budget

/-- The last loop of `fhwc_prepare`; the counter is that of the real layers. -/
def assign (firstOvl budget : Nat) : Nat → List Layer → List Layer
  | _, [] => []
  | n, l :: above =>
      if isReal l then
        { l with compositionType :=
            if firstOvl ≤ n ∧ 0 < budget then .overlay else .framebuffer } ::
          assign firstOvl budget (n + 1) above
      else l :: assign firstOvl budget n above

/-- `fhwc_prepare` on the layer list of the primary display; `overlays` and
`maxplanes` are the values of the two debug properties. -/
def fhwcPrepare (hwc : Device) (ge : Nat → Option Int) (overlays maxplanes : Int)
    (layers : List Layer) : List Layer :=
  let nlayers := countReal layers
  let run := if overlays ≠ 0 then topRun hwc ge layers.zipIdx.reverse else 0
  let budget := planeBudget run nlayers maxplanes
  assign (nlayers - budget) budget 0 layers

end MeizuM5c.Hwc
