import MeizuM5c.Hwc.Layer

/-!
The second pass of `forge_hwc.c`: `fhwc_set` builds the planes of a frame and
`engine_submit` hands them to the kernel. What the query library, `calloc`
and the four ioctls answer is a parameter; the descriptors that are closed
are logged in order.
-/

namespace MeizuM5c.Hwc

open Lib

/-- `struct fhwc_plane`. -/
structure Plane where
  handle : Handle
  acquire : Option Fence
  fmt : Int
  blending : Int
  sx : Nat := 0
  sy : Nat := 0
  sw : Nat
  sh : Nat
  tx : Nat := 0
  ty : Nat := 0
  releaseFd : Option Fence := none
  deriving DecidableEq, Repr

inductive Alpha where
  | one
  | src
  | srcInvert
  deriving DecidableEq, Repr

/-- What is set of `struct disp_input_config`. -/
structure InputConfig where
  layerId : Nat
  layerEnable : Bool := false
  srcFmt : Int := 0
  nextBuffIdx : Nat := 0
  srcPitch : Nat := 0
  srcOffsetX : Nat := 0
  srcOffsetY : Nat := 0
  srcWidth : Nat := 0
  srcHeight : Nat := 0
  tgtOffsetX : Nat := 0
  tgtOffsetY : Nat := 0
  tgtWidth : Nat := 0
  tgtHeight : Nat := 0
  frmSequence : Nat := 0
  alphaEnable : Bool := false
  surAen : Bool := false
  srcAlpha : Alpha := .one
  dstAlpha : Alpha := .one
  alpha : Nat := 0
  deriving DecidableEq, Repr

/-- The answers that one call of `engine_submit` gets. A query or an ioctl
that fails answers `none`; the ioctls that produce a fence tell whether the
descriptor is valid, and its index. -/
structure SubmitIo where
  ionFd : Nat → Option Int
  stride : Nat → Option Int
  calloc : Bool
  prepareInputBuffer : Nat → Option (Bool × Nat)
  getPresentFence : Option (Bool × Nat)
  setInputBuffer : Bool
  triggerSession : Bool

def u16 (x : Int) : Nat := (x % 65536).toNat

def fillBlending (c : InputConfig) (blending : Int) : InputConfig :=
  let c := { c with alpha := 0xff }
  if blending = HWC_BLENDING_PREMULT then
    { c with alphaEnable := true, surAen := true, srcAlpha := .one, dstAlpha := .srcInvert }
  else if blending = HWC_BLENDING_COVERAGE then
    { c with alphaEnable := true, surAen := true, srcAlpha := .src, dstAlpha := .srcInvert }
  else
    { c with alphaEnable := false, surAen := false, srcAlpha := .one, dstAlpha := .one }

/-- The buffer of plane `k`; a negative descriptor means that it has none. -/
def ionFdOf (hwc : Device) (io : SubmitIo) (k : Nat) (p : Plane) : Int :=
  let queried := if hwc.geQuery then (io.ionFd k).getD (-1) else -1
  if queried < 0 ∧ 0 < p.handle.numFds then p.handle.data0 else queried

def stridePx (hwc : Device) (io : SubmitIo) (k : Nat) : Int :=
  if hwc.geQuery then (io.stride k).getD hwc.width else hwc.width

/-- One pass of the loop over the planes: the plane with its release fence,
and its input configuration, disabled when there is no buffer or the ioctl
fails. -/
def preparePlane (hwc : Device) (io : SubmitIo) (k : Nat) (p : Plane) : Plane × InputConfig :=
  if ionFdOf hwc io k p < 0 then (p, { layerId := k })
  else
    match io.prepareInputBuffer k with
    | none => (p, { layerId := k })
    | some (valid, index) =>
        ({ p with releaseFd := if valid then some (.prepare k) else none },
          fillBlending
            { layerId := k
              layerEnable := true
              srcFmt := p.fmt
              nextBuffIdx := index
              srcPitch := u16 (stridePx hwc io k)
              srcOffsetX := p.sx
              srcOffsetY := p.sy
              srcWidth := p.sw
              srcHeight := p.sh
              tgtOffsetX := p.tx
              tgtOffsetY := p.ty
              tgtWidth := p.sw
              tgtHeight := p.sh
              frmSequence := hwc.frames } p.blending)

def preparePlanes (hwc : Device) (io : SubmitIo) : Nat → List Plane → List (Plane × InputConfig)
  | _, [] => []
  | k, p :: rest => preparePlane hwc io k p :: preparePlanes hwc io (k + 1) rest

/-- The descriptor that `PREPARE_INPUT_BUFFER` hands out for plane `k`, whatever becomes of
it. -/
def preparedFd (hwc : Device) (io : SubmitIo) (k : Nat) (p : Plane) : Option Fence :=
  if ionFdOf hwc io k p < 0 then none
  else
    match io.prepareInputBuffer k with
    | some (true, _) => some (.prepare k)
    | _ => none

def preparedFds (hwc : Device) (io : SubmitIo) : Nat → List Plane → List Fence
  | _, [] => []
  | k, p :: rest => (preparedFd hwc io k p).toList ++ preparedFds hwc io (k + 1) rest

/-- The present fence, which a failed ioctl leaves at -1. -/
def presentFd (io : SubmitIo) : Option Fence :=
  match io.getPresentFence with
  | some (true, _) => some .present
  | _ => none

/-- The result of `engine_submit`: the planes with their release fences, the
retire fence, the descriptors it closed and those it got from the kernel, and
what it gave to `SET_INPUT_BUFFER`. -/
structure Submitted where
  planes : List Plane
  retireFence : Option Fence := none
  closed : List Fence
  received : List Fence := []
  config : List InputConfig := []

/-- `engine_submit` once its planes are known to be at most four. -/
def submitPlanes (hwc : Device) (io : SubmitIo) (planes : List Plane) : Submitted :=
  -- the kernel does not wait for the acquire fences: wait here and close them
  let closed := planes.filterMap (·.acquire)
  let planes := planes.map (fun p => { p with acquire := none, releaseFd := none })
  if io.calloc = false then { planes, closed }
  else
    let prepared := preparePlanes hwc io 0 planes
    let prepareFds := preparedFds hwc io 0 planes
    let planes := prepared.map Prod.fst
    let unused := (List.range' planes.length (4 - planes.length)).map
      (fun k => ({ layerId := k } : InputConfig))
    let config := prepared.map Prod.snd ++ unused
    let releases := planes.filterMap (·.releaseFd)
    let present := presentFd io
    let received := prepareFds ++ present.toList
    if io.setInputBuffer ∧ io.triggerSession then
      { planes, retireFence := present, closed, received, config }
    else
      { planes := planes.map (fun p => { p with releaseFd := none })
        closed := closed ++ present.toList ++ releases
        received
        config }

def engineSubmit (hwc : Device) (io : SubmitIo) (planes : List Plane) : Submitted :=
  if 4 < planes.length then { planes, closed := [] } else submitPlanes hwc io planes

/-- The plane of the GLES result. -/
def fbtPlane (hwc : Device) (handle : Handle) (acquire : Option Fence) : Plane where
  handle := handle
  acquire := acquire
  fmt := if hwc.fmtOverride ≠ 0 then hwc.fmtOverride else DISP_FORMAT_RGBA8888
  blending := 0
  sw := u16 hwc.width
  sh := u16 hwc.height

/-- The plane of a promoted layer. -/
def layerPlane (fmt : Int) (handle : Handle) (l : Layer) : Plane where
  handle := handle
  acquire := l.acquireFenceFd
  fmt := fmt
  blending := l.blending
  sx := u16 l.sourceCropi.left
  sy := u16 l.sourceCropi.top
  sw := u16 (l.sourceCropi.right - l.sourceCropi.left)
  sh := u16 (l.sourceCropi.bottom - l.sourceCropi.top)
  tx := u16 l.displayFrame.left
  ty := u16 l.displayFrame.top

/-- The planes of promoted layers with the index of each layer, the layers
afterwards, and the descriptors closed for layers that no longer fit. -/
structure Promoted where
  planes : List (Nat × Plane)
  layers : List Layer
  closed : List Fence

/-- The loop over the promoted layers: `i` counts layers, `n` planes. -/
def promote (hwc : Device) (ge : Nat → Option Int) : Nat → Nat → List Layer → Promoted
  | _, _, [] => ⟨[], [], []⟩
  | i, n, l :: rest =>
      if 4 ≤ n then ⟨[], l :: rest, []⟩
      else if l.compositionType ≠ .overlay then
        let r := promote hwc ge (i + 1) n rest
        { r with layers := l :: r.layers }
      else
        let fmt := layerFitsOverlay hwc (ge i) l
        match l.handle, decide (fmt = 0) with
        | some handle, false =>
            let r := promote hwc ge (i + 1) (n + 1) rest
            { r with planes := (i, layerPlane fmt handle l) :: r.planes
                     layers := l :: r.layers }
        | _, _ =>
            -- changed between prepare and set
            let r := promote hwc ge (i + 1) n rest
            { r with layers := { l with acquireFenceFd := none } :: r.layers
                     closed := l.acquireFenceFd.toList ++ r.closed }

/-- The index of the last target entry. -/
def findFbt (layers : List Layer) : Option Nat :=
  layers.zipIdx.foldl (fun fbt e => if isReal e.1 then fbt else some e.2) none

/-- The acquire fence of the target entry. -/
def fbtAcquire (layers : List Layer) : Option Fence := do
  let i ← findFbt layers
  let l ← layers[i]?
  l.acquireFenceFd

/-- The plane of the target entry, if it has a buffer. -/
def fbtTarget (hwc : Device) (layers : List Layer) : Option (Nat × Plane) := do
  let i ← findFbt layers
  let l ← layers[i]?
  let handle ← l.handle
  return (i, fbtPlane hwc handle l.acquireFenceFd)

def closeAcquire (l : Layer) : Layer := { l with acquireFenceFd := none }

/-- The target's fence is closed when nothing else will consume it. -/
def closeUnused (unused : Option Nat) (layers : List Layer) : List Layer :=
  match unused with
  | some i => layers.modify i closeAcquire
  | none => layers

/-- The loop after the submission: the acquire fences are consumed, and each
source layer gets its plane's release fence. -/
def writeBack (layers : List Layer) (done : List (Nat × Plane)) : List Layer :=
  done.foldl (fun layers e => layers.modify e.1 (fun l =>
    { l with acquireFenceFd := none, releaseFenceFd := e.2.releaseFd })) layers

/-- The result of `fhwc_set`: the layers and the retire fence afterwards, the
planes handed to `engine_submit` with the indices of their layers, the
descriptors closed and those received from the kernel. -/
structure Frame where
  layers : List Layer
  retireFenceFd : Option Fence := none
  planes : List (Nat × Plane) := []
  closed : List Fence := []
  received : List Fence := []

def fhwcSet (hwc : Device) (ge : Nat → Option Int) (io : SubmitIo) (layers : List Layer) :
    Frame :=
  let fbt := findFbt layers
  let acquire := fbtAcquire layers
  let glesUsed := layers.any (fun l => decide (l.compositionType = .framebuffer))
  let target := fbtTarget hwc layers
  if glesUsed ∧ target = none then
    -- nothing usable this frame
    { layers := closeUnused fbt layers
      closed := acquire.toList }
  else
    let first := if glesUsed then target.toList else []
    let r := promote hwc ge 0 first.length layers
    let planes := first ++ r.planes
    let layers := closeUnused (if glesUsed then none else fbt) r.layers
    let closed := r.closed ++ (if glesUsed then [] else acquire.toList)
    if planes = [] then { layers, closed }
    else
      let s := engineSubmit hwc io (planes.map Prod.snd)
      { layers := writeBack layers ((planes.map Prod.fst).zip s.planes)
        retireFenceFd := s.retireFence
        planes
        closed := closed ++ s.closed
        received := s.received }

end MeizuM5c.Hwc
