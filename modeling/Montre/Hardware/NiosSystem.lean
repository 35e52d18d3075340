import Mathlib.Data.BitVec

namespace Montre.Hardware

structure PioAccess where
  address : BitVec 2
  chipselect : Bool
  writeN : Bool
  writedata : BitVec 32
deriving DecidableEq

structure NiosSystemKeys where
  d1DataIn : BitVec 4
  d2DataIn : BitVec 4
  edgeCapture : BitVec 4
  irqMask : BitVec 4
  readdata : BitVec 32
deriving DecidableEq

namespace NiosSystemKeys

def reset : NiosSystemKeys := ⟨0, 0, 0, 0, 0⟩

def readMuxOut (s : NiosSystemKeys) (inPort : BitVec 4) (a : PioAccess) : BitVec 4 :=
  (if a.address = 0 then inPort else 0) ||| (if a.address = 2 then s.irqMask else 0) |||
    (if a.address = 3 then s.edgeCapture else 0)

def irq (s : NiosSystemKeys) : Bool := s.edgeCapture &&& s.irqMask != 0

def edgeCaptureWrStrobe (a : PioAccess) : Bool := a.chipselect && !a.writeN && a.address == 3

def edgeDetect (s : NiosSystemKeys) : BitVec 4 := ~~~s.d1DataIn &&& s.d2DataIn

/-- A rising edge of clk with reset_n high. A write clears all four bits of edge_capture,
also those whose edge is detected in that cycle. -/
def clock (s : NiosSystemKeys) (inPort : BitVec 4) (a : PioAccess) : NiosSystemKeys where
  d1DataIn := inPort
  d2DataIn := s.d1DataIn
  edgeCapture := if edgeCaptureWrStrobe a then 0 else s.edgeCapture ||| s.edgeDetect
  irqMask := if a.chipselect && !a.writeN && a.address == 2 then a.writedata.setWidth 4 else s.irqMask
  readdata := (s.readMuxOut inPort a).setWidth 32

def settle (resetN : Bool) (s : NiosSystemKeys) : NiosSystemKeys := if resetN then s else reset

theorem clock_edgeCapture (s : NiosSystemKeys) (inPort : BitVec 4) (a : PioAccess) (i : Fin 4) :
    (s.clock inPort a).edgeCapture.getLsbD i.val = (!edgeCaptureWrStrobe a &&
      (s.edgeCapture.getLsbD i.val || !s.d1DataIn.getLsbD i.val && s.d2DataIn.getLsbD i.val)) := by
  cases h : edgeCaptureWrStrobe a with
  | true => simp [clock, h]
  | false =>
      simp only [clock, h, edgeDetect, BitVec.getLsbD_or, BitVec.getLsbD_and, BitVec.getLsbD_not, i.isLt,
        decide_true, Bool.true_and, Bool.not_false, Bool.false_eq_true, if_false]

end NiosSystemKeys

/-- With ASYNC_RESET and a DEPTH of 2. -/
structure AlteraResetSynchronizer where
  intChain : BitVec 2
  intChainOut : Bool
deriving DecidableEq

namespace AlteraResetSynchronizer

def asserted : AlteraResetSynchronizer := ⟨3, true⟩

def settle (resetIn : Bool) (s : AlteraResetSynchronizer) : AlteraResetSynchronizer :=
  if resetIn then asserted else s

def clock (resetIn : Bool) (s : AlteraResetSynchronizer) : AlteraResetSynchronizer :=
  if resetIn then asserted else ⟨s.intChain >>> 1, s.intChain.getLsbD 0⟩

end AlteraResetSynchronizer

/-- With the parameters of nios_system: OUTPUT_RESET_SYNC_EDGES is "deassert" and SYNC_DEPTH is 2. -/
structure AlteraResetController where
  altRstSync : AlteraResetSynchronizer
  intChain : BitVec 3
  rSyncRstChain : BitVec 2
  rSyncRstDly : Bool
  rSyncRst : Bool
deriving DecidableEq

namespace AlteraResetController

def powerUp : AlteraResetController := ⟨.asserted, 7, 3, true, true⟩

/-- Without RESET_REQUEST_PRESENT the output is that of the synchronizer, asserted
asynchronously; with it, the output of a pipeline behind it. -/
def resetOut (requestPresent : Bool) (s : AlteraResetController) : Bool :=
  if requestPresent then s.rSyncRst else s.altRstSync.intChainOut

def settle (mergedReset : Bool) (s : AlteraResetController) : AlteraResetController :=
  { s with altRstSync := s.altRstSync.settle mergedReset }

def clock (mergedReset : Bool) (s : AlteraResetController) : AlteraResetController where
  altRstSync := s.altRstSync.clock mergedReset
  intChain := s.intChain.setWidth 2 ++ BitVec.ofBool s.altRstSync.intChainOut
  rSyncRstChain := if s.intChain.getLsbD 2 then 3 else s.rSyncRstChain >>> 1
  rSyncRstDly := s.rSyncRstChain.getLsbD 1
  rSyncRst :=
    match s.rSyncRstDly, s.rSyncRstChain.getLsbD 1, s.rSyncRst with
    | false, false, false => false
    | false, false, true => false
    | false, true, false => false
    | _, _, _ => true

end AlteraResetController

end Montre.Hardware
