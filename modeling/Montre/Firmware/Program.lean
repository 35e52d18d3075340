import Montre.Firmware.Watch

namespace Montre.Firmware

open Montre.Library Montre.Library.Emit

def timerInit1s : List Iowr :=
  let period : BitVec 32 := 49999999
  [⟨.timerPeriodl, period &&& 0xFFFF⟩, ⟨.timerPeriodh, period >>> 16⟩, ⟨.timerControl, 0x4 ||| 0x2 ||| 0x1⟩]

def keysInterruptInit : List Iowr := [⟨.keysEdgeCap, 0xF⟩, ⟨.keysIrqMask, 0xF⟩]

def watchInit : Routine := fun _ =>
  (⟨.horloge, ⟨12, 30, 0⟩, ⟨false, false⟩, ⟨0, 0, 0, false, false⟩⟩,
    [⟨.ledg, 0x1⟩] ++ timerInit1s ++ keysInterruptInit)

def Horloge.advance (h : Horloge) : Horloge :=
  let secondes := h.secondes + 1
  if secondes ≥ 60 then
    let minutes := h.minutes + 1
    if minutes ≥ 60 then
      let heures := h.heures + 1
      if heures ≥ 24 then ⟨0, 0, 0⟩ else ⟨heures, 0, 0⟩
    else ⟨h.heures, minutes, 0⟩
  else ⟨h.heures, h.minutes, secondes⟩

def updateAllTime1s : Routine := fun w =>
  let w := { w with gHorloge := w.gHorloge.advance }
  if w.gMinut.running ∧ w.gMinut.heures = w.gHorloge.heures ∧ w.gMinut.minutes = w.gHorloge.minutes ∧
      w.gMinut.secondes = w.gHorloge.secondes then
    ({ w with gMode := .minuterie, gMinut := { w.gMinut with running := false, alarmActive := true } },
      [⟨.ledg, 0x4⟩, ⟨.alarmBell0, flag true⟩])
  else (w, [])

def encodeHhmm (heures minutes : UInt8) : UInt8 × UInt8 × UInt8 × UInt8 :=
  (heures / 10, heures % 10, minutes / 10, minutes % 10)

def packDigits : UInt8 × UInt8 × UInt8 × UInt8 → BitVec 32
  | (d3, d2, d1, d0) =>
      (d3.toBitVec.setWidth 32 <<< 12) + (d2.toBitVec.setWidth 32 <<< 8) +
        (d1.toBitVec.setWidth 32 <<< 4) + d0.toBitVec.setWidth 32

def updateDisplay : Routine := fun w =>
  let actif : Iowr := ⟨.startChrono, flag w.gChrono.chronoActif⟩
  match w.gMode with
  | .horloge => (w, [actif, ⟨.hexs, packDigits (encodeHhmm w.gHorloge.heures w.gHorloge.minutes)⟩])
  | .chrono => (w, [actif, ⟨.chrono0, flag w.gChrono.running⟩, ⟨.hexs, packDigits (0, 0, 0, 0)⟩])
  | .minuterie => (w, [actif, ⟨.hexs, packDigits (encodeHhmm w.gMinut.heures w.gMinut.minutes)⟩])

def key0 : Routine := fun _ =>
  (⟨.horloge, ⟨12, 30, 0⟩, ⟨false, false⟩, ⟨0, 0, 0, false, false⟩⟩,
    [⟨.alarmBell0, flag false⟩, ⟨.chrono0, flag false⟩, ⟨.startChrono, flag false⟩])

def WatchMode.next : WatchMode → WatchMode
  | .horloge => .chrono
  | .chrono => .minuterie
  | .minuterie => .horloge

def WatchMode.led : WatchMode → BitVec 32
  | .horloge => 0x1
  | .chrono => 0x2
  | .minuterie => 0x4

def key1 : Routine := fun w =>
  let mode := w.gMode.next
  ({ w with gMode := mode, gChrono := ⟨false, decide (mode = .chrono)⟩ }, [⟨.ledg, mode.led⟩])

def key2 : Routine := fun w =>
  match w.gMode with
  | .chrono => ({ w with gChrono := { w.gChrono with running := !w.gChrono.running } }, [])
  | .minuterie =>
      if w.gMinut.alarmActive then (w, [])
      else ({ w with gMinut := { w.gMinut with running := !w.gMinut.running } }, [])
  | .horloge => (w, [])

def configHeures (sw : UInt16) : UInt8 :=
  let heures := ((sw >>> 5) &&& 0x1F).toUInt8
  if heures ≥ 24 then 0 else heures

def configMinutes (sw : UInt16) : UInt8 :=
  let minutes := (sw &&& 0x1F).toUInt8
  if minutes > 59 then 59 else minutes

def key3 (sw : UInt16) : Routine := fun w =>
  match w.gMode with
  | .chrono =>
      ({ w with gChrono := { w.gChrono with running := false } }, [⟨.chrono0, (~~~flag false) <<< 1⟩])
  | .minuterie =>
      if w.gMinut.alarmActive then
        ({ w with gMinut := { w.gMinut with alarmActive := false } }, [⟨.alarmBell0, flag false⟩])
      else if w.gMinut.running then (w, [])
      else
        ({ w with gMinut := { w.gMinut with
            heures := configHeures sw, minutes := configMinutes sw, secondes := 0 } }, [])
  | .horloge => ({ w with gHorloge := ⟨configHeures sw, configMinutes sw, 0⟩ }, [])

def readSwitches (switches : BitVec 10) : UInt16 := ⟨switches.setWidth 16⟩

def handleKeysAndSwitches (rising : UInt8) (switches : BitVec 10) : Routine := fun w =>
  let sw := readSwitches switches
  if rising = 0 then (w, [])
  else
    seq (when (rising &&& 0x1 ≠ 0) key0)
      (seq (when (rising &&& 0x2 ≠ 0) key1)
        (seq (when (rising &&& 0x4 ≠ 0) key2)
          (when (rising &&& 0x8 ≠ 0) (key3 sw)))) w

end Montre.Firmware
