import Montre.Library.Nios2

namespace Montre.Compiled

open Montre.Library Nios2

namespace Text

def altException : List Word :=
  [0xdeffed04, 0xdfc00015, 0xd8400215, 0xd8800315, 0xd8c00415, 0xd9000515, 0xd9400615, 0xd9800715,
    0xd9c00815, 0x000b307a, 0xda000915, 0xda400a15, 0xda800b15, 0xdac00c15, 0xdb000d15, 0xdb400e15,
    0xdb800f15, 0xdbc01015, 0xd9401115, 0xebffff04, 0xdbc01215, 0x0009313a, 0x2880004c, 0x10000326,
    0x20000226, 0x08000ec0, 0x00000306, 0xdf401215, 0xe8bfff17, 0x003da03a, 0xd9401117, 0xdf401217,
    0xdfc00017, 0x2801707a, 0xd8400217, 0xd8800317, 0xd8c00417, 0xd9000517, 0xd9400617, 0xd9800717,
    0xd9c00817, 0xda000917, 0xda400a17, 0xda800b17, 0xdac00c17, 0xdb000d17, 0xdb400e17, 0xdb800f17,
    0xdbc01017, 0xdec01304, 0xef80083a]

def altIrqHandler : List Word :=
  [0xdefffe04, 0xdfc00115, 0xdc000015, 0x000d313a, 0x04002074, 0x843cf404, 0x3080004c, 0x1005003a,
    0x10000a1e, 0x0009883a, 0x200490fa, 0x1405883a, 0x10c00017, 0x11000117, 0x183ee83a, 0x0005313a,
    0x10000a26, 0x100d883a, 0x003ff306, 0x00c00044, 0x0009883a, 0x180b883a, 0x18c7883a, 0x2149883a,
    0x30c4703a, 0x103ff01e, 0x003ffb06, 0xdfc00117, 0xdc000017, 0xdec00204, 0xf800283a]

def encodeHhmm : List Word :=
  [0xdefffa04, 0xdfc00515, 0xdd000415, 0xdcc00315, 0xdc800215, 0xdc400115, 0xdc000015, 0x3025883a,
    0x3827883a, 0x2829883a, 0x24403fcc, 0x04000284, 0x8809883a, 0x800b883a, 0x08009ac0, 0x90800005,
    0x8809883a, 0x800b883a, 0x08009b40, 0x98800005, 0xa4403fcc, 0x8809883a, 0x800b883a, 0x08009ac0,
    0xd8c00617, 0x18800005, 0x8809883a, 0x800b883a, 0x08009b40, 0xd8c00717, 0x18800005, 0xdfc00517,
    0xdd000417, 0xdcc00317, 0xdc800217, 0xdc400117, 0xdc000017, 0xdec00604, 0xf800283a]

def updateDisplay : List Word :=
  [0xdefffc04, 0xdfc00315, 0xd8000205, 0xd8000245, 0xd8000285, 0xd80002c5, 0x00802074, 0x10bcdb44,
    0x10c00003, 0x00804034, 0x108c0c04, 0x10c00035, 0xd0e6aa17, 0x00800044, 0x18800f26, 0x18800336,
    0x00800084, 0x18801b1e, 0x00001006, 0xd126ab83, 0xd0a6ab84, 0x11400043, 0xd8800284, 0xd8800015,
    0xd88002c4, 0xd8800115, 0xd9800204, 0xd9c00244, 0x08001a40, 0x00000f06, 0xd0e6ab03, 0x00804034,
    0x108c1e04, 0x10c00035, 0x00000a06, 0xd126a803, 0xd0a6a804, 0x11400043, 0xd8800284, 0xd8800015,
    0xd88002c4, 0xd8800115, 0xd9800204, 0xd9c00244, 0x08001a40, 0xd9000283, 0x2008913a, 0xd8c00203,
    0x1806933a, 0xd8800243, 0x1004923a, 0x1887883a, 0xd88002c3, 0x1887883a, 0x20c9883a, 0x00804034,
    0x108c1404, 0x11000035, 0xdfc00317, 0xdec00404, 0xf800283a]

def updateAllTime1s : List Word :=
  [0x00c02074, 0x18fcdc04, 0x01000044, 0x18800003, 0x1105883a, 0x18800005, 0x10803fcc, 0x01400ec4,
    0x28800e2e, 0x18000005, 0x18bfffc3, 0x1105883a, 0x18bfffc5, 0x10803fcc, 0x2880082e, 0x183fffc5,
    0xd0a6ab83, 0x1105883a, 0xd0a6ab85, 0x10803fcc, 0x00c005c4, 0x1880012e, 0xd026ab85, 0x01002074,
    0x213cd8c4, 0x20800003, 0x10001826, 0x21bfff44, 0xd166ab84, 0xd0e6a803, 0xd0a6ab83, 0x1880131e,
    0x30c00043, 0x28800043, 0x1880101e, 0x30c00083, 0x28800083, 0x18800d1e, 0x00800084, 0xd0a6aa15,
    0x00c00104, 0x00804034, 0x108c0804, 0x10c00035, 0x20000005, 0x00800044, 0x30800105, 0x00c00044,
    0x00804034, 0x108c1f04, 0x10c00035, 0xf800283a]

def keysIsr : List Word :=
  [0x01004034, 0x210c1b04, 0x20800037, 0x00c003c4, 0x20c00035, 0x10c4703a, 0xd0a6a745, 0x00800044,
    0xd0a6a785, 0xf800283a]

def timerIsr : List Word :=
  [0x00804034, 0x108c0004, 0x10000035, 0x00800044, 0xd0a6a705, 0xf800283a]

def main : List Word :=
  [0xdeffff04, 0xdfc00015, 0x08007c80, 0xd0a6a703, 0x10803fcc, 0x10000326, 0xd026a705, 0x08006140,
    0x08005200, 0xd0a6a783, 0x10803fcc, 0x103ff726, 0xd026a785, 0x08002400, 0x003ff406]

def udivmodsi4 : List Word :=
  [0x29001b2e, 0x28001a16, 0x00800044, 0x0007883a, 0x01c007c4, 0x00000306, 0x19c01326, 0x18c00044,
    0x28000416, 0x294b883a, 0x1085883a, 0x293ffa36, 0x10000d26, 0x0007883a, 0x21400236, 0x2149c83a,
    0x1886b03a, 0x1004d07a, 0x280ad07a, 0x103ffa1e, 0x30000226, 0x2005883a, 0xf800283a, 0x1809883a,
    0x2005883a, 0xf800283a, 0x0007883a, 0x003ff806, 0x00800044, 0x0007883a, 0x003fef06]

def udivsi3 : List Word :=
  [0x000d883a, 0x08008701]

def umodsi3 : List Word :=
  [0x01800044, 0x08008701]

end Text

open Text in
/-- Where the linker has put them. -/
def image : List (BitVec 25 × List Word) :=
  [(0x800020, altException),
    (0x8000ec, altIrqHandler),
    (0x8001a4, encodeHhmm),
    (0x800520, updateDisplay),
    (0x800614, updateAllTime1s),
    (0x8006e4, keysIsr),
    (0x80070c, timerIsr),
    (0x800834, main),
    (0x800870, udivmodsi4),
    (0x8009ac, udivsi3),
    (0x8009b4, umodsi3)]

def fetch (pc : BitVec 25) : Option Word := image.findSome? fun s => s.2[(pc - s.1).toNat / 4]?

def code (pc : BitVec 25) : Option Instr := (fetch pc).bind decode

end Montre.Compiled
