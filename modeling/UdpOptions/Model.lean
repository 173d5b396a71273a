import Mathlib.Algebra.Group.Nat.Defs
import Mathlib.Data.Nat.Basic

/-! Protocol constants: option kinds, fixed option lengths, and the reassembly
defaults. Lengths count the kind and length bytes; times are nanoseconds. -/

namespace UdpOptions.Model

namespace Kind

def eol : UInt8 := 0
def nop : UInt8 := 1
def apc : UInt8 := 2
def frag : UInt8 := 3
def mds : UInt8 := 4
def mrds : UInt8 := 5
def req : UInt8 := 6
def res : UInt8 := 7
def time : UInt8 := 8
def auth : UInt8 := 9
def exp : UInt8 := 127
def safeReservedMin : UInt8 := 128
def safeReservedMax : UInt8 := 191
/-- The lowest kind of the range that ends processing when it is not understood. -/
def unsafeMin : UInt8 := 192
def extendedLengthMarker : UInt8 := 255

end Kind

namespace Length

def apc : Nat := 6
def fragNonTerminal : Nat := 10
def fragTerminal : Nat := 12
def mds : Nat := 4
def mrds : Nat := 5
def req : Nat := 6
def res : Nat := 6
def time : Nat := 10
def expMin : Nat := 4
def ocs : Nat := 2
def udpHeader : Nat := 8

end Length

namespace Limits

def mrdsDefaultIpv4 : UInt16 := 2926
def minReassemblySegments : UInt8 := 2
def reassemblyTimeoutMax : Nat := 120 * 10 ^ 9
def reassemblyMaxPendingPartials : Nat := 64

end Limits

end UdpOptions.Model
