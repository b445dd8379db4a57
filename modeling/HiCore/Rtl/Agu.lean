import HiCore.Rtl.Buffers
import HiCore.Rtl.Issue

-- `HiCore_agu.v`.
namespace HiCore.Agu

open Issue (Agu)

def wordAccess (a : Agu) : Bool := a.aguMsg.extractLsb' 0 2 == 0b10#2

def shortAccess (a : Agu) : Bool := a.aguMsg.extractLsb' 0 2 == 0b01#2

def byteAccess (a : Agu) : Bool := a.aguMsg.extractLsb' 0 2 == 0b00#2

def addr (a : Agu) : BitVec 32 := a.aguSrc1 + a.aguSrc2

def wordErr (a : Agu) : Bool := wordAccess a && !((addr a).extractLsb' 0 2 == 0#2)

def shortErr (a : Agu) : Bool := shortAccess a && (addr a).getLsbD 0

def memAddrErr (a : Agu) : Bool := wordErr a || shortErr a

-- A store is taken only while it is the oldest entry of the ROB.
def iAgu2lsuValid (a : Agu) (issueValid : Bool) (lsuHeadPtr : BitVec 4) : Bool :=
  issueValid && (a.loadOp || (a.storeOp && lsuHeadPtr == a.aguInfo.robPtr))

def wdata (a : Agu) : BitVec 32 :=
  (rep 32 (byteAccess a) &&& (a.aguSrc3.extractLsb' 0 8 ++ a.aguSrc3.extractLsb' 0 8 ++
      a.aguSrc3.extractLsb' 0 8 ++ a.aguSrc3.extractLsb' 0 8)) |||
    (rep 32 (shortAccess a) &&& (a.aguSrc3.extractLsb' 0 16 ++ a.aguSrc3.extractLsb' 0 16)) |||
    (rep 32 (wordAccess a) &&& a.aguSrc3)

def wmask (a : Agu) : BitVec 4 :=
  (rep 4 (byteAccess a) &&& (0b0001#4 <<< (addr a).extractLsb' 0 2)) |||
    (rep 4 (shortAccess a) &&& (0b0011#4 <<< ((addr a).extractLsb' 1 1 ++ 0#1))) |||
    (rep 4 (wordAccess a) &&& 0b1111#4)

def excp (a : Agu) : BitVec 16 :=
  a.aguInfo.wb.excp ||| (0#9 ++ BitVec.ofBool (memAddrErr a && a.storeOp) ++ 0#1 ++
    BitVec.ofBool (memAddrErr a && a.loadOp) ++ 0#4)

-- The two address exceptions are bits 6 and 4.
theorem getLsbD_or_excp (x : BitVec 16) (b c : Bool) (n : Nat) :
    (x ||| (0#9 ++ BitVec.ofBool b ++ 0#1 ++ BitVec.ofBool c ++ 0#4)).getLsbD n =
      (x.getLsbD n || (decide (n = 6) && b || decide (n = 4) && c)) := by
  rw [BitVec.getLsbD_or]
  congr 1
  simp only [BitVec.getLsbD_append, BitVec.getLsbD_ofBool, BitVec.getLsbD_zero]
  grind

-- `HiCore_AGUINFO_SIZE`.
structure Agu2lsu where
  wordAccess : Bool
  shortAccess : Bool
  byteAccess : Bool
  read : Bool
  isUnsigned : Bool
  addr : BitVec 32
  wmask : BitVec 4
  wdata : BitVec 32
  info : IssueInfo
  deriving Inhabited

def iAgu2lsuInfo (a : Agu) : Agu2lsu where
  wordAccess := wordAccess a
  shortAccess := shortAccess a
  byteAccess := byteAccess a
  read := a.loadOp
  isUnsigned := a.loadOp && a.aguMsg.getLsbD 2
  addr := addr a
  wmask := wmask a
  wdata := wdata a
  info := { robPtr := a.aguInfo.robPtr, wb := { a.aguInfo.wb with excp := excp a } }

end HiCore.Agu
