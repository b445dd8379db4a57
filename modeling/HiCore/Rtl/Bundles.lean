import Mathlib.Data.BitVec

-- The packed buses of `config.v` whose producer and consumer list the same
-- fields. The de2issue bus, shared by five layouts, stays a vector of bits.
namespace HiCore

-- `{n{b}}`.
def rep (n : Nat) (b : Bool) : BitVec n := if b then BitVec.allOnes n else 0#n

@[simp] theorem rep_and {n : Nat} (b : Bool) (x : BitVec n) :
    rep n b &&& x = if b then x else 0#n := by
  cases b
  · exact BitVec.zero_and
  · exact BitVec.allOnes_and

-- `{pc,excp_code}`.
structure FetchInfo where
  pc : BitVec 32
  excp : BitVec 16
  deriving Inhabited, DecidableEq

-- `HiCore_IF2DE_SIZE`: `{intr,pc,excp}`.
structure If2de where
  intr : BitVec 32
  pc : BitVec 32
  excp : BitVec 16
  deriving Inhabited, DecidableEq

-- `HiCore_WB_SIZE`: `{pc,irq,excp}`.
structure WbInfo where
  pc : BitVec 32
  irq : BitVec 12
  excp : BitVec 16
  deriving Inhabited, DecidableEq

-- `HiCore_ISSUE2ALU_SIZE`: `{rob_ptr,pc,irq,excp}`.
structure IssueInfo where
  robPtr : BitVec 4
  wb : WbInfo
  deriving Inhabited, DecidableEq

-- `HiCore_ICB_CMD_SIZE`: `{read,wmask,wdata,addr}`.
structure IcbCmd where
  read : Bool
  wmask : BitVec 4
  wdata : BitVec 32
  addr : BitVec 32
  deriving Inhabited, DecidableEq

end HiCore
