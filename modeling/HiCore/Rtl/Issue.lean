import HiCore.Rtl.Bundles

-- `HiCore_Issue.v`. The functions of this module cut the de2issue bus at the
-- offsets that the macros of `config.v` expand to.
namespace HiCore.Issue

def branchSel (info : BitVec 176) : Bool := info.getLsbD 175

def aluSel (info : BitVec 176) : Bool := info.getLsbD 174

def aguSel (info : BitVec 176) : Bool := info.getLsbD 173

def csrSel (info : BitVec 176) : Bool := info.getLsbD 172

def nopSel (info : BitVec 176) : Bool := info.getLsbD 171

def robPtr (info : BitVec 176) : BitVec 4 := info.extractLsb' 167 4

def wbInfo (info : BitVec 176) : WbInfo where
  pc := info.extractLsb' 28 32
  irq := info.extractLsb' 16 12
  excp := info.extractLsb' 0 16

def issueInfo (info : BitVec 176) : IssueInfo where
  robPtr := robPtr info
  wb := wbInfo info

def bjpRdResult (info : BitVec 176) (bjpValid : Bool) : BitVec 32 :=
  if bjpValid then info.extractLsb' 60 32 else 0#32

structure Alu where
  aluOp : Bool
  luiOp : Bool
  auipcOp : Bool
  aluDir : Bool
  aluMsg : BitVec 3
  aluSrc2 : BitVec 32
  aluSrc1 : BitVec 32
  aluInfo : IssueInfo

def alu (info : BitVec 176) : Alu where
  aluOp := info.getLsbD 136
  luiOp := info.getLsbD 135
  auipcOp := info.getLsbD 134
  aluDir := info.getLsbD 133
  aluMsg := info.extractLsb' 130 3
  aluSrc2 := info.extractLsb' 92 32
  aluSrc1 := info.extractLsb' 60 32
  aluInfo := issueInfo info

structure Agu where
  storeOp : Bool
  loadOp : Bool
  aguMsg : BitVec 3
  aguSrc3 : BitVec 32
  aguSrc2 : BitVec 32
  aguSrc1 : BitVec 32
  aguInfo : IssueInfo

def agu (info : BitVec 176) : Agu where
  storeOp := info.getLsbD 166
  loadOp := info.getLsbD 165
  aguMsg := info.extractLsb' 162 3
  aguSrc3 := info.extractLsb' 124 32
  aguSrc2 := info.extractLsb' 92 32
  aguSrc1 := info.extractLsb' 60 32
  aguInfo := issueInfo info

structure Csr where
  csrMsg : BitVec 3
  csrIdx : BitVec 12
  csrRegSrc : BitVec 32
  csrInfo : IssueInfo

def csr (info : BitVec 176) : Csr where
  csrMsg := info.extractLsb' 110 3
  csrIdx := info.extractLsb' 98 12
  csrRegSrc := info.extractLsb' 60 32
  csrInfo := issueInfo info

-- The register that the instruction writes, `rd_need` and `rd_idx`.
structure Rd where
  rdNeed : Bool
  rdIdx : BitVec 5

-- Every layout but the last holds `{rd_need,rd_idx}` above its operands.
def rdAt (lsb : Nat) (info : BitVec 176) : Rd where
  rdNeed := info.getLsbD (lsb + 5)
  rdIdx := info.extractLsb' lsb 5

-- `[HiCore_DE2BJ_SIZE-1]` and `[HiCore_DE2BJ_SIZE-2:HiCore_DE2BJ_SIZE-1-HiCore_RFIDX_WIDTH]`,
-- which are bit 97 and `[96:92]`.
def bjpRd (info : BitVec 176) : Rd := rdAt 92 info

def aluRd (info : BitVec 176) : Rd := rdAt 124 info

def aguRd (info : BitVec 176) : Rd := rdAt 156 info

def csrRd (info : BitVec 176) : Rd := rdAt 92 info

-- `[HiCore_DE2NOP_SIZE-1]` and `[HiCore_DE2NOP_SIZE-2]`.

def fenceIOp (info : BitVec 176) : Bool := info.getLsbD 62

def mretOp (info : BitVec 176) : Bool := info.getLsbD 61

-- The readies of the five units.
structure Ready where
  bjp : Bool
  alu : Bool
  agu : Bool
  csr : Bool
  nop : Bool

def iDe2issueReady (info : BitVec 176) (valid : Bool) (r : Ready) : Bool :=
  (branchSel info && valid && r.bjp) || (aluSel info && valid && r.alu) ||
    (aguSel info && valid && r.agu) || (csrSel info && valid && r.csr) ||
    (nopSel info && valid && r.nop)

end HiCore.Issue
