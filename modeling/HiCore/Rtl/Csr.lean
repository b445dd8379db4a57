import HiCore.Rtl.Buffers
import HiCore.Rtl.Issue

-- `HiCore_csr.v`.
namespace HiCore

-- `{csr_wdata,csr_rdata,csr_info}`.
structure Csr2wb where
  wdata : BitVec 32
  rdata : BitVec 32
  info : IssueInfo
  deriving Inhabited

structure Csr where
  statusMie : Bool
  statusMpie : Bool
  mie : BitVec 32
  meip : Bool
  msip : Bool
  mtip : Bool
  mtvec : BitVec 32
  mscratch : BitVec 32
  mcycle : BitVec 32
  mcycleh : BitVec 32
  minstret : BitVec 32
  minstreth : BitVec 32
  mtval : BitVec 32
  mepc : BitVec 32
  mcause : BitVec 32
  csr2wb : Pipe Csr2wb

namespace Csr

def mstatusIdx : BitVec 12 := 0x300#12
def misaIdx : BitVec 12 := 0x301#12
def mieIdx : BitVec 12 := 0x304#12
def mtvecIdx : BitVec 12 := 0x305#12
def mscratchIdx : BitVec 12 := 0x340#12
def mepcIdx : BitVec 12 := 0x341#12
def mcauseIdx : BitVec 12 := 0x342#12
def mtvalIdx : BitVec 12 := 0x343#12
def mipIdx : BitVec 12 := 0x344#12
def mcycleIdx : BitVec 12 := 0xB00#12
def mcyclehIdx : BitVec 12 := 0xB80#12
def minstretIdx : BitVec 12 := 0xB02#12
def minstrethIdx : BitVec 12 := 0xB82#12
def mvendoridIdx : BitVec 12 := 0xF11#12
def marchidIdx : BitVec 12 := 0xF12#12
def mimpidIdx : BitVec 12 := 0xF13#12
def mhartidIdx : BitVec 12 := 0xF14#12

-- The commit interface of the unit.
structure Commit where
  valid : Bool
  excp : BitVec 16
  irq : BitVec 12
  pc : BitVec 32
  nextPc : BitVec 32
  csrNeed : Bool
  csrIdx : BitVec 12
  csrData : BitVec 32
  mretOp : Bool

structure In where
  issueValid : Bool
  issueCancel : Bool
  issue : Issue.Csr
  commit : Commit
  flush : Bool
  extIrq : Bool
  sftIrq : Bool
  tmrIrq : Bool

def reset : Csr where
  statusMie := false
  statusMpie := false
  mie := 0#32
  meip := false
  msip := false
  mtip := false
  mtvec := 0#32
  mscratch := 0#32
  mcycle := 0#32
  mcycleh := 0#32
  minstret := 0#32
  minstreth := 0#32
  mtval := 0#32
  mepc := 0#32
  mcause := 0#32
  csr2wb := Pipe.reset

def excpEn (c : Commit) : Bool := !(c.excp == 0#16) && c.valid

def irqEn (c : Commit) : Bool := !(c.irq == 0#12) && c.valid

def csrWrEn (c : Commit) : Bool := c.valid && c.csrNeed && !excpEn c

-- `wr_mstatus`, `wr_mie` and so on.
def wr (idx : BitVec 12) (c : Commit) : Bool := c.csrIdx == idx && csrWrEn c

-- `commit_mret_op` is not qualified by `commit_valid` here.
def statusMieEna (c : Commit) : Bool := wr mstatusIdx c || c.mretOp || excpEn c || irqEn c

def statusMieNxt (s : Csr) (c : Commit) : Bool :=
  if excpEn c || irqEn c then false
  else if c.mretOp then s.statusMpie
  else if wr mstatusIdx c then c.csrData.getLsbD 3 else s.statusMie

def statusMpieNxt (s : Csr) (c : Commit) : Bool :=
  if excpEn c || irqEn c then s.statusMie
  else if c.mretOp then true
  else if wr mstatusIdx c then c.csrData.getLsbD 7 else s.statusMpie

-- MPP reads as 11 and every other bit but MPIE and MIE as 0.
def mstatusR (s : Csr) : BitVec 32 :=
  0#19 ++ 0b11#2 ++ 0#3 ++ BitVec.ofBool s.statusMpie ++ 0#3 ++ BitVec.ofBool s.statusMie ++ 0#3

-- The three machine interrupt bits 11, 7 and 3 of mie and mip.
def irqBits (e t s : Bool) : BitVec 32 :=
  0#20 ++ BitVec.ofBool e ++ 0#3 ++ BitVec.ofBool t ++ 0#3 ++ BitVec.ofBool s ++ 0#3

def mieNxt (c : Commit) : BitVec 32 :=
  irqBits (c.csrData.getLsbD 11) (c.csrData.getLsbD 7) (c.csrData.getLsbD 3)

def mipR (s : Csr) : BitVec 32 := irqBits s.meip s.mtip s.msip

def mcycleNxt (s : Csr) (c : Commit) : BitVec 32 :=
  if wr mcycleIdx c then c.csrData else s.mcycle + 1#32

def mcyclehEna (s : Csr) (c : Commit) : Bool := wr mcyclehIdx c || s.mcycle == BitVec.allOnes 32

def mcyclehNxt (s : Csr) (c : Commit) : BitVec 32 :=
  if wr mcyclehIdx c then c.csrData else s.mcycleh + 1#32

def minstretEna (c : Commit) : Bool := wr minstretIdx c || c.valid

def minstretNxt (s : Csr) (c : Commit) : BitVec 32 :=
  if wr minstretIdx c then c.csrData else s.minstret + 1#32

def minstrethEna (s : Csr) (c : Commit) : Bool :=
  wr minstrethIdx c || (c.valid && s.minstret == BitVec.allOnes 32)

def minstrethNxt (s : Csr) (c : Commit) : BitVec 32 :=
  if wr minstrethIdx c then c.csrData else s.minstreth + 1#32

def mepcNxt (c : Commit) : BitVec 32 :=
  if excpEn c then c.pc else if irqEn c then c.nextPc else c.csrData

-- The index of the lowest set bit of sixteen, found by halving.
def lowestIdx (v : BitVec 16) : BitVec 4 :=
  let i3 := v.extractLsb' 0 8 == 0#8
  let d8 := if i3 then v.extractLsb' 8 8 else v.extractLsb' 0 8
  let i2 := d8.extractLsb' 0 4 == 0#4
  let d4 := if i2 then d8.extractLsb' 4 4 else d8.extractLsb' 0 4
  let i1 := d4.extractLsb' 0 2 == 0#2
  let d2 := if i1 then d4.extractLsb' 2 2 else d4.extractLsb' 0 2
  let i0 := !d2.getLsbD 0
  BitVec.ofBool i3 ++ BitVec.ofBool i2 ++ BitVec.ofBool i1 ++ BitVec.ofBool i0

def excpIdx (c : Commit) : BitVec 4 := lowestIdx c.excp

-- `irq_data_8` extends `commit_irq[11:8]` with four zeros.
def irqIdx (c : Commit) : BitVec 4 := lowestIdx (0#4 ++ c.irq)

def mcauseNxt (c : Commit) : BitVec 32 :=
  BitVec.ofBool (!excpEn c) ++ 0#27 ++ (if excpEn c then excpIdx c else irqIdx c)

def csrRdEn (s : Csr) (i : In) : Bool :=
  i.issueValid && s.csr2wb.iRdy false true && !i.issueCancel

-- `{32{rd_x}} & x_r`.
def rdSel (s : Csr) (i : In) (idx : BitVec 12) (value : BitVec 32) : BitVec 32 :=
  rep 32 (i.issue.csrIdx == idx && s.csrRdEn i) &&& value

def csrRdata (s : Csr) (i : In) : BitVec 32 :=
  s.rdSel i mstatusIdx s.mstatusR ||| s.rdSel i mieIdx s.mie ||| s.rdSel i mtvecIdx s.mtvec |||
    s.rdSel i mepcIdx s.mepc ||| s.rdSel i mscratchIdx s.mscratch ||| s.rdSel i mcauseIdx s.mcause |||
    s.rdSel i mtvalIdx s.mtval ||| s.rdSel i mipIdx s.mipR ||| s.rdSel i misaIdx 0x80000100#32 |||
    s.rdSel i mvendoridIdx 0#32 ||| s.rdSel i marchidIdx 5#32 ||| s.rdSel i mimpidIdx 0#32 |||
    s.rdSel i mhartidIdx 0#32 ||| s.rdSel i mcycleIdx s.mcycle ||| s.rdSel i mcyclehIdx s.mcycleh |||
    s.rdSel i minstretIdx s.minstret ||| s.rdSel i minstrethIdx s.minstreth

def csrWdata (s : Csr) (i : In) : BitVec 32 :=
  (rep 32 (i.issue.csrMsg == 0b001#3) &&& i.issue.csrRegSrc) |||
    (rep 32 (i.issue.csrMsg == 0b010#3) &&& (s.csrRdata i ||| i.issue.csrRegSrc)) |||
    (rep 32 (i.issue.csrMsg == 0b011#3) &&& (s.csrRdata i &&& ~~~i.issue.csrRegSrc)) |||
    (rep 32 (i.issue.csrMsg == 0b101#3) &&& i.issue.csrRegSrc) |||
    (rep 32 (i.issue.csrMsg == 0b110#3) &&& (s.csrRdata i ||| i.issue.csrRegSrc)) |||
    (rep 32 (i.issue.csrMsg == 0b111#3) &&& (s.csrRdata i &&& ~~~i.issue.csrRegSrc))

def csr2wbIn (s : Csr) (i : In) : Pipe.In Csr2wb where
  iVld := i.issueValid
  iDat := { wdata := s.csrWdata i, rdata := s.csrRdata i, info := i.issue.csrInfo }
  iCancel := i.issueCancel
  oRdy := true
  branch := i.flush

def next (s : Csr) (i : In) : Csr where
  statusMie := dfflr (statusMieEna i.commit) (s.statusMieNxt i.commit) s.statusMie
  statusMpie := dfflr (statusMieEna i.commit) (s.statusMpieNxt i.commit) s.statusMpie
  mie := dfflr (wr mieIdx i.commit) (mieNxt i.commit) s.mie
  meip := i.extIrq
  msip := i.sftIrq
  mtip := i.tmrIrq
  mtvec := dfflr (wr mtvecIdx i.commit) i.commit.csrData s.mtvec
  mscratch := dfflr (wr mscratchIdx i.commit) i.commit.csrData s.mscratch
  mcycle := s.mcycleNxt i.commit
  mcycleh := dfflr (s.mcyclehEna i.commit) (s.mcyclehNxt i.commit) s.mcycleh
  minstret := dfflr (minstretEna i.commit) (s.minstretNxt i.commit) s.minstret
  minstreth := dfflr (s.minstrethEna i.commit) (s.minstrethNxt i.commit) s.minstreth
  mtval := dfflr (excpEn i.commit) i.commit.pc s.mtval
  mepc := dfflr (excpEn i.commit || irqEn i.commit || wr mepcIdx i.commit) (mepcNxt i.commit) s.mepc
  mcause := dfflr (excpEn i.commit || irqEn i.commit) (mcauseNxt i.commit) s.mcause
  csr2wb := s.csr2wb.next false (s.csr2wbIn i)

def irqMsk (s : Csr) : BitVec 12 := rep 12 s.statusMie &&& s.mie.extractLsb' 0 12

end Csr

end HiCore
